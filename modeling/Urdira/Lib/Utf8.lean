import Urdira.Lib.ByteOrder

open ByteOrder

namespace Utf8

def byteArray (bytes : Bytes) : ByteArray := ⟨(bytes.map (fun b => UInt8.ofNat b.val)).toArray⟩

def fromUtf8 (bytes : Bytes) : Option String := String.fromUTF8? (byteArray bytes)

theorem byteArray_utf8 (text : String) : byteArray (utf8 text) = text.toUTF8 := by
  have hbytes : (utf8 text).map (fun b => UInt8.ofNat b.val) = text.toUTF8.data.toList := by
    rw [utf8, List.map_map]
    refine (List.map_congr_left (fun b _ => ?_)).trans (List.map_id _)
    have hval : (Fin.ofNat 256 b.toNat).val = b.toNat := Nat.mod_eq_of_lt b.toNat_lt
    rw [Function.comp_apply, hval, UInt8.ofNat_toNat, id]
  rw [byteArray, hbytes, Array.toArray_toList]

theorem fromUtf8_utf8 (text : String) : fromUtf8 (utf8 text) = some text := by
  rw [fromUtf8, byteArray_utf8, String.fromUTF8?]
  exact dif_pos text.isValidUTF8

theorem utf8_eq_flatMap (text : String) :
    utf8 text = (text.toList.flatMap String.utf8EncodeChar).map
      (fun b => Fin.ofNat 256 b.toNat) := by
  have hbytes : text.toUTF8 = (text.toList.flatMap String.utf8EncodeChar).toByteArray :=
    String.utf8Encode_toList.symm
  rw [utf8, hbytes, List.data_toByteArray]

theorem utf8EncodeChar_ascii {c : Char} (h : c.toNat < 128) :
    (String.utf8EncodeChar c).map (fun b => Fin.ofNat 256 b.toNat) = [Fin.ofNat 256 c.toNat] := by
  have hval : c.val.toNat = c.toNat := rfl
  have hsize : c.utf8Size = 1 :=
    Char.utf8Size_eq_one_iff.mpr (UInt32.le_iff_toNat_le.mpr (by simp; omega))
  rw [String.utf8EncodeChar_eq_singleton hsize, List.map_singleton, UInt32.toNat_toUInt8, hval,
    Nat.mod_eq_of_lt (by omega)]

theorem flatMap_ascii {chars : List Char} (h : ∀ c ∈ chars, c.toNat < 128) :
    (chars.flatMap String.utf8EncodeChar).map (fun b => Fin.ofNat 256 b.toNat) =
      chars.map (fun c => Fin.ofNat 256 c.toNat) := by
  induction chars with
  | nil => rfl
  | cons c cs ih =>
    obtain ⟨hc, hcs⟩ := List.forall_mem_cons.mp h
    rw [List.flatMap_cons, List.map_append, utf8EncodeChar_ascii hc, ih hcs, List.map_cons,
      List.singleton_append]

theorem utf8_ascii {text : String} (h : ∀ c ∈ text.toList, c.toNat < 128) :
    utf8 text = text.toList.map (fun c => Fin.ofNat 256 c.toNat) :=
  (utf8_eq_flatMap text).trans (flatMap_ascii h)

end Utf8
