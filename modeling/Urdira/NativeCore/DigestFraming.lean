import Urdira.Lib.ExceptOk
import Urdira.NativeCore.LogicalDigest

open ByteOrder ByteLayout ExceptOk MerkleBucket PrefixCode

namespace NativeCore

inductive CollectionKind where
  | set
  | record
  deriving DecidableEq

inductive Token where
  | null
  | boolean (value : Bool)
  | integer (value : String)
  | real (value : BitVec 64)
  | text (value : String)
  | bytes (value : Bytes)
  | sequence (length : ℕ)
  | collection (kind : CollectionKind) (length : ℕ)

theorem utf8_injective : Function.Injective utf8 := by
  intro s t h
  have hbyte : Function.Injective (fun b : UInt8 => Fin.ofNat 256 b.toNat) := by
    intro a b hab
    have hval : a.toNat % 256 = b.toNat % 256 := congrArg Fin.val hab
    have ha := a.toNat_lt
    have hb := b.toNat_lt
    exact UInt8.toNat_inj.mp (by omega)
  have hlist : s.toUTF8.data.toList = t.toUTF8.data.toList := hbyte.list_map h
  exact String.toByteArray_inj.mp (ByteArray.ext (Array.toList_inj.mp hlist))

theorem toBeBytes_injective : Function.Injective toBeBytes := by
  intro a b h
  have hbytes : leBytes 8 a.toNat = leBytes 8 b.toNat := List.reverse_injective h
  have ha : leValue (leBytes 8 a.toNat) = a.toNat := leValue_leBytes (by simpa using a.isLt)
  have hb : leValue (leBytes 8 b.toNat) = b.toNat := leValue_leBytes (by simpa using b.isLt)
  exact BitVec.eq_of_toNat_eq (by rw [← ha, hbytes, hb])

namespace Token

def textFrame (value : String) : Bytes := 7 :: (varint (utf8 value).length ++ utf8 value)

def frame : Token → Bytes
  | null => [3]
  | boolean value => [4, if value then 1 else 0]
  | integer value => 5 :: textFrame value
  | real value => 6 :: toBeBytes value
  | text value => textFrame value
  | bytes value => 8 :: (varint value.length ++ value)
  | sequence length => 9 :: varint length
  | collection _ length => 10 :: varint length

theorem textFrame_prefixInjective : PrefixInjective textFrame := by
  intro a b r s heq
  simp only [textFrame, List.cons_append, List.cons.injEq, true_and] at heq
  obtain ⟨hbytes, hrest⟩ := lengthPrefixed_prefixInjective heq
  exact ⟨utf8_injective hbytes, hrest⟩

def kind? : Token → Option CollectionKind
  | collection kind _ => some kind
  | _ => none

def erase : Token → Token
  | collection _ length => collection .set length
  | token => token

theorem frame_ne_nil (token : Token) : token.frame ≠ [] := by
  cases token <;> simp [frame, textFrame]

theorem frame_determines_erase : PrefixDetermines frame erase := by
  intro a b r s heq
  cases a with
  | null => cases b <;> simp_all [frame, textFrame]
  | boolean p =>
    cases b with
    | boolean q =>
      cases p <;> cases q <;> simp_all [frame]
    | _ => simp [frame, textFrame] at heq
  | integer v =>
    cases b with
    | integer w =>
      simp only [frame, List.cons_append, List.cons.injEq, true_and] at heq
      obtain ⟨rfl, hrest⟩ := textFrame_prefixInjective heq
      exact ⟨rfl, hrest⟩
    | _ => simp [frame, textFrame] at heq
  | real v =>
    cases b with
    | real w =>
      simp only [frame, List.cons_append, List.cons.injEq, true_and] at heq
      have hlen : (toBeBytes v).length = (toBeBytes w).length := by simp [toBeBytes]
      obtain ⟨hbytes, hrest⟩ := List.append_inj heq hlen
      obtain rfl := toBeBytes_injective hbytes
      exact ⟨rfl, hrest⟩
    | _ => simp [frame, textFrame] at heq
  | text v =>
    cases b with
    | text w =>
      obtain ⟨rfl, hrest⟩ := textFrame_prefixInjective heq
      exact ⟨rfl, hrest⟩
    | _ => simp [frame, textFrame] at heq
  | bytes v =>
    cases b with
    | bytes w =>
      simp only [frame, List.cons_append, List.cons.injEq, true_and] at heq
      obtain ⟨rfl, hrest⟩ := lengthPrefixed_prefixInjective heq
      exact ⟨rfl, hrest⟩
    | _ => simp [frame, textFrame] at heq
  | sequence m =>
    cases b with
    | sequence n =>
      simp only [frame, List.cons_append, List.cons.injEq, true_and] at heq
      obtain ⟨rfl, hrest⟩ := varint_prefixInjective heq
      exact ⟨rfl, hrest⟩
    | _ => simp [frame, textFrame] at heq
  | collection k m =>
    cases b with
    | collection l n =>
      simp only [frame, List.cons_append, List.cons.injEq, true_and] at heq
      obtain ⟨rfl, hrest⟩ := varint_prefixInjective heq
      exact ⟨rfl, hrest⟩
    | _ => simp [frame, textFrame] at heq

theorem eq_of_erase {a b : Token} (herase : a.erase = b.erase) (hkind : a.kind? = b.kind?) :
    a = b := by
  cases a <;> cases b <;> simp [erase, kind?] at herase hkind ⊢ <;> simp [herase, hkind]

theorem isSome_kind?_of_erase {a b : Token} (h : a.erase = b.erase) :
    a.kind?.isSome = b.kind?.isSome := by
  cases a <;> cases b <;> simp [erase, kind?] at h ⊢

theorem eq_of_map_erase {as bs : List Token} (herase : as.map erase = bs.map erase)
    (hkinds : ∀ p ∈ (as.filterMap kind?).zip (bs.filterMap kind?), p.1 = p.2) : as = bs := by
  induction as generalizing bs with
  | nil => simpa using herase.symm
  | cons a as ih =>
    cases bs with
    | nil => simp at herase
    | cons b bs =>
      simp only [List.map_cons, List.cons.injEq] at herase
      have hsome := isSome_kind?_of_erase herase.1
      cases ha : a.kind? with
      | none =>
        have hb : b.kind? = none := by simpa [ha] using hsome.symm
        rw [List.filterMap_cons_none ha, List.filterMap_cons_none hb] at hkinds
        rw [eq_of_erase herase.1 (ha.trans hb.symm), ih herase.2 hkinds]
      | some k =>
        obtain ⟨l, hb⟩ : ∃ l, b.kind? = some l :=
          Option.isSome_iff_exists.mp (by simpa [ha] using hsome.symm)
        rw [List.filterMap_cons_some ha, List.filterMap_cons_some hb, List.zip_cons_cons] at hkinds
        have hkl : k = l := hkinds (k, l) List.mem_cons_self
        have hhead : a.kind? = b.kind? := by rw [ha, hb, hkl]
        rw [eq_of_erase herase.1 hhead, ih herase.2
          (fun p hp => hkinds p (List.mem_cons_of_mem _ hp))]

end Token

namespace LogicalValue

mutual

def tokens : LogicalValue → List Token
  | null => [.null]
  | boolean value => [.boolean value]
  | integer value => [.integer value]
  | real value => [.real value]
  | text value => [.text value]
  | bytes value => [.bytes value]
  | sequence values => .sequence values.length :: valueTokens values
  | set values => .collection .set values.length :: valueTokens values
  | record fields => .collection .record fields.length :: fieldTokens fields

def valueTokens : List LogicalValue → List Token
  | [] => []
  | value :: values => tokens value ++ valueTokens values

def fieldTokens : List (LogicalField LogicalValue) → List Token
  | [] => []
  | ⟨identifier, present, none⟩ :: fields =>
    .text identifier :: .boolean present :: fieldTokens fields
  | ⟨identifier, present, some value⟩ :: fields =>
    .text identifier :: .boolean present :: (tokens value ++ fieldTokens fields)

end

mutual

def PresenceAgrees : LogicalValue → Prop
  | sequence values => ValuesAgree values
  | set values => ValuesAgree values
  | record fields => FieldsAgree fields
  | _ => True

def ValuesAgree : List LogicalValue → Prop
  | [] => True
  | value :: values => PresenceAgrees value ∧ ValuesAgree values

def FieldsAgree : List (LogicalField LogicalValue) → Prop
  | [] => True
  | ⟨_, present, none⟩ :: fields => present = false ∧ FieldsAgree fields
  | ⟨_, present, some value⟩ :: fields => present = true ∧ PresenceAgrees value ∧ FieldsAgree fields

end

def collectionKinds (v : LogicalValue) : List CollectionKind := v.tokens.filterMap Token.kind?

mutual

theorem tokens_inj : ∀ {v w : LogicalValue} {r s : List Token}, v.PresenceAgrees →
      w.PresenceAgrees →
    v.tokens ++ r = w.tokens ++ s → v = w ∧ r = s
  | null, w, r, s, _, _, heq => by
    cases w <;> simp_all [tokens]
  | boolean _, w, r, s, _, _, heq => by
    cases w <;> simp_all [tokens]
  | integer _, w, r, s, _, _, heq => by
    cases w <;> simp_all [tokens]
  | real _, w, r, s, _, _, heq => by
    cases w <;> simp_all [tokens]
  | text _, w, r, s, _, _, heq => by
    cases w <;> simp_all [tokens]
  | bytes _, w, r, s, _, _, heq => by
    cases w <;> simp_all [tokens]
  | sequence vs, w, r, s, hv, hw, heq => by
    cases w with
    | sequence ws =>
      simp only [tokens, List.cons_append, List.cons.injEq, Token.sequence.injEq] at heq
      obtain ⟨rfl, hrest⟩ := valueTokens_inj hv hw heq.1 heq.2
      exact ⟨rfl, hrest⟩
    | _ => simp [tokens] at heq
  | set vs, w, r, s, hv, hw, heq => by
    cases w with
    | set ws =>
      simp only [tokens, List.cons_append, List.cons.injEq, Token.collection.injEq, true_and] at heq
      obtain ⟨rfl, hrest⟩ := valueTokens_inj hv hw heq.1 heq.2
      exact ⟨rfl, hrest⟩
    | _ => simp [tokens] at heq
  | record fs, w, r, s, hv, hw, heq => by
    cases w with
    | record gs =>
      simp only [tokens, List.cons_append, List.cons.injEq, Token.collection.injEq, true_and] at heq
      obtain ⟨rfl, hrest⟩ := fieldTokens_inj hv hw heq.1 heq.2
      exact ⟨rfl, hrest⟩
    | _ => simp [tokens] at heq

theorem valueTokens_inj : ∀ {vs ws : List LogicalValue} {r s : List Token}, ValuesAgree vs →
    ValuesAgree ws → vs.length = ws.length → valueTokens vs ++ r = valueTokens ws ++ s →
      vs = ws ∧ r = s
  | [], [], r, s, _, _, _, heq => ⟨rfl, heq⟩
  | v :: vs, w :: ws, r, s, hv, hw, hlen, heq => by
    simp only [valueTokens, List.append_assoc] at heq
    obtain ⟨rfl, hrest⟩ := tokens_inj hv.1 hw.1 heq
    obtain ⟨rfl, htail⟩ := valueTokens_inj hv.2 hw.2 (Nat.succ.inj hlen) hrest
    exact ⟨rfl, htail⟩

theorem fieldTokens_inj : ∀ {fs gs : List (LogicalField LogicalValue)} {r s : List Token},
    FieldsAgree fs → FieldsAgree gs → fs.length = gs.length →
    fieldTokens fs ++ r = fieldTokens gs ++ s → fs = gs ∧ r = s
  | [], [], r, s, _, _, _, heq => ⟨rfl, heq⟩
  | ⟨i, p, none⟩ :: fs, ⟨j, q, none⟩ :: gs, r, s, hv, hw, hlen, heq => by
    simp only [fieldTokens, List.cons_append, List.cons.injEq, Token.text.injEq,
      Token.boolean.injEq] at heq
    obtain ⟨rfl, htail⟩ := fieldTokens_inj hv.2 hw.2 (Nat.succ.inj hlen) heq.2.2
    exact ⟨by rw [heq.1, heq.2.1], htail⟩
  | ⟨i, p, some v⟩ :: fs, ⟨j, q, some w⟩ :: gs, r, s, hv, hw, hlen, heq => by
    simp only [fieldTokens, List.cons_append, List.append_assoc, List.cons.injEq, Token.text.injEq,
      Token.boolean.injEq] at heq
    obtain ⟨rfl, hrest⟩ := tokens_inj hv.2.1 hw.2.1 heq.2.2
    obtain ⟨rfl, htail⟩ := fieldTokens_inj hv.2.2 hw.2.2 (Nat.succ.inj hlen) hrest
    exact ⟨by rw [heq.1, heq.2.1], htail⟩
  | ⟨i, p, some v⟩ :: fs, ⟨j, q, none⟩ :: gs, r, s, hv, hw, hlen, heq => by
    simp only [fieldTokens, List.cons_append, List.cons.injEq, Token.boolean.injEq] at heq
    exact absurd (hv.1.symm.trans (heq.2.1.trans hw.1)) (by decide)
  | ⟨i, p, none⟩ :: fs, ⟨j, q, some w⟩ :: gs, r, s, hv, hw, hlen, heq => by
    simp only [fieldTokens, List.cons_append, List.cons.injEq, Token.boolean.injEq] at heq
    exact absurd (hv.1.symm.trans (heq.2.1.trans hw.1)) (by decide)

end

end LogicalValue

namespace LogicalDigestWriter

theorem hash_raw (w : LogicalDigestWriter) (bs : Bytes) : (w.raw bs).hash = w.hash ++ bs := rfl

theorem hash_foldl_byte (bs : Bytes) (w : LogicalDigestWriter) :
    (bs.foldl byte w).hash = w.hash ++ bs := by
  induction bs generalizing w with
  | nil => simp
  | cons b bs ih => simp [ih, byte, hash_raw]

theorem hash_tag (w : LogicalDigestWriter) (b : Byte) : (w.tag b).hash = w.hash ++ [b] := rfl

theorem hash_length (w : LogicalDigestWriter) (n : ℕ) : (w.length n).hash = w.hash ++ varint n :=
  hash_foldl_byte (varint n) w

theorem hash_text (w : LogicalDigestWriter) (value : String) :
    (w.text value).hash = w.hash ++ Token.textFrame value := by
  simp [text, hash_raw, hash_length, hash_tag, Token.textFrame]

theorem hash_boolean (w : LogicalDigestWriter) (value : Bool) :
    (w.boolean value).hash = w.hash ++ (Token.boolean value).frame := by
  simp [boolean, byte, hash_raw, hash_tag, Token.frame]

open LogicalValue

def Frames (w w' : LogicalDigestWriter) (tokens : List Token) : Prop :=
  w'.hash = w.hash ++ tokens.flatMap Token.frame

theorem Frames.trans {w w' w'' : LogicalDigestWriter} {as bs : List Token} (h : Frames w w' as)
    (h' : Frames w' w'' bs) : Frames w w'' (as ++ bs) := by
  unfold Frames at *
  rw [h', h, List.append_assoc, List.flatMap_append]

theorem frames_text (w : LogicalDigestWriter) (value : String) :
    Frames w (w.text value) [.text value] := by
  simp [Frames, hash_text, Token.frame]

theorem frames_boolean (w : LogicalDigestWriter) (value : Bool) :
    Frames w (w.boolean value) [.boolean value] := by
  simp [Frames, hash_boolean]

theorem frames_counted (w : LogicalDigestWriter) (b : Byte) (n : ℕ) (token : Token)
    (h : token.frame = b :: varint n) : Frames w ((w.tag b).length n) [token] := by
  simp [Frames, hash_length, hash_tag, h]

mutual

theorem writeValue_ok : ∀ {v : LogicalValue} {depth : ℕ} {w w' : LogicalDigestWriter},
    writeValue v depth w = .ok w' → Frames w w' v.tokens ∧ v.PresenceAgrees
  | v, depth, w, w', h => by
    unfold writeValue at h
    split at h
    · cases h
    · cases v with
      | null =>
        obtain rfl := Except.ok.inj h
        exact ⟨rfl, trivial⟩
      | boolean value =>
        obtain rfl := Except.ok.inj h
        exact ⟨frames_boolean w value, trivial⟩
      | integer value =>
        obtain ⟨_, _, h⟩ := bind_eq_ok h
        obtain rfl := Except.ok.inj h
        exact ⟨by simp [Frames, tokens, hash_text, hash_tag, Token.frame], trivial⟩
      | real value =>
        simp only at h
        split at h
        · cases h
        · obtain rfl := Except.ok.inj h
          exact ⟨by simp [Frames, tokens, hash_raw, hash_tag, Token.frame], trivial⟩
      | text value =>
        obtain rfl := Except.ok.inj h
        exact ⟨frames_text w value, trivial⟩
      | bytes value =>
        obtain rfl := Except.ok.inj h
        exact ⟨by simp [Frames, tokens, hash_raw, hash_length, hash_tag, Token.frame], trivial⟩
      | sequence values =>
        obtain ⟨_, _, h⟩ := bind_eq_ok h
        obtain ⟨hframes, hagree⟩ := writeValues_ok h
        exact ⟨(frames_counted w 9 values.length (.sequence values.length) rfl).trans hframes,
          hagree⟩
      | set values =>
        obtain ⟨_, _, h⟩ := bind_eq_ok h
        obtain ⟨hframes, hagree⟩ := writeValues_ok h
        exact ⟨(frames_counted w 10 values.length (.collection .set values.length) rfl).trans
          hframes,
          hagree⟩
      | record fields =>
        obtain ⟨_, _, h⟩ := bind_eq_ok h
        obtain ⟨_, _, h⟩ := bind_eq_ok h
        obtain ⟨hframes, hagree⟩ := writeFields_ok h
        exact ⟨(frames_counted w 10 fields.length (.collection .record fields.length) rfl).trans
          hframes,
          hagree⟩

theorem writeValues_ok : ∀ {vs : List LogicalValue} {depth : ℕ} {w w' : LogicalDigestWriter},
    writeValues vs depth w = .ok w' → Frames w w' (valueTokens vs) ∧ ValuesAgree vs
  | [], depth, w, w', h => by
    obtain rfl := Except.ok.inj h
    exact ⟨by simp [Frames, valueTokens], trivial⟩
  | v :: vs, depth, w, w', h => by
    obtain ⟨w₁, hvalue, h⟩ := bind_eq_ok h
    obtain ⟨hhead, hvalueAgree⟩ := writeValue_ok hvalue
    obtain ⟨htail, hrestAgree⟩ := writeValues_ok h
    exact ⟨hhead.trans htail, hvalueAgree, hrestAgree⟩

theorem writeFields_ok : ∀ {fs : List (LogicalField LogicalValue)} {depth : ℕ}
    {w w' : LogicalDigestWriter}, writeFields fs depth w = .ok w' →
    Frames w w' (fieldTokens fs) ∧ FieldsAgree fs
  | [], depth, w, w', h => by
    obtain rfl := Except.ok.inj h
    exact ⟨by simp [Frames, fieldTokens], trivial⟩
  | ⟨identifier, false, none⟩ :: fs, depth, w, w', h => by
    have hopen := (frames_text w identifier).trans (frames_boolean (w.text identifier) false)
    obtain ⟨w₁, hfield, h⟩ := bind_eq_ok h
    obtain rfl := Except.ok.inj hfield
    obtain ⟨htail, hrestAgree⟩ := writeFields_ok h
    exact ⟨hopen.trans htail, rfl, hrestAgree⟩
  | ⟨identifier, true, some v⟩ :: fs, depth, w, w', h => by
    have hopen := (frames_text w identifier).trans (frames_boolean (w.text identifier) true)
    obtain ⟨w₁, hfield, h⟩ := bind_eq_ok h
    obtain ⟨hvalue, hvalueAgree⟩ := writeValue_ok hfield
    obtain ⟨htail, hrestAgree⟩ := writeFields_ok h
    have hframes := (hopen.trans hvalue).trans htail
    simp only [List.cons_append, List.nil_append] at hframes
    exact ⟨hframes, rfl, hvalueAgree, hrestAgree⟩
  | ⟨identifier, true, none⟩ :: fs, depth, w, w', h => by
    obtain ⟨w₁, hfield, h⟩ := bind_eq_ok h
    cases hfield
  | ⟨identifier, false, some v⟩ :: fs, depth, w, w', h => by
    obtain ⟨w₁, hfield, h⟩ := bind_eq_ok h
    cases hfield

end

theorem hexDigit_injOn {m n : ℕ} (hm : m < 16) (hn : n < 16) (h : hexDigit m = hexDigit n) :
    m = n := by
  have hall : ∀ a b : Fin 16, hexDigit a = hexDigit b → a = b := by decide
  exact congrArg Fin.val (hall ⟨m, hm⟩ ⟨n, hn⟩ h)

theorem hexByte_prefixInjective : PrefixInjective hexByte := by
  intro a b r s heq
  simp only [hexByte, List.cons_append, List.nil_append, List.cons.injEq] at heq
  have hhigh : a.val / 16 = b.val / 16 := hexDigit_injOn (by omega) (by omega) heq.1
  have hlow : a.val % 16 = b.val % 16 := hexDigit_injOn (by omega) (by omega) heq.2.1
  exact ⟨Fin.ext (by omega), heq.2.2⟩

theorem digest_eq_of_finish [Sha256] {w w' : LogicalDigestWriter}
    (h : w.finish.digest = w'.finish.digest) : Sha256.digest w.hash = Sha256.digest w'.hash := by
  have hchars := String.ofList_injective ((String.append_right_inj _).mp h)
  have hbytes := hexByte_prefixInjective.flatMap (by simp [hexByte]) hchars
  exact Block.bytes_injective hbytes

end LogicalDigestWriter

open LogicalDigestWriter LogicalValue

theorem stream_determines_value {v w : LogicalValue} {writer wv ww : LogicalDigestWriter}
    (hv : writeValue v 1 writer = .ok wv) (hw : writeValue w 1 writer = .ok ww)
    (hkinds : ∀ p ∈ v.collectionKinds.zip w.collectionKinds, p.1 = p.2)
    (hstream : wv.hash = ww.hash) :
    v = w := by
  obtain ⟨hframes, hagree⟩ := writeValue_ok hv
  obtain ⟨hframes', hagree'⟩ := writeValue_ok hw
  have hflat : v.tokens.flatMap Token.frame = w.tokens.flatMap Token.frame := by
    unfold Frames at hframes hframes'
    rw [hframes, hframes'] at hstream
    exact List.append_cancel_left hstream
  have herase := Token.frame_determines_erase.flatMap Token.frame_ne_nil hflat
  have htokens := Token.eq_of_map_erase herase hkinds
  have happend : v.tokens ++ [] = w.tokens ++ [] := by rw [htokens]
  exact (tokens_inj hagree hagree' happend).1

theorem logical_framing_injective [Sha256] {domain : String} {v w : LogicalValue}
    {wv ww : LogicalDigestWriter} (hv : writeValue v 1 (new domain) = .ok wv)
    (hw : writeValue w 1 (new domain) = .ok ww) (hne : v ≠ w)
    (hkinds : ∀ p ∈ v.collectionKinds.zip w.collectionKinds, p.1 = p.2) :
    wv.hash ≠ ww.hash ∧
      ∀ dv dw, digestLogicalValueRecord ⟨domain, v⟩ = .ok dv →
        digestLogicalValueRecord ⟨domain, w⟩ = .ok dw → dv.digest = dw.digest →
        Sha256.digest wv.hash = Sha256.digest ww.hash := by
  refine ⟨fun hstream => hne (stream_determines_value hv hw hkinds hstream), ?_⟩
  intro dv dw hdv hdw hdigest
  obtain ⟨wv', hwv, hfinish⟩ := bind_eq_ok hdv
  obtain ⟨ww', hww, hfinish'⟩ := bind_eq_ok hdw
  obtain rfl := Except.ok.inj (hwv.symm.trans hv)
  obtain rfl := Except.ok.inj (hww.symm.trans hw)
  obtain rfl := Except.ok.inj hfinish
  obtain rfl := Except.ok.inj hfinish'
  exact digest_eq_of_finish hdigest

theorem empty_set_and_empty_record_share_stream :
    ∃ wv ww, writeValue (.set []) 1 (new "urdira:logical-value:v3") = .ok wv ∧
      writeValue (.record []) 1 (new "urdira:logical-value:v3") = .ok ww ∧
      LogicalValue.set [] ≠ LogicalValue.record [] ∧ wv.hash = ww.hash :=
  ⟨_, _, rfl, rfl, by simp, rfl⟩

theorem logical_framing_injective_presence :
    ∃ wv ww, writeValue (.record [⟨"a", true, some .null⟩]) 1 (new "d") = .ok wv ∧
      writeValue (.record [⟨"a", false, none⟩]) 1 (new "d") = .ok ww ∧ wv.hash ≠ ww.hash := by
  let _ : Sha256 := ⟨fun _ => zero⟩
  have hv : writeValue (.record [⟨"a", true, some .null⟩]) 1 (new "d") = .ok _ := rfl
  have hw : writeValue (.record [⟨"a", false, none⟩]) 1 (new "d") = .ok _ := rfl
  have hkinds : ∀ p ∈ (LogicalValue.record [⟨"a", true, some .null⟩]).collectionKinds.zip
      (LogicalValue.record [⟨"a", false, none⟩]).collectionKinds, p.1 = p.2 := by decide
  exact ⟨_, _, hv, hw, (logical_framing_injective hv hw (by simp) hkinds).1⟩

end NativeCore
