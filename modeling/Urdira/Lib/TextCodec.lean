import Urdira.Lib.Utf16
import Urdira.Lib.Utf8

open ByteOrder Utf16

namespace TextCodec

def isHigh (unit : CodeUnit) : Bool := decide (55296 ≤ unit.val ∧ unit.val < 56320)

def isLow (unit : CodeUnit) : Bool := decide (56320 ≤ unit.val ∧ unit.val < 57344)

def replacement : Char := Char.ofNat 65533

def pair (high low : CodeUnit) : Char :=
  Char.ofNat (65536 + (high.val - 55296) * 1024 + (low.val - 56320))

-- The scalar values of a text; a surrogate without its partner reads as U+FFFD.
def scalars : List CodeUnit → List Char
  | [] => []
  | [unit] => [if isHigh unit || isLow unit then replacement else Char.ofNat unit.val]
  | unit :: next :: rest =>
    if isHigh unit then
      if isLow next then pair unit next :: scalars rest else replacement :: scalars (next :: rest)
    else if isLow unit then replacement :: scalars (next :: rest)
    else Char.ofNat unit.val :: scalars (next :: rest)

def encodeUtf8 (units : List CodeUnit) : Bytes := utf8 (String.ofList (scalars units))

def byteOrderMark : Bytes := [239, 187, 191]

-- A decoder that is fatal and does not set ignoreBOM.
def decodeUtf8 (bytes : Bytes) : Option (List CodeUnit) :=
  (Utf8.fromUtf8 (if byteOrderMark.isPrefixOf bytes then bytes.drop 3 else bytes)).map
    (fun text => encode text.toList)

theorem scalars_plain {unit : CodeUnit} (rest : List CodeUnit) (hhigh : isHigh unit = false)
    (hlow : isLow unit = false) :
    scalars (unit :: rest) = Char.ofNat unit.val :: scalars rest := by
  cases rest with
  | nil => simp [scalars, hhigh, hlow]
  | cons next rest => simp [scalars, hhigh, hlow]

theorem scalars_pair {high low : CodeUnit} (rest : List CodeUnit) (hhigh : isHigh high = true)
    (hlow : isLow low = true) :
    scalars (high :: low :: rest) = pair high low :: scalars rest := by
  rw [scalars, if_pos hhigh, if_pos hlow]

theorem scalars_encode (text : List Char) : scalars (encode text) = text := by
  induction text with
  | nil => rfl
  | cons c text ih =>
    have hbound := char_bound c
    rcases Nat.lt_or_ge c.toNat 65536 with hplain | hsupplementary
    · have hhigh : isHigh ⟨c.toNat, hplain⟩ = false := decide_eq_false (by dsimp only; omega)
      have hlow : isLow ⟨c.toNat, hplain⟩ = false := decide_eq_false (by dsimp only; omega)
      rw [encode_cons, codeUnits_plain hplain, List.singleton_append, scalars_plain _ hhigh hlow,
        ih, Char.ofNat_toNat]
    · obtain ⟨high, low, hunits, hhighVal, hlowVal, hhighLt, hlowLt⟩ :=
        codeUnits_supplementary hsupplementary
      have hhigh : isHigh high = true := decide_eq_true (by omega)
      have hlow : isLow low = true := decide_eq_true (by omega)
      have hvalue : 65536 + (high.val - 55296) * 1024 + (low.val - 56320) = c.toNat := by omega
      rw [encode_cons, hunits, List.cons_append, List.singleton_append, scalars_pair _ hhigh hlow,
        ih, pair, hvalue,
        Char.ofNat_toNat]

theorem encodeUtf8_encode (text : String) : encodeUtf8 (encode text.toList) = utf8 text := by
  rw [encodeUtf8, scalars_encode, String.ofList_toList]

end TextCodec
