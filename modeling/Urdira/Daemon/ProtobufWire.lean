import Urdira.Daemon.Wire
import Urdira.Lib.PrefixCode
import Urdira.Lib.Utf8

open ByteOrder ByteLayout PrefixCode Utf8

namespace Daemon

def WireType.number : WireType → ℕ
  | .varint => 0
  | .bit64 => 1
  | .lengthDelimited => 2
  | .startGroup => 3
  | .endGroup => 4
  | .bit32 => 5

def WireType.ofNumber : ℕ → Option WireType
  | 0 => some .varint
  | 1 => some .bit64
  | 2 => some .lengthDelimited
  | 3 => some .startGroup
  | 4 => some .endGroup
  | 5 => some .bit32
  | _ => none

def readVarint : Bytes → Option (ℕ × Bytes)
  | [] => none
  | byte :: input =>
    if byte.val < 128 then some (byte.val, input)
    else (readVarint input).map (fun more => (byte.val - 128 + 128 * more.1, more.2))

def readDelimited (input : Bytes) : Option (Bytes × Bytes) := do
  let (length, input) ← readVarint input
  if length ≤ input.length then some (input.take length, input.drop length) else none

def protobufWire : Wire where
  tag field wireType := varint (field * 8 + wireType.number)
  uint32 value := varint value
  bool value := varint value.toNat
  double value := leBytes 8 value
  string value := varint (utf8 value).length ++ utf8 value
  bytes value := varint value.length ++ value
  readTag input := do
    let (tag, input) ← readVarint input
    let wireType ← WireType.ofNumber (tag % 8)
    if tag / 8 = 0 then none else some ((tag / 8, wireType), input)
  readUint32 input := (readVarint input).map (fun read => (Fin.ofNat _ read.1, read.2))
  readBool input := (readVarint input).map (fun read => (decide (read.1 ≠ 0), read.2))
  readDouble input :=
    if 8 ≤ input.length then some (Fin.ofNat _ (leValue (input.take 8)), input.drop 8) else none
  readString input := do
    let (text, input) ← readDelimited input
    let value ← fromUtf8 text
    some (value, input)
  readBytes := readDelimited

theorem readVarint_encoded (n : ℕ) (rest : Bytes) :
    readVarint (varint n ++ rest) = some (n, rest) := by
  induction n using Nat.strongRecOn with
  | ind n ih =>
    rcases Nat.lt_or_ge n 128 with hlt | hge
    · have hval : (Fin.ofNat 256 n).val = n := Nat.mod_eq_of_lt (by omega)
      rw [varint_of_lt hlt, List.singleton_append, readVarint, hval, if_pos hlt]
    · have hval : (Fin.ofNat 256 (n % 128 + 128)).val = n % 128 + 128 := Nat.mod_eq_of_lt (by omega)
      have hsum : n % 128 + 128 - 128 + 128 * (n / 128) = n := by omega
      rw [varint_of_ge hge, List.cons_append, readVarint, hval, if_neg (by omega),
        ih (n / 128) (by omega),
        Option.map_some, hsum]

theorem readDelimited_encoded (value rest : Bytes) :
    readDelimited (varint value.length ++ value ++ rest) = some (value, rest) := by
  have hlen : value.length ≤ (value ++ rest).length := by
    rw [List.length_append]
    omega
  rw [readDelimited, List.append_assoc, readVarint_encoded]
  change (if value.length ≤ (value ++ rest).length then _ else _) = _
  rw [if_pos hlen, List.take_left, List.drop_left]

theorem protobufWire_lawful : protobufWire.Lawful where
  readTag := by
    intro field wireType rest hpos _
    have hnumber : wireType.number < 8 := by
      cases wireType with
      | _ => decide
    have hof : WireType.ofNumber wireType.number = some wireType := by
      cases wireType with
      | _ => rfl
    have hdiv : (field * 8 + wireType.number) / 8 = field := by omega
    have hmod : (field * 8 + wireType.number) % 8 = wireType.number := by omega
    have hfield : ¬ field = 0 := by omega
    simp only [protobufWire, readVarint_encoded, bind, Option.bind, hdiv, hmod, hof, if_neg hfield]
  readUint32 := by
    intro value rest
    simp only [protobufWire, readVarint_encoded, Option.map_some, Fin.ofNat_val_eq_self]
  readBool := by
    intro value rest
    simp only [protobufWire, readVarint_encoded, Option.map_some]
    cases value with
    | false => rfl
    | true => rfl
  readDouble := by
    intro value rest
    have hlen : 8 ≤ (leBytes 8 value.val ++ rest).length := by
      rw [List.length_append, length_leBytes]
      omega
    have htake : (leBytes 8 value.val ++ rest).take 8 = leBytes 8 value.val := by
      rw [List.take_append_of_le_length (by rw [length_leBytes]),
        List.take_of_length_le (by rw [length_leBytes])]
    have hdrop : (leBytes 8 value.val ++ rest).drop 8 = rest := by
      rw [List.drop_append_of_le_length (by rw [length_leBytes]),
        List.drop_of_length_le (by rw [length_leBytes]),
        List.nil_append]
    have hvalue : leValue (leBytes 8 value.val) = value.val := leValue_leBytes value.isLt
    simp only [protobufWire, if_pos hlen, htake, hdrop, hvalue, Fin.ofNat_val_eq_self]
  readString := by
    intro value rest
    simp only [protobufWire, readDelimited_encoded, bind, Option.bind, fromUtf8_utf8]
  readBytes := readDelimited_encoded
  tag_ne_nil field wireType := varint_ne_nil _
  length_bytes := by
    intro value
    simp only [protobufWire, List.length_append]
    omega

end Daemon
