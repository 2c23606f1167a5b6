import Urdira.Lib.Binary64
import Urdira.Lib.ExceptOk
import Urdira.Lib.Json
import Urdira.Lib.KeyedSort
import Urdira.NativeCore.LogicalDigest

open Binary64 ByteLayout ByteOrder KeyedSort MerkleBucket PrefixCode

namespace NativeCore

abbrev I64 := {n : ℤ // -2 ^ 63 ≤ n ∧ n < 2 ^ 63}

inductive Number where
  | posInt (value : ℕ) (bound : value < 2 ^ 64)
  | negInt (value : I64) (negative : value.val < 0)
  | float (value : Double) (hfinite : finite value)

abbrev Value := Json Number

def zeroUnsigned (real : Double) : Double := if value real = 0 then positiveZero else real

variable (toDouble : ℤ → Double)

def Number.asDouble : Number → Option Double
  | .posInt value _ => some (toDouble value)
  | .negInt value _ => some (toDouble value.val)
  | .float value _ => some value

def iterate {α : Type} (fields : List (String × α)) : List (String × α) :=
  sortBy (fun field => utf8 field.1) fields

def updateVarint (hash : Bytes) (value : ℕ) : Bytes := hash ++ varint value

def updateUceText (hash : Bytes) (value : String) : Bytes :=
  updateVarint (hash ++ [3]) (utf8 value).length ++ utf8 value

abbrev Update := Bytes → Except String Bytes

def boundDepth (depth : ℕ) (update : Update) : Update := fun hash =>
  if maxLogicalDepth < depth then .error "Structural kernel UCE value exceeds the maximum depth."
  else update hash

def updateUceNumber (number : Number) : Update := fun hash =>
  match number.asDouble toDouble with
  | none => .error "Structural kernel UCE number is not finite."
  | some number =>
    if !finite number then .error "Structural kernel UCE number is not finite."
    else .ok (hash ++ [7] ++ toBeBytes (zeroUnsigned number))

def updateAll : List Update → Update
  | [], hash => .ok hash
  | update :: updates, hash => do
    let hash ← update hash
    updateAll updates hash

def updateFields : List (String × Update) → Update
  | [], hash => .ok hash
  | (key, update) :: fields, hash => do
    let hash ← update (updateUceText hash key)
    updateFields fields hash

mutual

def updateUceValue (depth : ℕ) : Value → Update
  | .null => boundDepth depth (fun hash => .ok (hash ++ [0]))
  | .bool flag => boundDepth depth (fun hash => .ok (hash ++ [if flag then 2 else 1]))
  | .string value => boundDepth depth (fun hash => .ok (updateUceText hash value))
  | .number value => boundDepth depth (updateUceNumber toDouble value)
  | .array values => boundDepth depth (fun hash =>
    updateAll (updateUceItems (depth + 1) values) (updateVarint (hash ++ [5]) values.length))
  | .object fields => boundDepth depth (fun hash =>
    updateFields (iterate (updateUceEntries (depth + 1) fields))
      (updateVarint (hash ++ [6]) fields.length))

def updateUceItems (depth : ℕ) : List Value → List Update
  | [] => []
  | value :: values => updateUceValue depth value :: updateUceItems depth values

def updateUceEntries (depth : ℕ) : List (String × Value) → List (String × Update)
  | [] => []
  | (key, value) :: fields => (key, updateUceValue depth value) :: updateUceEntries depth fields

end

end NativeCore
