import Urdira.Lib.Binary64
import Urdira.Lib.Json
import Urdira.SourceFrontier.Ids

open Binary64 ByteOrder MerkleBucket PrefixCode
open NativeCore hiding negativeZero

namespace SourceFrontier

def safeIntegral (x : Double) : Bool :=
  finite x && decide (fract x = 0) && decide (|value x| ≤ maxSafeInteger)

def formatTrunc (x : Double) : String :=
  (if negative x then "-" else "") ++ toString (trunc x).natAbs

def writeNumber (x : Double) : Bytes :=
  if safeIntegral x then 5 :: writeText (formatTrunc x) else 6 :: toBeBytes x

def sortKeys (keys : List String) : List String :=
  keys.mergeSort (fun left right => decide (utf8 left ≤ utf8 right))

def writeFields (fields : List (String × Bytes)) : Bytes :=
  let keys := sortKeys (fields.map Prod.fst)
  10 :: (varint keys.length ++
    keys.flatMap (fun key => writeText key ++ [4, 1] ++ (fields.lookup key).getD []))

mutual

def writeValue : Json Double → Bytes
  | .null => [3]
  | .bool flag => [4, if flag then 1 else 0]
  | .string text => writeText text
  | .number x => writeNumber x
  | .array items => 9 :: (varint items.length ++ writeItems items)
  | .object fields => writeFields (writtenFields fields)

def writeItems : List (Json Double) → Bytes
  | [] => []
  | item :: items => writeValue item ++ writeItems items

def writtenFields : List (String × Json Double) → List (String × Bytes)
  | [] => []
  | (key, item) :: fields => (key, writeValue item) :: writtenFields fields

end

def logicalBytes (value : Json Double) (domain : String) : Bytes :=
  writeText domain ++ writeValue value

def logicalDigest [Sha256] (value : Json Double) (domain : String) : String :=
  "sha256:" ++ String.ofList
    ((Sha256.digest (logicalBytes value domain)).bytes.flatMap LogicalDigestWriter.hexByte)

theorem writeItems_eq (items : List (Json Double)) :
    writeItems items = items.flatMap writeValue := by
  induction items with
  | nil => rfl
  | cons item items ih => rw [writeItems, ih, List.flatMap_cons]

theorem writtenFields_eq (fields : List (String × Json Double)) :
    writtenFields fields = fields.map (fun field => (field.1, writeValue field.2)) := by
  induction fields with
  | nil => rfl
  | cons field fields ih => rw [writtenFields, ih, List.map_cons]

end SourceFrontier
