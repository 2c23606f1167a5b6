import Urdira.NativeCore.UceValue

open Binary64 ByteOrder KeyedSort MerkleBucket NativeCore PrefixCode

namespace IndexingWorker

namespace Uce

variable (toDouble : ℤ → Double)

def uceVarint (value : ℕ) : Bytes := varint value

def uceText (text : String) : Bytes := 3 :: (uceVarint (utf8 text).length ++ utf8 text)

def uceNumber (number : Number) : Bytes :=
  let parsed := (number.asDouble toDouble).getD positiveZero
  7 :: toBeBytes (zeroUnsigned parsed)

mutual

def uce : Value → Bytes
  | .null => [0]
  | .bool flag => [if flag then 2 else 1]
  | .string text => uceText text
  | .number number => uceNumber toDouble number
  | .array values => 5 :: (uceVarint values.length ++ (uceItems values).flatten)
  | .object object =>
    let entries := sortBy (fun entry => utf8 entry.1) (iterate (uceEntries object))
    6 :: (uceVarint entries.length ++ entries.flatMap (fun entry => uceText entry.1 ++ entry.2))

def uceItems : List Value → List Bytes
  | [] => []
  | value :: values => uce value :: uceItems values

def uceEntries : List (String × Value) → List (String × Bytes)
  | [] => []
  | (key, value) :: object => (key, uce value) :: uceEntries object

end

def jsonDigest [Sha256] (value : Value) : String :=
  "sha256:" ++ String.ofList ((Sha256.digest (uce toDouble value)).bytes.flatMap
    LogicalDigestWriter.hexByte)

def one : Number := .posInt 1 (by decide)

def digestEnvelope [Sha256] (domain recipe schema : String) (payload : Value) : String :=
  jsonDigest toDouble (.array [.string "urdira", .number one, .string domain, .string recipe,
    .number one, .string schema, .number one, .string "sha256", payload])

end Uce

end IndexingWorker
