import Urdira.Canonical.EncodingLaw

open Binary64 ByteOrder KeyedSort MerkleBucket PrefixCode TextCodec Utf16

namespace Canonical

namespace Digests

open LogicalEncoding

inductive DigestDetail where
  | value (detail : Detail)
  | number (value : Double)
  | numbers (values : List ℕ)
  | texts (values : List String)

structure DigestError where
  code : String
  phase : String
  details : List (String × DigestDetail)

abbrev Result (α : Type) := Except DigestError α

def raised {α : Type} (result : Except CanonicalEncodingError α) : Result α :=
  result.mapError (fun fault => ⟨fault.code, fault.phase,
    fault.details.map (fun d => (d.1, .value d.2))⟩)

abbrev Hash := Bytes

abbrev hexDigest [Sha256] (hash : Hash) : String := LogicalEncoding.digestBytes hash

def encodeArrayHeader (length : ℕ) : Bytes := 5 :: varint length

def encodeMapHeader (length : ℕ) : Bytes := 6 :: varint length

def encodeCanonicalInto (limits : CanonicalEncodingLimits) (value : CanonicalValue) (hash : Hash) :
    Result Hash := do
  let bytes ← raised (encodeCanonical limits value)
  .ok (hash ++ bytes)

def updateElements (limits : CanonicalEncodingLimits) : List CanonicalValue → Hash → Result Hash
  | [], hash => .ok hash
  | element :: elements, hash => do
    let hash ← encodeCanonicalInto limits element hash
    updateElements limits elements hash

def duplicateKey (key : Text) : DigestError :=
  ⟨"uce:duplicate_map_key", "normalize",
    [("byte_offset", .value (.amount 0)), ("duplicate_key", .value (.text key))]⟩

def hasOwn (fields : List (Text × CanonicalValue)) (key : Text) : Bool :=
  fields.any (fun field => decide (field.1 = key))

structure StreamField where
  sortKeyBytes : Bytes
  keyBytes : Bytes
  emit : Hash → Result Hash

def streamField {α : Type} (emit : α → Hash → Result Hash) (field : Text × α) :
    Result StreamField := do
  let keyBytes ← raised (canonicalBytes (.string field.1))
  .ok ⟨encodeUtf8 field.1, keyBytes, emit field.2⟩

def emitScalar (limits : CanonicalEncodingLimits) (value : CanonicalValue) (hash : Hash) :
    Result Hash :=
  encodeCanonicalInto limits value hash

def emitArray (limits : CanonicalEncodingLimits) (elements : List CanonicalValue) (hash : Hash) :
    Result Hash :=
  updateElements limits elements (hash ++ encodeArrayHeader elements.length)

def sortedFields (fields : List StreamField) : List StreamField :=
  fields.insertionSort (fun left right => compareBytes left.sortKeyBytes right.sortKeyBytes ≠ .gt)

def updateFields : List StreamField → Hash → Result Hash
  | [], hash => .ok hash
  | field :: fields, hash => do
    let hash ← field.emit (hash ++ field.keyBytes)
    updateFields fields hash

section Streaming

variable [Sha256] (limits : CanonicalEncodingLimits)

def digestMappedCanonicalArray {T : Type} (elements : List T) (map : T → CanonicalValue) :
    Result String := do
  let hash ← updateElements limits (elements.map map) (encodeArrayHeader elements.length)
  .ok (hexDigest hash)

def digestCanonicalArray (elements : List CanonicalValue) : Result String := do
  let hash ← updateElements limits elements (encodeArrayHeader elements.length)
  .ok (hexDigest hash)

def digestCanonicalMapWithArrayFields (scalarFields : List (Text × CanonicalValue))
    (arrayFields : List (Text × List CanonicalValue)) : Result String := do
  match arrayFields.find? (fun field => hasOwn scalarFields field.1) with
  | some field => .error (duplicateKey field.1)
  | none =>
    let scalars ← scalarFields.mapM (streamField (emitScalar limits))
    let arrays ← arrayFields.mapM (streamField (emitArray limits))
    let fields := scalars ++ arrays
    let hash ← updateFields (sortedFields fields) (encodeMapHeader fields.length)
    .ok (hexDigest hash)

def digestCanonicalMapWithArrayField (scalarFields : List (Text × CanonicalValue))
    (arrayField : Text)
    (arrayElements : List CanonicalValue) : Result String :=
  digestCanonicalMapWithArrayFields limits scalarFields [(arrayField, arrayElements)]

end Streaming

structure DigestOptions where
  canonicalEncodingVersion : Option Double
  hashAlgorithm : Option Text

def text (value : String) : Text := encode value.toList

def isSafeInteger (x : Double) : Bool :=
  finite x && decide (fract x = 0) && decide (magnitude x ≤ 2 ^ 53 - 1)

def versionInvalid (version : Double) : Bool := !isSafeInteger version || decide (value version < 1)

structure Coordinates where
  digestDomain : Text
  digestRecipeId : Text
  recipeVersion : Double
  payloadSchemaId : Text
  payloadSchemaVersion : Double

def digestEnvelope (coordinates : Coordinates) (payload : CanonicalValue)
    (options : DigestOptions) :
    Result (List CanonicalValue) :=
  let encodingVersion := options.canonicalEncodingVersion.getD (ofNat 1)
  let algorithm := options.hashAlgorithm.getD (text "sha256")
  if encodingVersion ≠ ofNat 1 then
    .error ⟨"uce:unsupported_encoding_version", "recipe_validation",
      [("canonical_encoding_version", .number encodingVersion),
        ("supported_encoding_versions", .numbers [1])]⟩
  else if algorithm ≠ text "sha256" then
    .error ⟨"uce:unsupported_hash_algorithm", "recipe_validation",
      [("hash_algorithm", .value (.text algorithm)),
        ("supported_hash_algorithms", .texts ["sha256"])]⟩
  else if coordinates.digestDomain = [] ∨ coordinates.digestRecipeId = [] ∨
    coordinates.payloadSchemaId = [] ∨
      versionInvalid coordinates.recipeVersion = true ∨
        versionInvalid coordinates.payloadSchemaVersion = true then
    .error ⟨"uce:digest_binding_invalid", "recipe_validation",
      [("binding_failure_kind", .value (.name "VALUE_MODE_INVALID"))]⟩
  else
    .ok [.string (text "urdira"), .number encodingVersion, .string coordinates.digestDomain,
      .string coordinates.digestRecipeId, .number coordinates.recipeVersion,
        .string coordinates.payloadSchemaId,
      .number coordinates.payloadSchemaVersion, .string algorithm, payload]

def updateEnvelope (envelope : List CanonicalValue) : Result Hash :=
  updateElements defaultLimits envelope.dropLast (encodeArrayHeader envelope.length)

section Envelopes

variable [Sha256] (coordinates : Coordinates)

def computeDigest (payload : CanonicalValue) (options : DigestOptions) : Result String := do
  let envelope ← digestEnvelope coordinates payload options
  let bytes ← raised (canonicalBytes (.array envelope))
  .ok (hexDigest bytes)

def computeDigestOverArrayPayload (payloadElements : List CanonicalValue)
    (options : DigestOptions) :
    Result String := do
  let envelope ← digestEnvelope coordinates .null options
  let hash ← updateEnvelope envelope
  let hash ← updateElements defaultLimits payloadElements
    (hash ++ encodeArrayHeader payloadElements.length)
  .ok (hexDigest hash)

def computeDigestOverMapPayloadWithArrayField (scalarFields : List (Text × CanonicalValue))
    (arrayField : Text)
    (arrayElements : List CanonicalValue) (options : DigestOptions) : Result String := do
  if hasOwn scalarFields arrayField then .error (duplicateKey arrayField)
  else
    let envelope ← digestEnvelope coordinates .null options
    let hash ← updateEnvelope envelope
    let scalars ← scalarFields.mapM (streamField (emitScalar defaultLimits))
    let array ← streamField (emitArray defaultLimits) (arrayField, arrayElements)
    let fields := scalars ++ [array]
    let hash ← updateFields (sortedFields fields) (hash ++ encodeMapHeader fields.length)
    .ok (hexDigest hash)

end Envelopes

end Digests

end Canonical
