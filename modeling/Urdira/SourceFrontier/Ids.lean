import Urdira.NativeCore.DigestFraming

open ByteOrder MerkleBucket PrefixCode NativeCore

namespace SourceFrontier

inductive Scalar where
  | null
  | text (value : String)
  | number (value : ℤ)

def writeText (value : String) : Bytes := 7 :: (varint (utf8 value).length ++ utf8 value)

def maxSafeInteger : ℕ := 9007199254740991

def writeScalar : Scalar → Bytes
  | .null => [3]
  | .text value => writeText value
  | .number value =>
    if value.natAbs ≤ maxSafeInteger then 5 :: writeText (toString value)
    else 6 :: toBeBytes (Float.ofInt value).toBits.toBitVec

def writeObject (fields : List (String × Scalar)) : Bytes :=
  10 :: (varint fields.length ++
    fields.flatMap (fun field => writeText field.1 ++ [4, 1] ++ writeScalar field.2))

def logicalFrame (fields : List (String × Scalar)) : Bytes :=
  writeText "urdira:logical-value:v3" ++ writeObject fields

section Digests

variable [Sha256]

def hexDigest (fields : List (String × Scalar)) : String :=
  String.ofList ((Sha256.digest (logicalFrame fields)).bytes.flatMap LogicalDigestWriter.hexByte)

def digestLogicalValue (fields : List (String × Scalar)) : String := "sha256:" ++ hexDigest fields

def stableId (kind : String) (fields : List (String × Scalar)) : String :=
  kind ++ ":" ++ hexDigest fields

def artifactFields (workspaceId normalizedUri : String) : List (String × Scalar) :=
  [("normalized_uri", .text normalizedUri), ("workspace_id", .text workspaceId)]

def artifactId (workspaceId normalizedUri : String) : String :=
  digestLogicalValue (artifactFields workspaceId normalizedUri)

def contentBlobId (contentHash : String) (byteLength : ℕ) : String :=
  stableId "content" [("byte_length", .number byteLength), ("content_hash", .text contentHash)]

def artifactVersionId (artifactId observationId contentHash : String) : String :=
  stableId "artifact-version"
    [("artifact_id", .text artifactId), ("content_hash", .text contentHash),
      ("observation_id", .text observationId)]

def artifactTombstoneId (artifactId batchId absenceKind : String) : String :=
  stableId "artifact-tombstone"
    [("absence_kind", .text absenceKind), ("artifact_id", .text artifactId),
      ("batch_id", .text batchId)]

def artifactChangeId (kind batchId artifactId : String) : String :=
  stableId "artifact-change"
    [("artifact_id", .text artifactId), ("batch_id", .text batchId), ("kind", .text kind)]

def sourceObservationId (batchId artifactId : String) (observedContentHash : Option String)
    (generation : ℤ) : String :=
  stableId "source-observation"
    [("artifact_id", .text artifactId), ("batch_id", .text batchId),
      ("generation", .number generation),
      ("observed_content_hash", observedContentHash.elim .null .text)]

def observationBatchId (workspaceId : String) (generation : ℤ) : String :=
  stableId "observation-batch" [("generation", .number generation),
    ("workspace_id", .text workspaceId)]

def freshnessCheckpointId (workspaceId : String) (generation : ℤ) : String :=
  stableId "freshness-checkpoint" [("generation", .number generation),
    ("workspace_id", .text workspaceId)]

def observationBatchDigest (batchId : String) (observationCount deleted : ℕ) : String :=
  stableId "observation-batch-digest"
    [("batch_id", .text batchId), ("deleted", .number deleted),
      ("observation_count", .number observationCount)]

end Digests

theorem writeText_prefixInjective : PrefixInjective writeText := Token.textFrame_prefixInjective

theorem artifactFields_frame_injective {workspaceId uri uri' : String}
    (h : logicalFrame (artifactFields workspaceId uri) =
      logicalFrame (artifactFields workspaceId uri')) :
    uri = uri' := by
  simp only [logicalFrame, artifactFields, writeObject, List.flatMap_cons, List.append_assoc,
    writeScalar,
    List.cons_append, List.nil_append] at h
  obtain ⟨-, h⟩ := writeText_prefixInjective h
  simp only [List.cons.injEq, true_and] at h
  obtain ⟨-, h⟩ := varint_prefixInjective h
  obtain ⟨-, h⟩ := writeText_prefixInjective h
  simp only [List.cons.injEq, true_and] at h
  exact (writeText_prefixInjective h).1

theorem artifactId_injective [Sha256] {workspaceId uri uri' : String}
    (hsha : Sha256.digest (logicalFrame (artifactFields workspaceId uri)) =
      Sha256.digest (logicalFrame (artifactFields workspaceId uri')) →
      logicalFrame (artifactFields workspaceId uri) =
        logicalFrame (artifactFields workspaceId uri'))
    (h : artifactId workspaceId uri = artifactId workspaceId uri') : uri = uri' := by
  have hchars := String.ofList_injective ((String.append_right_inj _).mp h)
  have hbytes := LogicalDigestWriter.hexByte_prefixInjective.flatMap
    (by simp [LogicalDigestWriter.hexByte]) hchars
  exact artifactFields_frame_injective (hsha (Block.bytes_injective hbytes))

end SourceFrontier
