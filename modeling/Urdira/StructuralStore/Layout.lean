import Urdira.StructuralStore.IdentityCodec
import Urdira.Lib.ByteLayout

open ByteOrder MerkleBucket ByteLayout

namespace StructuralStore

abbrev headerLen : ℕ := 64

def headerMagic : Bytes := utf8 "URD4"

abbrev headerFormat : ℕ := 6

abbrev keysStride : ℕ := 32

abbrev digestsStride : ℕ := 160

abbrev metaStride : ℕ := 96

abbrev closureStride : ℕ := 36

abbrev depsKeysStride : ℕ := 32

abbrev depsMetaStride : ℕ := 32

abbrev pendingSiteStride : ℕ := 40

abbrev pendingClosureStride : ℕ := 20

inductive TableId where
  | records
  | dependencies
  | dict
  | subjectsKeys
  | pendingSites
  deriving DecidableEq, Repr

def TableId.toNat : TableId → ℕ
  | .records => 1
  | .dependencies => 2
  | .dict => 3
  | .subjectsKeys => 4
  | .pendingSites => 5

namespace Meta

abbrev ownerArtifact : ℕ := 0
abbrev ownerVersion : ℕ := 4
abbrev validFrom : ℕ := 8
abbrev validTo : ℕ := 12
abbrev category : ℕ := 16
abbrev kindId : ℕ := 17
abbrev universalKindId : ℕ := 19
abbrev facets : ℕ := 21
abbrev spanArtifactVersion : ℕ := 29
abbrev spanStartByte : ℕ := 33
abbrev spanEndByte : ℕ := 37
abbrev spanStartLine : ℕ := 41
abbrev spanEndLine : ℕ := 45
abbrev identityType : ℕ := 49
abbrev assignmentKind : ℕ := 50
abbrev nameId : ℕ := 51
abbrev sourceSubject : ℕ := 55
abbrev targetSubject : ℕ := 59
abbrev relationKindId : ℕ := 63
abbrev bodyOff : ℕ := 65
abbrev bodyLen : ℕ := 73
abbrev identOff : ℕ := 77
abbrev identLen : ℕ := 85
abbrev identityLayout : ℕ := 89
abbrev entityKind : ℕ := 90

end Meta

namespace Digests

abbrev recordDigest : ℕ := 0
abbrev bodyDigest : ℕ := 32
abbrev identityId : ℕ := 64
abbrev identityKeyDigest : ℕ := 96
abbrev previousRecordId : ℕ := 128

end Digests

namespace DepsMeta

abbrev recordOrd : ℕ := 0
abbrev ownerArtifact : ℕ := 4
abbrev ownerVersion : ℕ := 8
abbrev depArtifact : ℕ := 12
abbrev depVersion : ℕ := 16
abbrev role : ℕ := 20
abbrev validFrom : ℕ := 21
abbrev validTo : ℕ := 25

end DepsMeta

namespace PendingSites

abbrev ownerArtifact : ℕ := 0
abbrev ownerVersion : ℕ := 4
abbrev validFrom : ℕ := 8
abbrev validTo : ℕ := 12
abbrev start : ℕ := 16
abbrev stop : ℕ := 20
abbrev startLine : ℕ := 24
abbrev endLine : ℕ := 28
abbrev siteKind : ℕ := 32
abbrev reason : ℕ := 33
abbrev sourceSubject : ℕ := 34

end PendingSites

namespace PendingClosure

abbrev ownerArtifact : ℕ := 0
abbrev start : ℕ := 4
abbrev stop : ℕ := 8
abbrev siteKind : ℕ := 12
abbrev validTo : ℕ := 16

end PendingClosure

section Access

def byteAt (buf : Bytes) (off : ℕ) : ℕ := leValue (readAt buf off 1)

def u16le (buf : Bytes) (off : ℕ) : ℕ := leValue (readAt buf off 2)

def u32le (buf : Bytes) (off : ℕ) : ℕ := leValue (readAt buf off 4)

def u64le (buf : Bytes) (off : ℕ) : ℕ := leValue (readAt buf off 8)

def optU32le (buf : Bytes) (off : ℕ) : Option ℕ :=
  let v := u32le buf off
  if v ≠ noneU32 then some v else none

def digestAt (buf : Bytes) (off : ℕ) : Option Digest32 :=
  if h : (readAt buf off 32).length = 32 then some ⟨readAt buf off 32, h⟩ else none

theorem digestAt_of_read {buf : Bytes} {off : ℕ} {digest : Digest32}
    (h : readAt buf off 32 = digest.bytes) : digestAt buf off = some digest := by
  have hlen : (readAt buf off 32).length = 32 := by
    rw [h]
    exact digest.size
  unfold digestAt
  rw [dif_pos hlen]
  exact congrArg some (Block.bytes_injective h)

variable {buf : Bytes} {fields : List (ℕ × Bytes)} {off v : ℕ} {digest : Digest32}
  (h : Fits buf.length (fields.map span))

include h

theorem byteAt_writeFields (hmem : (off, leBytes 1 v) ∈ fields) (hv : v < 2 ^ 8) :
    byteAt (writeFields buf fields) off = v :=
  leValue_writeFields h hmem (by omega)

theorem u16le_writeFields (hmem : (off, leBytes 2 v) ∈ fields) (hv : v < 2 ^ 16) :
    u16le (writeFields buf fields) off = v :=
  leValue_writeFields h hmem (by omega)

theorem u32le_writeFields (hmem : (off, leBytes 4 v) ∈ fields) (hv : v < 2 ^ 32) :
    u32le (writeFields buf fields) off = v :=
  leValue_writeFields h hmem (by omega)

theorem u64le_writeFields (hmem : (off, leBytes 8 v) ∈ fields) (hv : v < 2 ^ 64) :
    u64le (writeFields buf fields) off = v :=
  leValue_writeFields h hmem (by omega)

theorem optU32le_writeFields {o : Option ℕ} (hmem : (off, leBytes 4 (o.getD noneU32)) ∈ fields)
    (ho : ∀ v ∈ o, v < noneU32) : optU32le (writeFields buf fields) off = o := by
  have hv : o.getD noneU32 < 2 ^ 32 := by
    cases o with
    | none => decide
    | some v => exact (ho v rfl).trans (by decide)
  unfold optU32le
  rw [u32le_writeFields h hmem hv]
  cases o with
  | none => simp
  | some v => simp [(ho v rfl).ne]

theorem digestAt_writeFields (hmem : (off, digest.bytes) ∈ fields) :
    digestAt (writeFields buf fields) off = some digest := by
  have hread := readAt_writeFields h hmem
  rw [digest.size] at hread
  exact digestAt_of_read hread

end Access

end StructuralStore
