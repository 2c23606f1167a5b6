import Urdira.StructuralStore.IdentityCodec
import Urdira.Lib.BinarySearch

open ByteOrder KeyedSet MerkleBucket BinarySearch

namespace StructuralStore

abbrev Quad := ℕ ×ₗ ℕ ×ₗ ℕ ×ₗ ℕ

def quad (key validFrom validTo ordinal : ℕ) : Quad :=
  toLex (key, toLex (validFrom, toLex (validTo, ordinal)))

def Quad.key (q : Quad) : ℕ := (ofLex q).1

def Quad.validFrom (q : Quad) : ℕ := (ofLex (ofLex q).2).1

def Quad.validTo (q : Quad) : ℕ := (ofLex (ofLex (ofLex q).2).2).1

def Quad.ordinal (q : Quad) : ℕ := (ofLex (ofLex (ofLex q).2).2).2

abbrev KindKey := ℕ ×ₗ ℕ ×ₗ ℕ

def kindKey (universalKindId : ℕ) (category : Category) (kindId : ℕ) : KindKey :=
  toLex (universalKindId, toLex (category.toNat, kindId))

abbrev StartKey := ℕ ×ₗ ℕ

def indexOf {α E : Type} [LinearOrder E] (entry : α × ℕ → Option E) (rows : List α) : List E :=
  sortOn id (rows.zipIdx.filterMap entry)

def byOwnerIndex (rows : List StoredRow) : List Quad :=
  indexOf (fun p => some (quad p.1.ownerArtifact p.1.validFrom p.1.validTo p.2)) rows

def byNameIndex (rows : List StoredRow) : List (ℕ ×ₗ ℕ) :=
  indexOf (fun p => p.1.nameIdOpt.map (fun name => toLex (name, p.2))) rows

def byKindIndex (rows : List StoredRow) : List (KindKey ×ₗ ℕ) :=
  indexOf (fun p => some (toLex (kindKey p.1.universalKindId p.1.category p.1.kindId, p.2))) rows

def byIdentityIndex (rows : List StoredRow) : List (Digest32 ×ₗ ℕ) :=
  indexOf (fun p => some (toLex (p.1.identityKeyDigest, p.2))) rows

def adjacencyIndex (subject : StoredRow → Option ℕ) (rows : List StoredRow) : List Quad :=
  indexOf (fun p => (subject p.1).map (fun s => quad s p.1.validFrom p.1.validTo p.2)) rows

def depsReverseIndex (deps : List DependencyRow) : List (ℕ ×ₗ ℕ) :=
  indexOf (fun p => some (toLex (p.1.depArtifact, p.2))) deps

def inferredTypeKindId (dicts : Dictionaries) : Option ℕ :=
  dicts.kinds.findIdx? (fun kind => decide (kind = utf8 "jsts:entity_inferred_type"))

def isEntitiesIndexRow (category : Category) (kindId : ℕ) (inferredTypeKindId : Option ℕ) : Bool :=
  decide (category = .entity) && decide (some kindId ≠ inferredTypeKindId)

def entitiesIndexKeyStart (row : RecordRow) : ℕ :=
  (IdentityCodec.entityIdentityNameStart row.identityKey).getD row.spanStartByte

def entitiesIndexWith (keyStart : RecordRow → ℕ) (dicts : Dictionaries) (ordered : List RecordRow) :
    List (StartKey ×ₗ ℕ) :=
  indexOf (fun p =>
    if isEntitiesIndexRow p.1.category p.1.kindId (inferredTypeKindId dicts) then
      some (toLex (toLex (p.1.ownerArtifact, keyStart p.1), p.2))
    else none) ordered

structure Segment where
  generation : ℕ
  rows : List StoredRow
  rows_sorted : rows.Pairwise (fun a b => a.recordId ≤ b.recordId)
  byOwner : List Quad
  byOwner_eq : byOwner = byOwnerIndex rows
  byName : List (ℕ ×ₗ ℕ)
  byName_eq : byName = byNameIndex rows
  byKind : List (KindKey ×ₗ ℕ)
  byKind_eq : byKind = byKindIndex rows
  byIdentity : List (Digest32 ×ₗ ℕ)
  byIdentity_eq : byIdentity = byIdentityIndex rows
  adjOut : List Quad
  adjOut_eq : adjOut = adjacencyIndex (fun row => row.sourceSubject) rows
  adjIn : List Quad
  adjIn_eq : adjIn = adjacencyIndex (fun row => row.targetSubject) rows
  entitiesIndex : List (StartKey ×ₗ ℕ)
  entitiesIndex_sorted : entitiesIndex.Pairwise (· ≤ ·)
  deps : List DependencyRow
  deps_sorted : deps.Pairwise (fun a b => a.dependencyId ≤ b.dependencyId)
  depsReverse : List (ℕ ×ₗ ℕ)
  depsReverse_eq : depsReverse = depsReverseIndex deps
  pending : List PendingSiteRow
  pending_sorted : pending.Pairwise (fun a b => a.key < b.key)
  dict : Dictionaries
  closuresRecords : List (Digest32 × ℕ)
  closuresDeps : List (Digest32 × ℕ)
  closuresPending : List (PendingSiteKey × ℕ)

def hasDuplicateKey : List PendingSiteRow → Bool
  | a :: b :: rest => decide (a.key = b.key) || hasDuplicateKey (b :: rest)
  | _ => false

theorem pairwise_lt_of_no_duplicate {rows : List PendingSiteRow}
    (hs : rows.Pairwise (fun a b => a.key ≤ b.key)) (h : hasDuplicateKey rows = false) :
    rows.Pairwise (fun a b => a.key < b.key) := by
  induction rows with
  | nil => exact List.Pairwise.nil
  | cons a rows ih =>
    obtain ⟨hle, hs'⟩ := List.pairwise_cons.mp hs
    cases rows with
    | nil => simp
    | cons b rest =>
      simp only [hasDuplicateKey, Bool.or_eq_false_iff, decide_eq_false_iff_not] at h
      have hp := ih hs' h.2
      have hab : a.key < b.key := lt_of_le_of_ne (hle b (by simp)) h.1
      refine List.pairwise_cons.mpr ⟨?_, hp⟩
      intro c hc
      rcases List.mem_cons.mp hc with rfl | hc
      · exact hab
      · exact hab.trans ((List.pairwise_cons.mp hp).1 c hc)

def duplicatePendingKey : Fault := .error "duplicate pending site key within one segment"

def encodePendingSitesBody (rows : List PendingSiteRow) :
    Except Fault {ordered : List PendingSiteRow // ordered.Pairwise (fun a b => a.key < b.key)} :=
  let ordered := sortOn PendingSiteRow.key rows
  if h : hasDuplicateKey ordered = true then .error duplicatePendingKey
  else .ok ⟨ordered, pairwise_lt_of_no_duplicate (sortOn_pairwise _ _) (by simpa using h)⟩

structure SegmentInput where
  keyStart : RecordRow → ℕ
  ordered : List RecordRow
  ordered_sorted : ordered.Pairwise (fun a b => a.recordId ≤ b.recordId)
  resolveIdentity : Digest32 → Option Bytes
  dicts : Dictionaries
  dictSection : Dictionaries
  deps : List DependencyRow
  pending : List PendingSiteRow
  closures : List (Digest32 × ℕ)
  depsClosures : List (Digest32 × ℕ)
  pendingClosures : List (PendingSiteKey × ℕ)
  generation : ℕ

def SegmentInput.rows (input : SegmentInput) : List StoredRow :=
  input.ordered.map (fun row => IdentityCodec.classifyIdentity row input.dicts
    input.resolveIdentity)

theorem SegmentInput.rows_sorted (input : SegmentInput) :
    input.rows.Pairwise (fun a b => a.recordId ≤ b.recordId) := by
  unfold SegmentInput.rows
  rw [List.pairwise_map]
  exact input.ordered_sorted

def SegmentInput.build (input : SegmentInput) : Except Fault Segment := do
  let pending ← encodePendingSitesBody input.pending
  let rows := input.rows
  let deps := sortOn DependencyRow.dependencyId input.deps
  .ok
    { generation := input.generation
      rows := rows
      rows_sorted := input.rows_sorted
      byOwner := byOwnerIndex rows
      byOwner_eq := rfl
      byName := byNameIndex rows
      byName_eq := rfl
      byKind := byKindIndex rows
      byKind_eq := rfl
      byIdentity := byIdentityIndex rows
      byIdentity_eq := rfl
      adjOut := adjacencyIndex (fun row => row.sourceSubject) rows
      adjOut_eq := rfl
      adjIn := adjacencyIndex (fun row => row.targetSubject) rows
      adjIn_eq := rfl
      entitiesIndex := entitiesIndexWith input.keyStart input.dicts input.ordered
      entitiesIndex_sorted := sortOn_pairwise id _
      deps := deps
      deps_sorted := sortOn_pairwise _ _
      depsReverse := depsReverseIndex deps
      depsReverse_eq := rfl
      pending := pending.val
      pending_sorted := pending.property
      dict := input.dictSection
      closuresRecords := sortOn Prod.fst input.closures
      closuresDeps := sortOn Prod.fst input.depsClosures
      closuresPending := sortOn Prod.fst input.pendingClosures }

end StructuralStore
