import Urdira.StructuralStore.SnapshotReader
import Urdira.StructuralStore.EntitiesIndex

open ByteOrder KeyedSet MerkleBucket BinarySearch LastIndex

namespace StructuralStore

structure Newest (rows : List StoredRow) (answer : Option StoredRow) : Prop where
  none_iff : answer = none ↔ rows = []
  newest : ∀ row, answer = some row → row ∈ rows ∧ ∀ other ∈ rows, other.validFrom ≤ row.validFrom
  single : rows.length ≤ 1 → answer.toList = rows

structure Page (rows page : List StoredRow) (limit : ℕ) (afterKey : Option Digest32) : Prop where
  page_eq : ∃ ordered : List StoredRow, ordered.Perm rows ∧
    ordered.Pairwise (fun a b => a.recordId ≤ b.recordId) ∧
    page =
      (ordered.filter (fun row => afterKey.all (fun after => decide (after < row.recordId)))).take
      limit

structure StoreInner.FilteredScans (inner : StoreInner) (generation : ℕ) : Prop where
  byOwner : ∀ owner, (inner.byOwner owner generation).Perm
    ((inner.iterVisible generation).filter (fun row => decide (row.ownerArtifact = owner)))
  byName : ∀ nameId, (inner.byName nameId generation).Perm
    ((inner.iterVisible generation).filter (fun row => decide (row.nameIdOpt = some nameId)))
  byKind : ∀ universalKindId category kindId limit afterKey,
    Page ((inner.iterVisible generation).filter (fun row => decide
      (row.universalKindId = universalKindId ∧ row.category = category ∧ row.kindId = kindId)))
      (inner.byKind universalKindId category kindId generation limit afterKey) limit afterKey
  byIdentityKey : ∀ identityKeyDigest,
    Newest ((inner.iterVisible generation).filter
      (fun row => decide (row.identityKeyDigest = identityKeyDigest)))
      (inner.byIdentityKey identityKeyDigest generation)
  byIdentityId : ∀ identityId, identityId ≠ zero →
    Newest ((inner.iterVisible generation).filter (fun row => decide (row.identityId = identityId)))
      (inner.byIdentityId identityId generation)
  byIdentityId_zero : inner.byIdentityId zero generation = none
  adjacency : ∀ subjectKey direction, (inner.adjacency subjectKey direction generation).Perm
    ((inner.iterVisible generation).filter (fun row => decide
      ((StoreReader.subjectOf direction row).bind (fun ord => inner.dicts.subjects[ord]?) =
        some subjectKey)))
  depsByOwner : ∀ ownerArtifact, (inner.depsByOwner ownerArtifact generation).Perm
    ((inner.iterVisibleDeps generation).filter
      (fun dep => decide (dep.ownerArtifact = ownerArtifact)))
  depsReverse : ∀ depArtifact, (inner.depsReverse depArtifact generation).Perm
    ((inner.iterVisibleDeps generation).filter (fun dep => decide (dep.depArtifact = depArtifact)))
  pendingSitesByOwner : ∀ ownerArtifact, (inner.pendingSitesByOwner ownerArtifact generation).Perm
    ((inner.iterVisiblePendingSites generation).filter
      (fun site => decide (site.ownerArtifact = ownerArtifact)))

section Answers

theorem newest_argmax {rows candidates : List StoredRow} (h : candidates.Perm rows) :
    Newest rows (candidates.argmax (fun row => row.validFrom)) where
  none_iff := by
    rw [List.argmax_eq_none]
    constructor
    · rintro rfl
      exact List.nil_perm.mp h
    · rintro rfl
      exact List.perm_nil.mp h
  newest := by
    intro row hrow
    obtain ⟨hmem, hmax, -⟩ := List.argmax_eq_some_iff.mp hrow
    exact ⟨h.mem_iff.mp hmem, fun other hother => hmax other (h.mem_iff.mpr hother)⟩
  single := by
    intro hlength
    match rows, candidates, h, hlength with
    | [], candidates, h, _ =>
      obtain rfl := List.perm_nil.mp h
      rfl
    | [row], candidates, h, _ =>
      obtain rfl := List.perm_singleton.mp h
      rfl

theorem page_of_sorted {rows candidates : List StoredRow} (h : candidates.Perm rows) (limit : ℕ)
    (afterKey : Option Digest32) :
    Page rows (((sortOn (fun row => row.recordId) candidates).drop
      (match afterKey with
        | some key => partitionList (fun row => decide (row.recordId ≤ key))
          (sortOn (fun row : StoredRow => row.recordId) candidates)
        | none => 0)).take limit) limit afterKey := by
  refine ⟨sortOn (fun row => row.recordId) candidates, (sortOn_perm _ _).trans h,
    sortOn_pairwise _ _, ?_⟩
  cases afterKey with
  | none =>
    rw [List.filter_eq_self.mpr]
    · rfl
    · intro row _
      rfl
  | some after =>
    have hpartition : (sortOn (fun row : StoredRow => row.recordId) candidates).Pairwise
        (fun a b => decide (b.recordId ≤ after) = true → decide (a.recordId ≤ after) = true) := by
      refine (sortOn_pairwise _ _).imp (fun {a b} hle hb => ?_)
      exact decide_eq_true (hle.trans (of_decide_eq_true hb))
    dsimp only
    rw [(partitionList_spec hpartition).2.2]
    congr 2
    funext row
    rw [Bool.eq_iff_iff]
    simp

end Answers

namespace StoreInner.Reads

variable {inner : StoreInner} {reader : StoreReader}

theorem filter_iterVisible (h : inner.Reads reader) (cond : StoredRow → Bool) (generation : ℕ) :
    ((inner.iterVisible generation).filter cond).Perm
      (reader.rows.filter (fun row => cond row && reader.isVisible row generation)) := by
  refine ((h.iterVisible_perm generation).filter cond).trans (List.Perm.of_eq ?_)
  rw [List.filter_filter]

theorem filter_iterVisibleDeps (h : inner.Reads reader) (cond : DependencyRow → Bool)
    (generation : ℕ) :
    (inner.iterVisibleDeps generation).filter cond =
      reader.deps.filter (fun dep => cond dep && reader.depIsVisible dep generation) := by
  rw [h.iterVisibleDeps, reader.iterVisibleDeps_eq, List.filter_filter]

theorem adjacency_perm (h : inner.Reads reader) (hsubjects : inner.dicts.subjects.Nodup)
    (subjectKey : Digest32) (direction : Direction) (generation : ℕ) :
    (inner.adjacency subjectKey direction generation).Perm
      ((inner.iterVisible generation).filter (fun row => decide
        ((StoreReader.subjectOf direction row).bind (fun ord => inner.dicts.subjects[ord]?) =
          some subjectKey))) := by
  rw [h.adjacency]
  refine (reader.adjacency_perm subjectKey direction generation).trans
    ((List.Perm.of_eq ?_).trans (h.filter_iterVisible _ generation).symm)
  refine List.filter_congr (fun row _ => congrArg (· && reader.isVisible row generation) ?_)
  rw [h.dicts] at hsubjects
  rw [h.dicts]
  unfold StoreReader.subjectOrdinal
  cases hlast : lastIndexOf reader.dicts.subjects subjectKey with
  | none =>
    have hmem : subjectKey ∉ reader.dicts.subjects := by
      intro hmem
      have hsome := lastIndexOf_isSome hmem
      rw [hlast] at hsome
      cases hsome
    refine (decide_eq_false ?_).symm
    intro hbind
    obtain ⟨ord, -, hord⟩ := Option.bind_eq_some_iff.mp hbind
    exact hmem (List.mem_of_getElem? hord)
  | some ord =>
    have hord := lastIndexOf_some hlast
    rw [decide_eq_decide]
    constructor
    · intro hrow
      rw [hrow]
      exact hord
    · intro hbind
      obtain ⟨ord', hrow, hord'⟩ := Option.bind_eq_some_iff.mp hbind
      rw [hrow, (List.getElem?_inj (List.getElem?_eq_some_iff.mp hord).1 hsubjects).mp
        (hord.trans hord'.symm)]

theorem filteredScans (h : inner.Reads reader) (hsubjects : inner.dicts.subjects.Nodup)
    (generation : ℕ) : inner.FilteredScans generation where
  byOwner := by
    intro owner
    rw [h.byOwner]
    exact (reader.byOwner_perm owner generation).trans (h.filter_iterVisible _ generation).symm
  byName := by
    intro nameId
    rw [h.byName]
    exact (reader.byName_perm nameId generation).trans (h.filter_iterVisible _ generation).symm
  byKind := by
    intro universalKindId category kindId limit afterKey
    rw [h.byKind]
    refine page_of_sorted ?_ limit afterKey
    refine (reader.byKindCandidates_perm universalKindId category kindId generation).trans
      ((List.Perm.of_eq ?_).trans (h.filter_iterVisible _ generation).symm)
    refine List.filter_congr (fun row _ => congrArg (· && reader.isVisible row generation) ?_)
    rw [decide_eq_decide]
    have hcategory : row.category.toNat = category.toNat ↔ row.category = category := by
      cases row.category <;> cases category <;> decide
    simp only [kindKey, EmbeddingLike.apply_eq_iff_eq, Prod.mk.injEq, hcategory]
  byIdentityKey := by
    intro identityKeyDigest
    rw [h.byIdentityKey]
    refine newest_argmax ?_
    refine ((reader.identityCandidates_perm identityKeyDigest).filter _).trans
      ((List.Perm.of_eq ?_).trans (h.filter_iterVisible _ generation).symm)
    rw [List.filter_filter]
    exact List.filter_congr (fun row _ => Bool.and_comm _ _)
  byIdentityId := by
    intro identityId hid
    exact newest_argmax ((h.identityIdCandidates_perm hid generation).trans
      (h.filter_iterVisible _ generation).symm)
  byIdentityId_zero := by
    unfold StoreInner.byIdentityId
    rw [h.identityIdCandidates_zero]
    rfl
  adjacency :=
    fun subjectKey direction => h.adjacency_perm hsubjects subjectKey direction generation
  depsByOwner := by
    intro ownerArtifact
    refine (h.depsByOwner_perm ownerArtifact generation).trans (List.Perm.of_eq ?_)
    rw [h.filter_iterVisibleDeps, reader.depsByOwner_eq]
  depsReverse := by
    intro depArtifact
    rw [h.depsReverse, h.filter_iterVisibleDeps]
    exact reader.depsReverse_perm depArtifact generation
  pendingSitesByOwner := by
    intro ownerArtifact
    rw [h.pendingSitesByOwner, h.iterVisiblePendingSites]
    refine (reader.pendingSitesByOwner_perm ownerArtifact generation).trans ?_
    refine (List.Perm.of_eq ?_).trans ((reader.iterVisiblePendingSites_perm generation).filter
      _).symm
    rw [List.filter_filter]

end StoreInner.Reads

theorem secondary_indexes_eq_filtered_scan {dir : Directory} {inner : StoreInner}
    (h : SnapshotOf dir inner) (hsubjects : inner.dicts.subjects.Nodup) (generation : ℕ) :
    inner.FilteredScans generation := by
  obtain ⟨reader, -, hreads⟩ := h.reads
  exact hreads.filteredScans hsubjects generation

section Instances

def sharedIdentityBase : BaseInput :=
  entityBase [plainEntity (Block.fill 32 1) [] 0 1,
    { plainEntity (Block.fill 32 2) [] 0 1 with identityKeyDigest := Block.fill 32 1 }]

theorem secondary_indexes_eq_filtered_scan_shared_identity :
    ∃ inner : StoreInner, inner.FilteredScans 1 ∧ (inner.byOwner 0 1).length = 2 := by
  let _ := fixedDigest
  have hscript : (do
      let state ← writeBaseWithPending Disk.empty sharedIdentityBase
      let inner ← StoreInner.load ⟨state.1, 0⟩
      Except.ok (decide inner.dicts.subjects.Nodup, (inner.byOwner 0 1).length)) =
        .ok (true, 2) := by
    decide +kernel
  obtain ⟨⟨disk, roots⟩, hwrite, hscript⟩ := ExceptOk.bind_eq_ok hscript
  obtain ⟨inner, hload, hscript⟩ := ExceptOk.bind_eq_ok hscript
  obtain ⟨hsubjects, hlength⟩ := Prod.mk.inj (Except.ok.inj hscript)
  exact ⟨inner, secondary_indexes_eq_filtered_scan (.loaded hload) (of_decide_eq_true hsubjects) 1,
    hlength⟩

theorem identity_lookup_drops_visible_row :
    ¬ ∀ (_ : Sha256) (disk : Disk) (roots : Roots) (mtime : ℕ) (inner : StoreInner),
      StoreRun BaseInput.Valid (fun reader input => input.Valid reader) disk roots →
      StoreInner.load ⟨disk, mtime⟩ = .ok inner → inner.dicts.subjects.Nodup →
      ∀ identityKeyDigest generation, generation ≤ inner.generation →
        (inner.byIdentityKey identityKeyDigest generation).toList.Perm
          ((inner.iterVisible generation).filter
            (fun row => decide (row.identityKeyDigest = identityKeyDigest))) := by
  intro hall
  let _ := fixedDigest
  have hscript : (do
      let state ← writeBaseWithPending Disk.empty sharedIdentityBase
      let inner ← StoreInner.load ⟨state.1, 0⟩
      Except.ok (decide inner.dicts.subjects.Nodup, decide (1 ≤ inner.generation),
        ((inner.iterVisible 1).filter
          (fun row : StoredRow => decide (row.identityKeyDigest = Block.fill 32 1))).length)) =
      .ok (true, true, 2) := by
    decide +kernel
  obtain ⟨⟨disk, roots⟩, hwrite, hscript⟩ := ExceptOk.bind_eq_ok hscript
  obtain ⟨inner, hload, hscript⟩ := ExceptOk.bind_eq_ok hscript
  obtain ⟨hsubjects, hfacts⟩ := Prod.mk.inj (Except.ok.inj hscript)
  obtain ⟨hgeneration, hlength⟩ := Prod.mk.inj hfacts
  have hvalid : sharedIdentityBase.Valid := by decide +kernel
  have hperm := hall fixedDigest disk roots 0 inner (.base hvalid hwrite) hload
    (of_decide_eq_true hsubjects) (Block.fill 32 1) 1 (of_decide_eq_true hgeneration)
  have htoo := hperm.length_eq
  rw [hlength] at htoo
  cases hanswer : inner.byIdentityKey (Block.fill 32 1) 1 with
  | none =>
    rw [hanswer] at htoo
    cases htoo
  | some row =>
    rw [hanswer] at htoo
    cases htoo

end Instances

end StructuralStore
