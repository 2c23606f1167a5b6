import Urdira.StructuralStore.CompactSpec
import Urdira.Lib.Argmax

open ByteOrder KeyedSet MerkleBucket BinarySearch

namespace StructuralStore

namespace StoreReader

def Layered (reader : StoreReader) : Prop :=
  reader.segments.Pairwise (fun a b => ∀ row ∈ a.rows, ∀ row' ∈ b.rows,
    row'.validFrom < row.validFrom)

variable {reader : StoreReader}

theorem load_layered (manifest : Manifest) (seg : Segment) : (load manifest seg []).Layered := by
  simp [Layered, load]

theorem Layered.extend (h : reader.Layered) (hl : reader.Ledger) {input : DeltaInput}
    {manifest : Manifest} {seg : Segment} (hbuilt : input.Built reader manifest seg)
    (hs : input.Sound reader) : (reader.extend manifest seg).Layered := by
  refine List.pairwise_cons.mpr ⟨?_, h⟩
  intro old hold row hrow row' hrow'
  obtain ⟨orig, horig, heq⟩ := hbuilt.mem_rows hrow
  have hle := (hl.rows_valid row' (List.mem_flatMap.mpr ⟨old, hold, hrow'⟩)).1
  have hvf := (hs.opened_valid orig horig).1
  have hnewer := hs.newer
  rw [heq, hvf]
  omega

theorem Ledger.views_nodup (hl : reader.Ledger) (hu : reader.IdsUnique) :
    (reader.views.map (fun row => row.recordId)).Nodup := by
  rw [hl.map_views (fun row => row.recordId)]
  exact hu.sublist (List.filter_sublist.map _)

theorem Ledger.map_filter_visible (hl : reader.Ledger) (cond : RecordFields → Bool) :
    (reader.rows.filter (fun row =>
      cond row.toRecordFields && reader.isVisible row reader.generation)).map (viewToRow reader) =
      reader.views.filter (fun row => cond row.toRecordFields) := by
  unfold views
  rw [List.filter_map]
  have hfilter : reader.rows.filter (fun row =>
      cond row.toRecordFields && reader.isVisible row reader.generation) =
      reader.visible.filter (fun row => cond row.toRecordFields) := by
    rw [visible, List.filter_filter]
  rw [hfilter]
  congr 1
  refine List.filter_congr (fun row hrow => ?_)
  rw [Function.comp_apply, hl.viewToRow_eq hrow]

theorem Ledger.byOwner_views (hl : reader.Ledger) (owner : ℕ) :
    ((reader.byOwner owner reader.generation).map (viewToRow reader)).Perm
      (reader.views.filter (fun row => decide (row.ownerArtifact = owner))) := by
  rw [← hl.map_filter_visible (fun row => decide (row.ownerArtifact = owner))]
  exact (reader.byOwner_perm owner reader.generation).map _

theorem Ledger.byName_views (hl : reader.Ledger) (nameId : ℕ) :
    ((reader.byName nameId reader.generation).map (viewToRow reader)).Perm
      (reader.views.filter (fun row => decide (row.nameIdOpt = some nameId))) := by
  rw [← hl.map_filter_visible (fun row => decide (row.nameIdOpt = some nameId))]
  exact (reader.byName_perm nameId reader.generation).map _

def subjectField (direction : Direction) (row : RecordFields) : Option ℕ :=
  match direction with
  | .out => row.sourceSubject
  | .in => row.targetSubject

theorem Ledger.adjacency_views (hl : reader.Ledger) (subjectKey : Digest32)
    (direction : Direction) :
    ((reader.adjacency subjectKey direction reader.generation).map (viewToRow reader)).Perm
      (reader.views.filter (fun row =>
        match reader.subjectOrdinal subjectKey with
        | none => false
        | some ord => decide (subjectField direction row.toRecordFields = some ord))) := by
  rw [← hl.map_filter_visible (fun row =>
    match reader.subjectOrdinal subjectKey with
    | none => false
    | some ord => decide (subjectField direction row = some ord))]
  have hperm :=
    (reader.adjacency_perm subjectKey direction reader.generation).map (viewToRow reader)
  cases direction with
  | out => exact hperm
  | «in» => exact hperm

theorem Ledger.depsByOwner_views (hl : reader.Ledger) (owner : ℕ) :
    (reader.depsByOwner owner reader.generation).map (depViewToRow reader) =
      reader.visibleDeps.filter (fun dep => decide (dep.ownerArtifact = owner)) := by
  have hfilter : reader.depsByOwner owner reader.generation =
      reader.visibleDeps.filter (fun dep => decide (dep.ownerArtifact = owner)) := by
    rw [reader.depsByOwner_eq, visibleDeps, List.filter_filter]
  rw [hfilter]
  refine (List.map_congr_left (fun dep hdep => ?_)).trans (List.map_id _)
  exact hl.depViewToRow_eq (List.mem_filter.mp hdep).1

theorem Ledger.depsReverse_views (hl : reader.Ledger) (depArtifact : ℕ) :
    ((reader.depsReverse depArtifact reader.generation).map (depViewToRow reader)).Perm
      (reader.visibleDeps.filter (fun dep => decide (dep.depArtifact = depArtifact))) := by
  refine ((reader.depsReverse_perm depArtifact reader.generation).map _).trans (List.Perm.of_eq ?_)
  have hfilter : reader.deps.filter (fun dep => decide (dep.depArtifact = depArtifact) &&
      reader.depIsVisible dep reader.generation) =
      reader.visibleDeps.filter (fun dep => decide (dep.depArtifact = depArtifact)) := by
    rw [visibleDeps, List.filter_filter]
  rw [hfilter]
  refine (List.map_congr_left (fun dep hdep => ?_)).trans (List.map_id _)
  exact hl.depViewToRow_eq (List.mem_filter.mp hdep).1

theorem Ledger.pendingSitesByOwner_views (hl : reader.Ledger) (owner : ℕ) :
    ((reader.pendingSitesByOwner owner reader.generation).map (pendingToRow reader)).Perm
      (reader.visiblePending.filter (fun site => decide (site.ownerArtifact = owner))) := by
  refine ((reader.pendingSitesByOwner_perm owner reader.generation).map _).trans
    (List.Perm.of_eq ?_)
  have hfilter : reader.pendingSites.filter (fun site => decide (site.ownerArtifact = owner) &&
      reader.pendingIsVisible site reader.generation) =
      reader.visiblePending.filter (fun site => decide (site.ownerArtifact = owner)) := by
    rw [visiblePending, List.filter_filter]
  rw [hfilter]
  refine (List.map_congr_left (fun site hsite => ?_)).trans (List.map_id _)
  exact hl.pendingToRow_eq (List.mem_filter.mp hsite).1

theorem Ledger.getVisible_views (hl : reader.Ledger) (hu : reader.IdsUnique) (key : Digest32)
    (row : RecordRow) :
    (reader.getVisible key reader.generation).map (viewToRow reader) = some row ↔
      row ∈ reader.views ∧ row.recordId = key := by
  unfold getVisible views
  rw [Option.map_eq_some_iff, List.mem_map]
  constructor
  · rintro ⟨stored, hstored, rfl⟩
    obtain ⟨hget, hvis⟩ := Option.filter_eq_some_iff.mp hstored
    obtain ⟨hmem, rfl⟩ := reader.get_some hget
    have hvisible : stored ∈ reader.visible := List.mem_filter.mpr ⟨hmem, hvis⟩
    refine ⟨⟨stored, hvisible, rfl⟩, ?_⟩
    rw [hl.viewToRow_eq hvisible]
  · rintro ⟨⟨stored, hvisible, rfl⟩, hkey⟩
    obtain ⟨hmem, hvis⟩ := List.mem_filter.mp hvisible
    rw [hl.viewToRow_eq hvisible] at hkey
    refine ⟨stored, Option.filter_eq_some_iff.mpr ⟨?_, hvis⟩, rfl⟩
    exact (reader.get_eq_some_iff hu).mpr ⟨hmem, hkey⟩

def kindPage (rows : List RecordRow) (key : KindKey) (limit : ℕ) (afterKey : Option Digest32) :
    List RecordRow :=
  let candidates := sortOn (fun row => row.recordId)
    (rows.filter (fun row => decide (kindKey row.universalKindId row.category row.kindId = key)))
  let start :=
    match afterKey with
    | some after => partitionList (fun row => decide (row.recordId ≤ after)) candidates
    | none => 0
  (candidates.drop start).take limit

theorem kindPage_perm {rows rows' : List RecordRow}
    (hnodup : (rows.map (fun row => row.recordId)).Nodup)
    (h : rows.Perm rows') (key : KindKey) (limit : ℕ) (afterKey : Option Digest32) :
    kindPage rows key limit afterKey = kindPage rows' key limit afterKey := by
  have hsorted : sortOn (fun row : RecordRow => row.recordId) (rows.filter (fun row =>
        decide (kindKey row.universalKindId row.category row.kindId = key))) =
      sortOn (fun row : RecordRow => row.recordId) (rows'.filter (fun row =>
        decide (kindKey row.universalKindId row.category row.kindId = key))) := by
    refine perm_eq_of_sorted ?_ (sortOn_pairwise _ _) (sortOn_pairwise _ _)
      ((sortOn_perm _ _).trans ((h.filter _).trans (sortOn_perm _ _).symm))
    refine (functional_of_nodup hnodup).mono (fun row hrow => ?_)
    exact (List.mem_filter.mp ((mem_sortOn _ _ _).mp hrow)).1
  unfold kindPage
  rw [hsorted]

theorem Ledger.byKind_views (hl : reader.Ledger) (hu : reader.IdsUnique) (universalKindId : ℕ)
    (category : Category) (kindId limit : ℕ) (afterKey : Option Digest32) :
    (reader.byKind universalKindId category kindId reader.generation limit afterKey).map
        (viewToRow reader) =
      kindPage reader.views (kindKey universalKindId category kindId) limit afterKey := by
  have hperm := (reader.byKindCandidates_perm universalKindId category kindId
    reader.generation).map (viewToRow reader)
  rw [hl.map_filter_visible (fun row =>
    decide (kindKey row.universalKindId row.category row.kindId =
    kindKey universalKindId category kindId))] at hperm
  obtain ⟨candidates, hcandidates⟩ : ∃ candidates, candidates = reader.segments.flatMap (fun seg =>
    reader.ordinalRows seg ((keyRange (fun e => (ofLex e).1) seg.byKind
      (kindKey universalKindId category kindId)).map (fun e => (ofLex e).2)) reader.generation) :=
    ⟨_, rfl⟩
  rw [← hcandidates] at hperm
  have hsorted : (sortOn (fun row => row.recordId) candidates).map (viewToRow reader) =
      sortOn (fun row : RecordRow => row.recordId) (reader.views.filter (fun row =>
        decide (kindKey row.universalKindId row.category row.kindId =
          kindKey universalKindId category kindId))) := by
    refine perm_eq_of_sorted ?_ ?_ (sortOn_pairwise _ _)
      (((sortOn_perm _ _).map _).trans (hperm.trans (sortOn_perm _ _).symm))
    · refine (functional_of_nodup (hl.views_nodup hu)).mono (fun row hrow => ?_)
      have hmem := hperm.mem_iff.mp (((sortOn_perm _ _).map _).mem_iff.mp hrow)
      exact (List.mem_filter.mp hmem).1
    · rw [List.pairwise_map]
      exact sortOn_pairwise _ _
  unfold byKind kindPage
  simp only
  rw [← hcandidates, ← hsorted, List.map_take, List.map_drop]
  cases afterKey with
  | none => rfl
  | some after =>
    simp only
    rw [partitionList_map]
    rfl

def identityAnswer (rows : List RecordRow) (identityKeyDigest : Digest32) : Option RecordRow :=
  (rows.filter (fun row => decide (row.identityKeyDigest = identityKeyDigest))).argmax
    (fun row => (toLex (row.validFrom, OrderDual.toDual row.recordId) : ℕ ×ₗ Digest32ᵒᵈ))

theorem identityAnswer_injOn {rows : List RecordRow}
    (hnodup : (rows.map (fun row => row.recordId)).Nodup)
    (identityKeyDigest : Digest32) :
    ∀ a ∈ rows.filter (fun row => decide (row.identityKeyDigest = identityKeyDigest)),
      ∀ b ∈ rows.filter (fun row => decide (row.identityKeyDigest = identityKeyDigest)),
      (toLex (a.validFrom, OrderDual.toDual a.recordId) : ℕ ×ₗ Digest32ᵒᵈ) =
        toLex (b.validFrom, OrderDual.toDual b.recordId) → a = b := by
  intro a ha b hb hab
  have hid : a.recordId = b.recordId := congrArg (fun x => (ofLex x).2) hab
  exact functional_of_nodup hnodup a (List.mem_filter.mp ha).1 b (List.mem_filter.mp hb).1 hid

theorem identityAnswer_perm {rows rows' : List RecordRow}
    (hnodup : (rows.map (fun row => row.recordId)).Nodup) (h : rows.Perm rows')
    (identityKeyDigest : Digest32) :
    identityAnswer rows' identityKeyDigest = identityAnswer rows identityKeyDigest :=
  Argmax.argmax_perm (identityAnswer_injOn hnodup identityKeyDigest) (h.filter _)

theorem identityCandidates_pairwise (seg : Segment) (identityKeyDigest : Digest32) :
    (seg.identityCandidates identityKeyDigest).Pairwise (fun a b => a.recordId ≤ b.recordId) := by
  have hindex : seg.byIdentity.Pairwise (· ≤ ·) := by
    rw [seg.byIdentity_eq]
    exact sortOn_pairwise id _
  have hrange : (keyRange (fun e => (ofLex e).1) seg.byIdentity identityKeyDigest).Pairwise
      (fun a b => (ofLex a).2 ≤ (ofLex b).2) := by
    rw [keyRange_eq_filter (hindex.imp (fun h => mono_fst h))]
    refine (hindex.filter _).imp_of_mem ?_
    intro a b ha hb hab
    have hka : (ofLex a).1 = identityKeyDigest := by simpa using (List.mem_filter.mp ha).2
    have hkb : (ofLex b).1 = identityKeyDigest := by simpa using (List.mem_filter.mp hb).2
    rcases Prod.Lex.le_iff.mp hab with hlt | ⟨-, hle⟩
    · exact absurd (hka.trans hkb.symm) hlt.ne
    · exact hle
  unfold Segment.identityCandidates
  refine List.Pairwise.filterMap _ ?_ hrange
  intro a b hab row hrow row' hrow'
  obtain ⟨hi, rfl⟩ := List.getElem?_eq_some_iff.mp hrow
  obtain ⟨hj, rfl⟩ := List.getElem?_eq_some_iff.mp hrow'
  rcases Nat.lt_or_eq_of_le hab with hlt | heq
  · exact List.pairwise_iff_getElem.mp seg.rows_sorted _ _ hi hj hlt
  · simp only [heq, le_refl]

theorem Ledger.byIdentityKey_views (hl : reader.Ledger) (hu : reader.IdsUnique)
    (hlayer : reader.Layered)
    (identityKeyDigest : Digest32) :
    (reader.byIdentityKey identityKeyDigest reader.generation).map (viewToRow reader) =
      identityAnswer reader.views identityKeyDigest := by
  obtain ⟨candidates, hcandidates⟩ : ∃ candidates, candidates =
      (reader.segments.flatMap (fun seg => seg.identityCandidates identityKeyDigest)).filter
        (fun row => reader.isVisible row reader.generation) := ⟨_, rfl⟩
  have hties : candidates.Pairwise (fun a b => a.validFrom = b.validFrom →
      a.recordId ≤ b.recordId) := by
    rw [hcandidates]
    refine List.Pairwise.filter _ (List.pairwise_flatMap.mpr ⟨?_, ?_⟩)
    · intro seg _
      refine (identityCandidates_pairwise seg identityKeyDigest).imp ?_
      intro a b hab _
      exact hab
    · refine hlayer.imp ?_
      intro a b hab row hrow row' hrow' heq
      have hmem : ∀ (seg : Segment) (r : StoredRow), r ∈ seg.identityCandidates identityKeyDigest →
          r ∈ seg.rows := by
        intro seg r hr
        obtain ⟨e, -, he⟩ := List.mem_filterMap.mp hr
        exact List.mem_of_getElem? he
      exact absurd heq (hab row (hmem a row hrow) row' (hmem b row' hrow')).ne'
  have hperm : (candidates.map (viewToRow reader)).Perm
      (reader.views.filter (fun row => decide (row.identityKeyDigest = identityKeyDigest))) := by
    rw [← hl.map_filter_visible (fun row => decide (row.identityKeyDigest = identityKeyDigest)),
      hcandidates]
    refine List.Perm.map _ (((reader.identityCandidates_perm identityKeyDigest).filter _).trans ?_)
    rw [List.filter_filter]
    refine List.Perm.of_eq (List.filter_congr (fun row _ => ?_))
    exact Bool.and_comm _ _
  have hinj := identityAnswer_injOn (hl.views_nodup hu) identityKeyDigest
  have hanswer : reader.byIdentityKey identityKeyDigest reader.generation =
      candidates.argmax (fun row => row.validFrom) := by
    rw [hcandidates]
    rfl
  rw [hanswer, Argmax.argmax_eq_argmax_lex hties, identityAnswer,
    ← Argmax.argmax_perm hinj hperm.symm,
    Argmax.argmax_map]
  · rfl
  · intro a ha b hb
    exact hinj a (hperm.mem_iff.mp ha) b (hperm.mem_iff.mp hb)

end StoreReader

end StructuralStore
