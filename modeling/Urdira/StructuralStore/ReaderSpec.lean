import Urdira.StructuralStore.Reader
import Urdira.IndexingCore.MerkleBucketSpec

open ByteOrder KeyedSet MerkleBucket BinarySearch LastIndex

namespace StructuralStore

theorem indexOf_sorted {α E K : Type} [LinearOrder E] [LinearOrder K] (entry : α × ℕ → Option E)
    (rows : List α) {key : E → K} (hkey : Monotone key) :
    (indexOf entry rows).Pairwise (fun a b => key a ≤ key b) :=
  (sortOn_pairwise id _).imp (fun h => hkey h)

theorem indexOf_lookup {α E K : Type} [LinearOrder E] [LinearOrder K] {entry : α × ℕ → Option E}
    {rows : List α} {key : E → K} (hkey : Monotone key) (k : K) {view : E → Option α}
    {cond : α → Bool}
    (h : ∀ a i, rows[i]? = some a →
      ((entry (a, i)).filter (fun e => decide (key e = k))).bind view = if cond a then some a
        else none) :
    ((keyRange key (indexOf entry rows) k).filterMap view).Perm (rows.filter cond) := by
  rw [keyRange_eq_filter (indexOf_sorted entry rows hkey)]
  have hperm : (indexOf entry rows).Perm (rows.zipIdx.filterMap entry) := sortOn_perm id _
  refine ((hperm.filter _).filterMap view).trans ?_
  rw [← List.filterMap_eq_filter, List.filterMap_filterMap, List.filterMap_filterMap]
  have hpoint : ∀ p ∈ rows.zipIdx,
      ((entry p).bind (Option.guard (fun e => decide (key e = k)))).bind view =
        (Option.guard cond) p.1 := by
    rintro ⟨a, i⟩ hmem
    have := h a i (List.mem_zipIdx_iff_getElem?.mp hmem)
    cases hentry : entry (a, i) with
    | none =>
      rw [hentry] at this
      simpa [Option.guard] using this
    | some e =>
      rw [hentry] at this
      simpa [Option.guard, Option.filter] using this
  rw [List.filterMap_congr (g := fun p => Option.guard cond p.1)]
  · have hmap : rows.zipIdx.filterMap (fun p => Option.guard cond p.1) =
        (rows.zipIdx.map Prod.fst).filterMap (Option.guard cond) := by
      rw [List.filterMap_map]
      rfl
    rw [hmap, List.zipIdx_map_fst, List.filterMap_eq_filter]
  · intro p hp
    rw [← hpoint p hp]
    cases entry p <;> rfl

theorem mono_fst {A B : Type} [LinearOrder A] [LinearOrder B] :
    Monotone (fun e : A ×ₗ B => (ofLex e).1) :=
  Prod.Lex.monotone_fst_ofLex

theorem Quad.key_mono : Monotone Quad.key := Prod.Lex.monotone_fst_ofLex

def maxKey : Digest32 := Block.fill 32 255

theorem value_maxKey : maxKey.value = 2 ^ 256 - 1 := by
  decide +kernel

theorem value_bucketKeyBound {idx : ℕ} (h : idx < 1048576) :
    (bucketKeyBound idx).value = idx * 2 ^ 236 := by
  have hzero : beValue (List.replicate 29 0) = 0 := by decide +kernel
  have h₂ : (idx &&& 0xF) = idx % 16 := Nat.and_two_pow_sub_one_eq_mod idx 4
  simp only [Block.value, bucketKeyBound, beValue, List.length_cons, List.length_replicate, hzero,
    Fin.ofNat, h₂, Nat.shiftRight_eq_div_pow, Nat.shiftLeft_eq]
  norm_num
  omega

theorem mem_bucketKeyBounds {idx : ℕ} (h : idx < 1048576) {key : Digest32} (hkey : key ≠ maxKey) :
    ((bucketKeyBounds idx).1 ≤ key ∧ key < (bucketKeyBounds idx).2) ↔ bucketIndex key = idx := by
  have hlt : key.value < 2 ^ 256 := by
    have := beValue_lt key.bytes
    rw [key.size] at this
    norm_num at this ⊢
    exact this
  have hne : key.value ≠ 2 ^ 256 - 1 := by
    intro hv
    apply hkey
    have hle₁ := (Block.le_iff_value_le key maxKey).mpr (by rw [hv, value_maxKey])
    have hle₂ := (Block.le_iff_value_le maxKey key).mpr (by rw [hv, value_maxKey])
    exact le_antisymm hle₁ hle₂
  rw [bucketIndex_eq, Block.le_iff_value_le, Block.lt_iff_value_lt]
  have hshift : (1 : ℕ) <<< 20 = 1048576 := by decide
  unfold bucketKeyBounds
  rw [hshift]
  by_cases hnext : idx + 1 < 1048576
  · rw [if_pos hnext, value_bucketKeyBound h, value_bucketKeyBound hnext]
    omega
  · rw [if_neg hnext, value_bucketKeyBound h]
    change idx * 2 ^ 236 ≤ key.value ∧ key.value < maxKey.value ↔ _
    rw [value_maxKey]
    omega

theorem bucketKeyBounds_le {idx : ℕ} (h : idx < 1048576) :
    (bucketKeyBounds idx).1 ≤ (bucketKeyBounds idx).2 := by
  have hshift : (1 : ℕ) <<< 20 = 1048576 := by decide
  rw [Block.le_iff_value_le]
  unfold bucketKeyBounds
  rw [hshift]
  by_cases hnext : idx + 1 < 1048576
  · rw [if_pos hnext, value_bucketKeyBound h, value_bucketKeyBound hnext]
    omega
  · rw [if_neg hnext, value_bucketKeyBound h]
    change idx * 2 ^ 236 ≤ maxKey.value
    rw [value_maxKey]
    omega

namespace StoreReader

variable (reader : StoreReader)

theorem quadRows_perm (seg : Segment) (subject : StoredRow → Option ℕ) (k generation : ℕ) :
    (reader.quadRows seg (keyRange Quad.key (adjacencyIndex subject seg.rows) k) generation).Perm
      (seg.rows.filter (fun row =>
        decide (subject row = some k) && reader.isVisible row generation)) := by
  refine indexOf_lookup Quad.key_mono k ?_
  intro row i hrow
  cases hs : subject row with
  | none => simp
  | some s =>
    by_cases hk : s = k
    · subst hk
      simp only [Option.map_some, Option.filter, Quad.key, quad, ofLex_toLex, decide_true, if_true,
        Option.bind_some, Quad.ordinal, Quad.validFrom, Quad.validTo, hrow, isVisible,
          Bool.true_and]
      rfl
    · have hkey : Quad.key (quad s row.validFrom row.validTo i) ≠ k := hk
      simp [Option.filter, hkey, hk]

theorem ordinalRows_perm {E K : Type} [LinearOrder E] [LinearOrder K] (seg : Segment)
    {entry : StoredRow × ℕ → Option (E)} {key : E → K} (hkey : Monotone key)
    {ordinal : E → ℕ} (k : K)
    (generation : ℕ) {cond : StoredRow → Bool}
    (h : ∀ row i, ((entry (row, i)).filter (fun e => decide (key e = k))).map ordinal =
      if cond row then some i else none) :
    (reader.ordinalRows seg ((keyRange key (indexOf entry seg.rows) k).map ordinal) generation).Perm
      (seg.rows.filter (fun row => cond row && reader.isVisible row generation)) := by
  rw [ordinalRows, List.filterMap_map]
  refine indexOf_lookup hkey k ?_
  intro row i hrow
  have hri := h row i
  cases hf : (entry (row, i)).filter (fun e => decide (key e = k)) with
  | none =>
    rw [hf] at hri
    cases hc : cond row with
    | false => simp
    | true => simp [hc] at hri
  | some e =>
    rw [hf] at hri
    cases hc : cond row with
    | false => simp [hc] at hri
    | true =>
      simp only [hc, Option.map_some, if_true, Option.some.injEq] at hri
      simp [hri, hrow, Option.filter]

theorem flatMap_filter_perm {β : Type} {segments : List Segment} {items : Segment → List β}
    {query : Segment → List β} {cond : β → Bool}
    (h : ∀ seg, (query seg).Perm ((items seg).filter cond)) :
    (segments.flatMap query).Perm ((segments.flatMap items).filter cond) := by
  rw [List.filter_flatMap]
  exact List.Perm.flatMap_left _ (fun seg _ => h seg)

theorem byOwner_perm (owner generation : ℕ) :
    (reader.byOwner owner generation).Perm
      (reader.rows.filter (fun row =>
        decide (row.ownerArtifact = owner) && reader.isVisible row generation)) := by
  refine flatMap_filter_perm (fun seg => ?_)
  have hindex : seg.byOwner = adjacencyIndex (fun row => some row.ownerArtifact) seg.rows :=
    seg.byOwner_eq
  rw [hindex]
  simpa only [Option.some.injEq] using
    reader.quadRows_perm seg (fun row => some row.ownerArtifact) owner generation

theorem byName_perm (nameId generation : ℕ) :
    (reader.byName nameId generation).Perm
      (reader.rows.filter (fun row =>
        decide (row.nameIdOpt = some nameId) && reader.isVisible row generation)) := by
  refine flatMap_filter_perm (fun seg => ?_)
  rw [seg.byName_eq]
  refine reader.ordinalRows_perm seg mono_fst nameId generation (fun row i => ?_)
  cases hn : row.nameIdOpt with
  | none => simp
  | some n => by_cases hk : n = nameId <;> simp [hk, Option.filter]

theorem byKindCandidates_perm (universalKindId : ℕ) (category : Category) (kindId generation : ℕ) :
    (reader.segments.flatMap (fun seg => reader.ordinalRows seg
      ((keyRange (fun e => (ofLex e).1) seg.byKind (kindKey universalKindId category kindId)).map
        (fun e => (ofLex e).2)) generation)).Perm
      (reader.rows.filter (fun row =>
        decide (kindKey row.universalKindId row.category row.kindId =
          kindKey universalKindId category kindId) && reader.isVisible row generation)) := by
  refine flatMap_filter_perm (fun seg => ?_)
  rw [seg.byKind_eq]
  refine reader.ordinalRows_perm seg mono_fst _ generation (fun row i => ?_)
  by_cases hk : kindKey row.universalKindId row.category row.kindId =
    kindKey universalKindId category kindId <;> simp [hk, Option.filter]

theorem identityCandidates_perm (identityKeyDigest : Digest32) :
    (reader.segments.flatMap (fun seg => seg.identityCandidates identityKeyDigest)).Perm
      (reader.rows.filter (fun row => decide (row.identityKeyDigest = identityKeyDigest))) := by
  refine flatMap_filter_perm (fun seg => ?_)
  rw [Segment.identityCandidates, seg.byIdentity_eq]
  refine indexOf_lookup mono_fst identityKeyDigest (fun row i hrow => ?_)
  by_cases hk : row.identityKeyDigest = identityKeyDigest <;> simp [hk, hrow, Option.filter]

theorem byIdentityLast_some {identityKeyDigest : Digest32} {last : StoredRow}
    (h : reader.byIdentityLast identityKeyDigest = some last) :
    last ∈ reader.rows ∧ last.identityKeyDigest = identityKeyDigest ∧
      ∀ row ∈ reader.rows, row.identityKeyDigest = identityKeyDigest →
        row.validFrom ≤ last.validFrom := by
  obtain ⟨hmem, hmax, -⟩ := List.argmax_eq_some_iff.mp h
  have hperm := reader.identityCandidates_perm identityKeyDigest
  obtain ⟨hrow, hkey⟩ := List.mem_filter.mp (hperm.mem_iff.mp hmem)
  refine ⟨hrow, by simpa using hkey, fun row hrow' hkey' => hmax row (hperm.mem_iff.mpr ?_)⟩
  exact List.mem_filter.mpr ⟨hrow', by simpa using hkey'⟩

theorem byIdentityLast_none {identityKeyDigest : Digest32}
    (h : reader.byIdentityLast identityKeyDigest = none) :
    ∀ row ∈ reader.rows, row.identityKeyDigest ≠ identityKeyDigest := by
  intro row hrow hkey
  have hnil := List.argmax_eq_none.mp h
  have hmem := (reader.identityCandidates_perm identityKeyDigest).mem_iff.mpr
    (List.mem_filter.mpr ⟨hrow, by simpa using hkey⟩)
  rw [hnil] at hmem
  cases hmem

def subjectOf (direction : Direction) (row : StoredRow) : Option ℕ :=
  match direction with
  | .out => row.sourceSubject
  | .in => row.targetSubject

theorem adjacency_perm (subjectKey : Digest32) (direction : Direction) (generation : ℕ) :
    (reader.adjacency subjectKey direction generation).Perm
      (reader.rows.filter (fun row =>
        (match reader.subjectOrdinal subjectKey with
          | none => false
          | some ord => decide (subjectOf direction row = some ord)) &&
          reader.isVisible row generation)) := by
  unfold adjacency
  cases reader.subjectOrdinal subjectKey with
  | none => simp
  | some ord =>
    refine flatMap_filter_perm (fun seg => ?_)
    cases direction with
    | out =>
      dsimp only
      rw [seg.adjOut_eq]
      exact reader.quadRows_perm seg (fun row => row.sourceSubject) ord generation
    | «in» =>
      dsimp only
      rw [seg.adjIn_eq]
      exact reader.quadRows_perm seg (fun row => row.targetSubject) ord generation

theorem depsByOwner_eq (ownerArtifact generation : ℕ) :
    reader.depsByOwner ownerArtifact generation =
      reader.deps.filter (fun dep =>
        decide (dep.ownerArtifact = ownerArtifact) && reader.depIsVisible dep generation) := by
  rw [depsByOwner, deps, List.filter_flatMap]
  congr 1
  funext seg
  rw [List.filter_filter]
  congr 1
  funext dep
  exact Bool.and_comm _ _

theorem depsReverse_perm (depArtifact generation : ℕ) :
    (reader.depsReverse depArtifact generation).Perm
      (reader.deps.filter (fun dep =>
        decide (dep.depArtifact = depArtifact) && reader.depIsVisible dep generation)) := by
  refine flatMap_filter_perm (fun seg => ?_)
  rw [seg.depsReverse_eq]
  refine indexOf_lookup mono_fst depArtifact (fun dep i hdep => ?_)
  by_cases hk : dep.depArtifact = depArtifact <;> simp [hk, hdep, Option.filter]

theorem iterVisible_perm (generation : ℕ) :
    (reader.iterVisible generation).Perm
      (reader.rows.filter (fun row => reader.isVisible row generation)) := by
  have h := KWayMerge.mergeAll_perm (fun row : StoredRow => row.recordId)
    (reader.segments.map Segment.rows)
  exact h.filter _

theorem iterVisibleDeps_eq (generation : ℕ) :
    reader.iterVisibleDeps generation =
      reader.deps.filter (fun dep => reader.depIsVisible dep generation) := by
  rw [iterVisibleDeps, deps, List.filter_flatMap]

theorem iterVisiblePendingSites_perm (generation : ℕ) :
    (reader.iterVisiblePendingSites generation).Perm
      (reader.pendingSites.filter (fun site => reader.pendingIsVisible site generation)) := by
  rw [pendingSites, List.filter_flatMap]
  exact sortOn_perm _ _

theorem pendingOwner_sorted (seg : Segment) :
    seg.pending.Pairwise (fun a b => a.ownerArtifact ≤ b.ownerArtifact) :=
  seg.pending_sorted.imp (fun h => mono_fst h.le)

theorem pendingSitesByOwner_perm (ownerArtifact generation : ℕ) :
    (reader.pendingSitesByOwner ownerArtifact generation).Perm
      (reader.pendingSites.filter (fun site =>
        decide (site.ownerArtifact = ownerArtifact) &&
          reader.pendingIsVisible site generation)) := by
  refine (sortOn_perm _ _).trans (flatMap_filter_perm (fun seg => ?_))
  rw [keyRange_eq_filter (pendingOwner_sorted seg), List.filter_filter]
  refine List.Perm.of_eq (congrArg (fun p => seg.pending.filter p) (funext fun site => ?_))
  exact Bool.and_comm _ _

theorem get_some {key : Digest32} {row : StoredRow} (h : reader.get key = some row) :
    row ∈ reader.rows ∧ row.recordId = key := by
  obtain ⟨seg, hseg, hrow⟩ := List.exists_of_findSome?_eq_some h
  obtain ⟨hmem, hkey⟩ := binarySearchExact_some hrow
  exact ⟨List.mem_flatMap.mpr ⟨seg, hseg, hmem⟩, hkey⟩

theorem get_none {key : Digest32} (h : reader.get key = none) :
    ∀ row ∈ reader.rows, row.recordId ≠ key := by
  intro row hrow
  obtain ⟨seg, hseg, hmem⟩ := List.mem_flatMap.mp hrow
  exact binarySearchExact_none seg.rows_sorted (List.findSome?_eq_none_iff.mp h seg hseg) row hmem

theorem get_eq_some_iff (hnodup : (reader.rows.map (fun row => row.recordId)).Nodup)
    {key : Digest32} {row : StoredRow} :
    reader.get key = some row ↔ row ∈ reader.rows ∧ row.recordId = key := by
  constructor
  · exact reader.get_some
  · rintro ⟨hmem, hkey⟩
    cases hget : reader.get key with
    | none => exact absurd hkey (reader.get_none hget row hmem)
    | some row' =>
      obtain ⟨hmem', hkey'⟩ := reader.get_some hget
      rw [List.inj_on_of_nodup_map hnodup hmem hmem' (hkey.trans hkey'.symm)]

theorem bucketSlice_eq {β : Type} {key : β → Digest32} {items : List β}
    (hs : items.Pairwise (fun a b => key a ≤ key b)) (hmax : ∀ a ∈ items, key a ≠ maxKey) {idx : ℕ}
    (hidx : idx < 1048576) :
    slice items (lowerBound key items (bucketKeyBounds idx).1)
      (lowerBound key items (bucketKeyBounds idx).2) =
      items.filter (fun a => decide (bucketIndex (key a) = idx)) := by
  rw [slice_lowerBound hs (bucketKeyBounds_le hidx)]
  refine List.filter_congr (fun a ha => ?_)
  rw [decide_eq_decide]
  exact mem_bucketKeyBounds hidx (hmax a ha)

def visibleEntries (generation : ℕ) : List (Digest32 × Digest32) :=
  (reader.rows.filter (fun row => reader.isVisible row generation)).map
    (fun row => (row.recordId, row.recordDigest))

def visibleDepEntries [Sha256] (generation : ℕ) : List (Digest32 × Digest32) :=
  (reader.deps.filter (fun dep => reader.depIsVisible dep generation)).map
    (fun dep => (dep.dependencyId, dependencyLogical dep.dependencyId))

theorem visibleEntriesInBucket_eq (hmax : ∀ row ∈ reader.rows, row.recordId ≠ maxKey) {idx : ℕ}
    (hidx : idx < 1048576) (generation : ℕ) :
    reader.visibleEntriesInBucket idx generation =
      bucketOf (reader.visibleEntries generation) idx := by
  unfold visibleEntriesInBucket bucketOf visibleEntries rows
  rw [List.filter_map, List.filter_filter, List.filter_flatMap, List.map_flatMap]
  refine List.flatMap_congr (fun seg hseg => ?_)
  rw [bucketSlice_eq seg.rows_sorted (fun row hrow => hmax row
    (List.mem_flatMap.mpr ⟨seg, hseg, hrow⟩)) hidx, List.filter_filter]
  congr 2
  funext row
  exact Bool.and_comm _ _

theorem visibleDepEntriesInBucket_eq [Sha256]
    (hmax : ∀ dep ∈ reader.deps, dep.dependencyId ≠ maxKey)
    {idx : ℕ} (hidx : idx < 1048576) (generation : ℕ) :
    reader.visibleDepEntriesInBucket idx generation =
      bucketOf (reader.visibleDepEntries generation) idx := by
  unfold visibleDepEntriesInBucket bucketOf visibleDepEntries deps
  rw [List.filter_map, List.filter_filter, List.filter_flatMap, List.map_flatMap]
  refine List.flatMap_congr (fun seg hseg => ?_)
  rw [bucketSlice_eq seg.deps_sorted (fun dep hdep => hmax dep
    (List.mem_flatMap.mpr ⟨seg, hseg, hdep⟩)) hidx, List.filter_filter]
  congr 2
  funext dep
  exact Bool.and_comm _ _

end StoreReader

end StructuralStore
