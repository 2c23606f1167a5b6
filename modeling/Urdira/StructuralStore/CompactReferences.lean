import Urdira.StructuralStore.EntitiesIndex

open ByteOrder KeyedSet MerkleBucket

namespace StructuralStore

section Ranks

variable {α β γ K : Type} [LinearOrder K]

theorem getElem?_sorted_iff {key : α → K} {xs : List α}
    (hs : xs.Pairwise (fun a b => key a ≤ key b))
    (i : ℕ) (k : K) : (xs[i]?).map key = some k ↔
      xs.countP (fun a => decide (key a < k)) ≤ i ∧
        i < xs.countP (fun a => decide (key a ≤ k)) := by
  induction xs generalizing i with
  | nil => simp
  | cons a xs ih =>
    obtain ⟨ha, hs'⟩ := List.pairwise_cons.mp hs
    rw [List.countP_cons, List.countP_cons]
    rcases lt_trichotomy (key a) k with hlt | heq | hgt
    · simp only [hlt, hlt.le, decide_true, if_true]
      cases i with
      | zero =>
        simp only [List.getElem?_cons_zero, Option.map_some, Option.some.injEq]
        exact ⟨fun h => absurd h hlt.ne, fun h => absurd h.1 (by omega)⟩
      | succ i =>
        rw [List.getElem?_cons_succ, ih hs' i]
        omega
    · have hnone : xs.countP (fun b => decide (key b < k)) = 0 := by
        rw [List.countP_eq_zero]
        intro b hb
        have hle := ha b hb
        simp only [decide_eq_true_eq, not_lt]
        exact heq ▸ hle
      simp only [heq, lt_irrefl, le_refl, decide_true, decide_false, if_true, hnone]
      cases i with
      | zero =>
        simp only [List.getElem?_cons_zero, Option.map_some, heq]
        simp
      | succ i =>
        rw [List.getElem?_cons_succ, ih hs' i, hnone]
        simp
    · have hnone : xs.countP (fun b => decide (key b ≤ k)) = 0 := by
        rw [List.countP_eq_zero]
        intro b hb
        have hle := ha b hb
        simp only [decide_eq_true_eq, not_le]
        exact hgt.trans_le hle
      simp only [not_le.mpr hgt, decide_false, hnone]
      cases i with
      | zero =>
        simp only [List.getElem?_cons_zero, Option.map_some, Option.some.injEq]
        exact ⟨fun h => absurd h hgt.ne', fun h => absurd h.2 (by simp)⟩
      | succ i =>
        rw [List.getElem?_cons_succ, ih hs' i, hnone]
        simp

theorem map_pair_perm_iff {xs : List α} {r : α → β} {f : β → γ} {g : α → γ} :
    (xs.map (fun x => (r x, f (r x)))).Perm (xs.map (fun x => (r x, g x))) ↔
      ∀ x ∈ xs, f (r x) = g x := by
  constructor
  · intro h x hx
    have hmem : (r x, g x) ∈ xs.map (fun x => (r x, f (r x))) :=
      h.mem_iff.mpr (List.mem_map.mpr ⟨x, hx, rfl⟩)
    obtain ⟨y, -, hy⟩ := List.mem_map.mp hmem
    obtain ⟨hr, hg⟩ := Prod.mk.inj hy
    rw [← hr, hg]
  · intro h
    refine List.Perm.of_eq (List.map_congr_left (fun x hx => ?_))
    rw [h x hx]

end Ranks

namespace StoreReader

def recordAt (seg : Segment) (record : Option ℕ) : Option Digest32 :=
  record.bind (fun ordinal => (seg.rows[ordinal]?).map (fun row => row.recordId))

def references (reader : StoreReader) (generation : ℕ) : List (DependencyRow × Option Digest32) :=
  reader.segments.flatMap (fun seg =>
    (seg.deps.filter (fun dep => reader.depIsVisible dep generation)).map
      (fun dep => (depViewToRow reader dep, recordAt seg dep.record)))

def visibleBefore (reader : StoreReader) (generation : ℕ) (id : Digest32) : ℕ :=
  (reader.iterVisible generation).countP (fun row => decide (row.recordId < id))

def visibleUpTo (reader : StoreReader) (generation : ℕ) (id : Digest32) : ℕ :=
  (reader.iterVisible generation).countP (fun row => decide (row.recordId ≤ id))

def InPlace (reader : StoreReader) (generation : ℕ) (seg : Segment) (ordinal : ℕ) : Prop :=
  match seg.rows[ordinal]? with
  | some row => reader.visibleBefore generation row.recordId ≤ ordinal ∧
      ordinal < reader.visibleUpTo generation row.recordId
  | none => (reader.iterVisible generation).length ≤ ordinal

def ReferencesInPlace (reader : StoreReader) (generation : ℕ) : Prop :=
  ∀ seg ∈ reader.segments, ∀ dep ∈ seg.deps, reader.depIsVisible dep generation = true →
    ∀ ordinal, dep.record = some ordinal → reader.InPlace generation seg ordinal

end StoreReader

section Compact

variable {reader : StoreReader} {seg : Segment} {manifest : Manifest} {generation : ℕ}

theorem recordAt_compacted (h : (compactInput reader generation).Built
      (sortOn (fun row => row.recordId) (compactInput reader generation).rows) seg) (ordinal : ℕ)
    (id : Digest32) : StoreReader.recordAt seg (some ordinal) = some id ↔
      reader.visibleBefore generation id ≤ ordinal ∧
        ordinal < reader.visibleUpTo generation id := by
  have hids : seg.rows.map (fun row => row.recordId) =
      (sortOn (fun row => row.recordId) (compactInput reader generation).rows).map
        (fun row => row.recordId) := by
    rw [h.rows_eq, List.map_map]
    rfl
  have hcount : ∀ p : Digest32 → Bool,
      (sortOn (fun row => row.recordId) (compactInput reader generation).rows).countP
        (fun row => p row.recordId) = (reader.iterVisible generation).countP
          (fun row => p row.recordId) := by
    intro p
    rw [(sortOn_perm _ _).countP_eq]
    exact List.countP_map
  have hsorted := getElem?_sorted_iff (sortOn_pairwise (fun row : RecordRow => row.recordId)
    (compactInput reader generation).rows) ordinal id
  rw [hcount (fun key => decide (key < id)), hcount (fun key => decide (key ≤ id))] at hsorted
  rw [← List.getElem?_map, ← hids, List.getElem?_map] at hsorted
  exact hsorted

theorem recordAt_compacted_none (h : (compactInput reader generation).Built
      (sortOn (fun row => row.recordId) (compactInput reader generation).rows) seg) (ordinal : ℕ) :
    StoreReader.recordAt seg (some ordinal) = none ↔
      (reader.iterVisible generation).length ≤ ordinal := by
  have hlength : seg.rows.length = (reader.iterVisible generation).length := by
    rw [h.rows_eq, List.length_map, length_sortOn]
    exact List.length_map _
  unfold StoreReader.recordAt
  rw [Option.bind_some, Option.map_eq_none_iff, List.getElem?_eq_none_iff, hlength]

theorem inPlace_iff (h : (compactInput reader generation).Built
      (sortOn (fun row => row.recordId) (compactInput reader generation).rows) seg) (old : Segment)
    (ordinal : ℕ) :
    StoreReader.recordAt seg (some ordinal) = StoreReader.recordAt old (some ordinal) ↔
      reader.InPlace generation old ordinal := by
  unfold StoreReader.InPlace
  cases hrow : old.rows[ordinal]? with
  | none =>
    have hold : StoreReader.recordAt old (some ordinal) = none := by
      unfold StoreReader.recordAt
      rw [Option.bind_some, hrow]
      rfl
    rw [hold]
    exact recordAt_compacted_none h ordinal
  | some row =>
    have hold : StoreReader.recordAt old (some ordinal) = some row.recordId := by
      unfold StoreReader.recordAt
      rw [Option.bind_some, hrow]
      rfl
    rw [hold]
    exact recordAt_compacted h ordinal row.recordId

theorem depIsVisible_compacted (dep : DependencyRow)
    (hvisible : reader.depIsVisible dep generation = true) :
    (StoreReader.load manifest seg []).depIsVisible (depViewToRow reader dep) generation = true :=
  hvisible

theorem references_compacted (h : (compactInput reader generation).Built
      (sortOn (fun row => row.recordId) (compactInput reader generation).rows) seg) :
    ((StoreReader.load manifest seg []).references generation).Perm
      ((reader.iterVisibleDeps generation).map (fun dep =>
        (depViewToRow reader dep, StoreReader.recordAt seg (depViewToRow reader dep).record))) := by
  have hsegments : (StoreReader.load manifest seg []).segments = [seg] := rfl
  have hall :
      seg.deps.filter (fun dep => (StoreReader.load manifest seg []).depIsVisible dep generation) =
      seg.deps := by
    rw [List.filter_eq_self]
    intro dep hdep
    obtain ⟨old, hold, rfl⟩ := List.mem_map.mp (h.deps_perm.mem_iff.mp hdep)
    obtain ⟨oldSeg, -, hmem⟩ := List.mem_flatMap.mp hold
    exact depIsVisible_compacted old (List.mem_filter.mp hmem).2
  unfold StoreReader.references
  rw [hsegments, List.flatMap_singleton, hall]
  refine (h.deps_perm.map _).trans (List.Perm.of_eq ?_)
  exact List.map_map

theorem references_eq (reader : StoreReader) (generation : ℕ) :
    reader.references generation = (reader.segments.flatMap (fun seg =>
      (seg.deps.filter (fun dep => reader.depIsVisible dep generation)).map
        (fun dep => (seg, dep)))).map
        (fun p => (depViewToRow reader p.2, StoreReader.recordAt p.1 p.2.record)) := by
  unfold StoreReader.references
  rw [List.map_flatMap]
  simp only [List.map_map, Function.comp_def]

theorem references_perm_iff (h : (compactInput reader generation).Built
      (sortOn (fun row => row.recordId) (compactInput reader generation).rows) seg) :
    ((StoreReader.load manifest seg []).references generation).Perm (reader.references generation) ↔
      reader.ReferencesInPlace generation := by
  have hvisible : (reader.iterVisibleDeps generation).map (fun dep =>
      (depViewToRow reader dep, StoreReader.recordAt seg (depViewToRow reader dep).record)) =
      (reader.segments.flatMap (fun seg => (seg.deps.filter (fun dep =>
        reader.depIsVisible dep generation)).map (fun dep => (seg, dep)))).map
        (fun p => (depViewToRow reader p.2,
          StoreReader.recordAt seg (depViewToRow reader p.2).record)) := by
    unfold StoreReader.iterVisibleDeps
    rw [List.map_flatMap, List.map_flatMap]
    simp only [List.map_map, Function.comp_def]
  have hcompacted : ((StoreReader.load manifest seg []).references generation).Perm _ :=
    references_compacted h
  rw [hvisible] at hcompacted
  rw [references_eq reader, hcompacted.congr_left]
  refine (map_pair_perm_iff (r := fun p : Segment × DependencyRow => depViewToRow reader p.2)
    (f := fun dep => StoreReader.recordAt seg dep.record)).trans ?_
  constructor
  · intro hall old hold dep hdep hvis ordinal hrecord
    have hkept := hall (old, dep) (List.mem_flatMap.mpr ⟨old, hold,
      List.mem_map.mpr ⟨dep, List.mem_filter.mpr ⟨hdep, hvis⟩, rfl⟩⟩)
    change StoreReader.recordAt seg dep.record = StoreReader.recordAt old dep.record at hkept
    rw [hrecord] at hkept
    exact (inPlace_iff h old ordinal).mp hkept
  · rintro hall ⟨old, dep⟩ hmem
    obtain ⟨old', hold, hmem⟩ := List.mem_flatMap.mp hmem
    obtain ⟨dep', hdep, heq⟩ := List.mem_map.mp hmem
    obtain ⟨rfl, rfl⟩ := Prod.mk.inj heq
    obtain ⟨hdep, hvis⟩ := List.mem_filter.mp hdep
    change StoreReader.recordAt seg dep'.record = StoreReader.recordAt old' dep'.record
    cases hrecord : dep'.record with
    | none => rfl
    | some ordinal =>
      exact (inPlace_iff h old' ordinal).mpr (hall old' hold dep' hdep hvis ordinal hrecord)

theorem compaction_keeps_references_iff [Sha256] {disk disk' : Disk} {roots : Roots}
    (hopen : StoreReader.open disk = .ok reader)
    (hcompact : compact disk generation = .ok (disk', roots)) :
    ∃ compacted, StoreReader.open disk' = .ok compacted ∧
      ((compacted.references generation).Perm (reader.references generation) ↔
        reader.ReferencesInPlace generation) := by
  unfold compact at hcompact
  obtain ⟨reader', hopen', hwrite⟩ := ExceptOk.bind_eq_ok hcompact
  obtain rfl := Except.ok.inj (hopen.symm.trans hopen')
  obtain ⟨seg, hbuilt, hpub, -⟩ := publishBase_spec (sortOn_perm _ _) hwrite
  exact ⟨StoreReader.load (baseManifest generation roots) seg [],
    open_ok_iff.mpr ⟨_, seg, [], hpub.opens, rfl⟩, references_perm_iff hbuilt⟩

end Compact

section Instances

instance (reader : StoreReader) (generation : ℕ) (seg : Segment) (ordinal : ℕ) :
    Decidable (reader.InPlace generation seg ordinal) :=
  match h : seg.rows[ordinal]? with
  | some row => decidable_of_iff (reader.visibleBefore generation row.recordId ≤ ordinal ∧
      ordinal < reader.visibleUpTo generation row.recordId) (by unfold StoreReader.InPlace; rw [h])
  | none => decidable_of_iff ((reader.iterVisible generation).length ≤ ordinal)
      (by unfold StoreReader.InPlace; rw [h])

instance (reader : StoreReader) (generation : ℕ) :
    Decidable (reader.ReferencesInPlace generation) :=
  inferInstanceAs (Decidable (∀ seg ∈ reader.segments, ∀ dep ∈ seg.deps,
    reader.depIsVisible dep generation = true → ∀ ordinal ∈ dep.record,
      reader.InPlace generation seg ordinal))

def referringDependency (record : ℕ) : DependencyRow :=
  { plainDependency (Block.fill 32 1) 0 1 with record := some record }

def referringBase : BaseInput :=
  { entityBase [plainEntity (Block.fill 32 2) [] 0 1] with deps := [referringDependency 0] }

theorem compaction_keeps_references_iff_later_row :
    ∃ reader compacted : StoreReader, (compacted.references 2).Perm (reader.references 2) ∧
      reader.references 2 = [(referringDependency 0, some (Block.fill 32 2))] := by
  let _ := fixedDigest
  have hscript : (do
      let state ← replay (fun reader input => input.Valid reader ∧ input.Distinct reader)
        referringBase
        [entityDelta [plainEntity (Block.fill 32 3) [] 0 2] 2]
      let reader ← StoreReader.open state.1
      let written ← compact state.1 2
      Except.ok (decide (reader.ReferencesInPlace 2), decide (reader.references 2 =
        [(referringDependency 0, some (Block.fill 32 2))]))) = .ok (true, true) := by
    decide +kernel
  obtain ⟨⟨disk, roots⟩, hrun, hscript⟩ := ExceptOk.bind_eq_ok hscript
  obtain ⟨reader, hopen, hscript⟩ := ExceptOk.bind_eq_ok hscript
  obtain ⟨⟨disk', roots'⟩, hcompact, hscript⟩ := ExceptOk.bind_eq_ok hscript
  obtain ⟨hplace, hrefs⟩ := Prod.mk.inj (Except.ok.inj hscript)
  obtain ⟨compacted, -, hiff⟩ := compaction_keeps_references_iff hopen hcompact
  exact ⟨reader, compacted, hiff.mpr (of_decide_eq_true hplace), of_decide_eq_true hrefs⟩

theorem earlier_row_shifts_reference :
    ¬ ∀ (_ : Sha256) (disk disk' : Disk) (roots roots' : Roots) (reader compacted : StoreReader)
        (generation : ℕ),
      StoreRun BaseInput.Valid (fun reader input => input.Valid reader ∧ input.Distinct reader)
        disk roots →
      StoreReader.open disk = .ok reader → compact disk generation = .ok (disk', roots') →
      StoreReader.open disk' = .ok compacted →
      (compacted.references generation).Perm (reader.references generation) := by
  intro hall
  let _ := fixedDigest
  have hscript : (do
      let state ← replay (fun reader input => input.Valid reader ∧ input.Distinct reader)
        referringBase
        [entityDelta [plainEntity (Block.fill 32 1) [] 0 2] 2]
      let reader ← StoreReader.open state.1
      let written ← compact state.1 2
      let compacted ← StoreReader.open written.1
      Except.ok (decide ((compacted.references 2).Perm (reader.references 2)))) = .ok false := by
    decide +kernel
  obtain ⟨⟨disk, roots⟩, hrun, hscript⟩ := ExceptOk.bind_eq_ok hscript
  obtain ⟨reader, hopen, hscript⟩ := ExceptOk.bind_eq_ok hscript
  obtain ⟨⟨disk', roots'⟩, hcompact, hscript⟩ := ExceptOk.bind_eq_ok hscript
  obtain ⟨compacted, hopen', hscript⟩ := ExceptOk.bind_eq_ok hscript
  have hvalid : referringBase.Valid := by decide +kernel
  exact of_decide_eq_false (Except.ok.inj hscript)
    (hall fixedDigest disk disk' roots roots' reader compacted 2 (replay_storeRun hvalid hrun) hopen
      hcompact hopen')

end Instances

end StructuralStore
