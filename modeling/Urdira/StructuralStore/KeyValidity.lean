import Urdira.StructuralStore.EventHistory

open ByteOrder KeyedSet MerkleBucket BinarySearch EventLedger

namespace StructuralStore

section Live

theorem isVisibleAt_closureForRow_iff {closures : List ℕ} {validFrom generation : ℕ} :
    isVisibleAt validFrom (closureForRow closures validFrom 0) generation = true ↔
      validFrom ≤ generation ∧ ∀ c ∈ closures, validFrom < c → generation < c := by
  unfold closureForRow isVisibleAt
  cases hmin : (closures.filter (fun closedAt => decide (validFrom < closedAt))).min? with
  | none =>
    have hnil := List.min?_eq_none_iff.mp hmin
    simp only [Option.getD_none, decide_true, Bool.true_or, Bool.and_true, decide_eq_true_eq]
    refine (and_iff_left ?_).symm
    intro c hc hlt
    have hmem : c ∈ closures.filter (fun closedAt => decide (validFrom < closedAt)) :=
      List.mem_filter.mpr ⟨hc, decide_eq_true hlt⟩
    rw [hnil] at hmem
    cases hmem
  | some m =>
    obtain ⟨hm, hleast⟩ := List.min?_eq_some_iff.mp hmin
    obtain ⟨hmem, hlt⟩ := List.mem_filter.mp hm
    have hpos : m ≠ 0 := by
      have := of_decide_eq_true hlt
      omega
    simp only [Option.getD_some, hpos, decide_false, Bool.false_or, Bool.and_eq_true,
      decide_eq_true_eq]
    refine and_congr_right' ⟨fun hg c hc hc' => ?_, fun hall => hall m hmem (of_decide_eq_true hlt)⟩
    exact hg.trans_le (hleast c (List.mem_filter.mpr ⟨hc, decide_eq_true hc'⟩))

theorem live_closuresOf {K : Type} [DecidableEq K] {closures : List (K × ℕ)} {row : K × ℕ} {g : ℕ} :
    Live closures row g ↔ row.2 ≤ g ∧ ∀ c ∈ closuresOf closures row.1, row.2 < c → g < c := by
  refine and_congr_right' ⟨fun hall c hc => hall _ (mem_closuresOf.mp hc) rfl, fun hall => ?_⟩
  rintro ⟨k, c⟩ hc hkey hlt
  have hkey' : k = row.1 := hkey
  subst hkey'
  exact hall c (mem_closuresOf.mpr hc) hlt

namespace StoreReader.Dated

variable {reader : StoreReader}

theorem depIsVisible (h : reader.Dated) {dep : DependencyRow} (hdep : dep ∈ reader.deps) (g : ℕ) :
    reader.depIsVisible dep g = decide (Live reader.depClosures dep.opening g) := by
  unfold StoreReader.depIsVisible StoreReader.depEffectiveValidTo
  rw [h.deps_open dep hdep, Bool.eq_iff_iff, isVisibleAt_closureForRow_iff, decide_eq_true_eq,
    live_closuresOf]
  rfl

theorem pendingIsVisible (h : reader.Dated) {site : PendingSiteRow}
    (hsite : site ∈ reader.pendingSites)
    (g : ℕ) :
    reader.pendingIsVisible site g = decide (Live reader.pendingClosures site.opening g) := by
  unfold StoreReader.pendingIsVisible StoreReader.pendingEffectiveValidTo
  rw [h.pending_open site hsite, Bool.eq_iff_iff, isVisibleAt_closureForRow_iff, decide_eq_true_eq,
    live_closuresOf]
  rfl

theorem live_deps (h : reader.Dated) (g : ℕ) :
    reader.depLedger.live g = (reader.iterVisibleDeps g).map DependencyRow.opening := by
  unfold EventLedger.Ledger.live StoreReader.depLedger
  rw [List.filter_map, reader.iterVisibleDeps_eq]
  exact congrArg _ (List.filter_congr (fun dep hdep => (h.depIsVisible hdep g).symm))

theorem live_pending (h : reader.Dated) (g : ℕ) :
    (reader.pendingLedger.live g).Perm
      ((reader.iterVisiblePendingSites g).map PendingSiteRow.opening) := by
  unfold EventLedger.Ledger.live StoreReader.pendingLedger
  rw [List.filter_map]
  refine List.Perm.map _ ((List.Perm.of_eq ?_).trans (reader.iterVisiblePendingSites_perm g).symm)
  exact List.filter_congr (fun site hsite => (h.pendingIsVisible hsite g).symm)

theorem isVisible_iff (h : reader.Dated) {row : StoredRow} (hrow : row ∈ reader.rows) (g : ℕ) :
    reader.isVisible row g = true ↔ row.validFrom ≤ g ∧
      row.recordId ∉ (reader.recordClosures.filter (fun c => decide (c.2 ≤ g))).map Prod.fst := by
  obtain ⟨-, hvt⟩ := h.rows_valid row hrow
  unfold StoreReader.isVisible StoreReader.effectiveValidTo isVisibleAt
  rw [Bool.and_eq_true, decide_eq_true_eq]
  refine and_congr_right' ?_
  cases hget : AssocMap.get reader.recordClosures row.recordId with
  | none =>
    have hnone := (AssocMap.get_eq_none_iff _ _).mp hget
    refine iff_of_true (by simp [hvt]) (fun hmem => hnone ?_)
    obtain ⟨c, hc, hid⟩ := List.mem_map.mp hmem
    exact List.mem_map.mpr ⟨c, (List.mem_filter.mp hc).1, hid⟩
  | some at' =>
    have hafter := h.closures_after row hrow at' hget
    have hpos : at' ≠ 0 := by omega
    simp only [Option.getD_some, hpos, decide_false, Bool.false_or, decide_eq_true_eq]
    constructor
    · intro hlt hmem
      obtain ⟨⟨k, c⟩, hc, hid⟩ := List.mem_map.mp hmem
      obtain ⟨hmem, hle⟩ := List.mem_filter.mp hc
      obtain rfl : k = row.recordId := hid
      rw [AssocMap.get_of_mem h.closures_nodup hmem] at hget
      obtain rfl := Option.some.inj hget
      exact absurd (of_decide_eq_true hle) (not_le.mpr hlt)
    · intro hnot
      by_contra hge
      refine hnot (List.mem_map.mpr ⟨_, List.mem_filter.mpr ⟨AssocMap.mem_of_get hget, ?_⟩, rfl⟩)
      exact decide_eq_true (not_lt.mp hge)

theorem rows_count (h : reader.Dated) (g : ℕ) :
    (reader.rows.filter (fun row => decide (row.validFrom ≤ g))).length =
      (reader.rows.filter (fun row => reader.isVisible row g)).length +
        (reader.recordClosures.filter (fun c => decide (c.2 ≤ g))).length := by
  obtain ⟨keys, hkeys⟩ : ∃ keys,
      keys = (reader.recordClosures.filter (fun c => decide (c.2 ≤ g))).map Prod.fst := ⟨_, rfl⟩
  have hclosed : (reader.rows.filter (fun row => decide (row.recordId ∈ keys))).length =
      keys.length := by
    refine length_filter_keys h.ids ?_ ?_
    · rw [hkeys]
      exact h.closures_nodup.sublist (List.filter_sublist.map _)
    · intro id hid
      rw [hkeys] at hid
      obtain ⟨c, hc, rfl⟩ := List.mem_map.mp hid
      exact h.closures_rows c (List.mem_filter.mp hc).1
  have hsplit := List.length_eq_length_filter_add (fun row => reader.isVisible row g)
    (l := reader.rows.filter (fun row => decide (row.validFrom ≤ g)))
  have hvisible : (reader.rows.filter (fun row => decide (row.validFrom ≤ g))).filter
      (fun row => reader.isVisible row g) =
        reader.rows.filter (fun row => reader.isVisible row g) := by
    rw [List.filter_filter]
    refine List.filter_congr (fun row hrow => ?_)
    rw [Bool.eq_iff_iff, Bool.and_eq_true, decide_eq_true_eq]
    exact and_iff_left_of_imp (fun hvis => ((h.isVisible_iff hrow g).mp hvis).1)
  have hhidden : (reader.rows.filter (fun row => decide (row.validFrom ≤ g))).filter
      (fun row => !reader.isVisible row g) =
      reader.rows.filter (fun row => decide (row.recordId ∈ keys)) := by
    rw [List.filter_filter]
    refine List.filter_congr (fun row hrow => ?_)
    rw [Bool.eq_iff_iff, Bool.and_eq_true, Bool.not_eq_true', ← Bool.not_eq_true,
      h.isVisible_iff hrow, decide_eq_true_eq, decide_eq_true_eq, ← hkeys, not_and, not_not]
    constructor
    · rintro ⟨himp, hle⟩
      exact himp hle
    · intro hmem
      refine ⟨fun _ => hmem, ?_⟩
      rw [hkeys] at hmem
      obtain ⟨⟨k, c⟩, hc, hid⟩ := List.mem_map.mp hmem
      obtain ⟨hmem, hle⟩ := List.mem_filter.mp hc
      obtain rfl : k = row.recordId := hid
      have hafter := h.closures_after row hrow c (AssocMap.get_of_mem h.closures_nodup hmem)
      exact hafter.le.trans (of_decide_eq_true hle)
  rw [hvisible, hhidden, hclosed, hkeys, List.length_map] at hsplit
  exact hsplit

end StoreReader.Dated

end Live

section Counts

theorem StoreInner.countBelow_eq {generation : ℕ} (hg : generation < 4294967295) (values : List ℕ) :
    StoreInner.countBelow (sortOn id values) generation =
      ((values.filter (fun v => decide (v ≤ generation))).length : ℤ) := by
  have hnext : nextGeneration generation = generation + 1 := by
    unfold nextGeneration
    omega
  unfold StoreInner.countBelow
  rw [hnext, lowerBound_eq_length (sortOn_pairwise id values)]
  have hfilter : (sortOn id values).filter (fun v => decide (id v < generation + 1)) =
      (sortOn id values).filter (fun v => decide (v ≤ generation)) :=
    List.filter_congr (fun v _ => decide_eq_decide.mpr Nat.lt_succ_iff)
  rw [hfilter, ((sortOn_perm id values).filter _).length_eq]

theorem sum_countBelow {β : Type} (items : OpenSegment → List β) (validFrom validTo : β → ℕ)
    (segments : List OpenSegment) {generation : ℕ} (hg : generation < 4294967295)
    (h : ∀ item ∈ segments.flatMap items, validTo item = 0) :
    (segments.map (fun seg => StoreInner.countBelow (sortOn id ((items seg).map validFrom))
      generation -
      StoreInner.countBelow
        (sortOn id (((items seg).map validTo).filter (fun vt => decide (vt ≠ 0))))
          generation)).sum =
      (((segments.flatMap items).filter (fun item => decide (validFrom item ≤ generation))).length :
        ℤ) := by
  induction segments with
  | nil => rfl
  | cons seg segments ih =>
    have hto : ((items seg).map validTo).filter (fun vt => decide (vt ≠ 0)) = [] := by
      rw [List.filter_eq_nil_iff]
      intro vt hvt
      obtain ⟨item, hitem, rfl⟩ := List.mem_map.mp hvt
      simp [h item (List.mem_append_left _ hitem)]
    rw [List.map_cons, List.sum_cons, ih (fun item hitem => h item (List.mem_append_right _ hitem)),
      hto, StoreInner.countBelow_eq hg, StoreInner.countBelow_eq hg, List.filter_map,
        List.length_map,
      List.flatMap_cons, List.filter_append, List.length_append]
    simp [Function.comp_def]

variable {inner : StoreInner} {reader : StoreReader}

theorem StoreReader.Dated.visibleCount (hd : reader.Dated) (h : inner.Reads reader) {g : ℕ}
    (hg : g < 4294967295) : inner.visibleCount g = (inner.iterVisible g).length := by
  have hrows : inner.segments.flatMap (fun seg => seg.rows) = reader.rows :=
    h.flatMap_congr (fun _ _ => rfl)
  have htotal :=
    sum_countBelow (fun seg => seg.rows) (fun row => row.validFrom) (fun row => row.validTo)
    inner.segments hg (fun row hrow => (hd.rows_valid row (hrows ▸ hrow)).2)
  have hclosures : StoreInner.countBelow inner.closureValidToSorted g =
      ((reader.recordClosures.filter (fun c => decide (c.2 ≤ g))).length : ℤ) := by
    rw [h.recordCounts, StoreInner.countBelow_eq hg, List.filter_map, List.length_map, h.records]
    rfl
  have hcount := hd.rows_count g
  rw [hrows] at htotal
  rw [(h.iterVisible_perm g).length_eq]
  change (List.sum (inner.segments.map _) - StoreInner.countBelow inner.closureValidToSorted
    g).toNat = _
  rw [hclosures]
  exact (congrArg (fun total : ℤ => (total - _).toNat) htotal).trans (by omega)

theorem StoreReader.Dated.depsVisibleCount (hd : reader.Dated) (h : inner.Reads reader) {g : ℕ}
    (hg : g < 4294967295) (hcounted : reader.depLedger.Counted g) :
    inner.depsVisibleCount g = (inner.iterVisibleDeps g).length := by
  have hdeps : inner.segments.flatMap (fun seg => seg.deps) = reader.deps :=
    h.flatMap_congr (fun _ _ => rfl)
  have htotal := sum_countBelow (fun seg => seg.deps) DependencyRow.validFrom DependencyRow.validTo
    inner.segments hg (fun dep hdep => hd.deps_open dep (hdeps ▸ hdep))
  have hclosures : StoreInner.countBelow inner.depClosureValidToSorted g =
      ((reader.depClosures.filter (fun c => decide (c.2 ≤ g))).length : ℤ) := by
    rw [h.depCounts, StoreInner.countBelow_eq hg, (h.depValues.filter _).length_eq, List.filter_map,
      List.length_map]
    rfl
  have hcount := hcounted.count
  rw [hd.live_deps g, List.length_map] at hcount
  have hopened : (reader.depLedger.rows.filter (fun row => decide (row.2 ≤ g))).length =
      (reader.deps.filter (fun dep => decide (dep.validFrom ≤ g))).length := by
    unfold StoreReader.depLedger
    rw [List.filter_map, List.length_map]
    rfl
  have hledger : reader.depLedger.closures = reader.depClosures := rfl
  rw [hopened, hledger] at hcount
  rw [hdeps] at htotal
  rw [h.iterVisibleDeps]
  change (List.sum (inner.segments.map _) - StoreInner.countBelow inner.depClosureValidToSorted
    g).toNat = _
  rw [hclosures]
  exact (congrArg (fun total : ℤ => (total - _).toNat) htotal).trans (by omega)

end Counts

structure StoreInner.FollowsHistory (inner : StoreInner) (deps : List (Event Digest32))
    (pending : List (Event PendingSiteKey)) (g : ℕ) : Prop where
  deps : ∀ key, (∃ dep ∈ inner.iterVisibleDeps g, dep.dependencyId = key) ↔
    lastKind deps key g = some .opened
  pending : ∀ key, (∃ site ∈ inner.iterVisiblePendingSites g, site.key = key) ↔
    lastKind pending key g = some .opened
  visibleCount : inner.visibleCount g = (inner.iterVisible g).length

structure StoreInner.KeysUnique (inner : StoreInner) (g : ℕ) : Prop where
  deps : ((inner.iterVisibleDeps g).map DependencyRow.dependencyId).Nodup
  pending : ((inner.iterVisiblePendingSites g).map PendingSiteRow.key).Nodup
  depsVisibleCount : inner.depsVisibleCount g = (inner.iterVisibleDeps g).length

theorem validity_follows_event_history [Sha256] {disk : Disk} {deps : List (Event Digest32)}
    {pending : List (Event PendingSiteKey)} {mtime g : ℕ} {inner : StoreInner}
    (h : HistoryRun disk deps pending) (hsnapshot : SnapshotOf ⟨disk, mtime⟩ inner)
    (hg : g < 4294967295) :
    inner.FollowsHistory deps pending g ∧
      ((∀ key, Alternates (kindsOf deps key)) → (∀ key, Alternates (kindsOf pending key)) →
        inner.KeysUnique g) := by
  obtain ⟨reader, hok⟩ := h.ok
  obtain ⟨reader', hopen, hreads⟩ := hsnapshot.reads
  obtain rfl := Except.ok.inj (hok.opens.symm.trans hopen)
  have hpending := hok.dated.live_pending g
  refine ⟨⟨?_, ?_, hok.dated.visibleCount hreads hg⟩, fun hdeps hpend => ⟨?_, ?_, ?_⟩⟩
  · intro key
    rw [← hok.deps_run.live_iff_lastKind, hok.dated.live_deps, hreads.iterVisibleDeps]
    simp only [List.mem_map, exists_exists_and_eq_and]
    rfl
  · intro key
    rw [← hok.pending_run.live_iff_lastKind, hreads.iterVisiblePendingSites]
    simp only [hpending.mem_iff, List.mem_map, exists_exists_and_eq_and]
    rfl
  · have hnodup := (hok.deps_run.counted hdeps g).nodup
    rw [hok.dated.live_deps, List.map_map] at hnodup
    rw [hreads.iterVisibleDeps]
    exact hnodup
  · have hnodup := (hok.pending_run.counted hpend g).nodup
    rw [(hpending.map Prod.fst).nodup_iff, List.map_map] at hnodup
    rw [hreads.iterVisiblePendingSites]
    exact hnodup
  · exact hok.dated.depsVisibleCount hreads hg (hok.deps_run.counted hdeps g)

section Instances

instance (input : BaseInput) : Decidable input.Timed :=
  decidable_of_iff
    ((input.rows.map (fun row => row.recordId)).Nodup ∧
      (∀ row ∈ input.rows, row.validFrom ≤ input.generation ∧ row.validTo = 0) ∧
      (∀ dep ∈ input.deps, dep.validFrom ≤ input.generation ∧ dep.validTo = 0) ∧
      ∀ site ∈ input.pendingSites, site.validFrom ≤ input.generation ∧ site.validTo = 0)
    ⟨fun ⟨h₁, h₂, h₃, h₄⟩ => ⟨h₁, h₂, h₃, h₄⟩, fun h => ⟨h.1, h.2, h.3, h.4⟩⟩

instance (input : DeltaInput) (reader : StoreReader) : Decidable (input.Timed reader) :=
  decidable_of_iff
    (reader.generation < input.generation ∧
      (∀ row ∈ input.opened, row.validFrom = input.generation ∧ row.validTo = 0) ∧
      (input.opened.map (fun row => row.recordId)).Nodup ∧
      (∀ row ∈ input.opened, ∀ old ∈ reader.rows, old.recordId ≠ row.recordId) ∧
      (∀ c ∈ input.closures, c.2 = input.generation ∧ ∃ row ∈ reader.rows, row.recordId = c.1) ∧
      (∀ dep ∈ input.depsOpened, dep.validFrom = input.generation ∧ dep.validTo = 0) ∧
      (∀ c ∈ input.depsClosures, c.2 = input.generation) ∧
      (∀ site ∈ input.pendingOpened, site.validFrom = input.generation ∧ site.validTo = 0) ∧
      ∀ c ∈ input.pendingClosures, c.2 = input.generation)
    ⟨fun ⟨h₁, h₂, h₃, h₄, h₅, h₆, h₇, h₈, h₉⟩ => ⟨h₁, h₂, h₃, h₄, h₅, h₆, h₇, h₈, h₉⟩,
      fun h => ⟨h.1, h.2, h.3, h.4, h.5, h.6, h.7, h.8, h.9⟩⟩

theorem validity_follows_event_history_reopened :
    ∃ (inner : StoreInner) (deps : List (Event Digest32)), inner.FollowsHistory deps [] 2 ∧
      inner.KeysUnique 2 ∧ inner.depsVisibleCount 2 = 1 ∧ deps.length = 4 := by
  let _ := fixedDigest
  let base := dependencyBase [plainDependency (Block.fill 32 1) 0 1]
  let reopen := dependencyDelta [plainDependency (Block.fill 32 1) 1 2] [Block.fill 32 1] 2
  let close := dependencyDelta [] [Block.fill 32 1] 3
  have hscript : (do
      let first ← writeBaseWithPending Disk.empty base
      let state ← [reopen, close].foldlM (replayDelta (fun reader input => input.Timed reader))
        first
      StoreInner.load ⟨state.1, 0⟩).map (fun inner : StoreInner => inner.depsVisibleCount 2) =
      .ok 1 := by
    decide +kernel
  obtain ⟨inner, hscript, hcount⟩ := ExceptOk.map_eq_ok hscript
  obtain ⟨⟨disk, roots⟩, hbase, hscript⟩ := ExceptOk.bind_eq_ok hscript
  obtain ⟨⟨disk', roots'⟩, hdeltas, hload⟩ := ExceptOk.bind_eq_ok hscript
  rw [List.foldlM_cons] at hdeltas
  obtain ⟨⟨disk₂, roots₂⟩, hreopen, hdeltas⟩ := ExceptOk.bind_eq_ok hdeltas
  rw [List.foldlM_cons] at hdeltas
  obtain ⟨⟨disk₃, roots₃⟩, hclose, hdeltas⟩ := ExceptOk.bind_eq_ok hdeltas
  cases hdeltas
  obtain ⟨reader₁, hopen₁, hstep₁⟩ := ExceptOk.bind_eq_ok hreopen
  obtain ⟨htimed₁, hwrite₁⟩ := ExceptOk.ite_eq_ok hstep₁
  obtain ⟨reader₂, hopen₂, hstep₂⟩ := ExceptOk.bind_eq_ok hclose
  obtain ⟨htimed₂, hwrite₂⟩ := ExceptOk.ite_eq_ok hstep₂
  have hbaseTimed : base.Timed := by decide +kernel
  have hrun :=
    ((HistoryRun.base hbaseTimed hbase).delta hopen₁ htimed₁ hwrite₁).delta hopen₂ htimed₂
    hwrite₂
  obtain ⟨hfollows, hunique⟩ :=
    validity_follows_event_history hrun (.loaded hload) (by decide : 2 < _)
  refine ⟨inner, _, hfollows, hunique (alternates_of_keys ?_) (alternates_of_keys ?_), hcount, rfl⟩
  all_goals decide +kernel

end Instances

end StructuralStore
