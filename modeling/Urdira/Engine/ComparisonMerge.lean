import Urdira.Engine.KeyedComparison

open Canonical GreedyMatching KeyedDiff LogicalEncoding MerkleBucket

namespace Engine

namespace QueryComparison

variable [Sha256]

section Merge

def asPair (p : CanonicalQueryRecord × CanonicalQueryRecord) : ComparisonPair := ⟨p.1, p.2⟩

def isChanged (pair : ComparisonPair) : Bool :=
  decide (comparisonContentDigest pair.base ≠ comparisonContentDigest pair.target)

def isMoved (pair : ComparisonPair) : Bool :=
  decide (comparisonContentDigest pair.base = comparisonContentDigest pair.target ∧
    comparisonLocationKey pair.base ≠ comparisonLocationKey pair.target)

def Comparison.baseLeft (s : Comparison) : List CanonicalQueryRecord :=
  s.baseRecord.toList ++ s.baseIterator.pending

def Comparison.targetLeft (s : Comparison) : List CanonicalQueryRecord :=
  s.targetRecord.toList ++ s.targetIterator.pending

variable (bases targets : List CanonicalQueryRecord)

structure Merging (s : Comparison) (baseLeft targetLeft : List CanonicalQueryRecord) : Prop where
  baseKeyed : Keyed baseLeft
  targetKeyed : Keyed targetLeft
  baseSuffix : baseLeft <:+ bases
  targetSuffix : targetLeft <:+ targets
  removed : s.removed ++ onlyIn sortKey baseLeft targetLeft = onlyIn sortKey bases targets
  added : s.added ++ onlyIn sortKey targetLeft baseLeft = onlyIn sortKey targets bases
  correlated : s.correlated ++ (common sortKey baseLeft targetLeft).map asPair =
    (common sortKey bases targets).map asPair
  changed : s.changed = s.correlated.filter isChanged
  moved : s.moved = s.correlated.filter isMoved

structure Pulls (s : Comparison) : Prop where
  baseDone : s.baseRecord = none → s.baseIterator.pending = []
  targetDone : s.targetRecord = none → s.targetIterator.pending = []
  baseOrdered : s.baseIterator.Ordered
  targetOrdered : s.targetIterator.Ordered

structure Inv (s : Comparison) : Prop where
  pulls : Pulls s
  merging : Merging bases targets s s.baseLeft s.targetLeft

variable {bases targets}

variable (bases targets) in
structure Advances (s s' : Comparison) : Prop where
  pulls : Pulls s'
  merging : ∀ {baseLeft targetLeft}, Merging bases targets s baseLeft targetLeft →
    Merging bases targets s' baseLeft targetLeft

variable (bases targets) in
theorem settles_advanceBase {s : Comparison} {R : List CanonicalQueryRecord} (h : Pulls s) :
    Settles R (fun s' => Advances bases targets s s' ∧
      s'.baseLeft = s.baseIterator.pending ∧ s'.targetLeft = s.targetLeft ∧
      s'.targetIterator = s.targetIterator) s.advanceBase := by
  obtain ⟨record, iterator, hnext, hpulled⟩ := ComparisonIterator.next_spec h.baseOrdered
  rw [Comparison.advanceBase, hnext]
  refine ⟨⟨⟨hpulled.done, h.targetDone, hpulled.ordered, h.targetOrdered⟩, fun hm => ?_⟩,
    hpulled.pending, rfl, rfl⟩
  exact ⟨hm.baseKeyed, hm.targetKeyed, hm.baseSuffix, hm.targetSuffix, hm.removed, hm.added,
    hm.correlated,
    hm.changed, hm.moved⟩

variable (bases targets) in
theorem settles_advanceTarget {s : Comparison} {R : List CanonicalQueryRecord} (h : Pulls s) :
    Settles R (fun s' => Advances bases targets s s' ∧
      s'.baseLeft = s.baseLeft ∧ s'.targetLeft = s.targetIterator.pending) s.advanceTarget := by
  obtain ⟨record, iterator, hnext, hpulled⟩ := ComparisonIterator.next_spec h.targetOrdered
  rw [Comparison.advanceTarget, hnext]
  refine ⟨⟨⟨h.baseDone, hpulled.done, h.baseOrdered, hpulled.ordered⟩, fun hm => ?_⟩, rfl,
    hpulled.pending⟩
  exact ⟨hm.baseKeyed, hm.targetKeyed, hm.baseSuffix, hm.targetSuffix, hm.removed, hm.added,
    hm.correlated,
    hm.changed, hm.moved⟩

omit [Sha256] in
theorem Keyed.compare_key {a b : CanonicalQueryRecord} {as bs : List CanonicalQueryRecord}
    (ha : Keyed (a :: as))
    (hb : Keyed (b :: bs)) :
    compareCanonicalIdentity (a.identityKey.getD []) (b.identityKey.getD []) =
      compareCanonicalIdentity (sortKey a) (sortKey b) := by
  obtain ⟨k, hk⟩ := Option.ne_none_iff_exists'.mp (ha.keys a (List.mem_cons_self ..))
  obtain ⟨l, hl⟩ := Option.ne_none_iff_exists'.mp (hb.keys b (List.mem_cons_self ..))
  rw [sortKey_eq hk, sortKey_eq hl, hk, hl]
  rfl

variable {s : Comparison} {a b : CanonicalQueryRecord} {as bs : List CanonicalQueryRecord}

theorem Merging.remove (h : Merging bases targets s (a :: as) bs)
    (hlt : ∀ b ∈ bs, sortKey a < sortKey b) :
    Merging bases targets { s with removed := s.removed ++ [a] } as bs where
  baseKeyed := h.baseKeyed.tail
  targetKeyed := h.targetKeyed
  baseSuffix := (List.suffix_cons a as).trans h.baseSuffix
  targetSuffix := h.targetSuffix
  removed := by
    rw [← h.removed, onlyIn_cons_of_lt hlt, List.append_assoc]
    rfl
  added := by
    rw [← h.added, onlyIn_cons_right fun b hb => (hlt b hb).ne]
  correlated := by
    rw [← h.correlated, common_cons_of_lt hlt]
  changed := h.changed
  moved := h.moved

theorem Merging.add (h : Merging bases targets s as (b :: bs))
    (hlt : ∀ a ∈ as, sortKey b < sortKey a) :
    Merging bases targets { s with added := s.added ++ [b] } as bs where
  baseKeyed := h.baseKeyed
  targetKeyed := h.targetKeyed.tail
  baseSuffix := h.baseSuffix
  targetSuffix := (List.suffix_cons b bs).trans h.targetSuffix
  removed := by
    rw [← h.removed, onlyIn_cons_right fun a ha => (hlt a ha).ne]
  added := by
    rw [← h.added, onlyIn_cons_of_lt hlt, List.append_assoc]
    rfl
  correlated := by
    rw [← h.correlated, common_cons_right fun a ha => (hlt a ha).ne]
  changed := h.changed
  moved := h.moved

theorem Merging.correlate (h : Merging bases targets s (a :: as) (b :: bs))
    (heq : sortKey a = sortKey b)
    {changed moved : List ComparisonPair}
    (hchanged : changed = (s.correlated ++ [asPair (a, b)]).filter isChanged)
    (hmoved : moved = (s.correlated ++ [asPair (a, b)]).filter isMoved) :
    Merging bases targets { s with correlated := s.correlated ++ [asPair (a, b)], changed, moved }
      as bs where
  baseKeyed := h.baseKeyed.tail
  targetKeyed := h.targetKeyed.tail
  baseSuffix := (List.suffix_cons a as).trans h.baseSuffix
  targetSuffix := (List.suffix_cons b bs).trans h.targetSuffix
  removed := by
    rw [← h.removed, onlyIn_cons_of_mem (List.mem_cons_self ..) heq.symm,
      onlyIn_cons_right fun c hc => h.baseKeyed.increasing.tail_ne heq.symm c hc]
  added := by
    rw [← h.added, onlyIn_cons_of_mem (List.mem_cons_self ..) heq,
      onlyIn_cons_right fun c hc => h.targetKeyed.increasing.tail_ne heq c hc]
  correlated := by
    rw [← h.correlated, common_cons_of_eq heq.symm,
      common_cons_right fun c hc => h.baseKeyed.increasing.tail_ne heq.symm c hc, List.append_assoc]
    rfl
  changed := hchanged
  moved := hmoved

theorem Merging.isChanged_snoc (h : Merging bases targets s as bs) (p : ComparisonPair) :
    (s.correlated ++ [p]).filter isChanged = s.changed ++ if isChanged p then [p] else [] := by
  rw [List.filter_append, h.changed, List.filter_singleton, Bool.cond_eq_ite]

theorem Merging.isMoved_snoc (h : Merging bases targets s as bs) (p : ComparisonPair) :
    (s.correlated ++ [p]).filter isMoved = s.moved ++ if isMoved p then [p] else [] := by
  rw [List.filter_append, h.moved, List.filter_singleton, Bool.cond_eq_ite]

theorem settles_correlate (hpulls : Pulls s) (h : Merging bases targets s (a :: as) (b :: bs))
    (heq : sortKey a = sortKey b) :
    Settles (bases ++ targets) (fun s' => Pulls s' ∧ Merging bases targets s' as bs ∧
      s'.baseIterator = s.baseIterator ∧ s'.targetIterator = s.targetIterator)
        (s.correlate a b) := by
  have ha : a ∈ bases ++ targets :=
    List.mem_append_left _ (h.baseSuffix.subset (List.mem_cons_self ..))
  have hb : b ∈ bases ++ targets :=
    List.mem_append_right _ (h.targetSuffix.subset (List.mem_cons_self ..))
  refine (settles_contentDigest ha).bind fun baseDigest hbase => ?_
  refine (settles_contentDigest hb).bind fun targetDigest htarget => ?_
  have hchanged : isChanged (asPair (a, b)) = decide (baseDigest ≠ targetDigest) := by
    simp [isChanged, asPair, hbase, htarget]
  have hmoved : isMoved (asPair (a, b)) =
      decide (baseDigest = targetDigest ∧ comparisonLocationKey a ≠ comparisonLocationKey b) := by
    simp [isMoved, asPair, hbase, htarget]
  have hpulls' : ∀ correlated changed moved, Pulls { s with correlated, changed, moved } :=
    fun _ _ _ => ⟨hpulls.baseDone, hpulls.targetDone, hpulls.baseOrdered, hpulls.targetOrdered⟩
  have hc := h.isChanged_snoc (asPair (a, b))
  have hm := h.isMoved_snoc (asPair (a, b))
  rw [hchanged] at hc
  rw [hmoved] at hm
  split_ifs with hdigest hlocation
  · refine ⟨hpulls' _ _ _, h.correlate heq (hc.trans ?_).symm (hm.trans ?_).symm, rfl, rfl⟩
    · rw [decide_eq_true hdigest]
      rfl
    · rw [decide_eq_false fun hand => hdigest hand.1]
      exact List.append_nil _
  · refine ⟨hpulls' _ _ _, h.correlate heq (hc.trans ?_).symm (hm.trans ?_).symm, rfl, rfl⟩
    · rw [decide_eq_false hdigest]
      exact List.append_nil _
    · rw [decide_eq_true ⟨not_not.mp hdigest, hlocation⟩]
      rfl
  · refine ⟨hpulls' _ _ _, h.correlate heq (hc.trans ?_).symm (hm.trans ?_).symm, rfl, rfl⟩
    · rw [decide_eq_false hdigest]
      exact List.append_nil _
    · rw [decide_eq_false fun hand => hlocation hand.2]
      exact List.append_nil _

def Comparison.left (s : Comparison) : ℕ := s.baseLeft.length + s.targetLeft.length

theorem settles_removeBase (h : Inv bases targets s) (hbase : s.baseRecord = some a)
    (hlt : ∀ b ∈ s.targetLeft, sortKey a < sortKey b) :
    Settles (bases ++ targets) (fun s' => Inv bases targets s' ∧ s'.left < s.left)
      ({ s with removed := s.removed ++ [a] } : Comparison).advanceBase := by
  have hleft : s.baseLeft = a :: s.baseIterator.pending := by rw [Comparison.baseLeft, hbase]; rfl
  have hmerging := h.merging
  rw [hleft] at hmerging
  have hnext := hmerging.remove hlt
  have hpulls : Pulls { s with removed := s.removed ++ [a] } :=
    ⟨h.pulls.baseDone, h.pulls.targetDone, h.pulls.baseOrdered, h.pulls.targetOrdered⟩
  refine (settles_advanceBase bases targets hpulls).imp ?_
  rintro s' ⟨hadvances, hbaseLeft, htargetLeft, -⟩
  refine ⟨⟨hadvances.pulls, ?_⟩, ?_⟩
  · rw [hbaseLeft, htargetLeft]
    exact hadvances.merging hnext
  · rw [Comparison.left, Comparison.left, hbaseLeft, htargetLeft, hleft]
    exact Nat.add_lt_add_right (Nat.lt_succ_self _) _

theorem settles_addTarget (h : Inv bases targets s) (htarget : s.targetRecord = some b)
    (hlt : ∀ a ∈ s.baseLeft, sortKey b < sortKey a) :
    Settles (bases ++ targets) (fun s' => Inv bases targets s' ∧ s'.left < s.left)
      ({ s with added := s.added ++ [b] } : Comparison).advanceTarget := by
  have hleft : s.targetLeft = b :: s.targetIterator.pending := by
    rw [Comparison.targetLeft, htarget]; rfl
  have hmerging := h.merging
  rw [hleft] at hmerging
  have hnext := hmerging.add hlt
  have hpulls : Pulls { s with added := s.added ++ [b] } :=
    ⟨h.pulls.baseDone, h.pulls.targetDone, h.pulls.baseOrdered, h.pulls.targetOrdered⟩
  refine (settles_advanceTarget bases targets hpulls).imp ?_
  rintro s' ⟨hadvances, hbaseLeft, htargetLeft⟩
  refine ⟨⟨hadvances.pulls, ?_⟩, ?_⟩
  · rw [hbaseLeft, htargetLeft]
    exact hadvances.merging hnext
  · rw [Comparison.left, Comparison.left, hbaseLeft, htargetLeft, hleft]
    exact Nat.add_lt_add_left (Nat.lt_succ_self _) _

theorem settles_correlateBoth (h : Inv bases targets s) (hbase : s.baseRecord = some a)
    (htarget : s.targetRecord = some b) (heq : sortKey a = sortKey b) :
    Settles (bases ++ targets) (fun s' => Inv bases targets s' ∧ s'.left < s.left)
      (do
        let s ← s.correlate a b
        let s ← s.advanceBase
        s.advanceTarget) := by
  have hbaseLeft : s.baseLeft = a :: s.baseIterator.pending := by
    rw [Comparison.baseLeft, hbase]; rfl
  have htargetLeft : s.targetLeft = b :: s.targetIterator.pending := by
    rw [Comparison.targetLeft, htarget]; rfl
  have hmerging := h.merging
  rw [hbaseLeft, htargetLeft] at hmerging
  refine (settles_correlate h.pulls hmerging heq).bind ?_
  rintro s₁ ⟨hpulls₁, hmerging₁, hbase₁, htarget₁⟩
  refine (settles_advanceBase bases targets hpulls₁).bind ?_
  rintro s₂ ⟨hadvances₂, hbase₂, -, htarget₂⟩
  refine (settles_advanceTarget bases targets hadvances₂.pulls).imp ?_
  rintro s₃ ⟨hadvances₃, hbase₃, htarget₃⟩
  have hb : s₃.baseLeft = s.baseIterator.pending := by rw [hbase₃, hbase₂, hbase₁]
  have ht : s₃.targetLeft = s.targetIterator.pending := by rw [htarget₃, htarget₂, htarget₁]
  refine ⟨⟨hadvances₃.pulls, ?_⟩, ?_⟩
  · rw [hb, ht]
    exact hadvances₃.merging (hadvances₂.merging hmerging₁)
  · rw [Comparison.left, Comparison.left, hb, ht, hbaseLeft, htargetLeft, List.length_cons,
      List.length_cons]
    omega

theorem body_spec (h : Inv bases targets s) {x : Except ComparisonError Comparison}
    (hx : s.body = some x) :
    Settles (bases ++ targets) (fun s' => Inv bases targets s' ∧ s'.left < s.left) x := by
  unfold Comparison.body at hx
  split at hx
  · cases hx
  · rename_i t hbase htarget
    obtain rfl := Option.some.inj hx
    refine settles_addTarget h htarget ?_
    rw [Comparison.baseLeft, hbase, h.pulls.baseDone hbase]
    exact List.forall_mem_nil _
  · rename_i r hbase htarget
    obtain rfl := Option.some.inj hx
    refine settles_removeBase h hbase ?_
    rw [Comparison.targetLeft, htarget, h.pulls.targetDone htarget]
    exact List.forall_mem_nil _
  · rename_i r t hbase htarget
    have hbaseLeft : s.baseLeft = r :: s.baseIterator.pending := by
      rw [Comparison.baseLeft, hbase]; rfl
    have htargetLeft : s.targetLeft = t :: s.targetIterator.pending := by
      rw [Comparison.targetLeft, htarget]; rfl
    have hkeyedBase := h.merging.baseKeyed
    have hkeyedTarget := h.merging.targetKeyed
    rw [hbaseLeft] at hkeyedBase
    rw [htargetLeft] at hkeyedTarget
    rw [hkeyedBase.compare_key hkeyedTarget] at hx
    split at hx
    · rename_i horder
      obtain rfl := Option.some.inj hx
      refine settles_removeBase h hbase ?_
      rw [htargetLeft]
      exact hkeyedTarget.increasing.forall_lt (compareCanonicalIdentity_lt.mp horder)
    · rename_i horder
      obtain rfl := Option.some.inj hx
      refine settles_addTarget h htarget ?_
      rw [hbaseLeft]
      exact hkeyedBase.increasing.forall_lt (compareCanonicalIdentity_gt.mp horder)
    · rename_i horder
      obtain rfl := Option.some.inj hx
      exact settles_correlateBoth h hbase htarget (compareCanonicalIdentity_eq.mp horder)

theorem body_none (h : s.body = none) : s.baseRecord = none ∧ s.targetRecord = none := by
  unfold Comparison.body at h
  split at h
  · rename_i hbase htarget
    exact ⟨hbase, htarget⟩
  · cases h
  · cases h
  · split at h <;> cases h

end Merge

end QueryComparison

end Engine
