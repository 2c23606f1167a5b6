import Urdira.Engine.ComparisonMerge
import Urdira.Lib.Sha2

open Canonical GreedyMatching KeyedDiff LogicalEncoding MerkleBucket

namespace Engine

namespace QueryComparison

section Sorting

def PairsIncreasing (pairs : List ComparisonPair) : Prop :=
  pairs.Pairwise (fun p q => sortKey p.target < sortKey q.target)

theorem sortComparisonRecords_eq {records : List CanonicalQueryRecord}
    (h : Increasing sortKey records) :
    sortComparisonRecords records = records := by
  refine List.mergeSort_of_pairwise (h.imp fun {a b} hlt => ?_)
  rw [compareCanonicalIdentity_lt.mpr hlt]
  rfl

theorem sortComparisonPairs_eq {pairs : List ComparisonPair} (h : PairsIncreasing pairs) :
    sortComparisonPairs pairs = pairs := by
  refine List.mergeSort_of_pairwise (h.imp fun {a b} hlt => ?_)
  rw [compareCanonicalIdentity_lt.mpr hlt]
  rfl

end Sorting

variable [Sha256]

section Matching

variable {removed added : List CanonicalQueryRecord} {pairs : List ComparisonPair}

def SameContent (a b : CanonicalQueryRecord) : Prop :=
  comparisonContentDigest a = comparisonContentDigest b

instance (a b : CanonicalQueryRecord) : Decidable (SameContent a b) :=
  inferInstanceAs (Decidable (comparisonContentDigest a = comparisonContentDigest b))

structure IsMatching (removed added : List CanonicalQueryRecord) (pairs : List ComparisonPair) :
    Prop where
  base : ∀ p ∈ pairs, p.base ∈ removed
  target : ∀ p ∈ pairs, p.target ∈ added
  content : ∀ p ∈ pairs, SameContent p.base p.target
  bases : (pairs.map ComparisonPair.base).Nodup
  targets : (pairs.map ComparisonPair.target).Nodup

def Maximal (removed added : List CanonicalQueryRecord) (pairs : List ComparisonPair) : Prop :=
  ∀ r ∈ removed, ∀ a ∈ added, SameContent r a →
    a ∈ pairs.map ComparisonPair.target ∨ r ∈ pairs.map ComparisonPair.base

-- The pairing looks at record ids only: an id counts as taken for every removed record that has it.
def MaximalOverIds (removed added : List CanonicalQueryRecord) (pairs : List ComparisonPair) :
    Prop :=
  (pairs.map (fun p => p.base.recordId)).Nodup ∧
  ∀ r ∈ removed, ∀ a ∈ added, SameContent r a →
    a ∈ pairs.map ComparisonPair.target ∨ r.recordId ∈ pairs.map (fun p => p.base.recordId)

theorem MaximalOverIds.maximal (h : MaximalOverIds removed added pairs)
    (hbase : ∀ p ∈ pairs, p.base ∈ removed)
    (hids : (removed.map CanonicalQueryRecord.recordId).Nodup) : Maximal removed added pairs := by
  intro r hr a ha hsame
  refine (h.2 r hr a ha hsame).imp_right fun hid => ?_
  obtain ⟨p, hp, heq⟩ := List.mem_map.mp hid
  exact List.mem_map.mpr ⟨p, hp, List.inj_on_of_nodup_map hids (hbase p hp) hr heq⟩

def candidates (removed : List CanonicalQueryRecord) (a : CanonicalQueryRecord) :
    List CanonicalQueryRecord :=
  removed.filter (fun r => decide (SameContent r a))

theorem settles_removedByDigest (buckets : List (String × List CanonicalQueryRecord)) :
    Settles removed (fun buckets' => ∀ digest, MultiMap.get buckets' digest =
      MultiMap.get buckets digest ++
      removed.filter (fun r => decide (comparisonContentDigest r = .ok digest)))
        (removedByDigest buckets removed) := by
  induction removed generalizing buckets with
  | nil => exact fun _ => (List.append_nil _).symm
  | cons r removed ih =>
    refine (settles_contentDigest (List.mem_cons_self ..)).bind fun digest hdigest => ?_
    refine ((ih (MultiMap.push buckets digest r)).mono (List.subset_cons_self ..)).imp
      fun buckets' h d => ?_
    rw [h d, MultiMap.get_push, List.append_assoc, List.filter_cons, hdigest]
    by_cases hd : digest = d
    · simp [hd]
    · simp [hd]

theorem settles_matchAdded {buckets : List (String × List CanonicalQueryRecord)}
    (hbuckets : ∀ digest, MultiMap.get buckets digest =
      removed.filter (fun r => decide (comparisonContentDigest r = .ok digest)))
        (used : List Text) :
    Settles added (fun pairs => pairs =
      (greedy (candidates removed) CanonicalQueryRecord.recordId used added).map asPair)
      (matchAdded buckets used added) := by
  induction added generalizing used with
  | nil => rfl
  | cons a added ih =>
    have hsub : added ⊆ a :: added := List.subset_cons_self ..
    refine (settles_contentDigest (List.mem_cons_self ..)).bind fun digest hdigest => ?_
    have hcandidates : MultiMap.get buckets digest = candidates removed a := by
      rw [hbuckets, candidates]
      simp only [SameContent, hdigest]
    rw [hcandidates]
    cases hfind :
      (candidates removed a).find? (fun candidate => !used.contains candidate.recordId) with
    | none =>
      rw [greedy_none hfind]
      exact (ih used).mono hsub
    | some r =>
      rw [greedy_some hfind]
      refine ((ih (r.recordId :: used)).mono hsub).bind fun pairs hpairs => ?_
      rw [hpairs]
      rfl

structure IsPossible (correlationPolicy : CorrelationPolicy)
    (removed added : List CanonicalQueryRecord)
    (pairs : List ComparisonPair) : Prop where
  increasing : PairsIncreasing pairs
  strict : correlationPolicy = .strict → pairs = []
  matching : IsMatching removed added pairs
  maximal : correlationPolicy = .includePossible → MaximalOverIds removed added pairs

theorem isPossible_nil {correlationPolicy : CorrelationPolicy}
    (h : correlationPolicy = .includePossible → removed = [] ∨ added = []) :
    IsPossible correlationPolicy removed added [] where
  increasing := .nil
  strict _ := rfl
  matching := ⟨by simp, by simp, by simp, .nil, .nil⟩
  maximal hpolicy := by
    refine ⟨.nil, fun r hr a ha _ => ?_⟩
    rcases h hpolicy with rfl | rfl
    · cases hr
    · cases ha

theorem isPossible_greedy {correlationPolicy : CorrelationPolicy}
    (hpolicy : correlationPolicy = .includePossible)
    (hadded : Increasing sortKey added) :
    IsPossible correlationPolicy removed added
      ((greedy (candidates removed) CanonicalQueryRecord.recordId [] added).map asPair) := by
  have htargets :
      ((greedy (candidates removed) CanonicalQueryRecord.recordId [] added).map asPair).map
      ComparisonPair.target =
        (greedy (candidates removed) CanonicalQueryRecord.recordId [] added).map Prod.snd := by
    rw [List.map_map]
    rfl
  have hids : ((greedy (candidates removed) CanonicalQueryRecord.recordId [] added).map asPair).map
      (fun p => p.base.recordId) =
        (greedy (candidates removed) CanonicalQueryRecord.recordId [] added).map
          (fun p => p.1.recordId) := by
    rw [List.map_map]
    rfl
  have hincreasing :
      (((greedy (candidates removed) CanonicalQueryRecord.recordId [] added).map asPair).map
      ComparisonPair.target).Pairwise (fun a b => sortKey a < sortKey b) := by
    rw [htargets]
    exact List.Pairwise.sublist greedy_sublist hadded
  have hnodupIds :
      (((greedy (candidates removed) CanonicalQueryRecord.recordId [] added).map asPair).map
      (fun p => p.base.recordId)).Nodup := by
    rw [hids]
    exact nodup_greedy
  have hpairs := List.pairwise_map.mp hincreasing
  refine ⟨hpairs, fun hstrict => ?_, ⟨?_, ?_, ?_, ?_, ?_⟩, fun _ => ⟨hnodupIds, ?_⟩⟩
  · rw [hpolicy] at hstrict
    cases hstrict
  · refine List.forall_mem_map.mpr fun p hp => ?_
    exact List.mem_of_mem_filter (mem_greedy hp).2.1
  · exact List.forall_mem_map.mpr fun p hp => (mem_greedy hp).1
  · refine List.forall_mem_map.mpr fun p hp => ?_
    have hsame := List.of_mem_filter (mem_greedy hp).2.1
    exact of_decide_eq_true hsame
  · refine List.Nodup.of_map CanonicalQueryRecord.recordId ?_
    rw [List.map_map]
    exact hnodupIds
  · refine List.Nodup.of_map sortKey (List.pairwise_map.mpr (hincreasing.imp fun hlt => hlt.ne))
  · intro r hr a ha hsame
    rw [htargets, hids]
    have hcandidate : r ∈ candidates removed a := List.mem_filter.mpr ⟨hr, decide_eq_true hsame⟩
    rcases @greedy_maximal _ _ _ _ _ CanonicalQueryRecord.recordId
      [] _ _ _ _ ha hcandidate with h | h | h
    · exact .inl h
    · cases h
    · exact .inr h

theorem settles_possibleCorrelated {correlationPolicy : CorrelationPolicy}
    (hadded : Increasing sortKey added) :
    Settles (removed ++ added) (IsPossible correlationPolicy removed added)
      (possibleCorrelated correlationPolicy removed added) := by
  rw [possibleCorrelated]
  split_ifs with h
  · refine ((settles_removedByDigest []).mono (List.subset_append_left ..)).bind
      fun buckets hbuckets => ?_
    refine ((settles_matchAdded hbuckets []).mono (List.subset_append_right ..)).imp
      fun pairs hpairs => ?_
    rw [hpairs]
    exact isPossible_greedy h.1 hadded
  · refine isPossible_nil fun hpolicy => ?_
    by_contra hne
    obtain ⟨hremoved, hadded⟩ := not_or.mp hne
    exact h ⟨hpolicy, List.length_pos_iff.mpr hadded, List.length_pos_iff.mpr hremoved⟩

end Matching

section Diff

variable {baseSource targetSource : ComparisonRecordSource} {correlationPolicy : CorrelationPolicy}

structure IsKeyedDiff (base target : List CanonicalQueryRecord) (diff : ComparisonDiff) : Prop where
  removed : ∀ r, r ∈ diff.removed ↔
    IsFirst CanonicalQueryRecord.identityKey base r ∧ ∀ t ∈ target, t.identityKey ≠ r.identityKey
  added : ∀ a, a ∈ diff.added ↔
    IsFirst CanonicalQueryRecord.identityKey target a ∧ ∀ b ∈ base, b.identityKey ≠ a.identityKey
  correlated : ∀ p, p ∈ diff.correlated ↔ IsFirst CanonicalQueryRecord.identityKey base p.base ∧
    IsFirst CanonicalQueryRecord.identityKey target p.target ∧ p.base.identityKey =
      p.target.identityKey
  changed : ∀ p, p ∈ diff.changed ↔ p ∈ diff.correlated ∧ ¬ SameContent p.base p.target
  moved : ∀ p, p ∈ diff.moved ↔ p ∈ diff.correlated ∧ SameContent p.base p.target ∧
    comparisonLocationKey p.base ≠ comparisonLocationKey p.target
  removedIncreasing : Increasing sortKey diff.removed
  addedIncreasing : Increasing sortKey diff.added
  correlatedIncreasing : PairsIncreasing diff.correlated
  changedIncreasing : PairsIncreasing diff.changed
  movedIncreasing : PairsIncreasing diff.moved

omit [Sha256] in
theorem mem_onlyIn_firsts {source other : ComparisonRecordSource} (hsource : source.Ordered)
    (hother : other.Ordered)
    {r : CanonicalQueryRecord} :
    r ∈ onlyIn sortKey source.firsts other.firsts ↔
      IsFirst CanonicalQueryRecord.identityKey source.all r ∧ ∀ t ∈ other.all,
        t.identityKey ≠ r.identityKey := by
  rw [mem_onlyIn, mem_source_firsts hsource]
  refine and_congr_right fun hfirst => ?_
  obtain ⟨key, hkey⟩ := Option.ne_none_iff_exists'.mp hfirst.key_ne_none
  constructor
  · intro h t ht heq
    obtain ⟨t', hfirst', hkey'⟩ := exists_isFirst.mp ⟨t, ht, heq.trans hkey⟩
    exact h t' ((mem_source_firsts hother).mpr hfirst')
      ((sortKey_inj hfirst'.key_ne_none hfirst.key_ne_none).mpr (hkey'.trans hkey.symm))
  · intro h t ht heq
    have hfirst' := (mem_source_firsts hother).mp ht
    exact h t hfirst'.mem ((sortKey_inj hfirst'.key_ne_none hfirst.key_ne_none).mp heq)

omit [Sha256] in
theorem mem_common_firsts (hbase : baseSource.Ordered) (htarget : targetSource.Ordered)
    {p : ComparisonPair} :
    p ∈ (common sortKey baseSource.firsts targetSource.firsts).map asPair ↔
      IsFirst CanonicalQueryRecord.identityKey baseSource.all p.base ∧
        IsFirst CanonicalQueryRecord.identityKey targetSource.all p.target ∧
          p.base.identityKey = p.target.identityKey := by
  have hmem : p ∈ (common sortKey baseSource.firsts targetSource.firsts).map asPair ↔
      (p.base, p.target) ∈ common sortKey baseSource.firsts targetSource.firsts := by
    constructor
    · intro h
      obtain ⟨q, hq, rfl⟩ := List.mem_map.mp h
      exact hq
    · exact fun h => List.mem_map.mpr ⟨_, h, rfl⟩
  rw [hmem, mem_common (keyed_firsts htarget).increasing, mem_source_firsts hbase,
    mem_source_firsts htarget]
  refine and_congr_right fun hb => and_congr_right fun ht => ?_
  exact eq_comm.trans (sortKey_inj hb.key_ne_none ht.key_ne_none)

theorem inv_start (hbase : baseSource.Ordered) (htarget : targetSource.Ordered) :
    Settles (baseSource.firsts ++ targetSource.firsts) (Inv baseSource.firsts targetSource.firsts)
      (Comparison.start baseSource targetSource) := by
  obtain ⟨baseRecord, baseIterator, hbaseNext, hbasePulled⟩ :=
    ComparisonIterator.next_spec hbase.iterator
  obtain ⟨targetRecord, targetIterator, htargetNext, htargetPulled⟩ :=
    ComparisonIterator.next_spec htarget.iterator
  rw [Comparison.start, hbaseNext, htargetNext]
  refine ⟨⟨hbasePulled.done, htargetPulled.done, hbasePulled.ordered, htargetPulled.ordered⟩, ?_⟩
  have hbaseLeft := hbasePulled.pending
  have htargetLeft := htargetPulled.pending
  rw [comparisonRecords_pending] at hbaseLeft htargetLeft
  rw [Comparison.baseLeft, Comparison.targetLeft, hbaseLeft, htargetLeft]
  exact ⟨keyed_firsts hbase, keyed_firsts htarget, List.suffix_rfl, List.suffix_rfl, rfl, rfl,
    rfl, rfl, rfl⟩

def measure : Except ComparisonError Comparison → ℕ
  | .error _ => 0
  | .ok s => s.left + 1

theorem step_spec {bases targets : List CanonicalQueryRecord}
    {x x' : Except ComparisonError Comparison}
    (h : Settles (bases ++ targets) (Inv bases targets) x) (hx : step x = some x') :
    Settles (bases ++ targets) (Inv bases targets) x' ∧ measure x' < measure x := by
  cases x with
  | error e => cases hx
  | ok s =>
    have hspec := body_spec h hx
    refine ⟨hspec.imp fun s' hs' => hs'.1, ?_⟩
    cases x' with
    | error e => exact Nat.succ_pos _
    | ok s' => exact Nat.succ_lt_succ hspec.2

structure Finished (s : Comparison) (bases targets : List CanonicalQueryRecord) : Prop where
  removed : s.removed = onlyIn sortKey bases targets
  added : s.added = onlyIn sortKey targets bases
  correlated : s.correlated = (common sortKey bases targets).map asPair
  changed : s.changed = s.correlated.filter isChanged
  moved : s.moved = s.correlated.filter isMoved

theorem Inv.finished {bases targets : List CanonicalQueryRecord} {s : Comparison}
    (h : Inv bases targets s)
    (hdone : s.body = none) : Finished s bases targets := by
  obtain ⟨hbase, htarget⟩ := body_none hdone
  have hbaseLeft : s.baseLeft = [] := by
    rw [Comparison.baseLeft, hbase, h.pulls.baseDone hbase]
    rfl
  have htargetLeft : s.targetLeft = [] := by
    rw [Comparison.targetLeft, htarget, h.pulls.targetDone htarget]
    rfl
  have hm := h.merging
  rw [hbaseLeft, htargetLeft] at hm
  refine ⟨?_, ?_, ?_, hm.changed, hm.moved⟩
  · simpa using hm.removed
  · simpa using hm.added
  · simpa using hm.correlated

theorem settles_finish (hbase : baseSource.Ordered) (htarget : targetSource.Ordered)
    {s : Comparison}
    (h : Finished s baseSource.firsts targetSource.firsts) :
    Settles (baseSource.all ++ targetSource.all)
      (fun diff => IsKeyedDiff baseSource.all targetSource.all diff ∧
      IsPossible correlationPolicy diff.removed diff.added diff.possibleCorrelated)
        (s.finish correlationPolicy) := by
  have hremoved : Increasing sortKey s.removed := by
    rw [h.removed]
    exact (keyed_firsts hbase).increasing.onlyIn
  have hadded : Increasing sortKey s.added := by
    rw [h.added]
    exact (keyed_firsts htarget).increasing.onlyIn
  have hcorrelated : PairsIncreasing s.correlated := by
    rw [h.correlated]
    exact List.pairwise_map.mpr (common_increasing (keyed_firsts hbase).increasing)
  have hchanged : PairsIncreasing s.changed := h.changed ▸ hcorrelated.filter _
  have hmoved : PairsIncreasing s.moved := h.moved ▸ hcorrelated.filter _
  have hsub : s.removed ++ s.added ⊆ baseSource.all ++ targetSource.all := by
    refine List.append_subset.mpr ⟨fun r hr => ?_, fun a ha => ?_⟩
    · rw [h.removed, mem_onlyIn_firsts hbase htarget] at hr
      exact List.mem_append_left _ hr.1.mem
    · rw [h.added, mem_onlyIn_firsts htarget hbase] at ha
      exact List.mem_append_right _ ha.1.mem
  refine ((settles_possibleCorrelated hadded).mono hsub).bind fun pairs hpairs => ?_
  rw [sortComparisonRecords_eq hremoved, sortComparisonRecords_eq hadded,
    sortComparisonPairs_eq hchanged,
    sortComparisonPairs_eq hmoved, sortComparisonPairs_eq hcorrelated,
      sortComparisonPairs_eq hpairs.increasing]
  refine ⟨⟨fun r => ?_, fun a => ?_, fun p => ?_, fun p => ?_, fun p => ?_, hremoved, hadded,
    hcorrelated, hchanged,
    hmoved⟩, hpairs⟩
  · rw [h.removed]
    exact mem_onlyIn_firsts hbase htarget
  · rw [h.added]
    exact mem_onlyIn_firsts htarget hbase
  · rw [h.correlated]
    exact mem_common_firsts hbase htarget
  · rw [h.changed, List.mem_filter]
    simp only [isChanged, decide_eq_true_eq]
    rfl
  · rw [h.moved, List.mem_filter]
    simp only [isMoved, decide_eq_true_eq]
    rfl

omit [Sha256] in
theorem firsts_subset (hbase : baseSource.Ordered) (htarget : targetSource.Ordered) :
    baseSource.firsts ++ targetSource.firsts ⊆ baseSource.all ++ targetSource.all := by
  refine List.append_subset.mpr ⟨fun r hr => ?_, fun a ha => ?_⟩
  · exact List.mem_append_left _ ((mem_source_firsts hbase).mp hr).mem
  · exact List.mem_append_right _ ((mem_source_firsts htarget).mp ha).mem

def Returns (baseSource targetSource : ComparisonRecordSource)
    (correlationPolicy : CorrelationPolicy)
    (result : Except ComparisonError ComparisonDiff) : Prop :=
  ∃ n, ∀ fuel, n ≤ fuel → diffComparisonRecordSources fuel baseSource targetSource
    correlationPolicy = some result

variable (correlationPolicy) in
theorem exists_returns (hbase : baseSource.Ordered) (htarget : targetSource.Ordered) :
    ∃ result, Returns baseSource targetSource correlationPolicy result ∧
      Settles (baseSource.all ++ targetSource.all)
        (fun diff => IsKeyedDiff baseSource.all targetSource.all diff ∧
        IsPossible correlationPolicy diff.removed diff.added diff.possibleCorrelated) result := by
  obtain ⟨x, ⟨n, hends⟩, hinv, hdone⟩ := Loop.ends_of_invariant
    (Settles (baseSource.firsts ++ targetSource.firsts) (Inv baseSource.firsts targetSource.firsts))
      measure
    (fun _ _ => step_spec) (inv_start hbase htarget)
  refine ⟨x.bind (·.finish correlationPolicy), ⟨n, fun fuel hfuel => ?_⟩, ?_⟩
  · have hflags : (!baseSource.orderedByIdentity || !targetSource.orderedByIdentity) = false := by
      rw [hbase.declared, htarget.declared]
      rfl
    rw [diffComparisonRecordSources, hflags, hends fuel hfuel]
    rfl
  · cases x with
    | error e => exact hinv.mono (firsts_subset hbase htarget)
    | ok s => exact settles_finish hbase htarget (hinv.finished hdone)

variable (correlationPolicy) in
theorem diffComparisonRecordSources_keyed (hbase : baseSource.Ordered)
    (htarget : targetSource.Ordered) :
    ∃ result, Returns baseSource targetSource correlationPolicy result ∧
      match result with
      | .ok diff => IsKeyedDiff baseSource.all targetSource.all diff ∧
          IsPossible correlationPolicy diff.removed diff.added diff.possibleCorrelated ∧
          (correlationPolicy = .includePossible →
            (diff.removed.map CanonicalQueryRecord.recordId).Nodup →
            Maximal diff.removed diff.added diff.possibleCorrelated)
      | .error e => ∃ record ∈ baseSource.all ++ targetSource.all, ∃ error,
          comparisonContentDigest record = .error error ∧ e = .encoding error := by
  obtain ⟨result, hreturns, hsettles⟩ := exists_returns correlationPolicy hbase htarget
  refine ⟨result, hreturns, ?_⟩
  cases result with
  | error e => exact hsettles
  | ok diff =>
    obtain ⟨hkeyed, hpossible⟩ := hsettles
    exact ⟨hkeyed, hpossible, fun hpolicy hids =>
      (hpossible.maximal hpolicy).maximal hpossible.matching.base hids⟩

end Diff

section SharedIds

def plainRecord (recordId identityKey : String) : CanonicalQueryRecord where
  recordId := units recordId
  category := units "entity"
  kind := units "ts:function"
  universalKind := units "function"
  ownerArtifactId := units "art_1"
  ownerArtifactVersionId := units "ver_1"
  primarySourceSpan := none
  identityKey := some (units identityKey)
  facets := none
  body := []

abbrev sha2 : Sha256 where
  digest := Sha2.sha256

def repeatedBase (secondId : String) : ComparisonRecordSource :=
  ⟨.batches [[plainRecord "r" "a"], [plainRecord "r" "a", plainRecord secondId "b"]], true⟩

def newTarget : ComparisonRecordSource := ⟨.list [plainRecord "s" "c", plainRecord "t" "d"], true⟩

omit [Sha256] in
theorem ordered_repeatedBase (secondId : String) : (repeatedBase secondId).Ordered := by
  have hkeys : (repeatedBase secondId).all.filterMap CanonicalQueryRecord.identityKey =
      [units "a", units "a", units "b"] := rfl
  refine ⟨rfl, ?_⟩
  rw [hkeys]
  decide +kernel

omit [Sha256] in
theorem ordered_newTarget : newTarget.Ordered := ⟨rfl, by decide +kernel⟩

theorem plainRecord_digest (recordId identityKey : String) :
    ∃ digest, comparisonContentDigest (plainRecord recordId identityKey) = .ok digest := by
  have hbytes : (canonicalBytes (comparisonContent (plainRecord "" ""))).toOption.isSome =
      true := by decide +kernel
  rw [comparisonContentDigest]
  change ∃ digest, (canonicalBytes (comparisonContent (plainRecord "" ""))).map
    LogicalEncoding.digestBytes = .ok digest
  cases h : canonicalBytes (comparisonContent (plainRecord "" "")) with
  | ok bytes => exact ⟨LogicalEncoding.digestBytes bytes, rfl⟩
  | error e =>
    rw [h] at hbytes
    cases hbytes

theorem sameContent_plainRecord (recordId identityKey recordId' identityKey' : String) :
    SameContent (plainRecord recordId identityKey) (plainRecord recordId' identityKey') := rfl

omit [Sha256] in
theorem plainRecord_of_mem {secondId : String} {r : CanonicalQueryRecord}
    (h : r ∈ (repeatedBase secondId).all ++ newTarget.all) :
    ∃ recordId identityKey, r = plainRecord recordId identityKey := by
  have hall : (repeatedBase secondId).all ++ newTarget.all =
      [("r", "a"), ("r", "a"), (secondId, "b"), ("s", "c"), ("t", "d")].map
        (fun p => plainRecord p.1 p.2) := rfl
  rw [hall] at h
  obtain ⟨p, -, rfl⟩ := List.mem_map.mp h
  exact ⟨p.1, p.2, rfl⟩

theorem returns_plain (secondId : String) : ∃ diff,
    Returns (repeatedBase secondId) newTarget .includePossible (.ok diff) ∧
      IsKeyedDiff (repeatedBase secondId).all newTarget.all diff ∧
        IsPossible .includePossible diff.removed diff.added diff.possibleCorrelated := by
  obtain ⟨result, hreturns, hsettles⟩ :=
    exists_returns .includePossible (ordered_repeatedBase secondId) ordered_newTarget
  cases result with
  | ok diff => exact ⟨diff, hreturns, hsettles⟩
  | error e =>
    obtain ⟨record, hmem, error, hdigest, -⟩ := hsettles
    obtain ⟨recordId, identityKey, rfl⟩ := plainRecord_of_mem hmem
    obtain ⟨digest, hok⟩ := plainRecord_digest recordId identityKey
    rw [hok] at hdigest
    cases hdigest

theorem removed_plain {secondId : String} {diff : ComparisonDiff}
    (h : IsKeyedDiff (repeatedBase secondId).all newTarget.all diff) :
    plainRecord "r" "a" ∈ diff.removed ∧ plainRecord secondId "b" ∈ diff.removed := by
  have hnew : ∀ key ∈ [units "a", units "b"], ∀ t ∈ newTarget.all, t.identityKey ≠ some key := by
    decide +kernel
  have hother : ∀ b ∈ [some (units "a"), some (units "a")], b ≠ some (units "b") := by
    decide +kernel
  constructor
  · exact (h.removed _).mpr ⟨⟨[], _, rfl, by simp [plainRecord], by simp⟩, hnew _ (by simp)⟩
  · refine (h.removed _).mpr ⟨⟨[plainRecord "r" "a", plainRecord "r" "a"], [], rfl,
      by simp [plainRecord], ?_⟩,
      hnew _ (by simp)⟩
    exact fun b hb => hother _ (List.mem_map_of_mem hb)

theorem added_plain {secondId : String} {diff : ComparisonDiff}
    (h : IsKeyedDiff (repeatedBase secondId).all newTarget.all diff) :
    plainRecord "s" "c" ∈ diff.added ∧ plainRecord "t" "d" ∈ diff.added := by
  have hold : ∀ key ∈ [units "c", units "d"],
      ∀ k ∈ [some (units "a"), some (units "a"), some (units "b")],
      k ≠ some key := by decide +kernel
  have hbase : ∀ key ∈ [units "c", units "d"], ∀ b ∈ (repeatedBase secondId).all,
      b.identityKey ≠ some key :=
    fun key hkey b hb => hold key hkey _ (List.mem_map_of_mem hb)
  constructor
  · exact (h.added _).mpr ⟨⟨[], _, rfl, by simp [plainRecord], by simp⟩, hbase _ (by simp)⟩
  · refine (h.added _).mpr ⟨⟨[plainRecord "s" "c"], [], rfl, by simp [plainRecord], ?_⟩,
      hbase _ (by simp)⟩
    have hne : some (units "c") ≠ some (units "d") := by decide +kernel
    exact List.forall_mem_singleton.mpr hne

omit [Sha256] in
theorem shared_record_id_not_maximal :
    let _ : Sha256 := sha2
    ∃ diff, Returns (repeatedBase "r") newTarget .includePossible (.ok diff) ∧
      ¬ Maximal diff.removed diff.added diff.possibleCorrelated := by
  intro _
  obtain ⟨diff, hreturns, hkeyed, hpossible⟩ := returns_plain "r"
  refine ⟨diff, hreturns, fun hmaximal => ?_⟩
  obtain ⟨hremoved, hremoved'⟩ := removed_plain hkeyed
  obtain ⟨hadded, hadded'⟩ := added_plain hkeyed
  have hids := (hpossible.maximal rfl).1
  have hid : ∀ p ∈ diff.possibleCorrelated, p.base.recordId = units "r" := by
    intro p hp
    have hmem := ((hkeyed.removed _).mp (hpossible.matching.base p hp)).1.mem
    have hall : (repeatedBase "r").all =
        [plainRecord "r" "a", plainRecord "r" "a", plainRecord "r" "b"] := rfl
    rw [hall] at hmem
    rcases List.mem_cons.mp hmem with h | hmem
    · exact congrArg CanonicalQueryRecord.recordId h
    · rcases List.mem_cons.mp hmem with h | hmem
      · exact congrArg CanonicalQueryRecord.recordId h
      · exact congrArg CanonicalQueryRecord.recordId (List.mem_singleton.mp hmem)
  have hbaseNe : plainRecord "r" "a" ≠ plainRecord "r" "b" := by
    intro h
    have hkeys : some (units "a") ≠ some (units "b") := by decide +kernel
    exact hkeys (congrArg CanonicalQueryRecord.identityKey h)
  have htargetNe : plainRecord "s" "c" ≠ plainRecord "t" "d" := by
    intro h
    have hkeys : some (units "c") ≠ some (units "d") := by decide +kernel
    exact hkeys (congrArg CanonicalQueryRecord.identityKey h)
  cases hpairs : diff.possibleCorrelated with
  | nil =>
    have h := hmaximal _ hremoved _ hadded (sameContent_plainRecord ..)
    rw [hpairs] at h
    rcases h with h | h <;> cases h
  | cons p pairs =>
    cases pairs with
    | nil =>
      have hpaired : ∀ r ∈ diff.removed, ∀ a ∈ diff.added, SameContent r a →
          a = p.target ∨ r = p.base := by
        intro r hr a ha hsame
        have h := hmaximal r hr a ha hsame
        rw [hpairs] at h
        exact h.imp List.mem_singleton.mp List.mem_singleton.mp
      rcases hpaired _ hremoved _ hadded (sameContent_plainRecord ..) with hc | ha
      · rcases hpaired _ hremoved _ hadded' (sameContent_plainRecord ..) with hd | ha
        · exact htargetNe (hc.trans hd.symm)
        · rcases hpaired _ hremoved' _ hadded' (sameContent_plainRecord ..) with hd | hb
          · exact htargetNe (hc.trans hd.symm)
          · exact hbaseNe (ha.trans hb.symm)
      · rcases hpaired _ hremoved' _ hadded (sameContent_plainRecord ..) with hc | hb
        · rcases hpaired _ hremoved' _ hadded' (sameContent_plainRecord ..) with hd | hb
          · exact htargetNe (hc.trans hd.symm)
          · exact hbaseNe (ha.trans hb.symm)
        · exact hbaseNe (ha.trans hb.symm)
    | cons q pairs =>
      rw [hpairs] at hids hid
      have hp := hid p (List.mem_cons_self ..)
      have hq := hid q (List.mem_cons_of_mem _ (List.mem_cons_self ..))
      exact (List.nodup_cons.mp hids).1 (List.mem_map.mpr
        ⟨q, List.mem_cons_self .., hq.trans hp.symm⟩)

omit [Sha256] in
theorem diffComparisonRecordSources_keyed_new :
    let _ : Sha256 := sha2
    ∃ diff, Returns (repeatedBase "q") newTarget .includePossible (.ok diff) ∧
      IsKeyedDiff (repeatedBase "q").all newTarget.all diff ∧
        IsMatching diff.removed diff.added diff.possibleCorrelated := by
  intro _
  obtain ⟨result, hreturns, hspec⟩ :=
    diffComparisonRecordSources_keyed .includePossible (ordered_repeatedBase "q") ordered_newTarget
  cases result with
  | ok diff => exact ⟨diff, hreturns, hspec.1, hspec.2.1.matching⟩
  | error e =>
    obtain ⟨record, hmem, error, hdigest, -⟩ := hspec
    obtain ⟨recordId, identityKey, rfl⟩ := plainRecord_of_mem hmem
    obtain ⟨digest, hok⟩ := plainRecord_digest recordId identityKey
    rw [hok] at hdigest
    cases hdigest

end SharedIds

end QueryComparison

end Engine
