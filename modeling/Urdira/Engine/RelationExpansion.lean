import Urdira.Engine.QueryOperators
import Urdira.Lib.Distance

open Distance

namespace Engine

namespace Operators

section Graph

variable (edges : List RelationEdge) (direction : Direction) (relationKinds : List String)

def Kept (edge : RelationEdge) : Prop := relationKinds = [] ∨ edge.relationKind ∈ relationKinds

def Arc (x y : String) : Prop :=
  ∃ edge ∈ edges, Kept relationKinds edge ∧
    (direction.forward = true ∧ edge.source = x ∧ edge.target = y ∨
      direction.backward = true ∧ edge.target = x ∧ edge.source = y)

def oriented (edge : RelationEdge) : List RelationEdge :=
  if skipped relationKinds edge then []
  else
    (if direction.forward then [edge] else []) ++
      if direction.backward && edge.target != edge.source then [edge.flip] else []

def arcs : List RelationEdge := edges.flatMap (oriented direction relationKinds)

variable {edges direction relationKinds}

theorem get_addEdge (bySubject : List (String × List RelationEdge)) (edge : RelationEdge)
    (x : String) :
    MultiMap.get (addEdge direction relationKinds bySubject edge) x =
      MultiMap.get bySubject x ++
        (oriented direction relationKinds edge).filter (fun a => decide (a.source = x)) := by
  unfold addEdge oriented
  split_ifs with hskip hforward hbackward hbackward
  · simp
  · rw [MultiMap.get_push, MultiMap.get_push, List.append_assoc]
    by_cases hs : edge.source = x <;> by_cases ht : edge.target = x <;>
      simp [hs, ht, RelationEdge.flip]
  · rw [MultiMap.get_push]
    by_cases hs : edge.source = x <;> simp [hs]
  · rw [MultiMap.get_push]
    by_cases ht : edge.target = x <;> simp [ht, RelationEdge.flip]
  · simp

theorem get_foldl_addEdge (bySubject : List (String × List RelationEdge)) (x : String) :
    MultiMap.get (edges.foldl (addEdge direction relationKinds) bySubject) x =
      MultiMap.get bySubject x ++ (arcs edges direction relationKinds).filter
        (fun a => decide (a.source = x)) := by
  induction edges generalizing bySubject with
  | nil => simp [arcs]
  | cons edge edges ih =>
    rw [List.foldl_cons, ih, get_addEdge, arcs, arcs, List.flatMap_cons, List.filter_append,
      List.append_assoc]

theorem get_adjacency (x : String) :
    MultiMap.get (adjacency edges direction relationKinds) x =
      (arcs edges direction relationKinds).filter (fun a => decide (a.source = x)) := by
  rw [adjacency, get_foldl_addEdge]
  rfl

theorem kept_iff {edge : RelationEdge} : Kept relationKinds edge ↔
      skipped relationKinds edge = false := by
  cases relationKinds with
  | nil => simp [Kept, skipped]
  | cons kind kinds =>
    rw [Kept, skipped, or_iff_right (List.cons_ne_nil kind kinds)]
    simp only [List.isEmpty_cons, Bool.not_false, Bool.true_and, Bool.not_eq_false',
      List.contains_iff_mem]

theorem mem_oriented {edge a : RelationEdge} : a ∈ oriented direction relationKinds edge ↔
    Kept relationKinds edge ∧ (direction.forward = true ∧ a = edge ∨
      direction.backward = true ∧ edge.target ≠ edge.source ∧ a = edge.flip) := by
  rw [kept_iff]
  unfold oriented
  split_ifs with hskip hforward hbackward hbackward
  · simp [hskip]
  · simp_all
  · simp_all
  · simp_all
  · simp_all

theorem arc_of_mem {a : RelationEdge} (h : a ∈ arcs edges direction relationKinds) :
    Arc edges direction relationKinds a.source a.target := by
  obtain ⟨edge, hedge, ha⟩ := List.mem_flatMap.mp h
  obtain ⟨hkept, ⟨hdir, rfl⟩ | ⟨hdir, -, rfl⟩⟩ := mem_oriented.mp ha
  · exact ⟨a, hedge, hkept, .inl ⟨hdir, rfl, rfl⟩⟩
  · exact ⟨edge, hedge, hkept, .inr ⟨hdir, rfl, rfl⟩⟩

theorem exists_arc {x y : String} (h : Arc edges direction relationKinds x y) (hne : x ≠ y) :
    ∃ a ∈ arcs edges direction relationKinds, a.source = x ∧ a.target = y := by
  obtain ⟨edge, hedge, hkept, ⟨hdir, rfl, rfl⟩ | ⟨hdir, rfl, rfl⟩⟩ := h
  · exact ⟨edge, List.mem_flatMap.mpr ⟨edge, hedge, mem_oriented.mpr ⟨hkept, .inl ⟨hdir, rfl⟩⟩⟩,
      rfl, rfl⟩
  · exact ⟨edge.flip, List.mem_flatMap.mpr
      ⟨edge, hedge, mem_oriented.mpr ⟨hkept, .inr ⟨hdir, hne, rfl⟩⟩⟩, rfl, rfl⟩

end Graph

section Invariant

variable {edges : List RelationEdge} {direction : Direction} {relationKinds : List String}
variable {roots : List String} {minDepth maxDepth : ℕ}

abbrev RootWalk (edges : List RelationEdge) (direction : Direction)
    (relationKinds roots : List String) :
    ℕ → String → Prop :=
  Walk (Arc edges direction relationKinds) (· ∈ roots)

def fresh (roots : List String) (queue : List (String × ℕ)) : List (String × ℕ) :=
  queue.drop roots.length

structure Queued (edges : List RelationEdge) (direction : Direction)
    (relationKinds roots : List String)
    (minDepth maxDepth ceiling : ℕ) (s : Expansion) : Prop where
  rooted : s.queue = roots.map (fun subject => (subject, 0)) ++ fresh roots s.queue
  nodup : ((fresh roots s.queue).map Prod.fst).Nodup
  targets : ∀ e ∈ fresh roots s.queue,
    e.1 ∈ (arcs edges direction relationKinds).map RelationEdge.target
  unrooted : ∀ e ∈ fresh roots s.queue, e.1 ∉ roots
  depths : ∀ e ∈ fresh roots s.queue, 1 ≤ e.2 ∧ e.2 ≤ maxDepth
  result : s.result.map (fun r => (r.subject, r.depth)) =
    (fresh roots s.queue).filter (fun e => decide (minDepth ≤ e.2))
  seen : ∀ x, x ∈ s.seen ↔ ∃ d, (x, d) ∈ s.queue
  walks : ∀ e ∈ s.queue, RootWalk edges direction relationKinds roots e.2 e.1
  sorted : s.queue.Pairwise (fun e e' => e.2 ≤ e'.2)
  bounded : ∀ e ∈ s.queue, e.2 ≤ ceiling

theorem Queued.mono {s : Expansion} {ceiling ceiling' : ℕ} (hle : ceiling ≤ ceiling')
    (h : Queued edges direction relationKinds roots minDepth maxDepth ceiling s) :
    Queued edges direction relationKinds roots minDepth maxDepth ceiling' s :=
  { h with bounded := fun e he => (h.bounded e he).trans hle }

structure Followed (edges : List RelationEdge) (direction : Direction)
    (relationKinds roots : List String)
    (minDepth maxDepth d : ℕ) (s s' : Expansion) : Prop where
  queued : Queued edges direction relationKinds roots minDepth maxDepth (d + 1) s'
  appended : ∃ rest, s'.queue = s.queue ++ rest ∧ ∀ e ∈ rest, e.2 = d + 1
  index : s'.queueIndex = s.queueIndex

theorem Followed.subset {s s' : Expansion} {d : ℕ}
    (h : Followed edges direction relationKinds roots minDepth maxDepth d s s') :
    s.queue ⊆ s'.queue := by
  obtain ⟨rest, hrest, -⟩ := h.appended
  exact hrest ▸ List.subset_append_left _ _

theorem Queued.follow {s : Expansion} {x : String} {d : ℕ} {a : RelationEdge}
    (h : Queued edges direction relationKinds roots minDepth maxDepth (d + 1) s)
    (hx : (x, d) ∈ s.queue) (hd : d < maxDepth) (ha : a ∈ arcs edges direction relationKinds)
    (hsource : a.source = x) :
    Followed edges direction relationKinds roots minDepth maxDepth d s
      (s.follow minDepth (d + 1) a) ∧
      ∃ d', (a.target, d') ∈ (s.follow minDepth (d + 1) a).queue := by
  unfold Expansion.follow
  split
  · rename_i hseen
    exact ⟨⟨h, ⟨[], (List.append_nil _).symm, List.forall_mem_nil _⟩, rfl⟩, (h.seen _).mp hseen⟩
  · rename_i hseen
    have hunseen : ∀ d', (a.target, d') ∉ s.queue :=
      fun d' hmem => hseen ((h.seen _).mpr ⟨d', hmem⟩)
    have hlen : roots.length ≤ s.queue.length := by
      rw [h.rooted, List.length_append, List.length_map]
      omega
    have hdrop : fresh roots (s.queue ++ [(a.target, d + 1)]) =
        fresh roots s.queue ++ [(a.target, d + 1)] :=
      List.drop_append_of_le_length hlen
    have hroots : a.target ∉ roots := fun hmem => hunseen 0 (by
      rw [h.rooted]
      exact List.mem_append_left _ (List.mem_map_of_mem hmem))
    have hnew : ∀ {e : String × ℕ}, e ∈ s.queue ++ [(a.target, d + 1)] →
        e ∈ s.queue ∨ e = (a.target, d + 1) :=
      fun he => (List.mem_append.mp he).imp id List.mem_singleton.mp
    have hfresh : ∀ {e : String × ℕ}, e ∈ fresh roots s.queue ++ [(a.target, d + 1)] →
        e ∈ fresh roots s.queue ∨ e = (a.target, d + 1) :=
      fun he => (List.mem_append.mp he).imp id List.mem_singleton.mp
    refine ⟨⟨⟨?_, ?_, ?_, ?_, ?_, ?_, ?_, ?_, ?_, ?_⟩, ⟨_, rfl, List.forall_mem_singleton.mpr rfl⟩,
      rfl⟩, ?_⟩ <;>
      dsimp only <;> try rw [hdrop]
    · rw [← List.append_assoc, ← h.rooted]
    · rw [List.map_append, List.nodup_append]
      refine ⟨h.nodup, List.nodup_singleton _, ?_⟩
      rintro y hy z hz rfl
      obtain ⟨e, he, rfl⟩ := List.mem_map.mp hy
      have heq : e.1 = a.target := by simpa using hz
      have hmem : e ∈ s.queue := List.mem_of_mem_drop he
      exact hunseen e.2 (heq ▸ hmem)
    · intro e he
      rcases hfresh he with he | rfl
      · exact h.targets e he
      · exact List.mem_map_of_mem ha
    · intro e he
      rcases hfresh he with he | rfl
      · exact h.unrooted e he
      · exact hroots
    · intro e he
      rcases hfresh he with he | rfl
      · exact h.depths e he
      · exact ⟨Nat.le_add_left 1 d, hd⟩
    · rw [List.filter_append]
      split_ifs with hmin
      · rw [List.map_append, h.result]
        simp [hmin]
      · rw [h.result]
        simp [hmin]
    · intro y
      rw [List.mem_cons, h.seen]
      constructor
      · rintro (rfl | ⟨d', hmem⟩)
        · exact ⟨d + 1, List.mem_append_right _ (List.mem_singleton.mpr rfl)⟩
        · exact ⟨d', List.mem_append_left _ hmem⟩
      · rintro ⟨d', hmem⟩
        rcases hnew hmem with hmem | heq
        · exact .inr ⟨d', hmem⟩
        · exact .inl (congrArg Prod.fst heq)
    · intro e he
      rcases hnew he with he | rfl
      · exact h.walks e he
      · exact (h.walks _ hx).step (hsource ▸ arc_of_mem ha)
    · rw [List.pairwise_append]
      refine ⟨h.sorted, List.pairwise_singleton _ _, ?_⟩
      intro e he e' he'
      rw [List.mem_singleton.mp he']
      exact h.bounded e he
    · intro e he
      rcases hnew he with he | rfl
      · exact h.bounded e he
      · exact le_rfl
    · exact ⟨d + 1, List.mem_append_right _ (List.mem_singleton.mpr rfl)⟩

theorem Followed.refl {s : Expansion} {d : ℕ}
    (h : Queued edges direction relationKinds roots minDepth maxDepth (d + 1) s) :
    Followed edges direction relationKinds roots minDepth maxDepth d s s :=
  ⟨h, ⟨[], (List.append_nil _).symm, List.forall_mem_nil _⟩, rfl⟩

theorem Followed.trans {s s' s'' : Expansion} {d : ℕ}
    (h : Followed edges direction relationKinds roots minDepth maxDepth d s s')
    (h' : Followed edges direction relationKinds roots minDepth maxDepth d s' s'') :
    Followed edges direction relationKinds roots minDepth maxDepth d s s'' := by
  obtain ⟨rest, hrest, hdepths⟩ := h.appended
  obtain ⟨rest', hrest', hdepths'⟩ := h'.appended
  refine ⟨h'.queued, ⟨rest ++ rest', ?_, ?_⟩, h'.index.trans h.index⟩
  · rw [hrest', hrest, List.append_assoc]
  · intro e he
    exact (List.mem_append.mp he).elim (hdepths e) (hdepths' e)

theorem Queued.followAll {s : Expansion} {x : String} {d : ℕ} {as : List RelationEdge}
    (h : Queued edges direction relationKinds roots minDepth maxDepth (d + 1) s)
    (hx : (x, d) ∈ s.queue) (hd : d < maxDepth)
    (has : ∀ a ∈ as, a ∈ arcs edges direction relationKinds ∧ a.source = x) :
    Followed edges direction relationKinds roots minDepth maxDepth d s
        (as.foldl (Expansion.follow minDepth (d + 1)) s) ∧
      ∀ a ∈ as, ∃ d', (a.target, d') ∈ (as.foldl (Expansion.follow minDepth (d + 1)) s).queue := by
  induction as generalizing s with
  | nil => exact ⟨.refl h, List.forall_mem_nil _⟩
  | cons a as ih =>
    obtain ⟨⟨ha, hsource⟩, has⟩ := List.forall_mem_cons.mp has
    obtain ⟨hstep, d', htarget⟩ := h.follow hx hd ha hsource
    obtain ⟨hrest, htargets⟩ := ih hstep.queued (hstep.subset hx) has
    rw [List.foldl_cons]
    exact ⟨hstep.trans hrest, List.forall_mem_cons.mpr ⟨⟨d', hrest.subset htarget⟩, htargets⟩⟩

structure Searching (edges : List RelationEdge) (direction : Direction)
    (relationKinds roots : List String)
    (minDepth maxDepth : ℕ) (s : Expansion) : Prop where
  queued : ∃ ceiling, Queued edges direction relationKinds roots minDepth maxDepth ceiling s ∧
    ∀ j e, s.queueIndex ≤ j → s.queue[j]? = some e → ceiling ≤ e.2 + 1
  expanded : Expanded (Arc edges direction relationKinds) (· ∈ roots) maxDepth s.queueIndex s.queue

theorem searching_start (edges : List RelationEdge) (direction : Direction)
    (relationKinds roots : List String)
    (minDepth maxDepth : ℕ) :
    Searching edges direction relationKinds roots minDepth maxDepth (.start roots) := by
  have hfresh : fresh roots (Expansion.start roots).queue = [] := by
    rw [fresh, Expansion.start]
    exact List.drop_eq_nil_of_le (by rw [List.length_map])
  have hmem : ∀ e ∈ (Expansion.start roots).queue, e.1 ∈ roots ∧ e.2 = 0 := by
    intro e he
    obtain ⟨x, hx, rfl⟩ := List.mem_map.mp he
    exact ⟨hx, rfl⟩
  refine ⟨⟨0, ⟨?_, ?_, ?_, ?_, ?_, ?_, ?_, ?_, ?_, ?_⟩, fun _ _ _ _ => Nat.zero_le _⟩, ?_, ?_, ?_⟩
  · rw [hfresh, List.append_nil]
    rfl
  · rw [hfresh]
    exact List.nodup_nil
  · rw [hfresh]
    exact List.forall_mem_nil _
  · rw [hfresh]
    exact List.forall_mem_nil _
  · rw [hfresh]
    exact List.forall_mem_nil _
  · rw [hfresh]
    rfl
  · intro x
    simp [Expansion.start]
  · intro e he
    obtain ⟨hroot, hzero⟩ := hmem e he
    rw [hzero]
    exact .root hroot
  · exact List.pairwise_of_forall_mem_list (fun e he e' _ => by
      rw [(hmem e he).2]
      exact Nat.zero_le _)
  · intro e he
    exact (hmem e he).2.le
  · intro x hx
    exact List.mem_map_of_mem hx
  · intro e he
    obtain ⟨hroot, hzero⟩ := hmem e he
    rw [hzero]
    exact .root hroot
  · intro i x d y hi
    exact absurd hi (Nat.not_lt_zero i)

theorem Queued.length_le {ceiling : ℕ} {s : Expansion}
    (h : Queued edges direction relationKinds roots minDepth maxDepth ceiling s) :
    s.queue.length ≤ roots.length + (arcs edges direction relationKinds).length := by
  have hsub : (fresh roots s.queue).map Prod.fst ⊆ (arcs edges direction relationKinds).map
      RelationEdge.target := by
    intro y hy
    obtain ⟨e, he, rfl⟩ := List.mem_map.mp hy
    exact h.targets e he
  have hle := (h.nodup.subperm hsub).length_le
  rw [List.length_map, List.length_map] at hle
  rw [h.rooted, List.length_append, List.length_map]
  omega

theorem searching_step {s s' : Expansion}
    (h : Searching edges direction relationKinds roots minDepth maxDepth s)
    (hstep : s.step (adjacency edges direction relationKinds) minDepth maxDepth = some s') :
    Searching edges direction relationKinds roots minDepth maxDepth s' ∧ s'.queueIndex =
      s.queueIndex + 1 ∧
      s.queueIndex < roots.length + (arcs edges direction relationKinds).length := by
  obtain ⟨⟨ceiling, hqueued, hceiling⟩, hexpanded⟩ := h
  unfold Expansion.step at hstep
  split at hstep
  · cases hstep
  · rename_i x d hcurrent
    have hindex : s.queueIndex < s.queue.length := (List.getElem?_eq_some_iff.mp hcurrent).1
    have hmem : (x, d) ∈ s.queue := List.mem_of_getElem? hcurrent
    have hbound := hqueued.length_le
    have hlater : ∀ j e, s.queueIndex ≤ j → s.queue[j]? = some e → d ≤ e.2 := by
      intro j e hj he
      obtain ⟨hjlt, rfl⟩ := List.getElem?_eq_some_iff.mp he
      obtain ⟨_, hx⟩ := List.getElem?_eq_some_iff.mp hcurrent
      have hd : d = (s.queue[s.queueIndex]).2 := by rw [hx]
      rcases hj.lt_or_eq with hlt | heq
      · rw [hd]
        exact List.pairwise_iff_getElem.mp hqueued.sorted _ _ hindex hjlt hlt
      · subst heq
        rw [hd]
    dsimp only at hstep
    split at hstep
    · rename_i hdeep
      obtain rfl := Option.some.inj hstep
      refine ⟨⟨⟨ceiling, ⟨hqueued.rooted, hqueued.nodup, hqueued.targets, hqueued.unrooted,
        hqueued.depths,
        hqueued.result, hqueued.seen, hqueued.walks, hqueued.sorted, hqueued.bounded⟩, ?_⟩, ?_⟩,
          rfl, by omega⟩
      · intro j e hj he
        exact hceiling j e (Nat.le_of_succ_le hj) he
      · have hextended := hexpanded.extend (List.forall_mem_nil _) hcurrent
          (fun hlt => absurd hlt (by omega))
        rwa [List.append_nil] at hextended
    · rename_i hdepth
      obtain rfl := Option.some.inj hstep
      rw [get_adjacency]
      generalize has : (arcs edges direction relationKinds).filter _ = as
      have hqueued' : Queued edges direction relationKinds roots minDepth maxDepth (d + 1)
          { s with queueIndex := s.queueIndex + 1 } := by
        have hmono := hqueued.mono (hceiling _ _ le_rfl hcurrent)
        exact ⟨hmono.rooted, hmono.nodup, hmono.targets, hmono.unrooted, hmono.depths, hmono.result,
          hmono.seen, hmono.walks, hmono.sorted, hmono.bounded⟩
      have hsources : ∀ a ∈ as, a ∈ arcs edges direction relationKinds ∧ a.source = x := by
        intro a ha
        rw [← has, List.mem_filter] at ha
        exact ⟨ha.1, of_decide_eq_true ha.2⟩
      obtain ⟨hfollowed, htargets⟩ := hqueued'.followAll hmem (by omega) hsources
      generalize hfold : as.foldl (Expansion.follow minDepth (d + 1)) _ = s' at hfollowed htargets
      obtain ⟨rest, hrest, hdepths⟩ := hfollowed.appended
      have hrest : s.queue ++ rest = s'.queue := hrest.symm
      refine ⟨⟨⟨d + 1, hfollowed.queued, ?_⟩, ?_⟩, hfollowed.index, by omega⟩
      · intro j e hj he
        rw [hfollowed.index] at hj
        rcases Nat.lt_or_ge j s.queue.length with hlt | hge
        · rw [← hrest, List.getElem?_append_left hlt] at he
          have hle := hlater j e (Nat.le_of_succ_le hj) he
          omega
        · have hnew : e ∈ rest := by
            rw [← hrest, List.getElem?_append_right hge] at he
            exact List.mem_of_getElem? he
          have hd := hdepths e hnew
          omega
      · rw [hfollowed.index, ← hrest]
        refine hexpanded.extend (fun e he => ?_) hcurrent (fun _ y harc => ?_)
        · exact hfollowed.queued.walks e (hrest ▸ List.mem_append_right _ he)
        · rw [hrest]
          by_cases hxy : x = y
          · subst hxy
            exact ⟨d, by omega, hrest ▸ List.mem_append_left _ hmem⟩
          · obtain ⟨a, ha, hsource, rfl⟩ := exists_arc harc hxy
            obtain ⟨d', htarget⟩ := htargets a (by
              rw [← has]
              exact List.mem_filter.mpr ⟨ha, decide_eq_true hsource⟩)
            exact ⟨d', hfollowed.queued.bounded _ htarget, htarget⟩

end Invariant

def ExpansionWithin (edges : List RelationEdge) (direction : Direction)
    (relationKinds roots : List String)
    (minDepth maxDepth : ℕ) (result : List ExpandedRelation) : Prop :=
  (result.map ExpandedRelation.subject).Nodup ∧
    result.Pairwise (fun r r' => r.depth ≤ r'.depth) ∧
    ∀ x d, (∃ r ∈ result, r.subject = x ∧ r.depth = d) ↔
      x ∉ roots ∧ IsDistance (Arc edges direction relationKinds) (· ∈ roots) x d ∧
        max 1 minDepth ≤ d ∧ d ≤ maxDepth

section Result

variable {edges : List RelationEdge} {direction : Direction} {relationKinds : List String}
variable {roots : List String} {minDepth maxDepth ceiling : ℕ} {s : Expansion}

theorem Queued.unique (h : Queued edges direction relationKinds roots minDepth maxDepth ceiling s)
    {x : String} {d d' : ℕ} (hmem : (x, d) ∈ fresh roots s.queue) (hmem' : (x, d') ∈ s.queue) :
    d' = d := by
  rw [h.rooted] at hmem'
  rcases List.mem_append.mp hmem' with hroot | hfresh
  · obtain ⟨y, hy, heq⟩ := List.mem_map.mp hroot
    obtain ⟨rfl, -⟩ := Prod.mk.inj heq
    exact absurd hy (h.unrooted _ hmem)
  · exact congrArg Prod.snd (List.inj_on_of_nodup_map h.nodup hfresh hmem rfl)

theorem Queued.mem_fresh_iff
    (h : Queued edges direction relationKinds roots minDepth maxDepth ceiling s)
    (hexpanded : Expanded (Arc edges direction relationKinds) (· ∈ roots) maxDepth
      s.queue.length s.queue)
    {x : String} {d : ℕ} : (x, d) ∈ fresh roots s.queue ↔
      x ∉ roots ∧ IsDistance (Arc edges direction relationKinds) (· ∈ roots) x d ∧ 1 ≤ d ∧
        d ≤ maxDepth := by
  constructor
  · intro hmem
    obtain ⟨hpos, hle⟩ := h.depths _ hmem
    have hqueue : (x, d) ∈ s.queue := List.mem_of_mem_drop hmem
    exact ⟨h.unrooted _ hmem, hexpanded.isDistance hqueue hle (fun d' hmem' => h.unique hmem hmem'),
      hpos, hle⟩
  · rintro ⟨hroot, hdistance, hpos, hle⟩
    obtain ⟨d', hd', hmem⟩ := hexpanded.complete hdistance.1 hle
    have hwalk := hdistance.2 d' (h.walks _ hmem)
    obtain rfl : d' = d := by omega
    rw [h.rooted] at hmem
    refine (List.mem_append.mp hmem).resolve_left (fun hmem => ?_)
    obtain ⟨y, hy, heq⟩ := List.mem_map.mp hmem
    obtain ⟨rfl, -⟩ := Prod.mk.inj heq
    exact hroot hy

theorem Queued.within (h : Queued edges direction relationKinds roots minDepth maxDepth ceiling s)
    (hexpanded : Expanded (Arc edges direction relationKinds) (· ∈ roots) maxDepth
      s.queue.length s.queue) :
    ExpansionWithin edges direction relationKinds roots minDepth maxDepth s.result := by
  have hfilter := List.filter_sublist (p := fun e : String × ℕ => decide (minDepth ≤ e.2))
    (l := fresh roots s.queue)
  have hsubjects : s.result.map ExpandedRelation.subject =
      ((fresh roots s.queue).filter (fun e => decide (minDepth ≤ e.2))).map Prod.fst := by
    rw [← h.result, List.map_map]
    rfl
  refine ⟨?_, ?_, fun x d => ?_⟩
  · rw [hsubjects]
    exact h.nodup.sublist (hfilter.map _)
  · have hsorted := (h.sorted.sublist (List.drop_sublist roots.length s.queue)).sublist hfilter
    rw [← h.result, List.pairwise_map] at hsorted
    exact hsorted
  · have hpair : (∃ r ∈ s.result, r.subject = x ∧ r.depth = d) ↔
        (x, d) ∈ s.result.map (fun r => (r.subject, r.depth)) := by simp
    rw [hpair, h.result, List.mem_filter, h.mem_fresh_iff hexpanded, decide_eq_true_eq]
    constructor
    · rintro ⟨⟨hroot, hdistance, hpos, hle⟩, hmin⟩
      exact ⟨hroot, hdistance, by omega, hle⟩
    · rintro ⟨hroot, hdistance, hmax, hle⟩
      exact ⟨⟨hroot, hdistance, by omega, hle⟩, by omega⟩

end Result

theorem expandRelations_breadth_first (edges : List RelationEdge) (roots : List String)
    (options : RelationExpansionOptions) {minDepth maxDepth : ℕ}
    (hmin : options.minDepth.getD 1 = minDepth)
    (hmax : options.maxDepth.getD (options.minDepth.getD 1) = maxDepth) (hle : minDepth ≤ maxDepth)
    (hsafe : maxDepth ≤ 9007199254740991) :
    ∃ result, (∃ n, ∀ fuel, n ≤ fuel → expandRelations fuel edges roots options =
      some (.ok result)) ∧
      ExpansionWithin edges options.direction (options.relationKinds.getD []) roots minDepth
        maxDepth result := by
  have hstart :=
    searching_start edges options.direction (options.relationKinds.getD []) roots minDepth maxDepth
  obtain ⟨r, ⟨n, hrun⟩, ⟨⟨ceiling, hqueued, -⟩, hexpanded⟩, hdone⟩ := Loop.ends_of_invariant
    (Searching edges options.direction (options.relationKinds.getD []) roots minDepth maxDepth)
    (fun s => roots.length + (arcs edges options.direction (options.relationKinds.getD [])).length
      - s.queueIndex)
    (fun s s' hs hstep => by
      obtain ⟨hs', hindex, hlt⟩ := searching_step hs hstep
      exact ⟨hs', by omega⟩) hstart
  have hfinished : r.queue.length ≤ r.queueIndex := by
    unfold Expansion.step at hdone
    split at hdone
    · rename_i hnone
      exact List.getElem?_eq_none_iff.mp hnone
    · dsimp only at hdone
      split at hdone <;> cases hdone
  refine ⟨r.result, ⟨n, fun fuel hfuel => ?_⟩, hqueued.within (hexpanded.all hfinished)⟩
  have hvalid : (!isSafeInteger (minDepth : ℤ) || decide ((minDepth : ℤ) < 0) ||
      !isSafeInteger (maxDepth : ℤ) ||
      decide ((maxDepth : ℤ) < minDepth)) = false := by
    simp [isSafeInteger]
    omega
  rw [expandRelations, hmax, hmin]
  dsimp only
  rw [hvalid, if_neg Bool.false_ne_true, Int.toNat_natCast, Int.toNat_natCast, hrun fuel hfuel]
  rfl

theorem expandRelations_breadth_first_loop :
    ∃ result, (∃ n, ∀ fuel, n ≤ fuel → expandRelations fuel
        [⟨"a", "a", "calls", .confirmed, none⟩, ⟨"a", "b", "calls", .confirmed, none⟩,
          ⟨"b", "a", "calls", .possible, none⟩] ["a"] ⟨.both, some 0, some 2, none⟩ =
            some (.ok result)) ∧
      ExpansionWithin [⟨"a", "a", "calls", .confirmed, none⟩, ⟨"a", "b", "calls", .confirmed, none⟩,
          ⟨"b", "a", "calls", .possible, none⟩] .both [] ["a"] 0 2 result :=
  expandRelations_breadth_first _ ["a"] ⟨.both, some 0, some 2, none⟩ rfl rfl
    (by decide) (by decide)

end Operators

end Engine
