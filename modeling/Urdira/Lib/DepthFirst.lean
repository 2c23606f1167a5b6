import Mathlib.Data.List.Nodup
import Mathlib.Logic.Relation
import Mathlib.Data.List.Perm.Subperm

namespace DepthFirst

structure Graph (R F K : Type) where
  key : R → K
  edges : R → List F
  target : F → K
  find : K → Option R

structure Marks (K : Type) where
  visiting : List K
  visited : List K

structure Faults (F K ε : Type) where
  cycle : List K → ε
  unknown : F → ε

variable {R F K ε : Type} (g : Graph R F K) (faults : Faults F K ε)

section Search

def visitEdges (visit : R → Marks K → Option (Except ε (Marks K))) :
    List F → Marks K → Option (Except ε (Marks K))
  | [], marks => some (.ok marks)
  | edge :: edges, marks =>
    match g.find (g.target edge) with
    | none => some (.error (faults.unknown edge))
    | some node =>
      match visit node marks with
      | some (.ok marks) => visitEdges visit edges marks
      | stopped => stopped

variable [DecidableEq K]

-- The first argument bounds the depth of the recursion; none stands for a search that went deeper.
def visit : ℕ → R → List K → Marks K → Option (Except ε (Marks K))
  | 0, _, _, _ => none
  | fuel + 1, node, path, marks =>
    let key := g.key node
    if key ∈ marks.visiting then some (.error (faults.cycle (path ++ [key])))
    else if key ∈ marks.visited then some (.ok marks)
    else
      match visitEdges g faults (fun next => visit fuel next (path ++ [key])) (g.edges node)
          { marks with visiting := key :: marks.visiting } with
      | some (.ok marks) => some (.ok ⟨marks.visiting.erase key, key :: marks.visited⟩)
      | stopped => stopped

def visitAll (fuel : ℕ) : List R → Marks K → Option (Except ε (Marks K))
  | [], marks => some (.ok marks)
  | node :: nodes, marks =>
    match visit g faults fuel node [] marks with
    | some (.ok marks) => visitAll fuel nodes marks
    | stopped => stopped

end Search

section Fuel

variable {g faults}

theorem visitEdges_more {visit visit' : R → Marks K → Option (Except ε (Marks K))}
    (h : ∀ node marks result, visit node marks = some result → visit' node marks = some result)
    {edges : List F} {marks : Marks K} {result : Except ε (Marks K)}
    (hrun : visitEdges g faults visit edges marks = some result) :
    visitEdges g faults visit' edges marks = some result := by
  induction edges generalizing marks with
  | nil => exact hrun
  | cons edge edges ih =>
    rw [visitEdges] at hrun ⊢
    cases hfind : g.find (g.target edge) with
    | none =>
      rw [hfind] at hrun
      exact hrun
    | some node =>
      rw [hfind] at hrun
      dsimp only at hrun ⊢
      cases hvisit : visit node marks with
      | none =>
        rw [hvisit] at hrun
        cases hrun
      | some stopped =>
        rw [hvisit] at hrun
        rw [h node marks stopped hvisit]
        cases stopped with
        | error fault => exact hrun
        | ok next => exact ih hrun

variable [DecidableEq K]

theorem visit_more {fuel fuel' : ℕ} (hle : fuel ≤ fuel') {node : R} {path : List K}
    {marks : Marks K}
    {result : Except ε (Marks K)} (hrun : visit g faults fuel node path marks = some result) :
    visit g faults fuel' node path marks = some result := by
  induction fuel generalizing fuel' node path marks result with
  | zero => cases hrun
  | succ fuel ih =>
    obtain ⟨larger, rfl⟩ : ∃ larger, fuel' = larger + 1 := ⟨fuel' - 1, by omega⟩
    rw [visit] at hrun ⊢
    split_ifs at hrun ⊢ with hvisiting hvisited
    · exact hrun
    · exact hrun
    · cases hedges :
        visitEdges g faults (fun next => visit g faults fuel next (path ++ [g.key node]))
          (g.edges node) { marks with visiting := g.key node :: marks.visiting } with
      | none =>
        rw [hedges] at hrun
        cases hrun
      | some stopped =>
        rw [hedges] at hrun
        rw [visitEdges_more (fun _ _ _ h => ih (by omega) h) hedges]
        exact hrun

theorem visitAll_more {fuel fuel' : ℕ} (hle : fuel ≤ fuel') {nodes : List R} {marks : Marks K}
    {result : Except ε (Marks K)} (hrun : visitAll g faults fuel nodes marks = some result) :
    visitAll g faults fuel' nodes marks = some result := by
  induction nodes generalizing marks with
  | nil => exact hrun
  | cons node nodes ih =>
    rw [visitAll] at hrun ⊢
    cases hvisit : visit g faults fuel node [] marks with
    | none =>
      rw [hvisit] at hrun
      cases hrun
    | some stopped =>
      rw [hvisit] at hrun
      rw [visit_more hle hvisit]
      cases stopped with
      | error fault => exact hrun
      | ok next => exact ih hrun

end Fuel

section Soundness

def Edge (a b : K) : Prop := ∃ node, g.find a = some node ∧ ∃ edge ∈ g.edges node, g.target edge = b

def Cyclic : Prop := ∃ k, Relation.TransGen (Edge g) k k

def Dangling : Prop :=
  ∃ k node edge, g.find k = some node ∧ edge ∈ g.edges node ∧ g.find (g.target edge) = none

inductive Ordered : List K → Prop
  | nil : Ordered []
  | cons {k : K} {node : R} {rest : List K} (hfind : g.find k = some node) (hnew : k ∉ rest)
    (hedges : ∀ edge ∈ g.edges node, g.target edge ∈ rest) (hrest : Ordered rest) :
      Ordered (k :: rest)

variable {g}

theorem Ordered.closed {visited : List K} (h : Ordered g visited) {a b : K} (ha : a ∈ visited)
    (hab : Edge g a b) :
    b ∈ visited := by
  induction h with
  | nil => cases ha
  | @cons k node rest hfind hnew hedges hrest ih =>
    rcases List.mem_cons.mp ha with rfl | ha
    · obtain ⟨node', hfind', edge, hedge, rfl⟩ := hab
      obtain rfl := Option.some.inj (hfind.symm.trans hfind')
      exact List.mem_cons_of_mem _ (hedges edge hedge)
    · exact List.mem_cons_of_mem _ (ih ha)

theorem Ordered.closed_trans {visited : List K} (h : Ordered g visited) {a b : K} (ha : a ∈ visited)
    (hab : Relation.ReflTransGen (Edge g) a b) : b ∈ visited := by
  induction hab with
  | refl => exact ha
  | tail _ hstep ih => exact h.closed ih hstep

theorem Ordered.acyclic {visited : List K} (h : Ordered g visited) {k : K} (hk : k ∈ visited) :
    ¬ Relation.TransGen (Edge g) k k := by
  induction h with
  | nil => cases hk
  | @cons first node rest hfind hnew hedges hrest ih =>
    rcases List.mem_cons.mp hk with rfl | hk
    · intro hcycle
      obtain ⟨next, ⟨node', hfind', edge, hedge, rfl⟩, hback⟩ :=
        Relation.TransGen.head'_iff.mp hcycle
      obtain rfl := Option.some.inj (hfind.symm.trans hfind')
      exact hnew (hrest.closed_trans (hedges edge hedge) hback)
    · exact ih hk

theorem Ordered.known {visited : List K} (h : Ordered g visited) {k : K} (hk : k ∈ visited)
    {node : R} {edge : F}
    (hfind : g.find k = some node) (hedge : edge ∈ g.edges node) :
    ∃ next, g.find (g.target edge) = some next := by
  have hmem := h.closed hk ⟨node, hfind, edge, hedge, rfl⟩
  generalize g.target edge = target at hmem
  clear hk hfind
  induction h with
  | nil => cases hmem
  | @cons first other rest hother _ _ _ ih =>
    rcases List.mem_cons.mp hmem with rfl | hmem
    · exact ⟨other, hother⟩
    · exact ih hmem

end Soundness

section Correctness

structure Advanced (marks marks' : Marks K) : Prop where
  visiting : marks'.visiting = marks.visiting
  visited : marks.visited ⊆ marks'.visited
  fresh : ∀ k ∈ marks'.visited, k ∈ marks.visited ∨ k ∉ marks.visiting
  ordered : Ordered g marks.visited → Ordered g marks'.visited

variable {g faults}

theorem Advanced.refl (marks : Marks K) : Advanced g marks marks :=
  ⟨rfl, List.Subset.refl _, fun _ hk => Or.inl hk, id⟩

theorem Advanced.trans {a b c : Marks K} (h₁ : Advanced g a b) (h₂ : Advanced g b c) :
    Advanced g a c where
  visiting := h₂.visiting.trans h₁.visiting
  visited := List.Subset.trans h₁.visited h₂.visited
  fresh := by
    intro k hk
    rcases h₂.fresh k hk with hk | hk
    · exact h₁.fresh k hk
    · rw [h₁.visiting] at hk
      exact Or.inr hk
  ordered := fun h => h₂.ordered (h₁.ordered h)

def Settles (g : Graph R F K) (marks : Marks K) (keys : List K) : Option (Except ε (Marks K)) → Prop
  | none => False
  | some (.error _) => Cyclic g ∨ Dangling g
  | some (.ok marks') => Advanced g marks marks' ∧ ∀ k ∈ keys, k ∈ marks'.visited

theorem visitEdges_settles {visit : R → Marks K → Option (Except ε (Marks K))} {k : K} {node : R}
    {visiting : List K}
    (hfind : g.find k = some node)
    (hvisit : ∀ next marks, Edge g k (g.key next) → g.find (g.key next) = some next →
      marks.visiting = visiting →
      Settles g marks [g.key next] (visit next marks))
    (hlaw : ∀ k node, g.find k = some node → g.key node = k) {edges : List F}
    (hedges : edges ⊆ g.edges node)
    {marks : Marks K} (hmarks : marks.visiting = visiting) :
    Settles g marks (edges.map g.target) (visitEdges g faults visit edges marks) := by
  induction edges generalizing marks with
  | nil => exact ⟨Advanced.refl marks, fun _ h => absurd h List.not_mem_nil⟩
  | cons edge edges ih =>
    obtain ⟨hedge, hrest⟩ := List.cons_subset.mp hedges
    rw [visitEdges]
    cases hnext : g.find (g.target edge) with
    | none => exact Or.inr ⟨k, node, edge, hfind, hedge, hnext⟩
    | some next =>
      have hkey := hlaw _ _ hnext
      have hstep :=
        hvisit next marks ⟨node, hfind, edge, hedge, hkey.symm⟩ (by rw [hkey]; exact hnext) hmarks
      dsimp only
      cases hrun : visit next marks with
      | none =>
        rw [hrun] at hstep
        exact hstep.elim
      | some result =>
        rw [hrun] at hstep
        cases result with
        | error fault => exact hstep
        | ok marks' =>
          obtain ⟨hadvanced, hdone⟩ := hstep
          have hlater := ih hrest (hadvanced.visiting.trans hmarks)
          dsimp only
          cases hrun' : visitEdges g faults visit edges marks' with
          | none =>
            rw [hrun'] at hlater
            exact hlater.elim
          | some result' =>
            rw [hrun'] at hlater
            cases result' with
            | error fault => exact hlater
            | ok marks'' =>
              obtain ⟨hadvanced', hdone'⟩ := hlater
              refine ⟨hadvanced.trans hadvanced', fun target htarget => ?_⟩
              rcases List.mem_cons.mp htarget with rfl | htarget
              · exact hadvanced'.visited (hdone _ (by rw [hkey]; exact List.mem_singleton_self _))
              · exact hdone' target htarget

variable [DecidableEq K]

theorem visit_settles (hlaw : ∀ k node, g.find k = some node → g.key node = k) {keys : List K}
    (hkeys : ∀ k node, g.find k = some node → k ∈ keys) {fuel : ℕ} {node : R} {path : List K}
    {marks : Marks K}
    (hfind : g.find (g.key node) = some node) (hnodup : marks.visiting.Nodup)
    (hsub : marks.visiting ⊆ keys)
    (hreach : ∀ k ∈ marks.visiting, Relation.TransGen (Edge g) k (g.key node))
    (hfuel : keys.length < fuel + marks.visiting.length) :
    Settles g marks [g.key node] (visit g faults fuel node path marks) := by
  induction fuel generalizing node path marks with
  | zero =>
    have hlen := (hnodup.subperm hsub).length_le
    exact absurd hlen (by omega)
  | succ fuel ih =>
    rw [visit]
    split_ifs with hvisiting hvisited
    · exact Or.inl ⟨_, hreach _ hvisiting⟩
    · refine ⟨Advanced.refl marks, fun k hk => ?_⟩
      rwa [List.mem_singleton.mp hk]
    · have hedges := @visitEdges_settles R F K ε g faults
        (fun next => visit g faults fuel next (path ++ [g.key node])) (g.key node) node
        (g.key node :: marks.visiting) hfind ?_ hlaw (g.edges node) (List.Subset.refl _)
        { marks with visiting := g.key node :: marks.visiting } rfl
      · cases hrun :
          visitEdges g faults (fun next => visit g faults fuel next (path ++ [g.key node]))
            (g.edges node) { marks with visiting := g.key node :: marks.visiting } with
        | none =>
          rw [hrun] at hedges
          exact hedges.elim
        | some result =>
          rw [hrun] at hedges
          cases result with
          | error fault => exact hedges
          | ok marks' =>
            obtain ⟨hadvanced, hdone⟩ := hedges
            have hnew : g.key node ∉ marks'.visited := by
              intro hmem
              rcases hadvanced.fresh _ hmem with hold | hnot
              · exact hvisited hold
              · exact hnot List.mem_cons_self
            refine ⟨⟨?_, ?_, ?_, ?_⟩, fun k hk => ?_⟩
            · change marks'.visiting.erase (g.key node) = marks.visiting
              rw [hadvanced.visiting]
              exact List.erase_cons_head _ _
            · exact fun k hk => List.mem_cons_of_mem _ (hadvanced.visited hk)
            · intro k hk
              rcases List.mem_cons.mp hk with rfl | hk
              · exact Or.inr hvisiting
              · rcases hadvanced.fresh k hk with hold | hnot
                · exact Or.inl hold
                · exact Or.inr (fun hmem => hnot (List.mem_cons_of_mem _ hmem))
            · intro hordered
              refine .cons hfind hnew (fun edge hedge => ?_) (hadvanced.ordered hordered)
              exact hdone _ (List.mem_map_of_mem hedge)
            · rw [List.mem_singleton.mp hk]
              exact List.mem_cons_self
      · intro next marks' hedge hnext hmarks'
        have hfuel' : keys.length < fuel + marks'.visiting.length := by
          rw [hmarks', List.length_cons]
          omega
        refine ih hnext ?_ ?_ ?_ hfuel'
        · rw [hmarks']
          exact List.nodup_cons.mpr ⟨hvisiting, hnodup⟩
        · rw [hmarks']
          exact List.cons_subset.mpr ⟨hkeys _ _ hfind, hsub⟩
        · intro k hk
          rw [hmarks'] at hk
          rcases List.mem_cons.mp hk with rfl | hk
          · exact .single hedge
          · exact (hreach k hk).tail hedge

theorem visitAll_settles (hlaw : ∀ k node, g.find k = some node → g.key node = k) {keys : List K}
    (hkeys : ∀ k node, g.find k = some node → k ∈ keys) {fuel : ℕ} (hfuel : keys.length < fuel)
    {nodes : List R}
    (hnodes : ∀ node ∈ nodes, g.find (g.key node) = some node) {marks : Marks K}
    (hmarks : marks.visiting = []) :
    Settles g marks (nodes.map g.key) (visitAll g faults fuel nodes marks) := by
  induction nodes generalizing marks with
  | nil => exact ⟨Advanced.refl marks, fun _ h => absurd h List.not_mem_nil⟩
  | cons node nodes ih =>
    obtain ⟨hnode, hrest⟩ := List.forall_mem_cons.mp hnodes
    have hstep := @visit_settles R F K ε g faults _ hlaw keys hkeys fuel node [] marks hnode
      (by rw [hmarks]; exact List.nodup_nil) (by rw [hmarks]; exact List.nil_subset _)
      (by rw [hmarks]; exact fun _ h => absurd h List.not_mem_nil) (by rw [hmarks]; exact hfuel)
    rw [visitAll]
    cases hrun : visit g faults fuel node [] marks with
    | none =>
      rw [hrun] at hstep
      exact hstep.elim
    | some result =>
      rw [hrun] at hstep
      cases result with
      | error fault => exact hstep
      | ok marks' =>
        obtain ⟨hadvanced, hdone⟩ := hstep
        have hlater := ih hrest (hadvanced.visiting.trans hmarks)
        dsimp only
        cases hrun' : visitAll g faults fuel nodes marks' with
        | none =>
          rw [hrun'] at hlater
          exact hlater.elim
        | some result' =>
          rw [hrun'] at hlater
          cases result' with
          | error fault => exact hlater
          | ok marks'' =>
            obtain ⟨hadvanced', hdone'⟩ := hlater
            refine ⟨hadvanced.trans hadvanced', fun k hk => ?_⟩
            rcases List.mem_cons.mp hk with rfl | hk
            · exact hadvanced'.visited (hdone _ (List.mem_singleton_self _))
            · exact hdone' k hk

theorem visitAll_iff (hlaw : ∀ k node, g.find k = some node → g.key node = k) {nodes : List R}
    (hdomain : ∀ k node, g.find k = some node ↔ node ∈ nodes ∧ g.key node = k) :
    ∃ result, (∀ fuel > nodes.length, visitAll g faults fuel nodes ⟨[], []⟩ = some result) ∧
      ((∃ marks, result = .ok marks) ↔ ¬ Dangling g ∧ ¬ Cyclic g) := by
  have hkeys : ∀ k node, g.find k = some node → k ∈ nodes.map g.key := by
    intro k node hfind
    obtain ⟨hmem, rfl⟩ := (hdomain k node).mp hfind
    exact List.mem_map_of_mem hmem
  have hsettles :=
    @visitAll_settles R F K ε g faults _ hlaw _ hkeys (nodes.length + 1) (by simp) nodes
    (fun node hnode => (hdomain _ _).mpr ⟨hnode, rfl⟩) ⟨[], []⟩ rfl
  cases hrun : visitAll g faults (nodes.length + 1) nodes ⟨[], []⟩ with
  | none =>
    rw [hrun] at hsettles
    exact hsettles.elim
  | some result =>
    rw [hrun] at hsettles
    refine ⟨result, fun fuel hfuel => visitAll_more hfuel hrun, ?_⟩
    cases result with
    | error fault =>
      refine iff_of_false (fun ⟨_, h⟩ => by cases h) ?_
      rintro ⟨hdangling, hcyclic⟩
      exact hsettles.elim hcyclic hdangling
    | ok marks =>
      obtain ⟨hadvanced, hdone⟩ := hsettles
      have hordered : Ordered g marks.visited := hadvanced.ordered .nil
      refine iff_of_true ⟨marks, rfl⟩ ⟨?_, ?_⟩
      · rintro ⟨k, node, edge, hfind, hedge, hnone⟩
        obtain ⟨next, hnext⟩ := hordered.known (hdone k (hkeys k node hfind)) hfind hedge
        rw [hnone] at hnext
        cases hnext
      · rintro ⟨k, hcycle⟩
        obtain ⟨next, ⟨node, hfind, -⟩, -⟩ := Relation.TransGen.head'_iff.mp hcycle
        exact hordered.acyclic (hdone k (hkeys k node hfind)) hcycle

end Correctness

end DepthFirst
