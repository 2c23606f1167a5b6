import Mathlib.Data.List.Nodup
import Mathlib.Data.List.Perm.Basic

namespace DependencyOrder

variable {S K : Type}

section

variable (key : S → K) (needs : S → List K)

def Ordered : List K → List S → Prop
  | _, [] => True
  | earlier, item :: items =>
    key item ∉ earlier ∧ (∀ k ∈ needs item, k ∈ earlier) ∧ Ordered (key item :: earlier) items

end

variable {key : S → K} {needs : S → List K} {earlier : List K} {items : List S}

theorem Ordered.fresh (h : Ordered key needs earlier items) :
    ∀ item ∈ items, key item ∉ earlier := by
  induction items generalizing earlier with
  | nil => exact List.forall_mem_nil _
  | cons item items ih =>
    obtain ⟨hnew, -, hrest⟩ := h
    refine List.forall_mem_cons.mpr ⟨hnew, fun other hother => ?_⟩
    exact fun hmem => ih hrest other hother (List.mem_cons_of_mem _ hmem)

theorem Ordered.nodup (h : Ordered key needs earlier items) : (items.map key).Nodup := by
  induction items generalizing earlier with
  | nil => exact List.nodup_nil
  | cons item items ih =>
    obtain ⟨-, -, hrest⟩ := h
    refine List.nodup_cons.mpr ⟨?_, ih hrest⟩
    intro hmem
    obtain ⟨other, hother, hkey⟩ := List.mem_map.mp hmem
    exact hrest.fresh other hother (hkey ▸ List.mem_cons_self)

theorem Ordered.exists_ready {pending : List S} (h : Ordered key needs earlier items)
    (hpending : pending ⊆ items)
    (hne : pending ≠ []) :
    ∃ item ∈ pending, ∀ k ∈ needs item, k ∈ earlier ∨ ∃ other ∈ items, other ∉ pending ∧
      key other = k := by
  induction items generalizing earlier with
  | nil => exact absurd (List.subset_nil.mp hpending) hne
  | cons item items ih =>
    obtain ⟨-, hneeds, hrest⟩ := h
    by_cases hitem : item ∈ pending
    · exact ⟨item, hitem, fun k hk => .inl (hneeds k hk)⟩
    · have hsubset : pending ⊆ items := by
        intro other hother
        rcases List.mem_cons.mp (hpending hother) with rfl | hmem
        · exact absurd hother hitem
        · exact hmem
      obtain ⟨ready, hready, hall⟩ := ih hrest hsubset
      refine ⟨ready, hready, fun k hk => ?_⟩
      rcases hall k hk with hearlier | ⟨other, hother, hdone, hkey⟩
      · rcases List.mem_cons.mp hearlier with rfl | hearlier
        · exact .inr ⟨item, List.mem_cons_self, hitem, rfl⟩
        · exact .inl hearlier
      · exact .inr ⟨other, List.mem_cons_of_mem _ hother, hdone, hkey⟩

theorem Ordered.congr {earlier' : List K} (h : Ordered key needs earlier items)
    (hsame : ∀ k, k ∈ earlier ↔ k ∈ earlier') :
    Ordered key needs earlier' items := by
  induction items generalizing earlier earlier' with
  | nil => trivial
  | cons item items ih =>
    obtain ⟨hnew, hneeds, hrest⟩ := h
    refine ⟨fun hmem => hnew ((hsame _).mpr hmem), fun k hk => (hsame k).mp (hneeds k hk),
      ih hrest (fun k => ?_)⟩
    rw [List.mem_cons, List.mem_cons, hsame k]

theorem Ordered.prepend {earlier' : List K} {ready : List S}
    (hneeds : ∀ item ∈ ready, ∀ k ∈ needs item, k ∈ earlier)
    (hnodup : (earlier ++ ready.map key).Nodup) (h : Ordered key needs earlier' items)
    (hsame : ∀ k, k ∈ earlier' ↔ k ∈ earlier ∨ k ∈ ready.map key) :
    Ordered key needs earlier (ready ++ items) := by
  induction ready generalizing earlier with
  | nil =>
    refine h.congr (fun k => ?_)
    rw [hsame k, List.map_nil]
    exact or_iff_left List.not_mem_nil
  | cons item ready ih =>
    have hmoved : (key item :: (earlier ++ ready.map key)).Nodup :=
      (List.perm_middle (a := key item)).nodup_iff.mp hnodup
    obtain ⟨hfresh, hrest⟩ := List.nodup_cons.mp hmoved
    refine ⟨fun hmem => hfresh (List.mem_append_left _ hmem), hneeds item List.mem_cons_self,
      ih ?_ hmoved (fun k => ?_)⟩
    · intro other hother k hk
      exact List.mem_cons_of_mem _ (hneeds other (List.mem_cons_of_mem _ hother) k hk)
    · rw [hsame k, List.map_cons, List.mem_cons, List.mem_cons, or_assoc, or_left_comm]

end DependencyOrder
