import Mathlib.Data.List.Basic

namespace Loop

variable {σ : Type}

def run (step : σ → Option σ) : ℕ → σ → Option σ
  | 0, _ => none
  | fuel + 1, s =>
    match step s with
    | none => some s
    | some s' => run step fuel s'

def Ends (step : σ → Option σ) (s r : σ) : Prop := ∃ n, ∀ fuel, n ≤ fuel → run step fuel s = some r

variable {step : σ → Option σ} {s s' r : σ}

theorem Ends.done (h : step s = none) : Ends step s s := by
  refine ⟨1, fun fuel hfuel => ?_⟩
  cases fuel with
  | zero => omega
  | succ fuel => rw [run, h]

theorem Ends.next (h : step s = some s') (hr : Ends step s' r) : Ends step s r := by
  obtain ⟨n, hn⟩ := hr
  refine ⟨n + 1, fun fuel hfuel => ?_⟩
  cases fuel with
  | zero => omega
  | succ fuel =>
    rw [run, h]
    exact hn fuel (by omega)

theorem ends_of_invariant (inv : σ → Prop) (measure : σ → ℕ)
    (hstep : ∀ s s', inv s → step s = some s' → inv s' ∧ measure s' < measure s) (hs : inv s) :
    ∃ r, Ends step s r ∧ inv r ∧ step r = none := by
  induction hm : measure s using Nat.strongRecOn generalizing s with
  | ind m ih =>
    cases hnext : step s with
    | none => exact ⟨s, .done hnext, hs, hnext⟩
    | some s' =>
      obtain ⟨hs', hlt⟩ := hstep s s' hs hnext
      obtain ⟨r, hends, hinv, hdone⟩ := ih (measure s') (hm ▸ hlt) hs' rfl
      exact ⟨r, hends.next hnext, hinv, hdone⟩

end Loop
