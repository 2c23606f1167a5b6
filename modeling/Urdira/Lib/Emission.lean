import Mathlib.Algebra.Group.Basic
import Mathlib.Algebra.BigOperators.Group.List.Basic

namespace Emission

abbrev Emitter (M ε : Type) := M → Except ε M

structure Budget (M : Type) [Monoid M] where
  fits : M → Prop
  of_mul : ∀ {written more : M}, fits (written * more) → fits written

section Laws

variable {M ε : Type} [Monoid M] (budget : Budget M)

def Emits (emitter : Emitter M ε) (valid : Prop) (output : M) : Prop :=
  ∀ ⦃written⦄, budget.fits written →
    ∀ result, emitter written = .ok result ↔ valid ∧ budget.fits (written * output) ∧
      result = written * output

variable {budget} {emitter next : Emitter M ε} {valid valid' : Prop} {output output' : M}

theorem Emits.congr (h : Emits budget emitter valid output) (hvalid : valid ↔ valid')
    (houtput : output = output') :
    Emits budget emitter valid' output' := by
  subst houtput
  intro written hfits result
  rw [h hfits, hvalid]

theorem Emits.pure : Emits budget (fun written => (.ok written : Except ε M)) True 1 := by
  intro written hfits result
  dsimp only
  rw [mul_one, Except.ok.injEq]
  constructor
  · rintro rfl
    exact ⟨trivial, hfits, rfl⟩
  · exact fun h => h.2.2.symm

theorem Emits.fail (fault : M → ε) :
    Emits budget (fun written => .error (fault written)) False output :=
  fun _ _ _ => iff_of_false (fun h => by cases h) (fun h => h.1)

theorem Emits.append {add : M} {refused : M → Prop} [DecidablePred refused] (fault : M → ε)
    (hrefused : ∀ written, budget.fits written →
      (refused written ↔ ¬ budget.fits (written * add))) :
    Emits budget (fun written => if refused written then .error (fault written)
      else .ok (written * add))
      True add := by
  intro written hfits result
  dsimp only
  by_cases hover : refused written
  · rw [if_pos hover]
    exact iff_of_false (fun h => by cases h) (fun h => (hrefused written hfits).mp hover h.2.1)
  · rw [if_neg hover, Except.ok.injEq]
    have hroom := not_not.mp (mt (hrefused written hfits).mpr hover)
    exact ⟨fun h => ⟨trivial, hroom, h.symm⟩, fun h => h.2.2.symm⟩

theorem Emits.bind (h : Emits budget emitter valid output) (h' : Emits budget next valid' output') :
    Emits budget (fun written => emitter written >>= next) (valid ∧ valid') (output * output') := by
  intro written hfits result
  dsimp only
  constructor
  · intro hrun
    cases hfirst : emitter written with
    | error fault =>
      rw [hfirst] at hrun
      cases hrun
    | ok middle =>
      rw [hfirst] at hrun
      obtain ⟨hvalid, hmiddle, rfl⟩ := (h hfits middle).mp hfirst
      obtain ⟨hvalid', hresult, rfl⟩ := (h' hmiddle result).mp hrun
      rw [mul_assoc] at hresult
      exact ⟨⟨hvalid, hvalid'⟩, hresult, mul_assoc _ _ _⟩
  · rintro ⟨⟨hvalid, hvalid'⟩, hresult, rfl⟩
    rw [← mul_assoc] at hresult ⊢
    have hmiddle := budget.of_mul hresult
    have hfirst := (h hfits (written * output)).mpr ⟨hvalid, hmiddle, rfl⟩
    have hsecond := (h' hmiddle (written * output * output')).mpr ⟨hvalid', hresult, rfl⟩
    rw [hfirst]
    exact hsecond

theorem Emits.refuse {refused : Prop} [Decidable refused] (fault : M → ε)
    (h : Emits budget emitter valid output) :
    Emits budget (fun written => if refused then .error (fault written) else emitter written)
      (¬ refused ∧ valid) output := by
  intro written hfits result
  dsimp only
  by_cases hrefused : refused
  · rw [if_pos hrefused]
    exact iff_of_false (fun h => by cases h) (fun h => h.1.1 hrefused)
  · rw [if_neg hrefused, h hfits, and_iff_right hrefused]

theorem Emits.check {check : Except ε Unit} (h : Emits budget emitter valid output) :
    Emits budget (fun written => check >>= fun _ => emitter written) (check = .ok () ∧
      valid) output := by
  intro written hfits result
  cases check with
  | error fault => exact iff_of_false (fun h => by cases h) (fun h => by cases h.1.1)
  | ok done =>
    rw [and_iff_right rfl]
    exact h hfits result

end Laws

end Emission
