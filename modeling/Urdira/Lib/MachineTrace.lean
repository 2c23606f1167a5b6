import Urdira.Lib.ByteLayout

open ByteOrder ByteLayout

namespace MachineTrace

-- What a computation asks of the machine: an unchecked operation with its exact result, a slice of a
-- buffer of the given length, a table with room for the given number of entries.
inductive Step where
  | arithmetic (exact : ℕ)
  | slice (start stop length : ℕ)
  | reserve (capacity : ℕ)
  deriving DecidableEq

abbrev Traced (ε α : Type) := EStateM ε (List Step) α

variable {ε α β : Type}

def record (step : Step) : Traced ε Unit := fun trace => .ok () (trace ++ [step])

def outcome (x : Traced ε α) : Except ε α :=
  match x [] with
  | .ok a _ => .ok a
  | .error e _ => .error e

def steps (x : Traced ε α) (trace : List Step) : List Step :=
  match x trace with
  | .ok _ trace' => trace'
  | .error _ trace' => trace'

-- Overflow panics where the build checks it and wraps around where it does not.
def operation (overflowChecks : Bool) (overflow : ε) (exact : ℕ) : Traced ε ℕ := do
  record (.arithmetic exact)
  if exact < 2 ^ 64 then pure exact
  else if overflowChecks then throw overflow
  else pure (exact % 2 ^ 64)

def sliceOf (buf : Bytes) (outOfBounds : ε) (start stop : ℕ) : Traced ε Bytes := do
  record (.slice start stop buf.length)
  if start ≤ stop ∧ stop ≤ buf.length then pure (readAt buf start (stop - start))
  else throw outOfBounds

def lift : Except ε α → Traced ε α
  | .ok a => pure a
  | .error e => throw e

theorem bind_ok {x : Traced ε α} {f : α → Traced ε β} {trace trace' : List Step} {a : α}
    (h : x trace = .ok a trace') : (x >>= f) trace = f a trace' := by
  change EStateM.bind x f trace = _
  rw [EStateM.bind, h]

theorem bind_error {x : Traced ε α} {f : α → Traced ε β} {trace trace' : List Step} {e : ε}
    (h : x trace = .error e trace') : (x >>= f) trace = .error e trace' := by
  change EStateM.bind x f trace = _
  rw [EStateM.bind, h]

section Growth

def Grows (x : Traced ε α) : Prop := ∀ trace, trace <+: steps x trace

theorem grows_pure (a : α) : Grows (pure a : Traced ε α) := fun _ => List.prefix_rfl

theorem grows_throw (e : ε) : Grows (throw e : Traced ε α) := fun _ => List.prefix_rfl

theorem grows_record (step : Step) : Grows (record step : Traced ε Unit) :=
  fun _ => List.prefix_append ..

theorem Grows.bind {x : Traced ε α} {f : α → Traced ε β} (hx : Grows x) (hf : ∀ a, Grows (f a)) :
    Grows (x >>= f) := by
  intro trace
  have hfirst := hx trace
  cases h : x trace with
  | ok a trace' =>
    rw [steps, h] at hfirst
    have hsecond := hf a trace'
    rw [steps, bind_ok h]
    exact hfirst.trans hsecond
  | error e trace' =>
    rw [steps, h] at hfirst
    rw [steps, bind_error h]
    exact hfirst

theorem Grows.ite {p : Prop} [Decidable p] {x y : Traced ε α} (hx : Grows x) (hy : Grows y) :
    Grows (if p then x else y) := by
  split_ifs
  · exact hx
  · exact hy

theorem grows_operation (overflowChecks : Bool) (overflow : ε) (exact : ℕ) :
    Grows (operation overflowChecks overflow exact) := by
  refine (grows_record _).bind fun _ => ?_
  exact (grows_pure _).ite ((grows_throw _).ite (grows_pure _))

theorem grows_sliceOf (buf : Bytes) (outOfBounds : ε) (start stop : ℕ) :
    Grows (sliceOf buf outOfBounds start stop) :=
  (grows_record _).bind fun _ => (grows_pure _).ite (grows_throw _)

theorem grows_lift (r : Except ε α) : Grows (lift r) := by
  cases r with
  | ok a => exact grows_pure a
  | error e => exact grows_throw e

theorem grows_mapM {f : α → Traced ε β} (hf : ∀ a, Grows (f a)) (as : List α) :
    Grows (as.mapM f) := by
  induction as with
  | nil => exact grows_pure _
  | cons a as ih =>
    rw [List.mapM_cons]
    exact (hf a).bind fun _ => ih.bind fun _ => grows_pure _

theorem mem_steps_bind {x : Traced ε α} {f : α → Traced ε β} {trace : List Step} {step : Step}
    (hf : ∀ a, Grows (f a)) (h : step ∈ steps x trace) : step ∈ steps (x >>= f) trace := by
  cases hx : x trace with
  | ok a trace' =>
    rw [steps, hx] at h
    have hmem := (hf a trace').subset h
    rw [steps, bind_ok hx]
    exact hmem
  | error e trace' =>
    rw [steps, hx] at h
    rw [steps, bind_error hx]
    exact h

theorem steps_bind_ok {x : Traced ε α} {f : α → Traced ε β} {trace trace' : List Step} {a : α}
    (h : x trace = .ok a trace') : steps (x >>= f) trace = steps (f a) trace' := by
  rw [steps, bind_ok h]
  rfl

theorem mem_steps_operation (overflowChecks : Bool) (overflow : ε) (exact : ℕ) (trace : List Step) :
    .arithmetic exact ∈ steps (operation overflowChecks overflow exact) trace := by
  refine mem_steps_bind (fun _ => ?_) (List.mem_append_right _ (List.mem_singleton_self _))
  exact (grows_pure _).ite ((grows_throw _).ite (grows_pure _))

theorem operation_ok {overflowChecks : Bool} {overflow : ε} {exact : ℕ} (h : exact < 2 ^ 64)
    (trace : List Step) :
    operation overflowChecks overflow exact trace = .ok exact (trace ++ [.arithmetic exact]) := by
  rw [operation, if_pos h]
  rfl

theorem sliceOf_ok {buf : Bytes} {outOfBounds : ε} {start stop : ℕ} (hle : start ≤ stop)
    (hstop : stop ≤ buf.length)
    (trace : List Step) : sliceOf buf outOfBounds start stop trace =
      .ok (readAt buf start (stop - start)) (trace ++ [.slice start stop buf.length]) := by
  rw [sliceOf, if_pos ⟨hle, hstop⟩]
  rfl

end Growth

section Safety

variable (fine : Step → Prop) (failure : ε → Prop)

def Safe (x : Traced ε α) (P : α → Prop) : Prop :=
  ∀ trace, (∀ step ∈ trace, fine step) →
    match x trace with
    | .ok a trace' => (∀ step ∈ trace', fine step) ∧ P a
    | .error e trace' => (∀ step ∈ trace', fine step) ∧ failure e

variable {fine failure} {P : α → Prop} {Q : β → Prop}

theorem safe_pure {a : α} (h : P a) : Safe fine failure (pure a : Traced ε α) P :=
  fun _ ht => ⟨ht, h⟩

theorem safe_throw {e : ε} (h : failure e) : Safe fine failure (throw e : Traced ε α) P :=
  fun _ ht => ⟨ht, h⟩

theorem safe_record {step : Step} (h : fine step) :
    Safe fine failure (record step : Traced ε Unit) (fun _ => True) := by
  refine fun trace ht => ⟨fun s hs => ?_, trivial⟩
  rcases List.mem_append.mp hs with hs | hs
  · exact ht s hs
  · rw [List.mem_singleton.mp hs]
    exact h

theorem Safe.bind {x : Traced ε α} {f : α → Traced ε β} (hx : Safe fine failure x P)
    (hf : ∀ a, P a → Safe fine failure (f a) Q) : Safe fine failure (x >>= f) Q := by
  intro trace ht
  have hfirst := hx trace ht
  cases h : x trace with
  | ok a trace' =>
    rw [h] at hfirst
    rw [bind_ok h]
    exact hf a hfirst.2 trace' hfirst.1
  | error e trace' =>
    rw [h] at hfirst
    rw [bind_error h]
    exact hfirst

theorem safe_operation {overflowChecks : Bool} {overflow : ε} {exact : ℕ}
    (hfine : fine (.arithmetic exact))
    (h : exact < 2 ^ 64) :
    Safe fine failure (operation overflowChecks overflow exact) (fun n => n = exact) := by
  refine (safe_record hfine).bind fun _ _ => ?_
  rw [if_pos h]
  exact safe_pure rfl

theorem safe_sliceOf {buf : Bytes} {outOfBounds : ε} {start stop : ℕ}
    (hfine : fine (.slice start stop buf.length))
    (hle : start ≤ stop) (hstop : stop ≤ buf.length) :
    Safe fine failure (sliceOf buf outOfBounds start stop) (fun bytes => bytes =
      readAt buf start (stop - start)) := by
  refine (safe_record hfine).bind fun _ _ => ?_
  rw [if_pos ⟨hle, hstop⟩]
  exact safe_pure rfl

theorem safe_lift {r : Except ε α} (hok : ∀ a, r = .ok a → P a)
    (herror : ∀ e, r = .error e → failure e) :
    Safe fine failure (lift r) P := by
  cases r with
  | ok a => exact safe_pure (hok a rfl)
  | error e => exact safe_throw (herror e rfl)

theorem safe_mapM {f : α → Traced ε β} {as : List α} (hf : ∀ a ∈ as, Safe fine failure (f a) Q) :
    Safe fine failure (as.mapM f) (fun bs => ∀ b ∈ bs, Q b) := by
  induction as with
  | nil => exact safe_pure (List.forall_mem_nil _)
  | cons a as ih =>
    obtain ⟨ha, has⟩ := List.forall_mem_cons.mp hf
    rw [List.mapM_cons]
    exact ha.bind fun b hb => (ih has).bind fun bs hbs =>
      safe_pure (List.forall_mem_cons.mpr ⟨hb, hbs⟩)

end Safety

section Agreement

def Agrees (x : Traced ε α) (r : Except ε α) : Prop :=
  ∀ trace, ∃ trace', x trace = match r with
    | .ok a => .ok a trace'
    | .error e => .error e trace'

theorem agrees_pure (a : α) : Agrees (pure a : Traced ε α) (.ok a) := fun trace => ⟨trace, rfl⟩

theorem agrees_throw (e : ε) : Agrees (throw e : Traced ε α) (.error e) := fun trace => ⟨trace, rfl⟩

theorem agrees_record (step : Step) : Agrees (record step : Traced ε Unit) (.ok ()) :=
  fun trace => ⟨trace ++ [step], rfl⟩

theorem Agrees.bind {x : Traced ε α} {f : α → Traced ε β} {r : Except ε α} {g : α → Except ε β}
    (hx : Agrees x r)
    (hf : ∀ a, r = .ok a → Agrees (f a) (g a)) : Agrees (x >>= f) (r >>= g) := by
  intro trace
  obtain ⟨trace', h⟩ := hx trace
  cases r with
  | ok a =>
    obtain ⟨trace'', h'⟩ := hf a rfl trace'
    exact ⟨trace'', (bind_ok h).trans h'⟩
  | error e => exact ⟨trace', bind_error h⟩

theorem Agrees.bind_ok {x : Traced ε α} {f : α → Traced ε β} {a : α} {r : Except ε β}
    (hx : Agrees x (.ok a))
    (hf : Agrees (f a) r) : Agrees (x >>= f) r := by
  intro trace
  obtain ⟨trace', h⟩ := hx trace
  obtain ⟨trace'', h'⟩ := hf trace'
  exact ⟨trace'', (MachineTrace.bind_ok h).trans h'⟩

theorem Agrees.outcome {x : Traced ε α} {r : Except ε α} (h : Agrees x r) : outcome x = r := by
  obtain ⟨trace, hx⟩ := h []
  rw [MachineTrace.outcome, hx]
  cases r <;> rfl

theorem Agrees.ite {p : Prop} [Decidable p] {x y : Traced ε α} {r r' : Except ε α}
    (hx : p → Agrees x r)
    (hy : ¬ p → Agrees y r') : Agrees (if p then x else y) (if p then r else r') := by
  split_ifs with hp
  · exact hx hp
  · exact hy hp

theorem agrees_operation {overflowChecks : Bool} {overflow : ε} {exact : ℕ} (h : exact < 2 ^ 64) :
    Agrees (operation overflowChecks overflow exact) (.ok exact) := by
  refine (agrees_record _).bind_ok ?_
  rw [if_pos h]
  exact agrees_pure exact

theorem agrees_sliceOf {buf : Bytes} {outOfBounds : ε} {start stop : ℕ} (hle : start ≤ stop)
    (hstop : stop ≤ buf.length) :
    Agrees (sliceOf buf outOfBounds start stop) (.ok (readAt buf start (stop - start))) := by
  refine (agrees_record _).bind_ok ?_
  rw [if_pos ⟨hle, hstop⟩]
  exact agrees_pure _

theorem agrees_lift (r : Except ε α) : Agrees (lift r) r := by
  cases r with
  | ok a => exact agrees_pure a
  | error e => exact agrees_throw e

theorem agrees_mapM {f : α → Traced ε β} {g : α → Except ε β} {as : List α}
    (hf : ∀ a ∈ as, Agrees (f a) (g a)) :
    Agrees (as.mapM f) (as.mapM g) := by
  induction as with
  | nil => exact agrees_pure _
  | cons a as ih =>
    obtain ⟨ha, has⟩ := List.forall_mem_cons.mp hf
    rw [List.mapM_cons, List.mapM_cons]
    exact ha.bind fun b _ => (ih has).bind fun bs _ => agrees_pure _

end Agreement

end MachineTrace
