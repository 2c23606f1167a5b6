import Urdira.Lib.ByteLayout
import Urdira.Lib.ExceptOk

open ByteOrder ByteLayout ExceptOk

namespace CountedReader

structure Source where
  rest : Bytes
  offset : ℕ
  counted : ℕ

abbrev Read (ε α : Type) := StateT Source (Except ε) α

variable {ε α β γ : Type}

def readBytes (eof : ℕ → ε) (n : ℕ) : Read ε Bytes := fun source =>
  if n ≤ source.rest.length then
    .ok (source.rest.take n, { source with
      rest := source.rest.drop n, offset := source.offset + n })
  else .error (eof source.offset)

def readByte (eof : ℕ → ε) : Read ε Byte := fun source =>
  match source.rest with
  | [] => .error (eof source.offset)
  | byte :: rest => .ok (byte, { source with rest := rest, offset := source.offset + 1 })

def position : Read ε ℕ := fun source => .ok (source.offset, source)

def count (limit : ℕ) (excess : ℕ → ε) (n : ℕ) : Read ε Unit := fun source =>
  let counted := source.counted + n
  if limit < counted then .error (excess counted) else .ok ((), { source with counted })

def many (item : Read ε α) : ℕ → Read ε (List α)
  | 0 => pure []
  | n + 1 => do
    let first ← item
    let rest ← many item n
    pure (first :: rest)

section Bind

variable {r : Read ε α} {f : α → Read ε β} {source source' : Source} {a : α} {b : β}

theorem bind_apply : (r >>= f) source = (r source >>= fun result => f result.1 result.2) := rfl

theorem bind_of_ok (h : r source = .ok (a, source')) : (r >>= f) source = f a source' := by
  rw [bind_apply, h]
  rfl

theorem ok_of_bind (h : (r >>= f) source = .ok (b, source')) :
    ∃ a middle, r source = .ok (a, middle) ∧ f a middle = .ok (b, source') := by
  rw [bind_apply] at h
  obtain ⟨⟨a, middle⟩, hfirst, hrest⟩ := bind_eq_ok h
  exact ⟨a, middle, hfirst, hrest⟩

end Bind

section RoundTrip

variable {limit cost cost' : ℕ} {r : Read ε α} {enc enc' : Bytes} {a : α} {b : β}

def Reads (limit : ℕ) (r : Read ε α) (enc : Bytes) (a : α) (cost : ℕ) : Prop :=
  ∀ rest offset counted, counted + cost ≤ limit →
    ∃ counted', counted' ≤ counted + cost ∧ r ⟨enc ++ rest, offset, counted⟩ =
      .ok (a, ⟨rest, offset + enc.length, counted'⟩)

theorem reads_pure (a : α) : Reads limit (pure a : Read ε α) [] a 0 :=
  fun _ _ counted _ => ⟨counted, Nat.le_refl _, rfl⟩

theorem Reads.mono (h : Reads limit r enc a cost) (hle : cost ≤ cost') :
    Reads limit r enc a cost' := by
  intro rest offset counted hlimit
  obtain ⟨counted', hcounted, hread⟩ := h rest offset counted (by omega)
  exact ⟨counted', by omega, hread⟩

theorem Reads.bind {f : α → Read ε β} (h : Reads limit r enc a cost)
    (hf : Reads limit (f a) enc' b cost') :
    Reads limit (r >>= f) (enc ++ enc') b (cost + cost') := by
  intro rest offset counted hlimit
  obtain ⟨middle, hmiddle, hfirst⟩ := h (enc' ++ rest) offset counted (by omega)
  obtain ⟨counted', hcounted, hsecond⟩ := hf rest (offset + enc.length) middle (by omega)
  refine ⟨counted', by omega, ?_⟩
  rw [List.append_assoc, bind_of_ok hfirst, hsecond, List.length_append, Nat.add_assoc]

theorem Reads.map {g : α → β} (h : Reads limit r enc a cost) :
    Reads limit (r >>= fun x => pure (g x)) enc (g a) cost := by
  have hbind := h.bind (f := fun x => pure (g x)) (reads_pure (g a))
  rwa [List.append_nil, Nat.add_zero] at hbind

theorem reads_readByte (eof : ℕ → ε) (byte : Byte) : Reads limit (readByte eof) [byte] byte 0 :=
  fun _ _ counted _ => ⟨counted, Nat.le_refl _, rfl⟩

theorem reads_readBytes (eof : ℕ → ε) (enc : Bytes) :
    Reads limit (readBytes eof enc.length) enc enc 0 := by
  intro rest offset counted _
  refine ⟨counted, Nat.le_refl _, ?_⟩
  have hle : enc.length ≤ (enc ++ rest).length := by
    rw [List.length_append]
    exact Nat.le_add_right _ _
  rw [readBytes, if_pos hle, List.take_left, List.drop_left]

theorem reads_count (excess : ℕ → ε) (n : ℕ) : Reads limit (count limit excess n) [] () n := by
  intro rest offset counted hlimit
  exact ⟨counted + n, Nat.le_refl _, if_neg (Nat.not_lt.mpr hlimit)⟩

theorem Reads.position {f : ℕ → Read ε β} (h : ∀ offset, Reads limit (f offset) enc b cost) :
    Reads limit (CountedReader.position >>= f) enc b cost := by
  intro rest offset counted hlimit
  obtain ⟨counted', hcounted, hread⟩ := h offset rest offset counted hlimit
  exact ⟨counted', hcounted, hread⟩

theorem reads_many {item : Read ε α} {enc : γ → Bytes} {out : γ → α} {cost : γ → ℕ} {items : List γ}
    (h : ∀ x ∈ items, Reads limit item (enc x) (out x) (cost x)) :
    Reads limit (many item items.length) (items.flatMap enc) (items.map out)
      (items.map cost).sum := by
  induction items with
  | nil => exact reads_pure []
  | cons x items ih =>
    obtain ⟨hx, hitems⟩ := List.forall_mem_cons.mp h
    exact hx.bind (ih hitems).map

end RoundTrip

section Outcomes

variable {r : Read ε α} {P : α → Prop} {Q : β → Prop}

def Ensures (r : Read ε α) (P : α → Prop) : Prop :=
  ∀ source a source', r source = .ok (a, source') → P a

theorem Ensures.bind {f : α → Read ε β} (h : Ensures r P) (hf : ∀ a, P a → Ensures (f a) Q) :
    Ensures (r >>= f) Q := by
  intro source b source' hread
  obtain ⟨a, middle, hfirst, hsecond⟩ := ok_of_bind hread
  exact hf a (h source a middle hfirst) middle b source' hsecond

theorem Ensures.imp {P' : α → Prop} (h : Ensures r P) (himp : ∀ a, P a → P' a) : Ensures r P' :=
  fun source a source' hread => himp a (h source a source' hread)

end Outcomes

section Pieces

def Takes (r : Read ε α) : Prop :=
  ∀ source a source', r source = .ok (a, source') → ∃ taken, source.rest = taken ++ source'.rest ∧
    source'.offset = source.offset + taken.length ∧
    ∀ more, r { source with rest := taken ++ more } = .ok (a, { source' with rest := more })

theorem takes_pure (a : α) : Takes (pure a : Read ε α) := by
  intro source b source' h
  obtain ⟨rfl, rfl⟩ := Prod.mk.inj (Except.ok.inj h)
  exact ⟨[], rfl, rfl, fun _ => rfl⟩

theorem takes_throw (fault : ε) : Takes (fun _ => .error fault : Read ε α) :=
  fun _ _ _ h => nomatch h

theorem Takes.bind {r : Read ε α} {f : α → Read ε β} (h : Takes r) (hf : ∀ a, Takes (f a)) :
    Takes (r >>= f) := by
  intro source b source' hread
  obtain ⟨a, middle, hfirst, hsecond⟩ := ok_of_bind hread
  obtain ⟨front, hfront, hmiddle, hagain⟩ := h source a middle hfirst
  obtain ⟨back, hback, hlast, hagain'⟩ := hf a middle b source' hsecond
  refine ⟨front ++ back, by rw [hfront, hback, List.append_assoc], ?_, fun more => ?_⟩
  · rw [hlast, hmiddle, List.length_append, Nat.add_assoc]
  · rw [List.append_assoc, bind_of_ok (hagain (back ++ more))]
    exact hagain' more

theorem takes_readByte (eof : ℕ → ε) : Takes (readByte eof) := by
  rintro ⟨rest, offset, counted⟩ byte source' h
  cases rest with
  | nil => cases h
  | cons first rest =>
    obtain ⟨rfl, rfl⟩ := Prod.mk.inj (Except.ok.inj h)
    exact ⟨[first], rfl, rfl, fun _ => rfl⟩

theorem takes_readBytes (eof : ℕ → ε) (n : ℕ) : Takes (readBytes eof n) := by
  intro source bytes source' h
  rw [readBytes] at h
  obtain ⟨hle, h⟩ := ite_eq_ok h
  obtain ⟨rfl, rfl⟩ := Prod.mk.inj (Except.ok.inj h)
  have hlength : (source.rest.take n).length = n := List.length_take_of_le hle
  refine ⟨source.rest.take n, (List.take_append_drop n source.rest).symm,
    by rw [hlength], fun more => ?_⟩
  have hlong : n ≤ (source.rest.take n ++ more).length := by
    rw [List.length_append]
    omega
  rw [readBytes, if_pos hlong, List.take_left' hlength, List.drop_left' hlength]

theorem takes_position : Takes (position : Read ε ℕ) := by
  intro source offset source' h
  obtain ⟨rfl, rfl⟩ := Prod.mk.inj (Except.ok.inj h)
  exact ⟨[], rfl, rfl, fun _ => rfl⟩

theorem takes_count (limit : ℕ) (excess : ℕ → ε) (n : ℕ) : Takes (count limit excess n) := by
  intro source counted source' h
  rw [count] at h
  split at h
  · cases h
  · rename_i hroom
    obtain ⟨-, rfl⟩ := Prod.mk.inj (Except.ok.inj h)
    exact ⟨[], rfl, rfl, fun more => if_neg hroom⟩

theorem takes_many {item : Read ε α} (h : Takes item) (n : ℕ) : Takes (many item n) := by
  induction n with
  | zero => exact takes_pure []
  | succ n ih => exact h.bind (fun first => ih.bind (fun rest => takes_pure (first :: rest)))

end Pieces

end CountedReader
