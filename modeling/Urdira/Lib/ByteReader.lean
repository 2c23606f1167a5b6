import Urdira.Lib.ByteLayout

open ByteOrder ByteLayout

namespace ByteReader

abbrev Read (ε α : Type) := ExceptT ε (StateM Bytes) α

variable {ε α β : Type}

def readExact (eof : ε) (n : ℕ) : Read ε Bytes := fun r =>
  if n ≤ r.length then (.ok (r.take n), r.drop n) else (.error eof, [])

def readMany (item : Read ε α) : ℕ → Read ε (List α)
  | 0 => pure []
  | n + 1 => do
    let a ← item
    let as ← readMany item n
    pure (a :: as)

def orDefault (p : Read ε α) (fallback : α) : Read ε α := fun r =>
  match p r with
  | (.ok a, rest) => (.ok a, rest)
  | (.error _, rest) => (.ok fallback, rest)

def Reads (p : Read ε α) (enc : Bytes) (a : α) : Prop :=
  ∀ rest, p (enc ++ rest) = (Except.ok a, rest)

theorem reads_pure (a : α) : Reads (pure a : Read ε α) [] a := fun _ => rfl

theorem Reads.bind {p : Read ε α} {f : α → Read ε β} {enc enc' : Bytes} {a : α} {b : β}
    (hp : Reads p enc a) (hf : Reads (f a) enc' b) : Reads (p >>= f) (enc ++ enc') b := by
  intro rest
  have hfirst : p (enc ++ (enc' ++ rest)) = (Except.ok a, enc' ++ rest) := hp _
  have hrun : (p >>= f) (enc ++ (enc' ++ rest)) = f a (enc' ++ rest) := by
    change (ExceptT.bind p f) (enc ++ (enc' ++ rest)) = f a (enc' ++ rest)
    unfold ExceptT.bind ExceptT.mk
    change (StateT.bind p (ExceptT.bindCont f)) (enc ++ (enc' ++ rest)) = _
    unfold StateT.bind
    rw [hfirst]
    rfl
  rw [List.append_assoc, hrun]
  exact hf rest

theorem Reads.map {p : Read ε α} {enc : Bytes} {a : α} (hp : Reads p enc a) (f : α → β) :
    Reads (p >>= fun x => pure (f x)) enc (f a) := by
  have hbind := hp.bind (f := fun x => pure (f x)) (reads_pure (f a))
  rwa [List.append_nil] at hbind

theorem reads_readExact (eof : ε) (enc : Bytes) : Reads (readExact eof enc.length) enc enc := by
  intro rest
  unfold readExact
  simp

theorem reads_readMany {item : Read ε α} {enc : α → Bytes} {xs : List α}
    (h : ∀ a ∈ xs, Reads item (enc a) a) : Reads (readMany item xs.length) (xs.flatMap enc) xs := by
  induction xs with
  | nil => exact reads_pure []
  | cons a xs ih =>
    have htail := ih (fun b hb => h b (List.mem_cons_of_mem _ hb))
    exact (h a List.mem_cons_self).bind (htail.map (fun as => a :: as))

theorem Reads.orDefault {p : Read ε α} {enc : Bytes} {a : α} (hp : Reads p enc a) (fallback : α) :
    Reads (ByteReader.orDefault p fallback) enc a := by
  intro rest
  unfold ByteReader.orDefault
  rw [hp rest]

end ByteReader
