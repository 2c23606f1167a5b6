import Urdira.Lib.ByteOrder

open ByteOrder

namespace ByteLayout

section LittleEndian

def leBytes : ℕ → ℕ → Bytes
  | 0, _ => []
  | w + 1, v => Fin.ofNat 256 v :: leBytes w (v / 256)

def leValue : Bytes → ℕ
  | [] => 0
  | b :: bs => b.val + 256 * leValue bs

@[simp] theorem length_leBytes (w v : ℕ) : (leBytes w v).length = w := by
  induction w generalizing v with
  | zero => rfl
  | succ w ih => simp [leBytes, ih]

theorem leValue_leBytes {w v : ℕ} (h : v < 256 ^ w) : leValue (leBytes w v) = v := by
  induction w generalizing v with
  | zero =>
    have hv : v = 0 := by simpa using h
    simp [leBytes, leValue, hv]
  | succ w ih =>
    have hdiv : v / 256 < 256 ^ w := Nat.div_lt_of_lt_mul (by rwa [pow_succ'] at h)
    have hmod : (Fin.ofNat 256 v).val = v % 256 := rfl
    rw [leBytes, leValue, ih hdiv, hmod]
    omega

end LittleEndian

def zeros (n : ℕ) : Bytes := List.replicate n 0

@[simp] theorem length_zeros (n : ℕ) : (zeros n).length = n := by simp [zeros]

def readAt (buf : Bytes) (off len : ℕ) : Bytes := (buf.drop off).take len

def writeAt (buf : Bytes) (off : ℕ) (bs : Bytes) : Bytes :=
  buf.mapIdx (fun i b => if off ≤ i then bs.getD (i - off) b else b)

@[simp] theorem length_writeAt (buf : Bytes) (off : ℕ) (bs : Bytes) :
    (writeAt buf off bs).length = buf.length := by
  simp [writeAt]

theorem getElem?_writeAt (buf : Bytes) (off : ℕ) (bs : Bytes) (i : ℕ) :
    (writeAt buf off bs)[i]? = buf[i]?.map (fun b => if off ≤ i then bs.getD (i - off) b
      else b) := by
  simp [writeAt]

theorem getElem?_readAt (buf : Bytes) (off len i : ℕ) :
    (readAt buf off len)[i]? = if i < len then buf[off + i]? else none := by
  simp [readAt, List.getElem?_take]

theorem readAt_writeAt_self {buf bs : Bytes} {off : ℕ} (h : off + bs.length ≤ buf.length) :
    readAt (writeAt buf off bs) off bs.length = bs := by
  refine List.ext_getElem? (fun i => ?_)
  rw [getElem?_readAt, getElem?_writeAt]
  by_cases hi : i < bs.length
  · have hin : off + i < buf.length := by omega
    simp [hi, hin, List.getD_eq_getElem?_getD]
  · simp [hi]

theorem readAt_writeAt_of_apart {buf bs : Bytes} {off off' len : ℕ}
    (h : off' + len ≤ off ∨ off + bs.length ≤ off') :
    readAt (writeAt buf off bs) off' len = readAt buf off' len := by
  refine List.ext_getElem? (fun i => ?_)
  rw [getElem?_readAt, getElem?_readAt, getElem?_writeAt]
  by_cases hi : i < len
  · simp only [hi, if_true]
    rcases h with h | h
    · have hlt : ¬ off ≤ off' + i := by omega
      simp [hlt]
    · have hout : bs[off' + i - off]? = none := List.getElem?_eq_none (by omega)
      simp [List.getD_eq_getElem?_getD, hout]
  · simp [hi]

def Apart (a b : ℕ × ℕ) : Prop := a.1 + a.2 ≤ b.1 ∨ b.1 + b.2 ≤ a.1

instance : DecidableRel Apart := fun a b =>
  inferInstanceAs (Decidable (a.1 + a.2 ≤ b.1 ∨ b.1 + b.2 ≤ a.1))

def span (field : ℕ × Bytes) : ℕ × ℕ := (field.1, field.2.length)

@[simp] theorem span_mk (off : ℕ) (bs : Bytes) : span (off, bs) = (off, bs.length) := rfl

def writeFields (buf : Bytes) (fields : List (ℕ × Bytes)) : Bytes :=
  fields.foldl (fun buf field => writeAt buf field.1 field.2) buf

structure Fits (size : ℕ) (spans : List (ℕ × ℕ)) : Prop where
  inside : ∀ s ∈ spans, s.1 + s.2 ≤ size
  apart : spans.Pairwise Apart

instance (size : ℕ) (spans : List (ℕ × ℕ)) : Decidable (Fits size spans) :=
  decidable_of_iff ((∀ s ∈ spans, s.1 + s.2 ≤ size) ∧ spans.Pairwise Apart)
    ⟨fun ⟨h₁, h₂⟩ => ⟨h₁, h₂⟩, fun h => ⟨h.1, h.2⟩⟩

theorem Fits.mono {size size' : ℕ} {spans : List (ℕ × ℕ)} (h : Fits size spans)
    (hle : size ≤ size') :
    Fits size' spans :=
  ⟨fun s hs => (h.inside s hs).trans hle, h.apart⟩

section Fields

variable {buf : Bytes} {fields : List (ℕ × Bytes)}

@[simp] theorem length_writeFields (buf : Bytes) (fields : List (ℕ × Bytes)) :
    (writeFields buf fields).length = buf.length := by
  induction fields generalizing buf with
  | nil => rfl
  | cons field fields ih =>
    have hstep := ih (writeAt buf field.1 field.2)
    rwa [length_writeAt] at hstep

theorem readAt_writeFields_of_apart {off len : ℕ}
    (h : ∀ field ∈ fields, Apart (off, len) (span field)) :
    readAt (writeFields buf fields) off len = readAt buf off len := by
  induction fields generalizing buf with
  | nil => rfl
  | cons field fields ih =>
    have hrest : readAt (writeFields (writeAt buf field.1 field.2) fields) off len =
        readAt (writeAt buf field.1 field.2) off len :=
      ih (fun g hg => h g (List.mem_cons_of_mem _ hg))
    have hhead : readAt (writeAt buf field.1 field.2) off len = readAt buf off len :=
      readAt_writeAt_of_apart (h field List.mem_cons_self)
    exact hrest.trans hhead

theorem readAt_writeFields (h : Fits buf.length (fields.map span)) {field : ℕ × Bytes}
    (hmem : field ∈ fields) :
    readAt (writeFields buf fields) field.1 field.2.length = field.2 := by
  obtain ⟨hinside, hapart⟩ := h
  induction fields generalizing buf with
  | nil => cases hmem
  | cons first fields ih =>
    rw [List.map_cons, List.pairwise_cons] at hapart
    have hstep : writeFields buf (first :: fields) =
        writeFields (writeAt buf first.1 first.2) fields := rfl
    rw [hstep]
    rcases List.mem_cons.mp hmem with rfl | hrest
    · rw [readAt_writeFields_of_apart]
      · exact readAt_writeAt_self (hinside (span field) List.mem_cons_self)
      · intro other hother
        exact hapart.1 (span other) (List.mem_map_of_mem hother)
    · refine ih hrest (fun s hs => ?_) hapart.2
      rw [length_writeAt]
      exact hinside s (List.mem_cons_of_mem _ hs)

theorem leValue_writeFields (h : Fits buf.length (fields.map span)) {off w v : ℕ}
    (hmem : (off, leBytes w v) ∈ fields) (hv : v < 256 ^ w) :
    leValue (readAt (writeFields buf fields) off w) = v := by
  have hread := readAt_writeFields h hmem
  rw [length_leBytes] at hread
  rw [hread, leValue_leBytes hv]

end Fields

section Rows

variable {α : Type} {f : α → Bytes} {stride : ℕ} {xs : List α}

def rowAt (stride : ℕ) (data : Bytes) (k : ℕ) : Bytes := readAt data (k * stride) stride

def rowsOf (stride n : ℕ) (data : Bytes) : List Bytes := (List.range n).map (rowAt stride data)

theorem length_flatMap_stride (h : ∀ a ∈ xs, (f a).length = stride) :
    (xs.flatMap f).length = xs.length * stride := by
  induction xs with
  | nil => simp
  | cons a xs ih =>
    rw [List.flatMap_cons, List.length_append, h a List.mem_cons_self,
      ih (fun b hb => h b (List.mem_cons_of_mem _ hb)), List.length_cons]
    ring

theorem readAt_append_right (as bs : Bytes) (off len : ℕ) :
    readAt (as ++ bs) (as.length + off) len = readAt bs off len := by
  unfold readAt
  rw [List.drop_append, List.drop_eq_nil_of_le (by omega), List.nil_append]
  congr 2
  omega

theorem readAt_append_of_le {as bs : Bytes} {off len : ℕ} (h : off + len ≤ as.length) :
    readAt (as ++ bs) off len = readAt as off len := by
  unfold readAt
  rw [List.drop_append_of_le_length (by omega), List.take_append_of_le_length]
  rw [List.length_drop]
  omega

theorem readAt_append_left {as bs : Bytes} : readAt (as ++ bs) 0 as.length = as := by
  simp [readAt]

theorem rowAt_flatMap (h : ∀ a ∈ xs, (f a).length = stride) {k : ℕ} {a : α} (hk : xs[k]? = some a) :
    rowAt stride (xs.flatMap f) k = f a := by
  induction xs generalizing k with
  | nil => simp at hk
  | cons b xs ih =>
    have hb := h b List.mem_cons_self
    cases k with
    | zero =>
      obtain rfl : b = a := by simpa using hk
      simp [rowAt, readAt, ← hb]
    | succ k =>
      have hoff : (k + 1) * stride = (f b).length + k * stride := by
        rw [hb]
        ring
      rw [List.flatMap_cons, rowAt, hoff, readAt_append_right]
      exact ih (fun c hc => h c (List.mem_cons_of_mem _ hc)) (by simpa using hk)

theorem rowsOf_flatMap (h : ∀ a ∈ xs, (f a).length = stride) :
    rowsOf stride xs.length (xs.flatMap f) = xs.map f := by
  refine List.ext_getElem (by simp [rowsOf]) (fun k hk hk' => ?_)
  have hlt : k < xs.length := by simpa using hk'
  simp only [rowsOf, List.getElem_map, List.getElem_range]
  exact rowAt_flatMap h (List.getElem?_eq_getElem hlt)

end Rows

section Blobs

variable {α : Type}

def offsetsFrom : ℕ → List ℕ → List ℕ
  | _, [] => []
  | start, len :: lens => start :: offsetsFrom (start + len) lens

def blocksAt (start : ℕ) (blocks : List Bytes) : List (ℕ × Bytes) :=
  (offsetsFrom start (blocks.map List.length)).zip blocks

theorem blocksAt_cons (start : ℕ) (b : Bytes) (blocks : List Bytes) :
    blocksAt start (b :: blocks) = (start, b) :: blocksAt (start + b.length) blocks := rfl

theorem le_of_mem_blocksAt {start : ℕ} {blocks : List Bytes} {field : ℕ × Bytes}
    (h : field ∈ blocksAt start blocks) : start ≤ field.1 := by
  induction blocks generalizing start with
  | nil => simp [blocksAt] at h
  | cons b blocks ih =>
    rw [blocksAt_cons] at h
    rcases List.mem_cons.mp h with rfl | hrest
    · exact le_rfl
    · have hle := ih hrest
      omega

theorem end_le_of_mem_blocksAt {start : ℕ} {blocks : List Bytes} {field : ℕ × Bytes}
    (h : field ∈ blocksAt start blocks) :
    field.1 + field.2.length ≤ start + blocks.flatten.length := by
  induction blocks generalizing start with
  | nil => simp [blocksAt] at h
  | cons b blocks ih =>
    rw [blocksAt_cons] at h
    rw [List.flatten_cons, List.length_append]
    rcases List.mem_cons.mp h with rfl | hrest
    · dsimp only
      omega
    · have hle := ih hrest
      omega

theorem readAt_of_mem_blocksAt {before after : Bytes} {blocks : List Bytes} {field : ℕ × Bytes}
    (h : field ∈ blocksAt before.length blocks) :
    readAt (before ++ blocks.flatten ++ after) field.1 field.2.length = field.2 := by
  induction blocks generalizing before with
  | nil => simp [blocksAt] at h
  | cons b blocks ih =>
    rw [blocksAt_cons] at h
    rcases List.mem_cons.mp h with rfl | hrest
    · have hread := readAt_append_right before (b ++ (blocks.flatten ++ after)) 0 b.length
      rw [List.flatten_cons, List.append_assoc, List.append_assoc]
      exact hread.trans readAt_append_left
    · rw [← List.length_append] at hrest
      have hread := ih hrest
      rwa [List.append_assoc before b, ← List.flatten_cons] at hread

theorem leValue_of_mem_blocksAt {blocks : List Bytes} {off w v : ℕ}
    (h : (off, leBytes w v) ∈ blocksAt 0 blocks) (hv : v < 256 ^ w) :
    leValue (readAt blocks.flatten off w) = v := by
  have hmem : (off, leBytes w v) ∈ blocksAt ([] : Bytes).length blocks := h
  have hread : readAt ([] ++ blocks.flatten ++ []) off (leBytes w v).length = leBytes w v :=
    readAt_of_mem_blocksAt hmem
  rw [List.nil_append, List.append_nil, length_leBytes] at hread
  rw [hread, leValue_leBytes hv]

end Blobs

end ByteLayout
