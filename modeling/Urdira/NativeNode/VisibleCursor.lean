import Urdira.StructuralStore.VisibleIter
import Urdira.StructuralStore.SelectorPages
import Urdira.StructuralStore.IdentityRun
import Urdira.StructuralStore.StaleReader

open ByteOrder MerkleBucket StructuralStore

namespace NativeNode

section Hex

def hexDigit (n : ℕ) : Byte := Fin.ofNat 256 (if n < 10 then 48 + n else 87 + n)

def hexEncode : Bytes → Text
  | [] => []
  | b :: bytes => hexDigit (b.val / 16) :: hexDigit (b.val % 16) :: hexEncode bytes

def toDigit16 (b : Byte) : Option ℕ :=
  if 48 ≤ b.val ∧ b.val ≤ 57 then some (b.val - 48)
  else if 97 ≤ b.val ∧ b.val ≤ 102 then some (b.val - 87)
  else if 65 ≤ b.val ∧ b.val ≤ 70 then some (b.val - 55)
  else none

def hexDecode : Text → Option Bytes
  | [] => some []
  | [_] => none
  | hi :: lo :: rest => do
    let hi ← toDigit16 hi
    let lo ← toDigit16 lo
    let bytes ← hexDecode rest
    some (Fin.ofNat 256 (hi * 16 + lo) :: bytes)

def colon : Byte := 58

def rsplitTail (s : Text) : Text := (s.reverse.takeWhile (fun b => decide (b ≠ colon))).reverse

def parseHex32 (s : Text) : Option Digest32 := do
  let bytes ← hexDecode (rsplitTail s)
  if h : bytes.length = 32 then some ⟨bytes, h⟩ else none

theorem toDigit16_hexDigit {n : ℕ} (hn : n < 16) : toDigit16 (hexDigit n) = some n := by
  have hall : ∀ a : Fin 16, toDigit16 (hexDigit a) = some a.val := by decide
  exact hall ⟨n, hn⟩

theorem hexDigit_ne_colon {n : ℕ} (hn : n < 16) : hexDigit n ≠ colon := by
  have hall : ∀ a : Fin 16, hexDigit a ≠ colon := by decide
  exact hall ⟨n, hn⟩

theorem hexDecode_hexEncode (bytes : Bytes) : hexDecode (hexEncode bytes) = some bytes := by
  induction bytes with
  | nil => rfl
  | cons b bytes ih =>
    have hbyte : Fin.ofNat 256 (b.val / 16 * 16 + b.val % 16) = b := by
      rw [Nat.div_add_mod']
      exact Fin.ofNat_val_eq_self b
    have hb := b.isLt
    rw [hexEncode, hexDecode, toDigit16_hexDigit (by omega), toDigit16_hexDigit (by omega), ih]
    change some (Fin.ofNat 256 (b.val / 16 * 16 + b.val % 16) :: bytes) = _
    rw [hbyte]

theorem colon_notMem_hexEncode (bytes : Bytes) : colon ∉ hexEncode bytes := by
  induction bytes with
  | nil => exact List.not_mem_nil
  | cons b bytes ih =>
    have hb := b.isLt
    rw [hexEncode, List.mem_cons, List.mem_cons]
    rintro (heq | heq | hmem)
    · exact hexDigit_ne_colon (by omega) heq.symm
    · exact hexDigit_ne_colon (by omega) heq.symm
    · exact ih hmem

theorem rsplitTail_of_notMem {s : Text} (h : colon ∉ s) : rsplitTail s = s := by
  have hall : s.reverse.takeWhile (fun b => decide (b ≠ colon)) = s.reverse := by
    refine List.takeWhile_eq_self_iff.mpr (fun b hb => decide_eq_true ?_)
    rintro rfl
    exact h (List.mem_reverse.mp hb)
  rw [rsplitTail, hall, List.reverse_reverse]

theorem parseHex32_hexEncode (id : Digest32) : parseHex32 (hexEncode id.bytes) = some id := by
  have hsize := id.size
  rw [parseHex32, rsplitTail_of_notMem (colon_notMem_hexEncode _), hexDecode_hexEncode]
  change (if h : id.bytes.length = 32 then some ⟨id.bytes, h⟩ else none : Option Digest32) = some id
  rw [dif_pos hsize]

end Hex

section Drain

def skipTo (target : Digest32) : ℕ → VisibleIter → VisibleIter
  | 0, it => it
  | fuel + 1, it =>
    match it.next with
    | (some row, it') => if row.recordId = target then it' else skipTo target fuel it'
    | (none, it') => it'

def takeRows : ℕ → VisibleIter → List StoredRow × VisibleIter
  | 0, it => ([], it)
  | n + 1, it =>
    match it.next with
    | (some row, it') => (row :: (takeRows n it').1, (takeRows n it').2)
    | (none, it') => ([], it')

def freshIter (inner : StoreInner) (generation : ℕ) (afterKeyHex : Option Text) : VisibleIter :=
  let fresh := inner.visibleIter generation
  match afterKeyHex.bind parseHex32 with
  | some target => skipTo target (VisibleIter.heapSize fresh.inner fresh.heap + 1) fresh
  | none => fresh

abbrev CursorSlot := Option (ℕ × Option Text × VisibleIter)

structure Batch where
  rows : List StoredRow
  nextCursor : Option Text
  deriving DecidableEq

def resume (inner : StoreInner) (slot : CursorSlot) (generation : ℕ) (afterKeyHex : Option Text) :
    VisibleIter :=
  match slot with
  | some (cachedGen, cachedAfter, cachedIter) =>
    if cachedGen = generation ∧ cachedAfter = afterKeyHex then cachedIter
    else freshIter inner generation afterKeyHex
  | none => freshIter inner generation afterKeyHex

def lastKeyHex (rows : List StoredRow) (afterKeyHex : Option Text) : Option Text :=
  match rows.getLast? with
  | some row => some (hexEncode row.recordId.bytes)
  | none => afterKeyHex

def drainVisibleBatch (inner : StoreInner) (slot : CursorSlot) (generation batchSize : ℕ)
    (afterKeyHex : Option Text) : Batch × CursorSlot :=
  let (rows, iter) := takeRows batchSize (resume inner slot generation afterKeyHex)
  if rows.length < batchSize then (⟨rows, none⟩, none)
  else
    (⟨rows, lastKeyHex rows afterKeyHex⟩, some (generation, lastKeyHex rows afterKeyHex, iter))

end Drain

section Remaining

variable {inner : StoreInner} {generation batchSize : ℕ} {after : Option Text} {it : VisibleIter}
  {slot : CursorSlot}

def remaining (rows : List StoredRow) (after : Option Text) : List StoredRow :=
  match after.bind parseHex32 with
  | some target => (rows.dropWhile (fun row => decide (row.recordId ≠ target))).tail
  | none => rows

structure At (inner : StoreInner) (generation : ℕ) (rows : List StoredRow) (it : VisibleIter) :
    Prop where
  inner_eq : it.inner = inner
  generation_eq : it.generation = generation
  ready : VisibleIter.Ready it.inner it.heap
  rows_eq : it.rows = rows

variable {rows : List StoredRow}

theorem At.next (h : At inner generation rows it) :
    ∃ it', it.next = (rows.head?, it') ∧ At inner generation rows.tail it' := by
  obtain ⟨it', hnext, hinner, hgeneration, hready, hrows⟩ := it.next_spec h.ready
  rw [h.rows_eq] at hnext hrows
  exact ⟨it', hnext, hinner.trans h.inner_eq, hgeneration.trans h.generation_eq, hready, hrows⟩

theorem At.takeRows (n : ℕ) (h : At inner generation rows it) :
    ∃ it', takeRows n it = (rows.take n, it') ∧ At inner generation (rows.drop n) it' := by
  induction n generalizing rows it with
  | zero => exact ⟨it, rfl, h⟩
  | succ n ih =>
    obtain ⟨next, hnext, hat⟩ := h.next
    unfold NativeNode.takeRows
    rw [hnext]
    cases rows with
    | nil => exact ⟨next, rfl, hat⟩
    | cons row rows =>
      obtain ⟨it', htake, hat'⟩ := ih hat
      rw [List.head?_cons]
      dsimp only
      rw [htake]
      exact ⟨it', rfl, hat'⟩

theorem At.skipTo (target : Digest32) {fuel : ℕ} (h : At inner generation rows it)
    (hfuel : rows.length < fuel) :
    At inner generation (rows.dropWhile (fun row => decide (row.recordId ≠ target))).tail
      (skipTo target fuel it) := by
  induction fuel generalizing rows it with
  | zero => exact absurd hfuel (Nat.not_lt_zero _)
  | succ fuel ih =>
    obtain ⟨next, hnext, hat⟩ := h.next
    unfold NativeNode.skipTo
    rw [hnext]
    cases rows with
    | nil => exact hat
    | cons row rows =>
      rw [List.head?_cons, List.dropWhile_cons]
      dsimp only
      by_cases heq : row.recordId = target
      · rw [if_pos heq, if_neg (by simpa using heq)]
        exact hat
      · rw [if_neg heq, if_pos (by simpa using heq)]
        exact ih hat (by simpa using hfuel)

theorem freshIter_at (inner : StoreInner) (generation : ℕ) (after : Option Text) :
    At inner generation (remaining (inner.iterVisible generation) after)
      (freshIter inner generation after) := by
  have hfresh : At inner generation (inner.iterVisible generation) (inner.visibleIter generation) :=
    ⟨rfl, rfl, inner.visibleIter_ready generation, inner.visibleIter_rows generation⟩
  unfold freshIter remaining
  cases after.bind parseHex32 with
  | none => exact hfresh
  | some target =>
    refine hfresh.skipTo target ?_
    rw [← inner.visibleIter_rows generation]
    exact Nat.lt_succ_of_le (VisibleIter.length_rows_le _)

def CursorSlot.Valid (slot : CursorSlot) (inner : StoreInner) : Prop :=
  ∀ generation after it, slot = some (generation, after, it) →
    At inner generation (remaining (inner.iterVisible generation) after) it

theorem valid_none (inner : StoreInner) : CursorSlot.Valid none inner :=
  fun _ _ _ heq => nomatch heq

theorem CursorSlot.Valid.resume (h : slot.Valid inner) (generation : ℕ) (after : Option Text) :
    At inner generation (remaining (inner.iterVisible generation) after)
      (resume inner slot generation after) := by
  cases slot with
  | none => exact freshIter_at inner generation after
  | some cached =>
    obtain ⟨cachedGen, cachedAfter, cachedIter⟩ := cached
    unfold NativeNode.resume
    dsimp only
    split
    · rename_i hhit
      obtain ⟨rfl, rfl⟩ := hhit
      exact h _ _ _ rfl
    · exact freshIter_at inner generation after

theorem drainVisibleBatch_at {R : List StoredRow} (batchSize : ℕ)
    (h : At inner generation R (resume inner slot generation after)) :
    ∃ it', At inner generation (R.drop batchSize) it' ∧
      drainVisibleBatch inner slot generation batchSize after =
        if R.length < batchSize then (⟨R.take batchSize, none⟩, none)
        else (⟨R.take batchSize, lastKeyHex (R.take batchSize) after⟩,
          some (generation, lastKeyHex (R.take batchSize) after, it')) := by
  obtain ⟨it', htake, hat⟩ := h.takeRows batchSize
  have hlength : (R.take batchSize).length < batchSize ↔ R.length < batchSize := by
    rw [List.length_take]
    omega
  refine ⟨it', hat, ?_⟩
  unfold drainVisibleBatch
  rw [htake]
  dsimp only
  simp only [hlength]

theorem remaining_suffix (rows : List StoredRow) (after : Option Text) :
    remaining rows after <:+ rows := by
  unfold remaining
  cases after.bind parseHex32 with
  | none => exact List.suffix_refl _
  | some target => exact (List.tail_suffix _).trans (List.dropWhile_suffix _)

theorem dropWhile_of_notMem {front back : List StoredRow} {row : StoredRow}
    (h : row.recordId ∉ front.map (fun row => row.recordId)) :
    (front ++ row :: back).dropWhile (fun other => decide (other.recordId ≠ row.recordId)) =
      row :: back := by
  induction front with
  | nil => simp
  | cons first front ih =>
    rw [List.map_cons, List.mem_cons, not_or] at h
    rw [List.cons_append, List.dropWhile_cons, if_pos (by simpa using Ne.symm h.1)]
    exact ih h.2

theorem remaining_lastKeyHex {R rows : List StoredRow} (n : ℕ) (hsuffix : R <:+ rows)
    (hids : (rows.map (fun row => row.recordId)).Nodup) (hne : R.take n ≠ []) :
    remaining rows (lastKeyHex (R.take n) after) = R.drop n := by
  obtain ⟨front, rfl⟩ := hsuffix
  obtain ⟨init, row, hsplit⟩ : ∃ init row, R.take n = init ++ [row] :=
    ⟨_, _, (List.dropLast_append_getLast hne).symm⟩
  have hrows : front ++ R = (front ++ init) ++ row :: R.drop n := by
    conv_lhs => rw [← List.take_append_drop n R, hsplit]
    rw [List.append_assoc, List.append_assoc]
    rfl
  have hnotMem : row.recordId ∉ (front ++ init).map (fun row => row.recordId) := by
    rw [hrows, List.map_append, List.map_cons] at hids
    intro hmem
    exact (List.nodup_append.mp hids).2.2 _ hmem _ (List.mem_cons_self ..) rfl
  unfold remaining lastKeyHex
  rw [hsplit, List.getLast?_concat]
  dsimp only
  rw [Option.bind_some, parseHex32_hexEncode, hrows]
  exact congrArg List.tail (dropWhile_of_notMem hnotMem)

theorem CursorSlot.Valid.drain (h : slot.Valid inner) (generation batchSize : ℕ)
    (after : Option Text)
    (hids : ((inner.iterVisible generation).map (fun row => row.recordId)).Nodup) :
    (drainVisibleBatch inner slot generation batchSize after).1 =
        (drainVisibleBatch inner none generation batchSize after).1 ∧
      CursorSlot.Valid (drainVisibleBatch inner slot generation batchSize after).2 inner := by
  have hnone : CursorSlot.Valid none inner := valid_none inner
  obtain ⟨it, hat, hcached⟩ :=
    drainVisibleBatch_at batchSize (h.resume generation after)
  obtain ⟨it', -, hfresh⟩ :=
    drainVisibleBatch_at batchSize (hnone.resume generation after)
  rw [hcached, hfresh]
  split
  · exact ⟨rfl, hnone⟩
  · rename_i hlength
    refine ⟨rfl, ?_⟩
    rintro g a i heq
    obtain ⟨rfl, hcursor⟩ := Prod.mk.inj (Option.some.inj heq)
    obtain ⟨rfl, rfl⟩ := Prod.mk.inj hcursor
    cases batchSize with
    | zero => exact hat
    | succ n =>
      have hne : (remaining (inner.iterVisible generation) after).take (n + 1) ≠ [] := by
        intro hnil
        have hzero := congrArg List.length hnil
        rw [List.length_take, List.length_nil] at hzero
        omega
      rw [remaining_lastKeyHex (n + 1) (remaining_suffix _ after) hids hne]
      exact hat

end Remaining

section Handle

structure Handle (Sidecar : Type) where
  inner : StoreInner
  sidecar : Sidecar
  visibleCursor : CursorSlot

namespace Handle

variable {Sidecar : Type}

def «open» (dir : Directory) (loaded : Except Fault Sidecar) : Except Fault (Handle Sidecar) := do
  let inner ← StoreInner.load dir
  let sidecar ← loaded
  .ok ⟨inner, sidecar, none⟩

def iterVisibleBatch (handle : Handle Sidecar) (generation batchSize : ℕ)
    (afterKeyHex : Option Text) :
    Batch × Handle Sidecar :=
  let (batch, slot) :=
    drainVisibleBatch handle.inner handle.visibleCursor generation batchSize afterKeyHex
  (batch, { handle with visibleCursor := slot })

-- a sidecar that fails to load returns after the reader has moved on and before the slot is cleared
def reopenIfChanged (handle : Handle Sidecar) (dir : Directory) (loaded : Except Fault Sidecar) :
    Except Fault Bool × Handle Sidecar :=
  match handle.inner.reopenIfChanged dir with
  | .error e => (.error e, handle)
  | .ok (inner, changed) =>
    if changed then
      match loaded with
      | .error e => (.error e, { handle with inner := inner })
      | .ok sidecar => (.ok true, ⟨inner, sidecar, none⟩)
    else (.ok false, { handle with inner := inner })

def ClearsCursor (handle : Handle Sidecar) (dir : Directory) (loaded : Except Fault Sidecar) :
    Prop :=
  handle.visibleCursor = none ∨ (∃ sidecar, loaded = .ok sidecar) ∨
    ∀ inner, handle.inner.reopenIfChanged dir ≠ .ok (inner, true)

end Handle

end Handle

section Run

variable [Sha256] {Sidecar : Type} {disk : Disk} {handle : Handle Sidecar}

inductive HandleRun (admits : Handle Sidecar → Directory → Except Fault Sidecar → Prop) :
    Handle Sidecar → Prop
  | opened {dir : Directory} {written : Digest32 → Option Bytes} {loaded : Except Fault Sidecar}
      {handle : Handle Sidecar} (stored : WrittenRun dir.disk written)
      (opens : Handle.open dir loaded = .ok handle) : HandleRun admits handle
  | drained {handle : Handle Sidecar} (generation batchSize : ℕ) (afterKeyHex : Option Text)
      (before : HandleRun admits handle) :
      HandleRun admits (handle.iterVisibleBatch generation batchSize afterKeyHex).2
  | reopened {handle : Handle Sidecar} {dir : Directory} {written : Digest32 → Option Bytes}
      {loaded : Except Fault Sidecar} (before : HandleRun admits handle)
      (stored : WrittenRun dir.disk written)
      (snapshot : ∀ inner, handle.inner.reopenIfChanged dir = .ok (inner, true) →
        SnapshotOf dir inner)
      (admitted : admits handle dir loaded) :
      HandleRun admits (handle.reopenIfChanged dir loaded).2

structure HandleOk (handle : Handle Sidecar) : Prop where
  ids : ∀ generation, ((handle.inner.iterVisible generation).map (fun row => row.recordId)).Nodup
  cursor : handle.visibleCursor.Valid handle.inner

theorem visible_ids_of_snapshot {dir : Directory} {written : Digest32 → Option Bytes}
    {inner : StoreInner}
    (h : WrittenRun dir.disk written) (hsnapshot : SnapshotOf dir inner) (generation : ℕ) :
    ((inner.iterVisible generation).map (fun row => row.recordId)).Nodup := by
  obtain ⟨reader, hok⟩ := h.elided
  obtain ⟨reader', hopen, hreads⟩ := hsnapshot.reads
  obtain rfl := Except.ok.inj (hok.opens.symm.trans hopen)
  exact hreads.visible_ids hok.ids generation

omit [Sha256] in
theorem reopenIfChanged_false {inner inner' : StoreInner} {dir : Directory}
    (h : inner.reopenIfChanged dir = .ok (inner', false)) : inner' = inner := by
  unfold StoreInner.reopenIfChanged at h
  split at h
  · cases h
    rfl
  · split at h
    · cases h
      rfl
    · dsimp only at h
      split at h
      · split at h
        · obtain ⟨fresh, -, h⟩ := ExceptOk.bind_eq_ok h
          cases h
        · obtain ⟨fresh, -, h⟩ := ExceptOk.bind_eq_ok h
          cases h
      · obtain ⟨fresh, -, h⟩ := ExceptOk.bind_eq_ok h
        cases h

theorem HandleOk.reopened {dir : Directory} {written : Digest32 → Option Bytes}
    {loaded : Except Fault Sidecar} (h : HandleOk handle) (hstored : WrittenRun dir.disk written)
    (hsnapshot : ∀ inner, handle.inner.reopenIfChanged dir = .ok (inner, true) →
      SnapshotOf dir inner)
    (hclears : handle.ClearsCursor dir loaded) :
    HandleOk (handle.reopenIfChanged dir loaded).2 := by
  unfold Handle.reopenIfChanged
  cases hreopen : handle.inner.reopenIfChanged dir with
  | error e => exact h
  | ok result =>
    obtain ⟨inner, changed⟩ := result
    cases changed with
    | false =>
      obtain rfl := reopenIfChanged_false hreopen
      exact h
    | true =>
      have hids := visible_ids_of_snapshot hstored (hsnapshot inner hreopen)
      cases loaded with
      | ok sidecar => exact ⟨hids, valid_none inner⟩
      | error e =>
        refine ⟨hids, ?_⟩
        obtain hempty | ⟨sidecar, hloaded⟩ | hunchanged := hclears
        · change handle.visibleCursor.Valid inner
          rw [hempty]
          exact valid_none inner
        · cases hloaded
        · exact absurd hreopen (hunchanged inner)

theorem HandleRun.ok (h : HandleRun Handle.ClearsCursor handle) : HandleOk handle := by
  induction h with
  | @opened dir written loaded handle stored opens =>
    obtain ⟨inner, hload, opens⟩ := ExceptOk.bind_eq_ok opens
    obtain ⟨sidecar, -, opens⟩ := ExceptOk.bind_eq_ok opens
    cases opens
    exact ⟨visible_ids_of_snapshot stored (.loaded hload), valid_none inner⟩
  | drained generation batchSize afterKeyHex before ih =>
    exact ⟨ih.ids, (ih.cursor.drain generation batchSize afterKeyHex (ih.ids generation)).2⟩
  | reopened before stored snapshot admitted ih => exact ih.reopened stored snapshot admitted

end Run

section Instances

end Instances

end NativeNode
