import Urdira.Canonical.DecodingRoundTrip
import Urdira.Engine.SpoolAccounting
import Urdira.Lib.KeysetPages

open ByteOrder Canonical KeyedSort KeysetPages MerkleBucket RowLedger TextCodec

namespace Engine

namespace Spool

open LogicalEncoding

structure Yields where
  items : List CanonicalValue
  fault : Option DecodingError

def decodeRows : List Row → Yields
  | [] => ⟨[], none⟩
  | row :: rows =>
    match decodeCanonical defaultLimits row.payload with
    | .error fault => ⟨[], some fault⟩
    | .ok value => { decodeRows rows with items := value :: (decodeRows rows).items }

def maxSafeInteger : ℤ := 2 ^ 53 - 1

namespace SqliteStageSpool

variable (rows : List Row) (c : Coordinates)

def stageRows : List Row := rows.filter (fun row => decide (rowKey row = storedKey c))

-- ordinal > ? ORDER BY ordinal LIMIT ?
def rowsAfter (limit : ℕ) (ordinal : ℤ) : List Row :=
  (((stageRows rows c).filter (fun row => decide (ordinal < row.ordinal))).insertionSort
    (fun left right => (left.ordinal : ℤ) ≤ right.ordinal)).take limit

-- ordinal < ? ORDER BY ordinal DESC LIMIT ?
def rowsBefore (limit : ℕ) (ordinal : ℤ) : List Row :=
  (((stageRows rows c).filter (fun row => decide ((row.ordinal : ℤ) < ordinal))).insertionSort
    (fun left right => (right.ordinal : ℤ) ≤ left.ordinal)).take limit

def pageSize : ℕ := 512

def readPages (select : ℕ → ℤ → List Row) : ℕ → ℤ → Option Yields
  | 0, _ => none
  | fuel + 1, ordinal =>
    let page := select pageSize ordinal
    let read := decodeRows page
    if page.length = 0 then some ⟨[], none⟩
    else if read.fault.isSome then some read
    else if page.length < pageSize then some read
    else
      let ordinal : ℤ := page.getLast?.elim ordinal (fun row => (row.ordinal : ℤ))
      (readPages select fuel ordinal).map
        (fun rest => { rest with items := read.items ++ rest.items })

def iterate (spool : SqliteStageSpool) (c : Coordinates) (fuel : ℕ) : Option Yields :=
  readPages (rowsAfter spool.rows c) fuel (-1)

def iterateReverse (spool : SqliteStageSpool) (c : Coordinates) (fuel : ℕ) : Option Yields :=
  readPages (rowsBefore spool.rows c) fuel maxSafeInteger

end SqliteStageSpool

section Reading

variable {rows : List Row} {values : List CanonicalValue}

theorem decodeRows_append {more : List Row} (h : (decodeRows rows).fault = none) :
    decodeRows (rows ++ more) =
    { decodeRows more with items := (decodeRows rows).items ++ (decodeRows more).items } := by
  induction rows with
  | nil => rfl
  | cons row rows ih =>
    rw [decodeRows] at h
    rw [List.cons_append, decodeRows, decodeRows]
    cases hrow : decodeCanonical defaultLimits row.payload with
    | error fault =>
      rw [hrow] at h
      cases h
    | ok value =>
      rw [hrow] at h
      dsimp only at h ⊢
      rw [ih h]
      rfl

theorem decodeRows_stops {more : List Row} (h : (decodeRows rows).fault ≠ none) :
    decodeRows (rows ++ more) = decodeRows rows := by
  induction rows with
  | nil => exact absurd rfl h
  | cons row rows ih =>
    rw [decodeRows] at h
    rw [List.cons_append, decodeRows, decodeRows]
    cases hrow : decodeCanonical defaultLimits row.payload with
    | error fault => rfl
    | ok value =>
      rw [hrow] at h
      dsimp only at h ⊢
      rw [ih h]

theorem decodeRows_ok
    (h : List.Forall₂ (fun row value => decodeCanonical defaultLimits row.payload = .ok value)
      rows values) :
    decodeRows rows = ⟨values, none⟩ := by
  induction h with
  | nil => rfl
  | cons hrow _ ih =>
    rw [decodeRows, hrow]
    dsimp only
    rw [ih]

end Reading

namespace SqliteStageSpool

variable {rows ordered : List Row} {c : Coordinates} {values : List CanonicalValue}

def Numbered (rows : List Row) : Prop :=
  ∀ key : StoredKey, (rows.filter (fun row => decide (rowKey row = key))).map Row.ordinal =
    List.range (rows.filter (fun row => decide (rowKey row = key))).length

theorem numbered_nil : Numbered [] := fun _ => rfl

theorem numbered_filter (h : Numbered rows) (keeps : StoredKey → Bool) :
    Numbered (rows.filter (fun row => keeps (rowKey row))) := by
  intro key
  rw [List.filter_filter]
  cases hkeeps : keeps key with
  | true =>
    have hsame : rows.filter (fun row => decide (rowKey row = key) && keeps (rowKey row)) =
        rows.filter (fun row => decide (rowKey row = key)) := by
      refine List.filter_congr (fun row _ => ?_)
      by_cases hkey : rowKey row = key
      · rw [hkey, hkeeps, Bool.and_true]
      · rw [decide_eq_false hkey, Bool.false_and]
    rw [hsame]
    exact h key
  | false =>
    have hnone : rows.filter (fun row => decide (rowKey row = key) && keeps (rowKey row)) = [] := by
      rw [List.filter_eq_nil_iff]
      intro row _ hrow
      obtain ⟨hkey, hkept⟩ := Bool.and_eq_true_iff.mp hrow
      rw [of_decide_eq_true hkey, hkeeps] at hkept
      cases hkept
    rw [hnone]
    rfl

theorem ordinals_rowsFrom (start : ℕ) (items : List QueryStreamItem) :
    (rowsFrom c start items).map Row.ordinal = List.range' start items.length := by
  induction items generalizing start with
  | nil => rfl
  | cons item items ih =>
    rw [rowsFrom, List.map_cons, ih, List.length_cons, List.range'_succ]
    rfl

theorem numbered_append (h : Numbered rows) {items : List QueryStreamItem}
    (hfresh : items = [] ∨ ∀ row ∈ rows, rowKey row ≠ storedKey c) :
    Numbered (rows ++ rowsFrom c 0 items) := by
  intro key
  have hnew : ∀ row ∈ rowsFrom c 0 items, rowKey row = storedKey c :=
    fun row hrow => (rowKey_rowsFrom row hrow).1
  rw [List.filter_append]
  by_cases hkey : storedKey c = key
  · have hall : (rowsFrom c 0 items).filter (fun row => decide (rowKey row = key)) =
        rowsFrom c 0 items := by
      rw [List.filter_eq_self]
      intro row hrow
      exact decide_eq_true ((hnew row hrow).trans hkey)
    rcases hfresh with hempty | hfresh
    · rw [hempty, rowsFrom, List.filter_nil, List.append_nil]
      exact h key
    · have hnone : rows.filter (fun row => decide (rowKey row = key)) = [] := by
        rw [List.filter_eq_nil_iff]
        intro row hrow hsame
        exact hfresh row hrow ((of_decide_eq_true hsame).trans hkey.symm)
      have hlength : (rowsFrom c 0 items).length = items.length := by
        rw [← List.length_map (f := Row.ordinal), ordinals_rowsFrom, List.length_range']
      rw [hnone, hall, List.nil_append, ordinals_rowsFrom, hlength, List.range_eq_range']
  · have hnone : (rowsFrom c 0 items).filter (fun row => decide (rowKey row = key)) = [] := by
      rw [List.filter_eq_nil_iff]
      intro row hrow hsame
      exact hkey ((hnew row hrow).symm.trans (of_decide_eq_true hsame))
    rw [hnone, List.append_nil]
    exact h key

theorem begun_of_numbered (h : Numbered rows) : Begun rows := by
  intro row hrow
  have hmem : row ∈ rows.filter (fun other => decide (rowKey other = rowKey row)) :=
    List.mem_filter.mpr ⟨hrow, decide_eq_true rfl⟩
  have hzero : 0 ∈ (rows.filter (fun other => decide (rowKey other = rowKey row))).map
      Row.ordinal := by
    rw [h]
    exact List.mem_range.mpr (List.length_pos_of_mem hmem)
  obtain ⟨first, hfirst, hordinal⟩ := List.mem_map.mp hzero
  obtain ⟨hfirst, hkey⟩ := List.mem_filter.mp hfirst
  exact ⟨first, hfirst, of_decide_eq_true hkey, hordinal⟩

variable {spool : SqliteStageSpool} {stream : Values} {database : Database}

theorem numbered_putIterable [Sha256] [LocaleCompare] (h : Numbered spool.rows) :
    Numbered (spool.putIterable c stream database).1.rows := by
  rw [SqliteStageSpool.putIterable]
  cases hrun : spool.transaction c stream database with
  | error fault =>
    dsimp only
    split
    · exact h
    · exact numbered_filter h (fun key => !decide (key = storedKey c))
  | ok result =>
    obtain ⟨inserted, collected⟩ := result
    obtain ⟨_, -, hrest⟩ := ExceptOk.bind_eq_ok hrun
    obtain ⟨written, hinserted, hlast⟩ := ExceptOk.bind_eq_ok hrest
    have hresult : written = inserted := by
      split at hlast
      · cases hlast
      · exact (Prod.mk.inj (Except.ok.inj hlast)).1
    subst hresult
    have hfresh : stream.items = [] ∨ ∀ row ∈ spool.rows, rowKey row ≠ storedKey c := by
      by_cases hempty : stream.items = []
      · exact .inl hempty
      · exact .inr (no_row_of_fresh (fresh_of_insert (begun_of_numbered h) hempty hinserted))
    have happended : insertRows spool.rows (rowsFrom c 0 stream.items) =
        .ok (spool.rows ++ rowsFrom c 0 stream.items) := by
      rcases hfresh with hempty | hfresh
      · rw [hempty, rowsFrom, insertRows, List.append_nil]
      · exact insertRows_ok (fun row hrow hkey => absurd hkey (hfresh row hrow))
    have hrows := Except.ok.inj (happended.symm.trans hinserted)
    dsimp only
    rw [← hrows]
    exact numbered_append h hfresh

theorem numbered_cleanup (h : Numbered spool.rows) (executionId : Text) :
    Numbered (spool.cleanup executionId database).1.rows := by
  rw [SqliteStageSpool.cleanup]
  split
  · exact h
  · exact numbered_filter h (fun key => !decide (key.1 = encodeUtf8 executionId))

section Pages

variable {K : Type} [LinearOrder K] {key : ℤ → K} {all : List Row} {select : ℕ → ℤ → List Row}

def ordinalKey (key : ℤ → K) (row : Row) : K := key row.ordinal

def keysetPage (key : ℤ → K) (all : List Row) (limit : ℕ) (after : Option K) :
    List Row × Option K :=
  let page := (all.filter (fun row => isAfter after (ordinalKey key row))).take limit
  (page, if page.length = limit then page.getLast?.map (ordinalKey key) else none)

def Selects (select : ℕ → ℤ → List Row) (key : ℤ → K) (all : List Row) : Prop :=
  ∀ limit ordinal, select limit ordinal = (keysetPage key all limit (some (key ordinal))).1

theorem readPages_follow (hselect : Selects select key all) (fuel : ℕ) (ordinal : ℤ)
    {rows : List Row}
    (h : follow (keysetPage key all) (fun _ => pageSize) fuel (some (key ordinal)) = some rows) :
    readPages select fuel ordinal = some (decodeRows rows) := by
  induction fuel generalizing ordinal rows with
  | zero => cases h
  | succ fuel ih =>
    have hpage := hselect pageSize ordinal
    rw [follow] at h
    rw [readPages, hpage]
    generalize hread : keysetPage key all pageSize (some (key ordinal)) = answer at h
    obtain ⟨page, next⟩ := answer
    obtain ⟨hrows, hnext⟩ := Prod.mk.inj hread
    rw [hrows] at hnext
    dsimp only at h ⊢
    have hsize : page.length ≤ pageSize := by
      rw [← hrows]
      exact List.length_take_le _ _
    rcases Nat.lt_or_ge page.length pageSize with hshort | hfull
    · rw [if_neg hshort.ne] at hnext
      rw [← hnext] at h
      obtain rfl := Option.some.inj h
      by_cases hnil : page.length = 0
      · rw [if_pos hnil, List.length_eq_zero_iff.mp hnil]
        rfl
      · rw [if_neg hnil, if_pos hshort, ite_self]
    · have hlength : page.length = pageSize := le_antisymm hsize hfull
      have hne : page ≠ [] := by
        rintro rfl
        exact absurd hlength (by decide)
      obtain ⟨front, last, rfl⟩ := (List.eq_nil_or_concat' page).resolve_left hne
      rw [if_pos hlength, List.getLast?_concat, Option.map_some] at hnext
      rw [← hnext] at h
      obtain ⟨rest, hrest, rfl⟩ := Option.map_eq_some_iff.mp h
      rw [if_neg (by rw [hlength]; decide), if_neg (Nat.not_lt.mpr hfull), List.getLast?_concat]
      dsimp only [Option.elim]
      rw [ih last.ordinal hrest, Option.map_some]
      cases hfault : (decodeRows (front ++ [last])).fault with
      | none =>
        rw [Option.isSome_none, if_neg Bool.false_ne_true]
        exact congrArg some (decodeRows_append hfault).symm
      | some fault =>
        rw [Option.isSome_some, if_pos rfl,
          @decodeRows_stops (front ++ [last]) rest (by rw [hfault]; exact Option.some_ne_none _)]

theorem readPages_all (hselect : Selects select key all)
    (hsorted : all.Pairwise (fun left right => ordinalKey key left < ordinalKey key right))
    {fuel : ℕ} {start : ℤ}
    (hstart : ∀ row ∈ all, key start < ordinalKey key row) (hfuel : all.length < fuel) :
    readPages select fuel start = some (decodeRows all) := by
  have hkeyset : IsKeyset (keysetPage key all) (ordinalKey key) all :=
    ⟨hsorted, fun _ _ _ => rfl, fun _ _ _ => rfl⟩
  have hall : all.filter (fun row => isAfter (some (key start)) (ordinalKey key row)) = all := by
    rw [List.filter_eq_self]
    intro row hrow
    simpa [isAfter] using hstart row hrow
  have hrest : (all.filter (fun row => isAfter (some (key start)) (ordinalKey key row))).length <
      fuel := by
    rw [hall]
    exact hfuel
  have hfollow : follow (keysetPage key all) (fun _ => pageSize) fuel (some (key start)) = _ :=
    hkeyset.follow_eq (fun _ => by decide) hrest
  rw [hall] at hfollow
  exact readPages_follow hselect fuel start hfollow

end Pages

section Selects

theorem isAfter_iff {K : Type} [LinearOrder K] {a k : K} : isAfter (some a) k = true ↔ a < k := by
  rw [isAfter, Option.any_some, Bool.not_eq_true', decide_eq_false_iff_not, not_le]

theorem selects_sorted {K : Type} [LinearOrder K] {key : ℤ → K} {held sorted : List Row}
    {after : ℤ → Row → Bool}
    (hperm : held.Perm sorted)
    (hsorted : sorted.Pairwise (fun left right => ordinalKey key left < ordinalKey key right))
    (hafter : ∀ ordinal row, after ordinal row =
      isAfter (some (key ordinal)) (ordinalKey key row)) :
    Selects (fun limit ordinal => (sortBy (ordinalKey key) (held.filter (after ordinal))).take
      limit) key sorted := by
  intro limit ordinal
  have hfilter : after ordinal = fun row => isAfter (some (key ordinal)) (ordinalKey key row) :=
    funext (hafter ordinal)
  have hlater : (sorted.filter (after ordinal)).Pairwise
      (fun left right => ordinalKey key left < ordinalKey key right) :=
    hsorted.sublist List.filter_sublist
  have hnodup : ((held.filter (after ordinal)).map (ordinalKey key)).Nodup :=
    (((hperm.filter _).map _).nodup_iff).mpr (List.pairwise_map.mpr (hlater.imp ne_of_lt))
  have hsort : sortBy (ordinalKey key) (held.filter (after ordinal)) =
      sorted.filter (after ordinal) :=
    sortBy_eq (hperm.filter _) hnodup (hlater.imp le_of_lt)
  dsimp only
  rw [hsort, hfilter]
  rfl

def Ordered (rows : List Row) : Prop :=
  rows.Pairwise (fun left right => (left.ordinal : ℤ) < right.ordinal)

theorem ordered_of_ordinals (h : (rows.map Row.ordinal).Pairwise (· < ·)) : Ordered rows :=
  (List.pairwise_map.mp h).imp (fun hlt => Int.ofNat_lt.mpr hlt)

theorem stageRows_ordered (h : Numbered rows) : Ordered (stageRows rows c) := by
  refine ordered_of_ordinals ?_
  rw [stageRows, h]
  exact List.pairwise_lt_range

theorem rowsFrom_ordered (items : List QueryStreamItem) : Ordered (rowsFrom c 0 items) := by
  refine ordered_of_ordinals ?_
  rw [ordinals_rowsFrom, ← List.range_eq_range']
  exact List.pairwise_lt_range

theorem rowsAfter_selects (h : Ordered (stageRows rows c)) :
    Selects (rowsAfter rows c) (fun ordinal => ordinal) (stageRows rows c) := by
  have hsorted : (stageRows rows c).Pairwise (fun left right =>
      ordinalKey (fun ordinal => ordinal) left < ordinalKey (fun ordinal => ordinal) right) := h
  exact selects_sorted (List.Perm.refl _) hsorted
    (fun ordinal row => Bool.eq_iff_iff.mpr (decide_eq_true_iff.trans isAfter_iff.symm))

theorem rowsBefore_selects (h : Ordered (stageRows rows c)) :
    Selects (rowsBefore rows c) (fun ordinal => OrderDual.toDual ordinal)
      (stageRows rows c).reverse := by
  have hsorted : (stageRows rows c).reverse.Pairwise (fun left right =>
      ordinalKey (fun ordinal => OrderDual.toDual ordinal) left <
        ordinalKey (fun ordinal => OrderDual.toDual ordinal) right) := List.pairwise_reverse.mpr h
  exact selects_sorted (List.reverse_perm _).symm hsorted
    (fun ordinal row => Bool.eq_iff_iff.mpr (decide_eq_true_iff.trans isAfter_iff.symm))

theorem iterate_ordered {spool : SqliteStageSpool} (h : Ordered (stageRows spool.rows c)) {fuel : ℕ}
    (hfuel : (stageRows spool.rows c).length < fuel) :
    spool.iterate c fuel = some (decodeRows (stageRows spool.rows c)) := by
  have hstart : ∀ row ∈ stageRows spool.rows c, (-1 : ℤ) < row.ordinal :=
    fun row _ => lt_of_lt_of_le (by decide) (Int.natCast_nonneg row.ordinal)
  exact readPages_all (rowsAfter_selects h) h hstart hfuel

theorem iterateReverse_ordered {spool : SqliteStageSpool} (h : Ordered (stageRows spool.rows c))
    {fuel : ℕ}
    (hfuel : (stageRows spool.rows c).length < fuel)
    (hbelow : ∀ row ∈ stageRows spool.rows c, (row.ordinal : ℤ) < maxSafeInteger) :
    spool.iterateReverse c fuel = some (decodeRows (stageRows spool.rows c).reverse) := by
  have hstart : ∀ row ∈ (stageRows spool.rows c).reverse, (row.ordinal : ℤ) < maxSafeInteger :=
    fun row hrow => hbelow row (List.mem_reverse.mp hrow)
  exact readPages_all (rowsBefore_selects h) (List.pairwise_reverse.mpr h) hstart
    (by rwa [List.length_reverse])

end Selects

theorem limits_putIterable [Sha256] [LocaleCompare] (spool : SqliteStageSpool) (c : Coordinates)
    (values : Values) (database : Database) :
    (spool.putIterable c values database).1.limits = spool.limits := by
  rw [SqliteStageSpool.putIterable]
  split <;> rfl

theorem limits_cleanup (spool : SqliteStageSpool) (executionId : Text) (database : Database) :
    (spool.cleanup executionId database).1.limits = spool.limits := by
  rw [SqliteStageSpool.cleanup]
  split <;> rfl

end SqliteStageSpool

theorem MemoryStageSpool.limits_putIterable [Sha256] [LocaleCompare] (spool : MemoryStageSpool)
    (c : Coordinates) (values : Values) :
    (spool.putIterable c values).1.limits = spool.limits := by
  rw [MemoryStageSpool.putIterable]
  split <;> rfl

namespace StageSpool

variable {spool after : StageSpool} {outputs sealedOutputs : Outputs}
  {calls : List (Call × Database)}

def Numbered : StageSpool → Prop
  | .memory _ => True
  | .sqlite spool => SqliteStageSpool.Numbered spool.rows

section Calls

variable [Sha256] [LocaleCompare]

theorem Numbered.step (h : spool.Numbered) (call : Call) (database : Database) :
    (spool.step call database).1.Numbered := by
  cases spool with
  | memory spool => cases call <;> trivial
  | sqlite spool =>
    cases call with
    | put c items => exact SqliteStageSpool.numbered_putIterable h
    | putIterable c values => exact SqliteStageSpool.numbered_putIterable h
    | cleanup executionId => exact SqliteStageSpool.numbered_cleanup h executionId

theorem hardBytes_step (spool : StageSpool) (call : Call) (database : Database) :
    (spool.step call database).1.hardBytes = spool.hardBytes := by
  cases spool with
  | memory spool =>
    cases call with
    | put c items => exact congrArg Limits.hardBytes (spool.limits_putIterable c ⟨items, false⟩)
    | putIterable c values => exact congrArg Limits.hardBytes (spool.limits_putIterable c values)
    | cleanup executionId => rfl
  | sqlite spool =>
    cases call with
    | put c items =>
      exact congrArg Limits.hardBytes (spool.limits_putIterable c ⟨items, false⟩ database)
    | putIterable c values =>
      exact congrArg Limits.hardBytes (spool.limits_putIterable c values database)
    | cleanup executionId =>
      exact congrArg Limits.hardBytes (spool.limits_cleanup executionId database)

end Calls

def Encoded (outputs : Outputs) : Prop := ∀ output ∈ outputs, ∀ payload ∈ output.2, payload ≠ []

theorem payload_ne_nil {item : QueryStreamItem} {payload : Bytes}
    (h : payloadOf item = .ok payload) : payload ≠ [] := by
  obtain ⟨-, -, rfl⟩ := encodeCanonical_eq_ok.mp h
  rw [QueryStreamItem.canonical, footprint, Writer.mul_bytes]
  exact List.cons_ne_nil _ _

theorem payloads_of_consumed {hardBytes room bytes : ℤ} {values : Values}
    (h : consumed hardBytes room values = .ok bytes) :
    ∀ payload ∈ values.items.map payloadBytes, payload ≠ [] := by
  intro payload hpayload
  obtain ⟨item, hitem, rfl⟩ := List.mem_map.mp hpayload
  obtain ⟨bytes, hbytes⟩ := consumed_payloads h item hitem
  rw [payloadBytes_of_ok hbytes]
  exact payload_ne_nil hbytes

section Sealing

variable [Sha256] [LocaleCompare] {answer : Option StageSetHandle}

theorem consumed_of_put {spool : StageSpool} {c : Coordinates} {values : Values}
    {database : Database}
    (h : (spool.step (.putIterable c values) database).2 = .ok answer) :
    ∃ hardBytes room bytes, consumed hardBytes room values = .ok bytes := by
  cases spool with
  | memory spool =>
    have hput : (spool.putIterable c values).2.map some = .ok answer := h
    rw [MemoryStageSpool.putIterable] at hput
    cases hrun : consumed spool.limits.hardBytes (spool.limits.hardBytes - spool.used) values with
    | error fault =>
      rw [hrun] at hput
      cases hput
    | ok bytes => exact ⟨_, _, bytes, hrun⟩
  | sqlite spool =>
    have hput : (spool.putIterable c values database).2.map some = .ok answer := h
    rw [SqliteStageSpool.putIterable] at hput
    cases hrun : spool.transaction c values database with
    | error fault =>
      rw [hrun] at hput
      cases hput
    | ok result =>
      obtain ⟨collected, hconsumed, -⟩ := ExceptOk.bind_eq_ok hrun
      exact ⟨_, _, collected.1, consumed_of_members hconsumed⟩

theorem encoded_put {c : Coordinates} {values : Values} {database : Database} (h : Encoded outputs)
    (hok : (spool.step (.putIterable c values) database).2 = .ok answer) :
    Encoded (outputs ++ [(c, values.items.map payloadBytes)]) := by
  obtain ⟨_, _, _, hconsumed⟩ := consumed_of_put hok
  intro output houtput
  rcases List.mem_append.mp houtput with hold | hnew
  · exact h output hold
  · rw [List.mem_singleton.mp hnew]
    exact payloads_of_consumed hconsumed

theorem Encoded.step (h : Encoded outputs) (call : Call) (database : Database) :
    Encoded (sealAfter outputs call (spool.step call database).2) := by
  cases hresult : (spool.step call database).2 with
  | error fault => exact h
  | ok answer =>
    cases call with
    | put c items =>
      have hput : (spool.step (.putIterable c ⟨items, false⟩) database).2 = .ok answer := by
        cases spool with
        | memory spool => exact hresult
        | sqlite spool => exact hresult
      exact encoded_put h hput
    | putIterable c values => exact encoded_put h hresult
    | cleanup executionId => exact fun output houtput => h output (List.mem_of_mem_filter houtput)

end Sealing

structure Readied (spool : StageSpool) (outputs : Outputs) (hardBytes : ℤ) : Prop where
  sound : spool.Sound outputs
  numbered : spool.Numbered
  encoded : Encoded outputs
  limit : spool.hardBytes = hardBytes

theorem Readied.run [Sha256] [LocaleCompare] {hardBytes : ℤ} (h : Readied spool outputs hardBytes)
    (hcalls : AllAccountable spool outputs calls)
    (hrun : spool.run outputs calls = (after, sealedOutputs)) :
    Readied after sealedOutputs hardBytes := by
  induction calls generalizing spool outputs with
  | nil =>
    obtain ⟨rfl, rfl⟩ := Prod.mk.inj hrun
    exact h
  | cons entry calls ih =>
    obtain ⟨call, database⟩ := entry
    obtain ⟨hcalm, hrest⟩ := hcalls
    refine ih ⟨(h.sound.step hcalm).sound, h.numbered.step call database,
      h.encoded.step call database, ?_⟩ hrest hrun
    rw [hardBytes_step, h.limit]

theorem run_sqlite [Sha256] [LocaleCompare] (spool : SqliteStageSpool) (outputs : Outputs)
    (calls : List (Call × Database)) : ∃ after, ((StageSpool.sqlite spool).run outputs calls).1 =
      .sqlite after := by
  induction calls generalizing spool outputs with
  | nil => exact ⟨spool, rfl⟩
  | cons entry calls ih =>
    obtain ⟨call, database⟩ := entry
    cases call with
    | put c items => exact ih _ _
    | putIterable c values => exact ih _ _
    | cleanup executionId => exact ih _ _

theorem readied_opened {limits : StageSpoolLimits} {spool : SqliteStageSpool}
    (h : openSqlite limits = .ok (.sqlite spool)) :
    Readied (.sqlite spool) [] spool.limits.hardBytes ∧
      spool.limits.hardBytes ≤ maxSafeInteger := by
  have hsound := sound_opened (.inr h)
  obtain ⟨checked, hchecked, hspool⟩ := ExceptOk.bind_eq_ok h
  have hopened : (⟨[], checked, 0⟩ : SqliteStageSpool) = spool :=
    StageSpool.sqlite.inj (Except.ok.inj hspool)
  subst hopened
  refine ⟨⟨hsound, SqliteStageSpool.numbered_nil, List.forall_mem_nil _, rfl⟩, ?_⟩
  unfold checkedLimits at hchecked
  extract_lets _ hard effectiveSpill at hchecked
  clear_value hard effectiveSpill
  split at hchecked
  · cases hchecked
  · rename_i hvalid
    rw [← Except.ok.inj hchecked]
    simp only [isSafeInteger, Bool.or_eq_true, Bool.not_eq_true', decide_eq_true_eq,
      decide_eq_false_iff_not, not_or,
      not_le, not_lt] at hvalid
    rw [maxSafeInteger]
    dsimp only
    omega

theorem length_le_sizeOf {payloads : List Bytes} (h : ∀ payload ∈ payloads, payload ≠ []) :
    payloads.length ≤ sizeOf payloads := by
  induction payloads with
  | nil => exact Nat.le_refl _
  | cons payload payloads ih =>
    obtain ⟨hfirst, hrest⟩ := List.forall_mem_cons.mp h
    have hpos := List.length_pos_of_ne_nil hfirst
    have hle := ih hrest
    rw [sizeOf] at hle
    rw [sizeOf, List.length_cons, List.map_cons, List.sum_cons]
    omega

theorem sizeOf_le_sealedBytes {output : Coordinates × List Bytes} (h : output ∈ outputs) :
    sizeOf output.2 ≤ sealedBytes outputs :=
  List.single_le_sum (fun _ _ => Nat.zero_le _) _ (List.mem_map_of_mem h)

end StageSpool

section Sealed

variable {after : SqliteStageSpool} {sealedOutputs : Outputs} {c : Coordinates}
  {items : List QueryStreamItem} {hardBytes : ℤ}

theorem decodes_payload {item : QueryStreamItem} (hne : payloadBytes item ≠ [])
    (hfaithful : Faithful item.canonical) :
    decodeCanonical defaultLimits (payloadBytes item) = .ok (normal item.canonical) := by
  cases hpayload : payloadOf item with
  | error fault =>
    rw [payloadBytes, hpayload] at hne
    exact absurd rfl hne
  | ok payload =>
    rw [payloadBytes_of_ok hpayload]
    exact decodeCanonical_encodeCanonical defaultLimits_withinVarint hfaithful hpayload

theorem decodeRows_stage {rows : List Row} (hheld : rows.map Row.payload = items.map payloadBytes)
    (hne : ∀ item ∈ items, payloadBytes item ≠ [])
    (hfaithful : ∀ item ∈ items, Faithful item.canonical) :
    List.Forall₂ (fun row value => decodeCanonical defaultLimits row.payload = .ok value) rows
      (items.map (fun item => normal item.canonical)) := by
  induction rows generalizing items with
  | nil =>
    have hnil : items = [] := List.map_eq_nil_iff.mp hheld.symm
    rw [hnil]
    exact .nil
  | cons row rows ih =>
    cases items with
    | nil => cases hheld
    | cons item items =>
      obtain ⟨hpayload, hrest⟩ := List.cons.inj hheld
      obtain ⟨hfirst, hnes⟩ := List.forall_mem_cons.mp hne
      obtain ⟨hreadable, hfaithfuls⟩ := List.forall_mem_cons.mp hfaithful
      refine .cons ?_ (ih hrest hnes hfaithfuls)
      rw [hpayload]
      exact decodes_payload hfirst hreadable

theorem ordinal_lt (h : StageSpool.Readied (.sqlite after) sealedOutputs hardBytes)
    (hhard : hardBytes ≤ maxSafeInteger)
    (hsealed : (c, items.map payloadBytes) ∈ sealedOutputs)
    (hheld : (SqliteStageSpool.stageRows after.rows c).map Row.payload = items.map payloadBytes) :
    ∀ row ∈ SqliteStageSpool.stageRows after.rows c, (row.ordinal : ℤ) < maxSafeInteger := by
  intro row hrow
  have hexact := h.sound.exact
  have hlength : (SqliteStageSpool.stageRows after.rows c).length =
      (items.map payloadBytes).length := by
    rw [← hheld, List.length_map]
  have hordinal : row.ordinal < (SqliteStageSpool.stageRows after.rows c).length := by
    have hmem : row.ordinal ∈ (SqliteStageSpool.stageRows after.rows c).map Row.ordinal :=
      List.mem_map_of_mem hrow
    have hnumbered : SqliteStageSpool.Numbered after.rows := h.numbered
    rw [SqliteStageSpool.stageRows, hnumbered] at hmem
    exact List.mem_range.mp hmem
  have hsize := StageSpool.length_le_sizeOf (h.encoded _ hsealed)
  have htotal := StageSpool.sizeOf_le_sealedBytes hsealed
  have hbytes : (sealedBytes sealedOutputs : ℤ) ≤ hardBytes := by
    rw [← hexact.nothingElse, ← hexact.bytes, ← h.limit]
    exact hexact.bounded
  dsimp only at hsize htotal
  omega

theorem reads_sealed (h : StageSpool.Readied (.sqlite after) sealedOutputs hardBytes)
    (hhard : hardBytes ≤ maxSafeInteger)
    (hsealed : (c, items.map payloadBytes) ∈ sealedOutputs) (hne : items ≠ [])
    (hfaithful : ∀ item ∈ items, Faithful item.canonical) {fuel : ℕ} (hfuel : items.length < fuel) :
    after.iterate c fuel = some ⟨items.map (fun item => normal item.canonical), none⟩ ∧
      after.iterateReverse c fuel = some ⟨(items.map (fun item => normal item.canonical)).reverse,
        none⟩ := by
  have hheld : (SqliteStageSpool.stageRows after.rows c).map Row.payload = items.map payloadBytes :=
    h.sound.exact.held _ hsealed (by simpa using hne)
  have hencoded : ∀ item ∈ items, payloadBytes item ≠ [] :=
    fun item hitem => h.encoded _ hsealed _ (List.mem_map_of_mem hitem)
  have hrows := decodeRows_stage hheld hencoded hfaithful
  have hlength : (SqliteStageSpool.stageRows after.rows c).length = items.length := by
    rw [hrows.length_eq, List.length_map]
  have hordered : SqliteStageSpool.Ordered (SqliteStageSpool.stageRows after.rows c) :=
    SqliteStageSpool.stageRows_ordered h.numbered
  have hread := SqliteStageSpool.iterate_ordered hordered (hlength.trans_lt hfuel)
  have hreverse := SqliteStageSpool.iterateReverse_ordered hordered (hlength.trans_lt hfuel)
    (ordinal_lt h hhard hsealed hheld)
  rw [decodeRows_ok hrows] at hread
  rw [decodeRows_ok (List.rel_reverse hrows)] at hreverse
  exact ⟨hread, hreverse⟩

theorem spool_reads_back [Sha256] [LocaleCompare] {limits : StageSpoolLimits}
    {spool : SqliteStageSpool} {calls : List (Call × Database)}
    (hopen : StageSpool.openSqlite limits = .ok (.sqlite spool))
    (hcalls : StageSpool.AllAccountable (.sqlite spool) [] calls)
    (hrun : (StageSpool.sqlite spool).run [] calls = (.sqlite after, sealedOutputs))
    (hsealed : (c, items.map payloadBytes) ∈ sealedOutputs) (hne : items ≠ [])
    (hfaithful : ∀ item ∈ items, Faithful item.canonical) {fuel : ℕ} (hfuel : items.length < fuel) :
    after.iterate c fuel = some ⟨items.map (fun item => normal item.canonical), none⟩ ∧
      after.iterateReverse c fuel = some ⟨(items.map (fun item => normal item.canonical)).reverse,
        none⟩ := by
  obtain ⟨hready, hhard⟩ := StageSpool.readied_opened hopen
  exact reads_sealed (hready.run hcalls hrun) hhard hsealed hne hfaithful hfuel

def sampleKeyed (key : String) : QueryStreamItem :=
  ⟨.array [.string (propertyName key)], propertyName key, []⟩

def sampleItems : List QueryStreamItem := ["b", "a"].map sampleKeyed

def sampleReads : List (Call × Database) :=
  [(.put (StageSpool.sampleStage "a") sampleItems, StageSpool.working), StageSpool.sampleThrow "b"]

theorem spool_reads_back_sample :
    let _ : Sha256 := StageSpool.fixedDigest
    let _ : LocaleCompare := StageSpool.codeUnitOrder
    ∃ after, (StageSpool.sampleSqlite.run [] sampleReads).1 = .sqlite after ∧
      after.iterate (StageSpool.sampleStage "a") 3 =
        some ⟨sampleItems.map (fun item => normal item.canonical), none⟩ ∧
      after.iterateReverse (StageSpool.sampleStage "a") 3 =
        some ⟨(sampleItems.map (fun item => normal item.canonical)).reverse, none⟩ := by
  intro _ _
  have hfirst : StageSpool.sampleSqlite.heldRows (StageSpool.sampleStage "a") = [] := by
    decide +kernel
  have hsecond : ((StageSpool.sampleSqlite.step (.put (StageSpool.sampleStage "a") sampleItems)
      StageSpool.working).1).heldRows (StageSpool.sampleStage "b") = [] := by decide +kernel
  have hcalls : StageSpool.AllAccountable StageSpool.sampleSqlite [] sampleReads :=
    ⟨.inl hfirst, .inl hsecond, trivial⟩
  have hsealed : (StageSpool.sampleStage "a", sampleItems.map payloadBytes) ∈
      (StageSpool.sampleSqlite.run [] sampleReads).2 := by decide +kernel
  have hreadable : ∀ name ∈ ["value", "stable_sort_key", "a", "b"], Readable (propertyName name) :=
    fun name hname => ⟨name.toList, rfl, by revert name; decide⟩
  have hfaithful : ∀ item ∈ sampleItems, Faithful item.canonical := by
    intro item hitem
    obtain ⟨key, hkey, rfl⟩ := List.mem_map.mp hitem
    have hname : Readable (propertyName key) := hreadable key (by clear hitem; revert key; decide)
    exact ⟨⟨hreadable _ (by decide), hname, trivial⟩, ⟨hreadable _ (by decide), hname⟩, trivial⟩
  obtain ⟨after, hafter⟩ := StageSpool.run_sqlite ⟨[], ⟨100, 1000⟩, 0⟩ [] sampleReads
  have hrun : StageSpool.sampleSqlite.run [] sampleReads =
      (.sqlite after, (StageSpool.sampleSqlite.run [] sampleReads).2) := Prod.ext hafter rfl
  have hread :=
    @spool_reads_back after _ (StageSpool.sampleStage "a") sampleItems _ _ StageSpool.sampleLimits
    ⟨[], ⟨100, 1000⟩, 0⟩ sampleReads rfl hcalls hrun hsealed (by decide) hfaithful 3 (by decide)
  exact ⟨after, hafter, hread⟩

end Sealed

end Spool

end Engine
