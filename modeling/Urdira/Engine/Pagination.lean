import Urdira.Engine.PageSpec

namespace Engine

variable {V : Type}

def itemKeys (items : List (QueryStreamItem V)) : List JsString :=
  items.map QueryStreamItem.stableSortKey

def SegmentCodec.Keeps (codec : SegmentCodec V) (items : List (QueryStreamItem V)) : Prop :=
  (DurableManifest.append codec items).isSome = true ∧
    (DurableManifest.append codec items.reverse).isSome = true ∧
    ∀ item ∈ items, codec.item item = item

structure ExecutionManifests.Reads (manifests : ExecutionManifests V)
    (items : List (QueryStreamItem V)) : Prop where
  forward : ∀ request, manifests.read .forward request = readAfter items request
  backward : ∀ request, manifests.read .backward request = readAfter items.reverse request

def StoreKeeps (items : List (QueryStreamItem V)) : QueryManifestStore V → Prop
  | .memory => True
  | .durable codec => (DurableManifest.append codec items).isSome = true ∧ ∀ item ∈ items,
      codec.item item = item

theorem append_reads {store : QueryManifestStore V} {items : List (QueryStreamItem V)}
    (hkeeps : StoreKeeps items store) :
    ∃ manifest, store.append items = .ok manifest ∧ ∀ request, manifest.read request =
      readAfter items request := by
  cases store with
  | memory => exact ⟨.memory (memoryManifest items), rfl, MemoryManifest.read_eq items⟩
  | durable codec =>
    obtain ⟨hsome, hfix⟩ := hkeeps
    obtain ⟨manifest, hmanifest⟩ := Option.isSome_iff_exists.mp hsome
    refine ⟨.durable codec manifest, ?_,
      DurableManifest.read_eq (DurableManifest.holds_append hmanifest) hfix⟩
    rw [QueryManifestStore.append, hmanifest]

theorem firstAfter_first {items : List (QueryStreamItem V)} {key : JsString} {j : ℕ}
    (hkey : (itemKeys items)[j]? = some key) (hfirst : ∀ i < j, (itemKeys items)[i]? ≠ some key) :
    firstAfter items (some key) = j + 1 := by
  have hfound : items.findIdx? (fun item => decide (item.stableSortKey = key)) = some j := by
    rw [List.findIdx?_eq_some_iff_getElem]
    rw [itemKeys, List.getElem?_map] at hkey
    obtain ⟨item, hitem, hitemKey⟩ := Option.map_eq_some_iff.mp hkey
    obtain ⟨hlt, hget⟩ := List.getElem?_eq_some_iff.mp hitem
    refine ⟨hlt, by rw [hget]; exact decide_eq_true hitemKey, ?_⟩
    intro i hij hdec
    refine hfirst i hij ?_
    rw [itemKeys, List.getElem?_map, List.getElem?_eq_getElem (hij.trans hlt)]
    exact congrArg some (of_decide_eq_true hdec)
  rw [firstAfter, Option.bind_some, hfound]
  rfl

theorem firstAfter_le_of_key {items : List (QueryStreamItem V)} {key : JsString} {i : ℕ}
    (hkey : (itemKeys items)[i]? = some key) : 0 < firstAfter items (some key) ∧
      firstAfter items (some key) ≤ i + 1 := by
  have hexists : ∃ j, (itemKeys items)[j]? = some key := ⟨i, hkey⟩
  classical
  have hfirst := firstAfter_first (Nat.find_spec hexists) (fun i hi => Nat.find_min hexists hi)
  have hle := Nat.find_min' hexists hkey
  omega

theorem nodup_dropLast_getElem? {keys : List JsString} (h : keys.dropLast.Nodup) {i j : ℕ}
    {key : JsString}
    (hi : keys[i]? = some key) (hj : keys[j]? = some key) (hilt : i + 1 < keys.length)
    (hjlt : j + 1 < keys.length) :
    i = j := by
  have hget : ∀ k, k + 1 < keys.length → keys.dropLast[k]? = keys[k]? := by
    intro k hk
    rw [List.dropLast_eq_take, List.getElem?_take, if_pos (by omega)]
  have hlength : keys.dropLast.length = keys.length - 1 := List.length_dropLast
  refine (List.getElem?_inj (by omega) h).mp ?_
  rw [hget i hilt, hget j hjlt, hi, hj]

theorem firstAfter_forward {items : List (QueryStreamItem V)} (h : (itemKeys items).dropLast.Nodup)
    {key : JsString}
    {j : ℕ} (hkey : (itemKeys items)[j]? = some key) (hj : j + 1 < items.length) :
    firstAfter items (some key) = j + 1 := by
  have hlength : (itemKeys items).length = items.length := List.length_map _
  refine firstAfter_first hkey (fun i hi hsame => ?_)
  have heq := nodup_dropLast_getElem? h hsame hkey (by omega) (by omega)
  omega

theorem firstAfter_backward {items : List (QueryStreamItem V)} (h : (itemKeys items).tail.Nodup)
    {key : JsString}
    {j : ℕ} (hkey : (itemKeys items)[j]? = some key) (hj : 0 < j) :
    firstAfter items.reverse (some key) = items.length - j := by
  have hreverse : itemKeys items.reverse = (itemKeys items).reverse := List.map_reverse
  have hlength : (itemKeys items).length = items.length := List.length_map _
  obtain ⟨hlt, -⟩ := List.getElem?_eq_some_iff.mp hkey
  have hdrop : (itemKeys items).reverse.dropLast.Nodup := by
    rw [List.dropLast_reverse]
    exact List.nodup_reverse.mpr h
  rw [← hreverse] at hdrop
  have hkeyReverse : (itemKeys items.reverse)[items.length - 1 - j]? = some key := by
    rw [hreverse, List.getElem?_reverse (by omega), hlength, ← hkey]
    congr 1
    omega
  rw [firstAfter_forward hdrop hkeyReverse (by rw [List.length_reverse]; omega)]
  omega

structure QueryContinuation.Fits (budget : ResponseBudget) (expiresAt : ℕ)
    (request : QueryContinuation) : Prop where
  limit : ∀ limit, request.pageItemLimit = some limit → 1 ≤ limit ∧ limit ≤ budget.maxItems
  inTime : request.now < expiresAt

namespace QueryEngine

variable {engine : QueryEngine V} {budget : ResponseBudget} {manifests : ExecutionManifests V}
  {items : List (QueryStreamItem V)} {cursor : QueryCursorClaims} {request : QueryContinuation}

structure Issued (engine : QueryEngine V) (budget : ResponseBudget) (expiresAt : ℕ)
    (direction : CursorDirection)
    (cursor : QueryCursorClaims) : Prop where
  direction : cursor.direction = direction
  digest : cursor.responseBudgetCeilingDigest = engine.budgetDigest budget
  expiry : cursor.expiresAt = expiresAt

theorem Issued.make {expiresAt : ℕ} {direction : CursorDirection}
    (h : engine.Issued budget expiresAt direction cursor)
    (turned : CursorDirection) (position : JsString) :
    engine.Issued budget expiresAt turned (cursor.make turned position) :=
  ⟨rfl, h.digest, h.expiry⟩

theorem continue_limit {expiresAt : ℕ} (hfits : request.Fits budget expiresAt)
    (hitems : 1 ≤ budget.maxItems) :
    1 ≤ request.pageItemLimit.getD budget.maxItems ∧ request.pageItemLimit.getD budget.maxItems ≤
      budget.maxItems := by
  cases hlimit : request.pageItemLimit with
  | none => exact ⟨hitems, Nat.le_refl _⟩
  | some limit => exact hfits.limit limit hlimit

theorem continue_read {expiresAt : ℕ} {direction : CursorDirection}
    {stored : List (QueryStreamItem V)}
    (hissued : engine.Issued budget expiresAt direction cursor)
    (hfits : request.Fits budget expiresAt)
    (hitems : 1 ≤ budget.maxItems) (hcharacters : 1 ≤ budget.maxCharacters)
    (hreads : ∀ read, manifests.read direction read = readAfter stored read)
    (hydrates : Hydrates engine.hydrateItem) (hkeys : ∀ item ∈ stored, item.stableSortKey ≠ []) :
    ∃ read m, Covers engine.hydrateItem stored cursor
      (request.pageItemLimit.getD budget.maxItems) read
        (firstAfter stored (positionOf cursor)) m ∧
      engine.continuePage budget manifests cursor request = .ok (match direction with
        | .forward => read
        | .backward => {
            pageStartCursor := read.pageStartCursor
            total := read.total
            items := read.items.reverse
            nextCursor := read.previousCursor
            previousCursor := read.nextCursor
            hasNext := read.hasPrevious
            hasPrevious := read.hasNext }) := by
  obtain ⟨hpositive, hwithin⟩ := continue_limit hfits hitems
  have hclaims : (PageOrigin.cursor cursor (engine.budgetDigest budget)).claims request.now =
      .ok cursor := by
    have hexpiry := hissued.expiry
    have hnow := hfits.inTime
    rw [PageOrigin.claims, if_neg (by omega), if_neg (not_not.mpr hissued.digest)]
  obtain ⟨read, m, hread, hcovers⟩ := readPage_covers engine.sizes {
      origin := .cursor cursor (engine.budgetDigest budget)
      now := request.now
      limit := request.pageItemLimit.getD budget.maxItems
      maxCharacters := budget.maxCharacters
      reader := manifests.read
      hydrateItem := engine.hydrateItem } hclaims hpositive hcharacters
    (fun read => (congrArg (manifests.read · read) hissued.direction).trans (hreads read))
      hydrates hkeys
  refine ⟨read, m, hcovers, ?_⟩
  have hzero : request.pageItemLimit.getD budget.maxItems ≠ 0 := by omega
  simp only [continuePage, if_neg (Nat.not_lt.mpr hwithin), if_neg hzero,
    Nat.max_eq_right hpositive, hread,
    bind, Except.bind, hissued.direction]
  cases direction with
  | forward => rfl
  | backward => rfl

inductive Follows (engine : QueryEngine V) (budget : ResponseBudget)
    (manifests : ExecutionManifests V)
    (calls : ℕ → QueryContinuation) : ℕ → ReadPageResult V → List (ReadPageResult V) → Prop
  | last {k : ℕ} {page : ReadPageResult V} (hlast : page.nextCursor = none) :
      Follows engine budget manifests calls k page [page]
  | step {k : ℕ} {page next : ReadPageResult V} {pages : List (ReadPageResult V)}
      {cursor : QueryCursorClaims}
      (hcursor : page.nextCursor = some cursor)
      (hnext : engine.continuePage budget manifests cursor (calls k) = .ok next)
      (hrest : Follows engine budget manifests calls (k + 1) next pages) :
      Follows engine budget manifests calls k page (page :: pages)

structure Session (engine : QueryEngine V) (budget : ResponseBudget) (expiresAt : ℕ)
    (calls : ℕ → QueryContinuation) : Prop where
  maxItems : 1 ≤ budget.maxItems
  maxCharacters : 1 ≤ budget.maxCharacters
  hydrates : Hydrates engine.hydrateItem
  fits : ∀ k, (calls k).Fits budget expiresAt

def StartsAt (items : List (QueryStreamItem V)) (expiresAt : ℕ) (engine : QueryEngine V)
    (budget : ResponseBudget)
    (page : ReadPageResult V) (t : ℕ) : Prop :=
  ∃ key cursor, (itemKeys items)[t]? = some key ∧ 0 < t ∧ page.previousCursor = some cursor ∧
    cursor.stablePosition = key ∧ engine.Issued budget expiresAt .backward cursor

theorem key_ne_nil {items : List (QueryStreamItem V)}
    (hkeys : ∀ item ∈ items, item.stableSortKey ≠ [])
    {t : ℕ} {key : JsString} (hkey : (itemKeys items)[t]? = some key) : key ≠ [] := by
  have hmem : key ∈ itemKeys items := List.mem_of_getElem? hkey
  obtain ⟨item, hitem, hitemKey⟩ := List.mem_map.mp hmem
  exact hitemKey ▸ hkeys item hitem

theorem positionOf_key {items : List (QueryStreamItem V)}
    (hkeys : ∀ item ∈ items, item.stableSortKey ≠ [])
    {t : ℕ} {key : JsString} (hkey : (itemKeys items)[t]? = some key)
    (hcursor : cursor.stablePosition = key) :
    positionOf cursor = some key := by
  rw [positionOf, hcursor, if_neg (key_ne_nil hkeys hkey)]

theorem exists_key (items : List (QueryStreamItem V)) {t : ℕ} (ht : t < items.length) :
    ∃ key, (itemKeys items)[t]? = some key :=
  ⟨_, List.getElem?_eq_getElem (by rwa [itemKeys, List.length_map])⟩

theorem Follows.head {calls : ℕ → QueryContinuation} {k : ℕ} {page : ReadPageResult V}
    {pages : List (ReadPageResult V)} (h : engine.Follows budget manifests calls k page pages) :
    pages.head? = some page := by
  cases h with
  | last _ => rfl
  | step _ _ _ => rfl

theorem startsAt_of_covers {expiresAt s m limit : ℕ} {page : ReadPageResult V} (hs : 0 < s)
    (hlt : s < items.length)
    (hposition : cursor.stablePosition ≠ [])
    (hissued : engine.Issued budget expiresAt .forward cursor)
    (hcovers : Covers engine.hydrateItem items cursor limit page s m) :
    StartsAt items expiresAt engine budget page s := by
  obtain ⟨key, hkey⟩ := exists_key items hlt
  have hprevious := hcovers.previous
  rw [if_neg hposition, hissued.direction] at hprevious
  exact ⟨key, cursor.make .backward key, hkey, hs, hprevious.trans (congrArg _ hkey), rfl,
    hissued.make .backward key⟩

theorem follows_from {calls : ℕ → QueryContinuation} {expiresAt : ℕ}
    (hsession : engine.Session budget expiresAt calls) (hreads : manifests.Reads items)
    (hkeys : ∀ item ∈ items, item.stableSortKey ≠ []) (hnodup : (itemKeys items).dropLast.Nodup)
    (rest : ℕ) {s m limit k : ℕ} {page : ReadPageResult V} (hrest : items.length - (s + m) = rest)
    (hcovers : Covers engine.hydrateItem items cursor limit page s m)
    (hissued : engine.Issued budget expiresAt .forward cursor) :
    ∃ pages, engine.Follows budget manifests calls k page pages ∧
      List.Forall₂ (Delivers engine.hydrateItem) (items.drop s)
        (pages.flatMap ReadPageResult.items) ∧
      ∀ before later after, pages = before ++ later :: after → before ≠ [] →
        StartsAt items expiresAt engine budget later
          (s + (before.flatMap ReadPageResult.items).length) := by
  induction rest using Nat.strong_induction_on generalizing s m limit k page cursor with
  | _ rest ih =>
    by_cases hmore : s + m < items.length
    · have hpositive : 0 < m := hcovers.progress (by omega)
      obtain ⟨key, hkey⟩ := exists_key items (t := s + m - 1) (by omega)
      have hnext := hcovers.next
      rw [if_pos hmore] at hnext
      have hcursor : page.nextCursor = some (cursor.make cursor.direction key) :=
        hnext.trans (congrArg _ hkey)
      have hissued' := hissued.make .forward key
      rw [hissued.direction] at hcursor
      obtain ⟨next, m', hcovers', hcontinue⟩ :=
        continue_read hissued' (hsession.fits k) hsession.maxItems
        hsession.maxCharacters hreads.forward hsession.hydrates hkeys
      have hstart : firstAfter items (positionOf (cursor.make .forward key)) = s + m := by
        rw [positionOf_key hkeys hkey rfl, firstAfter_forward hnodup hkey (by omega)]
        omega
      rw [hstart] at hcovers'
      have hpositive' : 0 < m' := hcovers'.progress hmore
      obtain ⟨pages, hfollows, hdelivered, hbackward⟩ :=
        ih (items.length - (s + m + m')) (by omega) rfl
        hcovers' hissued' (k := k + 1)
      have hlength : page.items.length = m := by
        rw [← hcovers.delivered.length_eq, List.length_take, List.length_drop]
        omega
      refine ⟨page :: pages, .step hcursor hcontinue hfollows, ?_, ?_⟩
      · rw [List.flatMap_cons, ← List.take_append_drop m (items.drop s), List.drop_drop]
        exact List.rel_append hcovers.delivered hdelivered
      · intro before later after hsplit hbefore
        cases before with
        | nil => exact absurd rfl hbefore
        | cons first before =>
          obtain ⟨rfl, hpages⟩ := List.cons.inj hsplit
          rw [List.flatMap_cons, List.length_append, hlength, ← Nat.add_assoc]
          cases before with
          | nil =>
            obtain rfl : next = later :=
              Option.some.inj (hfollows.head.symm.trans (congrArg List.head? hpages))
            exact startsAt_of_covers (by omega) hmore (key_ne_nil hkeys hkey) hissued' hcovers'
          | cons second before => exact hbackward (second :: before) later after hpages (by simp)
    · have hend : s + m = items.length := Nat.le_antisymm hcovers.bound (Nat.le_of_not_lt hmore)
      have hnext := hcovers.next
      rw [if_neg hmore] at hnext
      refine ⟨[page], .last hnext, ?_, ?_⟩
      · have hdelivered := hcovers.delivered
        rw [List.take_of_length_le (by rw [List.length_drop]; omega)] at hdelivered
        simpa using hdelivered
      · intro before later after hsplit hbefore
        cases before with
        | nil => exact absurd rfl hbefore
        | cons first before =>
          have hlength := congrArg List.length hsplit
          simp at hlength

theorem back_page {expiresAt t : ℕ} {calls : ℕ → QueryContinuation} {page : ReadPageResult V}
    (hsession : engine.Session budget expiresAt calls) (hreads : manifests.Reads items)
    (hkeys : ∀ item ∈ items, item.stableSortKey ≠ []) (hnodup : (itemKeys items).tail.Nodup)
    (hstarts : StartsAt items expiresAt engine budget page t) :
    ∃ cursor, page.previousCursor = some cursor ∧ ∀ request : QueryContinuation,
      request.Fits budget expiresAt →
      ∃ back block, engine.continuePage budget manifests cursor request = .ok back ∧ block ≠ [] ∧
        block <:+ items.take t ∧ List.Forall₂ (Delivers engine.hydrateItem) block back.items := by
  obtain ⟨key, cursor, hkey, hpositive, hprevious, hposition, hissued⟩ := hstarts
  refine ⟨cursor, hprevious, fun request hfits => ?_⟩
  obtain ⟨hlt, -⟩ := List.getElem?_eq_some_iff.mp hkey
  rw [itemKeys, List.length_map] at hlt
  obtain ⟨read, m, hcovers, hcontinue⟩ :=
    continue_read hissued hfits hsession.maxItems hsession.maxCharacters
    hreads.backward hsession.hydrates (fun item hitem => hkeys item (List.mem_reverse.mp hitem))
  rw [positionOf_key hkeys hkey hposition, firstAfter_backward hnodup hkey hpositive] at hcovers
  have hslice : items.reverse.drop (items.length - t) = (items.take t).reverse := by
    rw [List.drop_reverse, Nat.sub_sub_self (Nat.le_of_lt hlt)]
  have hdelivered := hcovers.delivered
  rw [hslice] at hdelivered
  have hm : 0 < m := hcovers.progress (by rw [List.length_reverse]; omega)
  refine ⟨_, ((items.take t).reverse.take m).reverse, hcontinue, ?_, ?_,
    List.forall₂_reverse_iff.mpr hdelivered⟩
  · rw [← List.length_pos_iff, List.length_reverse, List.length_take, List.length_reverse,
      List.length_take]
    omega
  · have hfront := List.take_prefix m (items.take t).reverse
    rw [← List.reverse_suffix, List.reverse_reverse] at hfront
    exact hfront

def Paginates (engine : QueryEngine V) (budget : ResponseBudget) (now remainingCharacters : ℕ)
    (calls : ℕ → QueryContinuation) (values : List (StreamValue V)) : Prop :=
  ∃ manifests first pages, engine.executeStream budget now remainingCharacters values =
    .ok (manifests, first) ∧
    engine.Follows budget manifests calls 0 first pages ∧
    List.Forall₂ (Delivers engine.hydrateItem) (streamItems values)
      (pages.flatMap ReadPageResult.items) ∧
    first.previousCursor = none ∧
    ∀ before page after, pages = before ++ page :: after → before ≠ [] →
      ∃ cursor, page.previousCursor = some cursor ∧
        ∀ request : QueryContinuation, request.Fits budget (now + 15 * 60 * 1000) →
          ∃ back block, engine.continuePage budget manifests cursor request = .ok back ∧
            block ≠ [] ∧
            block <:+ (streamItems values).take (before.flatMap ReadPageResult.items).length ∧
            List.Forall₂ (Delivers engine.hydrateItem) block back.items

theorem executeStream_covers {now remainingCharacters : ℕ} {values : List (StreamValue V)}
    {forward backward : StoredManifest V}
    (hforward : engine.store.append (streamItems values) = .ok forward)
    (hbackward : engine.store.append (streamItems values).reverse = .ok backward)
    (hreads : (ExecutionManifests.mk forward backward).Reads (streamItems values))
    (hitems : 1 ≤ budget.maxItems) (hydrates : Hydrates engine.hydrateItem)
    (hkeys : ∀ item ∈ streamItems values, item.stableSortKey ≠ []) :
    ∃ first m cursor, engine.executeStream budget now remainingCharacters values =
      .ok (⟨forward, backward⟩, first) ∧
      cursor = ⟨[], .forward, engine.budgetDigest budget, now + 15 * 60 * 1000⟩ ∧
      Covers engine.hydrateItem (streamItems values) cursor budget.maxItems first 0 m := by
  obtain ⟨first, m, hpage, hcovers⟩ := readPage_covers engine.sizes {
      origin := .initial .forward (engine.budgetDigest budget) (now + 15 * 60 * 1000)
      now := now
      limit := budget.maxItems
      maxCharacters := max 1 remainingCharacters
      reader := (ExecutionManifests.mk forward backward).read
      hydrateItem :=
        engine.hydrateItem } rfl hitems (Nat.le_max_left _ _) hreads.forward hydrates hkeys
  refine ⟨first, m, _, ?_, rfl, hcovers⟩
  rw [executeStream, hforward, hbackward]
  simp only [bind, Except.bind, hpage]
  rfl

theorem paginates_of_keeps {now remainingCharacters : ℕ} {calls : ℕ → QueryContinuation}
    {values : List (StreamValue V)} (hsession : engine.Session budget (now + 15 * 60 * 1000) calls)
    (hforward : StoreKeeps (streamItems values) engine.store)
    (hbackward : StoreKeeps (streamItems values).reverse engine.store)
    (hkeys : ∀ item ∈ streamItems values, item.stableSortKey ≠ [])
    (hdropLast : (itemKeys (streamItems values)).dropLast.Nodup)
    (htail : (itemKeys (streamItems values)).tail.Nodup) :
    engine.Paginates budget now remainingCharacters calls values := by
  obtain ⟨forward, hforwardAppend, hforwardReads⟩ := append_reads hforward
  obtain ⟨backward, hbackwardAppend, hbackwardReads⟩ := append_reads hbackward
  have hreads : (ExecutionManifests.mk forward backward).Reads (streamItems values) :=
    ⟨hforwardReads, hbackwardReads⟩
  obtain ⟨first, m, cursor, hexecute, hcursor, hcovers⟩ :=
    executeStream_covers hforwardAppend hbackwardAppend hreads
    hsession.maxItems hsession.hydrates hkeys
  have hissued : engine.Issued budget (now + 15 * 60 * 1000) .forward cursor := by
    rw [hcursor]
    exact ⟨rfl, rfl, rfl⟩
  have hfirst : first.previousCursor = none := by
    rw [hcovers.previous, hcursor]
    rfl
  obtain ⟨pages, hfollows, hdelivered, hstarts⟩ :=
    follows_from hsession hreads hkeys hdropLast _ rfl hcovers hissued
    (k := 0)
  refine ⟨⟨forward, backward⟩, first, pages, hexecute, hfollows, hdelivered, hfirst, ?_⟩
  intro before page after hsplit hbefore
  have hstart := hstarts before page after hsplit hbefore
  rw [Nat.zero_add] at hstart
  exact back_page hsession hreads hkeys htail hstart

end QueryEngine

end Engine
