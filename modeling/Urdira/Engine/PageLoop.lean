import Urdira.Engine.Pagination

namespace Engine

variable {V : Type}

namespace QueryEngine

variable {engine : QueryEngine V} {budget : ResponseBudget} {manifests : ExecutionManifests V}
  {items : List (QueryStreamItem V)}

theorem firstAfter_le_repeat {i j s : ℕ} {key position : JsString} (hij : i < j)
    (hi : (itemKeys items)[i]? = some key) (hj : (itemKeys items)[j]? = some key)
    (hs : s ≤ j) (hposition : (itemKeys items)[s]? = some position) :
    firstAfter items (some position) ≤ j := by
  rcases Nat.lt_or_eq_of_le hs with hlt | rfl
  · have hle := (firstAfter_le_of_key hposition).2
    omega
  · obtain rfl : key = position := Option.some.inj (hj.symm.trans hposition)
    have hle := (firstAfter_le_of_key hi).2
    omega

theorem not_follows_of_repeat {calls : ℕ → QueryContinuation} {expiresAt : ℕ} {i j : ℕ}
    {key : JsString}
    (hsession : engine.Session budget expiresAt calls) (hreads : manifests.Reads items)
    (hkeys : ∀ item ∈ items, item.stableSortKey ≠ []) (hone : budget.maxItems = 1) (hij : i < j)
    (hi : (itemKeys items)[i]? = some key) (hj : (itemKeys items)[j]? = some key)
    (hlast : j + 1 < items.length)
    {k s m limit : ℕ} {cursor : QueryCursorClaims} {page : ReadPageResult V}
    {pages : List (ReadPageResult V)}
    (hfollows : engine.Follows budget manifests calls k page pages)
    (hcovers : Covers engine.hydrateItem items cursor limit page s m) (hlimit : limit ≤ 1)
    (hs : s ≤ j)
    (hissued : engine.Issued budget expiresAt .forward cursor) : False := by
  induction hfollows generalizing s m limit cursor with
  | @last k page hnone =>
    have hwithin := hcovers.within
    have hnext := hcovers.next
    obtain ⟨position, hposition⟩ := exists_key items (t := s + m - 1) (by omega)
    have hkey : (items.map QueryStreamItem.stableSortKey)[s + m - 1]? = some position := hposition
    rw [hnone, if_pos (by omega), hkey] at hnext
    cases hnext
  | @step k page next pages found hcursor hcontinue _ ih =>
    have hwithin := hcovers.within
    have hpositive := hcovers.progress (by omega)
    have hnext := hcovers.next
    obtain ⟨position, hposition⟩ := exists_key items (t := s + m - 1) (by omega)
    have hkey : (items.map QueryStreamItem.stableSortKey)[s + m - 1]? = some position := hposition
    rw [hcursor, if_pos (by omega), hkey, hissued.direction] at hnext
    obtain rfl : found = cursor.make .forward position := Option.some.inj hnext
    have hissued' := hissued.make .forward position
    obtain ⟨read, m', hcovers', hread⟩ := continue_read hissued' (hsession.fits k) hsession.maxItems
      hsession.maxCharacters hreads.forward hsession.hydrates hkeys
    obtain rfl : next = read := Except.ok.inj (hcontinue.symm.trans hread)
    have hlimit' := (continue_limit (hsession.fits k) hsession.maxItems).2
    refine ih hcovers' (by omega) ?_ hissued'
    rw [positionOf_key hkeys hposition rfl]
    exact firstAfter_le_repeat hij hi hj (by omega) hposition

def PaginatesAlways (sizes : ItemSizes V) (codec : SegmentCodec V) (values : List (StreamValue V)) :
    Prop :=
  ∀ (engine : QueryEngine V) (budget : ResponseBudget) (now remainingCharacters : ℕ) (calls : ℕ →
    QueryContinuation),
    engine.sizes = sizes → engine.store = .memory ∨ engine.store = .durable codec →
      engine.Session budget (now + 15 * 60 * 1000) calls →
        engine.Paginates budget now remainingCharacters calls values

section Converse

variable {sizes : ItemSizes V} {codec : SegmentCodec V} {values : List (StreamValue V)}

def plain (store : QueryManifestStore V) (sizes : ItemSizes V) : QueryEngine V where
  store := store
  sizes := sizes
  hydrateItem := none
  budgetDigest := fun _ => []

def promptly : ℕ → QueryContinuation := fun _ => ⟨none, 0⟩

theorem session_plain (store : QueryManifestStore V) (sizes : ItemSizes V) {maxItems : ℕ}
    (hitems : 1 ≤ maxItems) :
    (plain store sizes).Session ⟨maxItems, 1⟩ (0 + 15 * 60 * 1000) promptly where
  maxItems := hitems
  maxCharacters := Nat.le_refl 1
  hydrates := hydrates_none
  fits := fun _ => ⟨fun _ hlimit => (nomatch hlimit), by simp [promptly]⟩

def memoryManifests (items : List (QueryStreamItem V)) : ExecutionManifests V :=
  ⟨.memory (memoryManifest items), .memory (memoryManifest items.reverse)⟩

theorem memory_reads (items : List (QueryStreamItem V)) : (memoryManifests items).Reads items :=
  ⟨MemoryManifest.read_eq items, MemoryManifest.read_eq items.reverse⟩

theorem memory_execute (sizes : ItemSizes V) {maxItems : ℕ} (hitems : 1 ≤ maxItems)
    (remainingCharacters : ℕ)
    (hkeys : ∀ item ∈ streamItems values, item.stableSortKey ≠ []) :
    ∃ first m cursor, (plain .memory sizes).executeStream ⟨maxItems, 1⟩ 0
      remainingCharacters values =
        .ok (memoryManifests (streamItems values), first) ∧ cursor.stablePosition = [] ∧
      (plain .memory sizes).Issued ⟨maxItems, 1⟩ (0 + 15 * 60 * 1000) .forward cursor ∧
      Covers none (streamItems values) cursor maxItems first 0 m := by
  obtain ⟨first, m, cursor, hexecute, rfl, hcovers⟩ := @executeStream_covers V (plain .memory sizes)
    ⟨maxItems, 1⟩ 0 remainingCharacters values _ _ rfl rfl (memory_reads (streamItems values))
      hitems hydrates_none
    hkeys
  exact ⟨first, m, _, hexecute, rfl, ⟨rfl, rfl, rfl⟩, hcovers⟩

theorem dropLast_nodup (h : PaginatesAlways sizes codec values)
    (hkeys : ∀ item ∈ streamItems values, item.stableSortKey ≠ []) :
    (itemKeys (streamItems values)).dropLast.Nodup := by
  refine List.nodup_iff_getElem?_ne_getElem?.mpr (fun i j hij hj heq => ?_)
  have hlength : (itemKeys (streamItems values)).length = (streamItems values).length :=
    List.length_map _
  rw [List.length_dropLast, hlength] at hj
  rw [List.dropLast_eq_take, List.getElem?_take, List.getElem?_take, if_pos (by omega),
    if_pos (by omega)] at heq
  obtain ⟨key, hkey⟩ := exists_key (streamItems values) (t := j) (by omega)
  have hsession := session_plain .memory sizes (Nat.le_refl 1)
  obtain ⟨manifests, first, pages, hexecute, hfollows, -⟩ :=
    h (plain .memory sizes) ⟨1, 1⟩ 0 0 promptly rfl
    (.inl rfl) hsession
  obtain ⟨first', m, cursor, hexecute', -, hissued, hcovers⟩ :=
    memory_execute sizes (Nat.le_refl 1) 0 hkeys
  obtain ⟨rfl, rfl⟩ := Prod.mk.inj (Except.ok.inj (hexecute.symm.trans hexecute'))
  exact not_follows_of_repeat hsession (memory_reads _) hkeys rfl hij (heq.trans hkey) hkey
    (by omega) hfollows
    hcovers (Nat.le_refl 1) (Nat.zero_le j) hissued

theorem suffix_last {keys block : List JsString} {i : ℕ} (hi : 0 < i) (hlt : i ≤ keys.length)
    (hne : block ≠ [])
    (hsuffix : block <:+ keys.take i) : block.getLast? = keys[i - 1]? := by
  obtain ⟨before, hbefore⟩ := hsuffix
  have hlast : (keys.take i).getLast? = keys[i - 1]? := by
    rw [List.getLast?_eq_getElem?, List.length_take, Nat.min_eq_left hlt, List.getElem?_take,
      if_pos (by omega)]
  rw [← hlast, ← hbefore, List.getLast?_append_of_ne_nil before hne]

theorem executeStream_ok {budget : ResponseBudget} {now remainingCharacters : ℕ}
    {manifests : ExecutionManifests V}
    {first : ReadPageResult V}
    (h : engine.executeStream budget now remainingCharacters values = .ok (manifests, first)) :
    engine.store.append (streamItems values) = .ok manifests.forward ∧
      engine.store.append (streamItems values).reverse = .ok manifests.backward ∧
      ∃ result, result = manifests.read .forward ⟨none, budget.maxItems + 1⟩ ∧
        first.items = fitItems engine.sizes engine.hydrateItem (max 1 remainingCharacters)
          (result.items.take budget.maxItems) 0 0 [] ∧
        (result.hasMore = false → result.items.length ≤ budget.maxItems →
          (result.items.take budget.maxItems).length ≤ first.items.length →
            first.nextCursor = none) := by
  obtain ⟨forward, hforward, h⟩ := ExceptOk.bind_eq_ok h
  obtain ⟨backward, hbackward, h⟩ := ExceptOk.bind_eq_ok h
  obtain ⟨page, hpage, hresult⟩ := ExceptOk.bind_eq_ok h
  obtain ⟨rfl, rfl⟩ := Prod.mk.inj (Except.ok.inj hresult)
  obtain ⟨claims, result, hclaims, hresult, hitems, hmore, hnext⟩ := readPage_ok hpage
  obtain rfl := Except.ok.inj hclaims
  refine ⟨hforward, hbackward, result, hresult.symm, hitems, fun hdone hlength hall => hnext ?_⟩
  rw [hmore, hdone, decide_eq_false (Nat.not_lt.mpr hlength), decide_eq_false (Nat.not_lt.mpr hall)]
  rfl

theorem durable_append {items : List (QueryStreamItem V)} {manifest : StoredManifest V}
    (h : (QueryManifestStore.durable codec).append items = .ok manifest) :
    ∃ durable, DurableManifest.append codec items = some durable ∧
      manifest = .durable codec durable := by
  rw [QueryManifestStore.append] at h
  cases happend : DurableManifest.append codec items with
  | none =>
    rw [happend] at h
    cases h
  | some durable =>
    rw [happend] at h
    exact ⟨durable, rfl, (Except.ok.inj h).symm⟩

theorem codec_keeps (h : PaginatesAlways sizes codec values) :
    codec.Keeps (streamItems values) := by
  obtain ⟨n, hn⟩ : ∃ n, n = max 1 (streamItems values).length := ⟨_, rfl⟩
  obtain ⟨stored, hstored⟩ : ∃ stored, stored = (streamItems values).map codec.item := ⟨_, rfl⟩
  obtain ⟨manifests, first, pages, hexecute, hfollows, hdelivered, -⟩ :=
    h (plain (.durable codec) sizes) ⟨n, 1⟩ 0
    (stored.map sizes.characters).sum promptly rfl (.inr rfl) (session_plain _ sizes (by omega))
  obtain ⟨hforward, hbackward, result, hresult, hitems, hlast⟩ := executeStream_ok hexecute
  obtain ⟨durable, hdurable, hmanifest⟩ := durable_append hforward
  obtain ⟨reversed, hreversed, -⟩ := durable_append hbackward
  refine ⟨hdurable ▸ rfl, hreversed ▸ rfl, ?_⟩
  have hlength : stored.length = (streamItems values).length := by rw [hstored, List.length_map]
  have hwithin : stored.length ≤ n := by omega
  have hread : durable.read codec ⟨none, n + 1⟩ = _ :=
    DurableManifest.read_of_next (DurableManifest.holds_append hdurable) _ rfl
  have hresult' : result = durable.read codec ⟨none, n + 1⟩ := by
    rw [hresult, ExecutionManifests.read, hmanifest]
    rfl
  have hall : result.items = stored ∧ result.hasMore = false := by
    rw [hresult', hread]
    split
    · next hempty =>
      rw [← hlength] at hempty
      exact ⟨(List.length_eq_zero_iff.mp hempty).symm, rfl⟩
    · have htake : (((streamItems values).map codec.item).drop 0).take (n + 1) = stored := by
        rw [List.drop_zero, ← hstored, List.take_of_length_le (by omega)]
      refine ⟨htake, decide_eq_false (Nat.not_lt.mpr ?_)⟩
      simp only [Option.bind_none, Option.elim_none, htake, hlength, Nat.zero_add]
      exact Nat.le_refl _
  have hfirst : first.items = stored := by
    rw [hitems, hall.1, List.take_of_length_le hwithin]
    exact fitItems_all sizes _ stored 0 0 [] (by omega)
  have hend : first.nextCursor = none := by
    refine hlast hall.2 (by rw [hall.1]; exact hwithin) ?_
    rw [hall.1, List.take_of_length_le hwithin, hfirst]
  have hpages : pages.flatMap ReadPageResult.items = stored := by
    cases hfollows with
    | last _ => simpa using hfirst
    | step hcursor _ _ =>
      rw [hend] at hcursor
      cases hcursor
  rw [hpages, hstored] at hdelivered
  intro item hitem
  have heach := List.forall₂_map_right_iff.mp hdelivered
  exact delivers_none (List.forall₂_same.mp heach item hitem)

theorem first_page_whole {i m : ℕ} {first : ReadPageResult V} {cursor : QueryCursorClaims}
    (hlt : i < (streamItems values).length)
    (hexecute : (plain .memory sizes).executeStream ⟨i, 1⟩ 0
      ((streamItems values).map sizes.characters).sum values =
      .ok (memoryManifests (streamItems values), first))
    (hcovers : Covers none (streamItems values) cursor i first 0 m) : m = i := by
  obtain ⟨-, -, result, hresult, hitems, -⟩ := executeStream_ok hexecute
  have hread : result.items.take i = (streamItems values).take i := by
    have hpositive : ¬ (streamItems values).length = 0 := by omega
    rw [hresult, (memory_reads (streamItems values)).forward, readAfter, if_neg hpositive]
    exact (List.take_take ..).trans (congrArg (List.take · _) (Nat.min_eq_left (Nat.le_succ i)))
  have hsum : ((((streamItems values).take i).map sizes.characters).sum ≤
      ((streamItems values).map sizes.characters).sum) :=
    List.Sublist.sum_le_sum ((List.take_sublist i _).map _) (fun _ _ => Nat.zero_le _)
  have hfirst : first.items = (streamItems values).take i := by
    rw [hitems, hread]
    exact fitItems_all sizes _ _ 0 0 [] (by omega)
  have hlength := hcovers.delivered.length_eq
  have hbound := hcovers.bound
  rw [hfirst, List.length_take, List.length_take, List.length_drop] at hlength
  omega

theorem second_page {calls : ℕ → QueryContinuation} {expiresAt s limit k : ℕ}
    {cursor : QueryCursorClaims}
    {page : ReadPageResult V} {pages : List (ReadPageResult V)}
    (hsession : engine.Session budget expiresAt calls) (hreads : manifests.Reads items)
    (hkeys : ∀ item ∈ items, item.stableSortKey ≠ []) (hnodup : (itemKeys items).dropLast.Nodup)
    (hcovers : Covers engine.hydrateItem items cursor limit page 0 s) (hs : 0 < s)
    (hlt : s < items.length)
    (hissued : engine.Issued budget expiresAt .forward cursor)
    (hfollows : engine.Follows budget manifests calls k page pages) :
    ∃ next after, pages = [page] ++ next :: after ∧
      StartsAt items expiresAt engine budget next s := by
  obtain ⟨position, hposition⟩ := exists_key items (t := 0 + s - 1) (by omega)
  have hkey : (items.map QueryStreamItem.stableSortKey)[0 + s - 1]? = some position := hposition
  have hnext := hcovers.next
  rw [if_pos (by omega), hkey, hissued.direction] at hnext
  cases hfollows with
  | last hnone =>
    rw [hnone] at hnext
    cases hnext
  | @step _ _ next pages found hcursor hcontinue hrest =>
    obtain rfl : found = cursor.make .forward position := Option.some.inj (hcursor.symm.trans hnext)
    have hissued' := hissued.make .forward position
    obtain ⟨read, m', hcovers', hread⟩ := continue_read hissued' (hsession.fits k) hsession.maxItems
      hsession.maxCharacters hreads.forward hsession.hydrates hkeys
    obtain rfl : next = read := Except.ok.inj (hcontinue.symm.trans hread)
    have hstart : firstAfter items (positionOf (cursor.make .forward position)) = s := by
      rw [positionOf_key hkeys hposition rfl, firstAfter_forward hnodup hposition (by omega)]
      omega
    rw [hstart] at hcovers'
    obtain ⟨after, hafter⟩ := List.head?_eq_some_iff.mp hrest.head
    exact ⟨next, after, congrArg (page :: ·) hafter,
      startsAt_of_covers hs hlt (key_ne_nil hkeys hposition) hissued' hcovers'⟩

theorem back_page_last {expiresAt t j : ℕ} {calls : ℕ → QueryContinuation} {key : JsString}
    {cursor : QueryCursorClaims} {request : QueryContinuation} {back : ReadPageResult V}
    (hsession : engine.Session budget expiresAt calls) (hreads : manifests.Reads items)
    (hkeys : ∀ item ∈ items, item.stableSortKey ≠ []) (ht : (itemKeys items)[t]? = some key)
    (hj : (itemKeys items)[j]? = some key) (hposition : cursor.stablePosition = key)
    (hissued : engine.Issued budget expiresAt .backward cursor)
    (hfits : request.Fits budget expiresAt) (hpos : 0 < j)
    (hback : engine.continuePage budget manifests cursor request = .ok back) :
    ∃ last, j ≤ last + 1 ∧ last + 1 < items.length ∧
      (itemKeys back.items).getLast? = (itemKeys items)[last]? := by
  obtain ⟨read, m, hcovers, hread⟩ :=
    continue_read hissued hfits hsession.maxItems hsession.maxCharacters
    hreads.backward hsession.hydrates (fun item hitem => hkeys item (List.mem_reverse.mp hitem))
  obtain rfl := Except.ok.inj (hback.symm.trans hread)
  rw [positionOf_key hkeys ht hposition] at hcovers
  obtain ⟨hlt, -⟩ := List.getElem?_eq_some_iff.mp hj
  have hcount : (itemKeys items).length = items.length := List.length_map _
  have hreverse : itemKeys items.reverse = (itemKeys items).reverse := List.map_reverse
  have hjReverse : (itemKeys items.reverse)[items.length - 1 - j]? = some key := by
    rw [hreverse, List.getElem?_reverse (by omega), hcount, ← hj]
    congr 1
    omega
  obtain ⟨hr, hrle⟩ := firstAfter_le_of_key hjReverse
  obtain ⟨r, hrEq⟩ : ∃ r, r = firstAfter items.reverse (some key) := ⟨_, rfl⟩
  rw [← hrEq] at hcovers hr hrle
  have hm : r < items.reverse.length → 0 < m := hcovers.progress
  rw [List.length_reverse] at hm
  refine ⟨items.length - 1 - r, by omega, by omega, ?_⟩
  have hheadKey : (itemKeys read.items).head? = (itemKeys items.reverse)[r]? := by
    rw [itemKeys, delivered_keys hsession.hydrates hcovers.delivered, List.head?_map,
      head_slice hcovers.progress,
      itemKeys, List.getElem?_map]
  change (itemKeys read.items.reverse).getLast? = _
  rw [itemKeys, List.map_reverse, List.getLast?_reverse]
  refine hheadKey.trans ?_
  rw [hreverse, List.getElem?_reverse (by omega), hcount]

theorem tail_nodup (h : PaginatesAlways sizes codec values)
    (hkeys : ∀ item ∈ streamItems values, item.stableSortKey ≠ [])
    (hdropLast : (itemKeys (streamItems values)).dropLast.Nodup) :
    (itemKeys (streamItems values)).tail.Nodup := by
  refine List.nodup_iff_getElem?_ne_getElem?.mpr (fun i j hij hj heq => ?_)
  have hcount : (itemKeys (streamItems values)).length = (streamItems values).length :=
    List.length_map _
  rw [List.length_tail, hcount] at hj
  rw [List.getElem?_tail, List.getElem?_tail] at heq
  obtain ⟨key, hkey⟩ := exists_key (streamItems values) (t := i + 1) (by omega)
  have hsession := session_plain .memory sizes (Nat.succ_pos i)
  obtain ⟨manifests, first, pages, hexecute, hfollows, -, -, hback⟩ :=
    h (plain .memory sizes) ⟨i + 1, 1⟩ 0
    ((streamItems values).map sizes.characters).sum promptly rfl (.inl rfl) hsession
  obtain ⟨first', m, cursor, hexecute', -, hissued, hcovers⟩ :=
    memory_execute sizes (Nat.succ_pos i)
    ((streamItems values).map sizes.characters).sum hkeys
  obtain ⟨rfl, rfl⟩ := Prod.mk.inj (Except.ok.inj (hexecute.symm.trans hexecute'))
  obtain rfl := first_page_whole (by omega) hexecute hcovers
  obtain ⟨next, after, hpages, position, previous, hposition, -, hprevious, hprevPosition,
      hprevIssued⟩ := second_page
    hsession (memory_reads _) hkeys hdropLast hcovers (by omega) (by omega) hissued hfollows
  obtain ⟨cursor', hcursor', hall⟩ := hback [first] next after hpages (by simp)
  obtain rfl : cursor' = previous := Option.some.inj (hcursor'.symm.trans hprevious)
  obtain rfl : key = position := Option.some.inj (hkey.symm.trans hposition)
  obtain ⟨back, block, hcontinue, hblock, hsuffix, hdelivered⟩ :=
    hall (promptly 0) (hsession.fits 0)
  obtain ⟨last, hjlast, hlast, hlastKey⟩ := back_page_last hsession (memory_reads _) hkeys hkey
    (heq.symm.trans hkey) hprevPosition hprevIssued (hsession.fits 0) (Nat.succ_pos j) hcontinue
  have hlength : ([first].flatMap ReadPageResult.items).length = i + 1 := by
    have hdel := hcovers.delivered.length_eq
    rw [List.length_take, List.length_drop] at hdel
    simp only [List.flatMap_cons, List.flatMap_nil, List.append_nil]
    omega
  rw [hlength] at hsuffix
  have hkeySuffix : itemKeys block <:+ (itemKeys (streamItems values)).take (i + 1) := by
    rw [itemKeys, itemKeys, ← List.map_take]
    exact hsuffix.map _
  have hblockLast :=
    suffix_last (Nat.succ_pos i) (by omega) (by simpa [itemKeys] using hblock) hkeySuffix
  have hsame : itemKeys back.items = itemKeys block := delivered_keys hydrates_none hdelivered
  rw [hsame, hblockLast] at hlastKey
  obtain ⟨lastKey, hlastSome⟩ := exists_key (streamItems values) (t := last) (by omega)
  have heqIndex :=
    nodup_dropLast_getElem? hdropLast (hlastKey.trans hlastSome) hlastSome (by omega) (by omega)
  omega

end Converse

theorem streamItems_keys {values : List (StreamValue V)}
    (h : ∀ item, StreamValue.keyed item ∈ values → item.stableSortKey ≠ []) :
    ∀ item ∈ streamItems values, item.stableSortKey ≠ [] := by
  intro item hitem
  obtain ⟨index, hindex, hvalue⟩ := List.mem_mapIdx.mp hitem
  have hmem : values[index] ∈ values := List.getElem_mem hindex
  cases hcase : values[index] with
  | keyed keyed =>
    rw [hcase] at hvalue hmem
    exact hvalue ▸ h keyed hmem
  | bare fields =>
    rw [hcase] at hvalue
    have hlength : 12 ≤ item.stableSortKey.length := by
      rw [← hvalue, StreamValue.item, List.length_leftpad]
      exact Nat.le_max_left _ _
    exact List.ne_nil_of_length_pos (by omega)

theorem paginates_always_iff (sizes : ItemSizes V) (codec : SegmentCodec V)
    (values : List (StreamValue V))
    (hvalues : ∀ item, StreamValue.keyed item ∈ values → item.stableSortKey ≠ []) :
    PaginatesAlways sizes codec values ↔
      (itemKeys (streamItems values)).dropLast.Nodup ∧ (itemKeys (streamItems values)).tail.Nodup ∧
        codec.Keeps (streamItems values) := by
  have hkeys := streamItems_keys hvalues
  constructor
  · intro h
    have hdropLast := dropLast_nodup h hkeys
    exact ⟨hdropLast, tail_nodup h hkeys hdropLast, codec_keeps h⟩
  · rintro ⟨hdropLast, htail, hforward, hbackward, hfix⟩ engine budget now remaining calls
      - hstore hsession
    rcases hstore with hmemory | hdurable
    · exact paginates_of_keeps hsession (hmemory ▸ trivial) (hmemory ▸ trivial) hkeys
        hdropLast htail
    · refine paginates_of_keeps hsession (hdurable ▸ ⟨hforward, hfix⟩) (hdurable ▸ ⟨hbackward, ?_⟩)
        hkeys hdropLast htail
      intro item hitem
      exact hfix item (List.mem_reverse.mp hitem)

def asciiCodec : SegmentCodec Unit where
  canonicalBytes := fun item => some (29 + item.stableSortKey.length)
  accepts := fun rows => decide (rows.length ≤ 512)
  acceptsDescriptor := fun _ => true
  text := id
  fields := id

def jsonSizes : ItemSizes Unit where
  characters := fun item => 35 + item.stableSortKey.length
  snippetCharacters := fun _ => 0

theorem paginates_always_two :
    PaginatesAlways jsonSizes asciiCodec [.keyed ⟨[97], ()⟩, .keyed ⟨[98], ()⟩] := by
  refine (paginates_always_iff jsonSizes asciiCodec [.keyed ⟨[97], ()⟩, .keyed ⟨[98], ()⟩] ?_).mpr
    ⟨by decide, by decide, by decide, by decide, fun _ _ => rfl⟩
  intro item hitem
  simp only [List.mem_cons, StreamValue.keyed.injEq, List.not_mem_nil, or_false] at hitem
  rcases hitem with rfl | rfl
  · decide
  · decide

theorem repeated_key_never_ends :
    ¬ PaginatesAlways jsonSizes asciiCodec
      [.keyed ⟨[97], ()⟩, .keyed ⟨[97], ()⟩, .keyed ⟨[98], ()⟩] := by
  intro h
  have hkeys :
      ∀ item ∈ streamItems [StreamValue.keyed ⟨[97], ()⟩, .keyed ⟨[97], ()⟩, .keyed ⟨[98], ()⟩],
      item.stableSortKey ≠ [] := by decide
  exact absurd (dropLast_nodup h hkeys) (by decide)

end QueryEngine

end Engine
