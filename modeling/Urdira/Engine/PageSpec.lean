import Urdira.Engine.DurableReader
import Urdira.Engine.QueryPages
import Urdira.Lib.ExceptOk

namespace Engine

variable {V : Type}

def Delivers (hydrateItem : Option (QueryStreamItem V → ℕ → Option (QueryStreamItem V)))
    (raw hydrated : QueryStreamItem V) : Prop :=
  ∃ sourceCharacters, hydrateWith hydrateItem raw sourceCharacters = some hydrated

structure Hydrates (hydrateItem : Option (QueryStreamItem V → ℕ → Option (QueryStreamItem V))) :
    Prop where
  key : ∀ raw hydrated, Delivers hydrateItem raw hydrated →
    hydrated.stableSortKey = raw.stableSortKey
  returns : ∀ raw, (hydrateWith hydrateItem raw 0).isSome = true

theorem hydrates_none :
    Hydrates (none : Option (QueryStreamItem V → ℕ → Option (QueryStreamItem V))) where
  key := by
    rintro raw hydrated ⟨source, hsource⟩
    cases hsource
    rfl
  returns := fun _ => rfl

theorem delivers_none {raw hydrated : QueryStreamItem V} (h : Delivers none raw hydrated) :
    hydrated = raw := by
  obtain ⟨source, hsource⟩ := h
  cases hsource
  rfl

section Fit

variable (sizes : ItemSizes V)
  (hydrateItem : Option (QueryStreamItem V → ℕ → Option (QueryStreamItem V)))
  (maxCharacters : ℕ)

theorem fitItems_delivers (raws : List (QueryStreamItem V)) (consumed source : ℕ)
    (done : List (QueryStreamItem V)) :
    ∃ fitted, fitItems sizes hydrateItem maxCharacters raws consumed source done = done ++ fitted ∧
      List.Forall₂ (Delivers hydrateItem) (raws.take fitted.length) fitted := by
  induction raws generalizing consumed source done with
  | nil => exact ⟨[], by simp [fitItems], .nil⟩
  | cons raw raws ih =>
    rw [fitItems]
    cases hhydrated : hydrateWith hydrateItem raw source with
    | none => exact ⟨[], by simp, .nil⟩
    | some hydrated =>
      simp only
      split
      · exact ⟨[], by simp, .nil⟩
      · obtain ⟨fitted, hfitted, hall⟩ := ih (consumed + sizes.characters hydrated)
          (source + sizes.snippetCharacters hydrated) (done ++ [hydrated])
        refine ⟨hydrated :: fitted, ?_, ?_⟩
        · rw [hfitted, List.append_assoc, List.singleton_append]
        · rw [List.length_cons, List.take_succ_cons]
          exact .cons ⟨source, hhydrated⟩ hall

theorem fitItems_ne_nil {hydrateItem : Option (QueryStreamItem V → ℕ → Option (QueryStreamItem V))}
    (hydrates : Hydrates hydrateItem) {raws : List (QueryStreamItem V)} (hraws : raws ≠ []) :
    fitItems sizes hydrateItem maxCharacters raws 0 0 [] ≠ [] := by
  cases raws with
  | nil => exact absurd rfl hraws
  | cons raw raws =>
    obtain ⟨hydrated, hhydrated⟩ := Option.isSome_iff_exists.mp (hydrates.returns raw)
    rw [fitItems, hhydrated]
    simp only [List.length_nil, lt_irrefl, false_and, if_false, List.nil_append]
    obtain ⟨fitted, hfitted, -⟩ := fitItems_delivers sizes hydrateItem maxCharacters raws
      (0 + sizes.characters hydrated) (0 + sizes.snippetCharacters hydrated) [hydrated]
    rw [hfitted]
    simp

theorem fitItems_all (raws : List (QueryStreamItem V)) (consumed source : ℕ)
    (done : List (QueryStreamItem V))
    (hbudget : consumed + (raws.map sizes.characters).sum ≤ maxCharacters) :
    fitItems sizes none maxCharacters raws consumed source done = done ++ raws := by
  induction raws generalizing consumed source done with
  | nil => simp [fitItems]
  | cons raw raws ih =>
    rw [List.map_cons, List.sum_cons] at hbudget
    have hfits : ¬ (0 < done.length ∧ maxCharacters < consumed + sizes.characters raw) := by omega
    simp only [fitItems, hydrateWith, if_neg hfits]
    rw [ih _ _ _ (by omega), List.append_assoc, List.singleton_append]

end Fit

theorem delivered_keys {hydrateItem : Option (QueryStreamItem V → ℕ → Option (QueryStreamItem V))}
    (hydrates : Hydrates hydrateItem) {raws hydrated : List (QueryStreamItem V)}
    (h : List.Forall₂ (Delivers hydrateItem) raws hydrated) :
    hydrated.map QueryStreamItem.stableSortKey = raws.map QueryStreamItem.stableSortKey := by
  induction h with
  | nil => rfl
  | cons hhead _ ih => rw [List.map_cons, List.map_cons, ih, hydrates.key _ _ hhead]

theorem safePosition_ok {item : Option (QueryStreamItem V)}
    (h : item.map QueryStreamItem.stableSortKey ≠ some [])
    (index : ℕ) : safePosition item index = .ok (item.map QueryStreamItem.stableSortKey) := by
  cases item with
  | none => rfl
  | some item =>
    rw [safePosition, if_neg (fun hkey => h (congrArg some hkey))]
    rfl

structure Covers (hydrateItem : Option (QueryStreamItem V → ℕ → Option (QueryStreamItem V)))
    (items : List (QueryStreamItem V)) (claims : QueryCursorClaims) (limit : ℕ)
    (page : ReadPageResult V)
    (s m : ℕ) : Prop where
  bound : s + m ≤ items.length
  within : m ≤ limit
  progress : s < items.length → 0 < m
  delivered : List.Forall₂ (Delivers hydrateItem) ((items.drop s).take m) page.items
  next : page.nextCursor = if s + m < items.length then
    ((items.map QueryStreamItem.stableSortKey)[s + m - 1]?).map (claims.make claims.direction)
    else none
  previous : page.previousCursor = if claims.stablePosition = [] then none else
    ((items.map QueryStreamItem.stableSortKey)[s]?).map (claims.make claims.direction.opposite)

def positionOf (claims : QueryCursorClaims) : Option JsString :=
  if claims.stablePosition = [] then none else some claims.stablePosition

theorem head_slice {items : List (QueryStreamItem V)} {s m : ℕ} (hm : s < items.length → 0 < m) :
    ((items.drop s).take m).head? = items[s]? := by
  by_cases hs : s < items.length
  · rw [List.head?_take, if_neg (Nat.pos_iff_ne_zero.mp (hm hs)), List.head?_drop]
  · rw [List.drop_eq_nil_of_le (Nat.le_of_not_lt hs), List.getElem?_eq_none (Nat.le_of_not_lt hs),
      List.take_nil]
    rfl

theorem last_slice {items : List (QueryStreamItem V)} {s m : ℕ} (hm : 0 < m)
    (hbound : s + m ≤ items.length) :
    ((items.drop s).take m).getLast? = items[s + m - 1]? := by
  rw [List.getLast?_eq_getElem?, List.length_take, List.length_drop, List.getElem?_take,
    if_pos (by omega),
    List.getElem?_drop]
  congr 1
  omega

theorem readPage_eq {sizes : ItemSizes V} {request : ReadPageRequest V} {claims : QueryCursorClaims}
    {result : ManifestStreamReadResult V} {fitted : List (QueryStreamItem V)}
    (hclaims : request.origin.claims request.now = .ok claims)
    (hlimit : 1 ≤ request.limit) (hcharacters : 1 ≤ request.maxCharacters)
    (hresult : request.reader claims.direction ⟨positionOf claims, request.limit + 1⟩ = result)
    (hfitted : fitItems sizes request.hydrateItem request.maxCharacters
      (result.items.take request.limit) 0 0 [] =
      fitted) (hkeys : ∀ item ∈ fitted, item.stableSortKey ≠ []) :
    ∃ page, readPage sizes request = .ok page ∧ page.items = fitted ∧
      page.nextCursor = (if result.hasMore || decide (request.limit < result.items.length) ||
        decide (fitted.length < (result.items.take request.limit).length) then
          ((fitted.map QueryStreamItem.stableSortKey).getLast?).map (claims.make claims.direction)
            else none) ∧
      page.previousCursor = if claims.stablePosition = [] then none else
        ((fitted.map QueryStreamItem.stableSortKey).head?).map
        (claims.make claims.direction.opposite) := by
  have hsafe : ∀ item : Option (QueryStreamItem V), (∀ x, item = some x → x ∈ fitted) → ∀ index,
      safePosition item index = .ok (item.map QueryStreamItem.stableSortKey) := by
    intro item hmem index
    refine safePosition_ok (fun hnil => ?_) index
    obtain ⟨x, hx, hkey⟩ := Option.map_eq_some_iff.mp hnil
    exact hkeys x (hmem x hx) hkey
  have hbudget : ¬ (request.limit < 1 ∨ request.maxCharacters < 1) := by omega
  have hposition : (if claims.stablePosition = [] then none else some claims.stablePosition) =
      positionOf claims := rfl
  have hhead := hsafe fitted.head? (fun x hx => List.mem_of_mem_head? hx) 0
  have hlast := hsafe fitted.getLast? (fun x hx => List.mem_of_mem_getLast? hx) (fitted.length - 1)
  rw [readPage, if_neg hbudget, hclaims]
  rw [List.getLast?_map, List.head?_map]
  simp only [bind, Except.bind, hposition, hresult, hfitted, hhead, hlast]
  exact ⟨_, rfl, rfl, rfl, rfl⟩

theorem readPage_ok {sizes : ItemSizes V} {request : ReadPageRequest V} {page : ReadPageResult V}
    (h : readPage sizes request = .ok page) :
    ∃ claims result, request.origin.claims request.now = .ok claims ∧
      request.reader claims.direction ⟨positionOf claims, request.limit + 1⟩ = result ∧
      page.items = fitItems sizes request.hydrateItem request.maxCharacters
        (result.items.take request.limit) 0 0 [] ∧
      page.hasNext = (result.hasMore || decide (request.limit < result.items.length) ||
        decide (page.items.length < (result.items.take request.limit).length)) ∧
      (page.hasNext = false → page.nextCursor = none) := by
  rw [readPage] at h
  split at h
  · cases h
  · obtain ⟨claims, hclaims, h⟩ := ExceptOk.bind_eq_ok h
    obtain ⟨firstPosition, -, h⟩ := ExceptOk.bind_eq_ok h
    obtain ⟨lastPosition, -, h⟩ := ExceptOk.bind_eq_ok h
    obtain rfl := Except.ok.inj h
    refine ⟨claims, _, hclaims, rfl, rfl, rfl, fun hlast => ?_⟩
    simp only at hlast
    exact if_neg (Bool.not_eq_true _ ▸ hlast)

theorem readPage_covers (sizes : ItemSizes V) (request : ReadPageRequest V)
    {claims : QueryCursorClaims}
    {items : List (QueryStreamItem V)} (hclaims : request.origin.claims request.now = .ok claims)
    (hlimit : 1 ≤ request.limit) (hcharacters : 1 ≤ request.maxCharacters)
    (hreader : ∀ read, request.reader claims.direction read = readAfter items read)
    (hydrates : Hydrates request.hydrateItem) (hkeys : ∀ item ∈ items, item.stableSortKey ≠ []) :
    ∃ page m, readPage sizes request = .ok page ∧
      Covers request.hydrateItem items claims request.limit page
        (firstAfter items (positionOf claims)) m := by
  obtain ⟨s, hs⟩ : ∃ s, s = firstAfter items (positionOf claims) := ⟨_, rfl⟩
  have hsle : s ≤ items.length := hs ▸ firstAfter_le items _
  obtain ⟨result, hresult⟩ : ∃ result, readAfter items ⟨positionOf claims, request.limit + 1⟩ =
      result := ⟨_, rfl⟩
  have hitems : result.items = (items.drop s).take (request.limit + 1) := by
    rw [← hresult, readAfter]
    split
    · next hempty => simp [List.length_eq_zero_iff.mp hempty]
    · rw [← hs]
  have hmore : result.hasMore = decide (s + (request.limit + 1) < items.length) := by
    rw [← hresult, readAfter]
    split
    · next hempty => simp [hempty]
    · simp only [← hs, List.length_take, List.length_drop]
      exact decide_eq_decide.mpr (by omega)
  have hlimited : result.items.take request.limit = (items.drop s).take request.limit := by
    rw [hitems, List.take_take, Nat.min_eq_left (Nat.le_succ _)]
  obtain ⟨fitted, hfitted, hdelivered⟩ :=
    fitItems_delivers sizes request.hydrateItem request.maxCharacters
    (result.items.take request.limit) 0 0 []
  rw [List.nil_append] at hfitted
  rw [hlimited, List.take_take] at hdelivered
  have hlength : (items.drop s).take (min fitted.length request.limit) =
      (items.drop s).take fitted.length ∧
      fitted.length ≤ request.limit ∧ s + fitted.length ≤ items.length := by
    have hlen := hdelivered.length_eq
    rw [List.length_take, List.length_drop] at hlen
    rw [Nat.min_eq_left (by omega)]
    exact ⟨rfl, by omega, by omega⟩
  obtain ⟨hslice, hwithin, hbound⟩ := hlength
  rw [hslice] at hdelivered
  have hprogress : s < items.length → 0 < fitted.length := by
    intro hlt
    rw [List.length_pos_iff, ← hfitted]
    refine fitItems_ne_nil sizes request.maxCharacters hydrates ?_
    rw [hlimited, ← List.length_pos_iff, List.length_take, List.length_drop]
    omega
  have hkeyseq := delivered_keys hydrates hdelivered
  have hfittedKeys : ∀ item ∈ fitted, item.stableSortKey ≠ [] := by
    intro item hitem
    have hmem : item.stableSortKey ∈ ((items.drop s).take fitted.length).map
        QueryStreamItem.stableSortKey :=
      hkeyseq ▸ List.mem_map_of_mem hitem
    obtain ⟨raw, hraw, hkey⟩ := List.mem_map.mp hmem
    exact hkey ▸ hkeys raw (List.mem_of_mem_drop (List.mem_of_mem_take hraw))
  obtain ⟨page, hpage, hpageItems, hnext, hprevious⟩ := readPage_eq hclaims hlimit hcharacters
    ((hreader _).trans hresult) hfitted hfittedKeys
  refine ⟨page, fitted.length, hpage, ?_⟩
  rw [← hs]
  refine ⟨hbound, hwithin, hprogress, hpageItems ▸ hdelivered, ?_, ?_⟩
  · have hmoreIff : (result.hasMore || decide (request.limit < result.items.length) ||
        decide (fitted.length < (result.items.take request.limit).length)) =
        decide (s + fitted.length < items.length) := by
      rw [hmore, hlimited, hitems, List.length_take, List.length_take, List.length_drop,
        ← Bool.decide_or,
        ← Bool.decide_or]
      exact decide_eq_decide.mpr (by omega)
    rw [hnext, hmoreIff, hkeyseq]
    simp only [decide_eq_true_eq]
    split
    · next hlt =>
      rw [List.getLast?_map, last_slice (hprogress (by omega)) hbound, List.getElem?_map]
    · rfl
  · rw [hprevious, hkeyseq, List.head?_map, head_slice hprogress, List.getElem?_map]

end Engine
