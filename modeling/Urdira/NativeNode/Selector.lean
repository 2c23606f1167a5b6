import Urdira.NativeNode.VisibleCursor

open ByteOrder KeyedSet MerkleBucket StructuralStore KeysetPages

namespace NativeNode

structure Selector where
  universalKinds : List Text
  categories : List Text
  kinds : List Text

section Categories

def categoryName : Category → Text
  | .entity => utf8 "entity"
  | .relation => utf8 "relation"
  | .diagnostic => utf8 "diagnostic"
  | .fact => utf8 "fact"
  | .evidence => utf8 "evidence"

def allCategories : List Category := [.entity, .relation, .diagnostic, .fact, .evidence]

def categoryToByte (s : Text) : Except Fault Category :=
  if s = utf8 "entity" then .ok .entity
  else if s = utf8 "relation" then .ok .relation
  else if s = utf8 "diagnostic" then .ok .diagnostic
  else if s = utf8 "fact" then .ok .fact
  else if s = utf8 "evidence" then .ok .evidence
  else .error (.error "unknown record category")

theorem categoryName_injective : Function.Injective categoryName := by
  intro a b h
  cases a <;> cases b <;> first | rfl | exact absurd h (by decide)

theorem categoryToByte_ok {s : Text} {category : Category} :
    categoryToByte s = .ok category ↔ s = categoryName category := by
  constructor
  · intro h
    unfold categoryToByte at h
    split at h
    · cases h
      assumption
    · split at h
      · cases h
        assumption
      · split at h
        · cases h
          assumption
        · split at h
          · cases h
            assumption
          · split at h
            · cases h
              assumption
            · cases h
  · rintro rfl
    cases category <;> decide

theorem mem_allCategories (category : Category) : category ∈ allCategories := by
  cases category <;> decide

theorem mapM_categoryToByte {names : List Text} {categories : List Category} :
    names.mapM categoryToByte = .ok categories ↔ names = categories.map categoryName := by
  induction names generalizing categories with
  | nil =>
    rw [List.mapM_nil]
    constructor
    · intro h
      cases h
      rfl
    · intro h
      rw [List.map_eq_nil_iff.mp h.symm]
      rfl
  | cons name names ih =>
    rw [List.mapM_cons]
    constructor
    · intro h
      obtain ⟨category, hname, h⟩ := ExceptOk.bind_eq_ok h
      obtain ⟨rest, hrest, h⟩ := ExceptOk.bind_eq_ok h
      cases h
      rw [List.map_cons, categoryToByte_ok.mp hname, ih.mp hrest]
    · intro h
      cases categories with
      | nil => cases h
      | cons category categories =>
        obtain ⟨hname, hrest⟩ := List.cons.inj h
        rw [categoryToByte_ok.mpr hname, ih.mpr hrest]
        rfl

end Categories

section Names

def idsOf (names values : List Text) : List ℕ :=
  values.filterMap (fun value => (names.idxOf? value).map (fun index => index % 65536))

def listed (values names : List Text) (id : ℕ) : Bool :=
  values.isEmpty || (names[id]?).any (fun name => decide (name ∈ values))

variable {names values : List Text} {id : ℕ}

theorem idxOf?_eq_some (hnames : names.Nodup) {value : Text} :
    names.idxOf? value = some id ↔ names[id]? = some value := by
  rw [List.idxOf?_eq_some_iff]
  constructor
  · rintro ⟨hlt, heq, -⟩
    rw [List.getElem?_eq_getElem hlt, heq]
  · intro h
    obtain ⟨hlt, heq⟩ := List.getElem?_eq_some_iff.mp h
    refine ⟨hlt, heq, fun j hj hother => ?_⟩
    have hsame : j = id := hnames.getElem_inj_iff.mp (hother.trans heq.symm)
    omega

theorem count_idsOf (hnames : names.Nodup) (hlength : names.length ≤ 65535)
    (values : List Text) (id : ℕ) :
    (idsOf names values).count id = ((names[id]?).map (fun name => values.count name)).getD 0 := by
  induction values with
  | nil => cases names[id]? <;> rfl
  | cons value values ih =>
    unfold idsOf at ih ⊢
    rw [List.filterMap_cons]
    cases hindex : names.idxOf? value with
    | none =>
      have hfresh : names[id]? ≠ some value := by
        intro h
        rw [(idxOf?_eq_some hnames).mpr h] at hindex
        cases hindex
      rw [Option.map_none]
      dsimp only
      rw [ih]
      cases hname : names[id]? with
      | none => rfl
      | some name =>
        have hne : value ≠ name := fun heq => hfresh (hname.trans (congrArg some heq.symm))
        rw [Option.map_some, Option.map_some, List.count_cons_of_ne hne]
    | some index =>
      have hat := (idxOf?_eq_some hnames).mp hindex
      have hlt := (List.getElem?_eq_some_iff.mp hat).1
      rw [Option.map_some, Nat.mod_eq_of_lt (by omega)]
      dsimp only
      rw [List.count_cons, ih]
      cases hname : names[id]? with
      | none =>
        have hne : index ≠ id := by
          rintro rfl
          rw [hname] at hat
          cases hat
        rw [if_neg (by simpa using hne)]
        rfl
      | some name =>
        rw [Option.map_some, Option.map_some, Option.getD_some, Option.getD_some, List.count_cons]
        by_cases heq : value = name
        · have hindex' : index = id := by
            have hid := (idxOf?_eq_some hnames).mpr hname
            rw [← heq, hindex] at hid
            exact Option.some.inj hid
          rw [if_pos (by simpa using hindex'), if_pos (by simpa using heq)]
        · have hne : index ≠ id := by
            rintro rfl
            exact heq (Option.some.inj (hat.symm.trans hname))
          rw [if_neg (by simpa using hne), if_neg (by simpa using heq)]

theorem mem_idsOf (hnames : names.Nodup) (hlength : names.length ≤ 65535) :
    id ∈ idsOf names values ↔ (names[id]?).any (fun name => decide (name ∈ values)) = true := by
  rw [← List.count_pos_iff, count_idsOf hnames hlength]
  cases names[id]? with
  | none => simp
  | some name => simp [List.count_pos_iff]

theorem noneU16_notMem_idsOf (hnames : names.Nodup) (hlength : names.length ≤ 65535) :
    noneU16 ∉ idsOf names values := by
  intro hmem
  have hnone : names[noneU16]? = none := List.getElem?_eq_none hlength
  rw [mem_idsOf hnames hlength, hnone] at hmem
  cases hmem

theorem idsOf_eq_nil : idsOf names values = [] ↔ ∀ value ∈ values, value ∉ names := by
  unfold idsOf
  rw [List.filterMap_eq_nil_iff]
  refine forall₂_congr (fun value _ => ?_)
  rw [Option.map_eq_none_iff, List.idxOf?_eq_none_iff]

end Names

section Calls

def universalKindIds (dicts : Dictionaries) (sel : Selector) : List ℕ :=
  if sel.universalKinds.isEmpty then
    (List.range dicts.universalKinds.length).map (fun value => value % 65536)
  else idsOf dicts.universalKinds sel.universalKinds

def categoryIds (sel : Selector) : Except Fault (List Category) :=
  if sel.categories.isEmpty then .ok allCategories else sel.categories.mapM categoryToByte

def kindIds (dicts : Dictionaries) (sel : Selector) : List ℕ :=
  if sel.kinds.isEmpty then [] else idsOf dicts.kinds sel.kinds

def recordsBySelectorPage (inner : StoreInner) (sel : Selector) (generation limit : ℕ)
    (afterKeyHex : Option Text) : Except Fault Batch := do
  let categories ← categoryIds sel
  let (rows, next) := inner.byKindSelector (universalKindIds inner.dicts sel) categories
    (kindIds inner.dicts sel) generation limit (afterKeyHex.bind parseHex32)
  .ok ⟨rows, next.map (fun key => hexEncode key.bytes)⟩

def countVisibleBySelector (inner : StoreInner) (sel : Selector) (generation : ℕ) :
    Except Fault ℕ := do
  let categories ← sel.categories.mapM categoryToByte
  let count :=
    inner.countByKindSelector (idsOf inner.dicts.universalKinds sel.universalKinds) categories
    (idsOf inner.dicts.kinds sel.kinds) generation
  if count < 2 ^ 32 then .ok count
  else .error (.error "visible selector count exceeds the native numeric range")

def selectorPages (inner : StoreInner) (sel : Selector) (generation limit : ℕ) :
    ℕ → Option Text → Except Fault (Option (List StoredRow))
  | 0, _ => .ok none
  | fuel + 1, afterKeyHex => do
    let batch ← recordsBySelectorPage inner sel generation limit afterKeyHex
    match batch.nextCursor with
    | none => .ok (some batch.rows)
    | some cursor =>
      let rest ← selectorPages inner sel generation limit fuel (some cursor)
      .ok (rest.map (batch.rows ++ ·))

def Selector.finds (sel : Selector) (dicts : Dictionaries) (row : StoredRow) : Bool :=
  listed sel.universalKinds dicts.universalKinds row.universalKindId &&
    (sel.categories.isEmpty || decide (categoryName row.category ∈ sel.categories))

def Selector.selects (sel : Selector) (dicts : Dictionaries) (row : StoredRow) : Bool :=
  sel.finds dicts row && listed sel.kinds dicts.kinds row.kindId

def SelectorExact (inner : StoreInner) (sel : Selector) (generation limit : ℕ) : Prop :=
  ∃ rows, (∀ fuel, (inner.iterVisible generation).length < fuel →
      selectorPages inner sel generation limit fuel none = .ok (some rows)) ∧
    rows.Perm ((inner.iterVisible generation).filter (sel.selects inner.dicts)) ∧
    countVisibleBySelector inner sel generation = .ok rows.length

end Calls

section Pages

variable {inner : StoreInner} {sel : Selector} {generation limit : ℕ} {categories : List Category}

theorem recordsBySelectorPage_eq (hcategories : categoryIds sel = .ok categories)
    (after : Option Text) :
    recordsBySelectorPage inner sel generation limit after =
      let page := inner.byKindSelector (universalKindIds inner.dicts sel) categories
        (kindIds inner.dicts sel) generation limit (after.bind parseHex32)
      .ok ⟨page.1, page.2.map (fun key => hexEncode key.bytes)⟩ := by
  unfold recordsBySelectorPage
  rw [hcategories]
  rfl

theorem selectorPages_eq (hcategories : categoryIds sel = .ok categories) (fuel : ℕ)
    (after : Option Text) :
    selectorPages inner sel generation limit fuel after =
      .ok (follow (fun limit afterKey => inner.byKindSelector
        (universalKindIds inner.dicts sel) categories
        (kindIds inner.dicts sel) generation limit afterKey) (fun _ => limit) fuel
        (after.bind parseHex32)) := by
  induction fuel generalizing after with
  | zero => rfl
  | succ fuel ih =>
    unfold selectorPages follow
    rw [recordsBySelectorPage_eq hcategories]
    dsimp only
    generalize inner.byKindSelector (universalKindIds inner.dicts sel) categories
      (kindIds inner.dicts sel) generation limit (after.bind parseHex32) = page
    obtain ⟨rows, next⟩ := page
    cases next with
    | none => rfl
    | some key =>
      have hrest := ih (some (hexEncode key.bytes))
      rw [Option.bind_some, parseHex32_hexEncode] at hrest
      change (selectorPages inner sel generation limit fuel (some (hexEncode key.bytes))).bind _ = _
      rw [hrest]
      rfl

theorem selectorPages_error {fault : Fault} (hcategories : categoryIds sel = .error fault)
    (fuel : ℕ)
    (after : Option Text) :
    selectorPages inner sel generation limit (fuel + 1) after = .error fault := by
  unfold selectorPages recordsBySelectorPage
  rw [hcategories]
  rfl

def pageRows (inner : StoreInner) (sel : Selector) (categories : List Category)
    (generation limit : ℕ) :
    List StoredRow :=
  if limit = 0 then []
  else sortOn (fun row => row.recordId) ((inner.iterVisible generation).filter
    (StoreInner.selectorMatches (universalKindIds inner.dicts sel) categories
      (kindIds inner.dicts sel)))

structure NamesOk (dicts : Dictionaries) : Prop where
  universalKinds : dicts.universalKinds.Nodup
  universalKinds_small : dicts.universalKinds.length ≤ 65535
  kinds : dicts.kinds.Nodup
  kinds_small : dicts.kinds.length ≤ 65535

theorem noneU16_notMem_kindIds (hnames : NamesOk inner.dicts) :
    noneU16 ∉ kindIds inner.dicts sel := by
  unfold kindIds
  split
  · exact List.not_mem_nil
  · exact noneU16_notMem_idsOf hnames.kinds hnames.kinds_small

theorem selectorPages_rows {reader : StoreReader} (h : inner.Reads reader) (hids : reader.IdsUnique)
    (hnames : NamesOk inner.dicts) (hcategories : categoryIds sel = .ok categories) {fuel : ℕ}
    (hfuel : (inner.iterVisible generation).length < fuel) :
    selectorPages inner sel generation limit fuel none =
      .ok (some (pageRows inner sel categories generation limit)) := by
  rw [selectorPages_eq hcategories]
  refine congrArg Except.ok ?_
  unfold pageRows
  by_cases hlimit : limit = 0
  · rw [if_pos hlimit]
    cases fuel with
    | zero => exact absurd hfuel (Nat.not_lt_zero _)
    | succ fuel =>
      unfold follow StoreInner.byKindSelector
      rw [if_pos (Or.inl hlimit)]
  · rw [if_neg hlimit]
    refine (h.selector_keyset hids (noneU16_notMem_kindIds hnames) generation).follow_none
      (fun _ => Nat.pos_of_ne_zero hlimit) ?_
    rw [length_sortOn]
    exact (List.length_filter_le _ _).trans_lt hfuel

end Pages

section Meaning

variable {inner : StoreInner} {sel : Selector} {dicts : Dictionaries} {categories : List Category}
  {row : StoredRow}

def Selector.KindsUnknown (sel : Selector) (dicts : Dictionaries) : Prop :=
  sel.kinds ≠ [] ∧ ∀ name ∈ sel.kinds, name ∉ dicts.kinds

theorem kindIds_eq (dicts : Dictionaries) (sel : Selector) :
    kindIds dicts sel = idsOf dicts.kinds sel.kinds := by
  unfold kindIds
  split
  · rename_i hempty
    rw [List.isEmpty_iff.mp hempty]
    rfl
  · rfl

theorem mem_universalKindIds (hnames : NamesOk dicts) (id : ℕ) :
    id ∈ universalKindIds dicts sel ↔ listed sel.universalKinds dicts.universalKinds id = true ∧
      id < dicts.universalKinds.length := by
  unfold universalKindIds listed
  cases sel.universalKinds.isEmpty with
  | true =>
    have hsmall := hnames.universalKinds_small
    rw [if_pos rfl, Bool.true_or, List.mem_map]
    constructor
    · rintro ⟨value, hvalue, rfl⟩
      rw [List.mem_range] at hvalue
      rw [Nat.mod_eq_of_lt (by omega)]
      exact ⟨rfl, hvalue⟩
    · rintro ⟨-, hlt⟩
      exact ⟨id, List.mem_range.mpr hlt, Nat.mod_eq_of_lt (by omega)⟩
  | false =>
    rw [if_neg Bool.false_ne_true, Bool.false_or,
      mem_idsOf hnames.universalKinds hnames.universalKinds_small]
    refine ⟨fun h => ⟨h, ?_⟩, fun h => h.1⟩
    by_contra hge
    rw [List.getElem?_eq_none (not_lt.mp hge)] at h
    cases h

theorem mem_categoryIds (h : categoryIds sel = .ok categories) (category : Category) :
    category ∈ categories ↔
      (sel.categories.isEmpty || decide (categoryName category ∈ sel.categories)) = true := by
  unfold categoryIds at h
  cases hempty : sel.categories.isEmpty with
  | true =>
    rw [hempty, if_pos rfl] at h
    cases h
    rw [Bool.true_or]
    exact iff_of_true (mem_allCategories category) rfl
  | false =>
    rw [hempty, if_neg Bool.false_ne_true] at h
    rw [Bool.false_or, decide_eq_true_eq, mapM_categoryToByte.mp h,
      List.mem_map_of_injective categoryName_injective]

theorem matches_kindIds (hnames : NamesOk dicts) (id : ℕ) :
    ((kindIds dicts sel).isEmpty || decide (id ∈ kindIds dicts sel)) = true ↔
      sel.KindsUnknown dicts ∨ listed sel.kinds dicts.kinds id = true := by
  rw [kindIds_eq, Bool.or_eq_true, List.isEmpty_iff, decide_eq_true_eq,
    mem_idsOf hnames.kinds hnames.kinds_small,
    idsOf_eq_nil, listed, Bool.or_eq_true, List.isEmpty_iff, Selector.KindsUnknown]
  by_cases hempty : sel.kinds = []
  · simp [hempty]
  · simp [hempty]

theorem selectorMatches_page (hnames : NamesOk dicts) (h : categoryIds sel = .ok categories) :
    StoreInner.selectorMatches (universalKindIds dicts sel) categories (kindIds dicts sel) row =
      true ↔
      sel.finds dicts row = true ∧ row.universalKindId < dicts.universalKinds.length ∧
        (sel.KindsUnknown dicts ∨ listed sel.kinds dicts.kinds row.kindId = true) := by
  unfold StoreInner.selectorMatches Selector.finds
  rw [Bool.and_eq_true, Bool.and_eq_true, Bool.and_eq_true, decide_eq_true_eq, decide_eq_true_eq,
    mem_universalKindIds hnames, mem_categoryIds h, matches_kindIds hnames]
  tauto

theorem not_selects_of_unknown (h : sel.KindsUnknown dicts) : sel.selects dicts row = false := by
  obtain ⟨hne, hunknown⟩ := h
  have hlisted : listed sel.kinds dicts.kinds row.kindId = false := by
    unfold listed
    rw [List.isEmpty_eq_false_iff.mpr hne, Bool.false_or]
    cases hkind : dicts.kinds[row.kindId]? with
    | none => rfl
    | some name =>
      have hname : name ∉ sel.kinds := fun hmem => hunknown name hmem (List.mem_of_getElem? hkind)
      rw [Option.any_some]
      exact decide_eq_false hname
  rw [Selector.selects, hlisted, Bool.and_false]

theorem countVisibleBySelector_ok {n : ℕ} (generation : ℕ)
    (h : sel.categories.mapM categoryToByte = .ok categories) :
    countVisibleBySelector inner sel generation = .ok n ↔
      (inner.selectorRows (idsOf inner.dicts.universalKinds sel.universalKinds) categories
        (kindIds inner.dicts sel) generation).length = n ∧ n < 2 ^ 32 := by
  unfold countVisibleBySelector
  rw [h, kindIds_eq, ← StoreInner.countByKindSelector_eq]
  change (if _ then Except.ok _ else _) = _ ↔ _
  split
  · rename_i hlt
    rw [Except.ok.injEq]
    exact ⟨fun heq => ⟨heq, heq ▸ hlt⟩, fun heq => heq.1⟩
  · rename_i hge
    constructor
    · intro heq
      cases heq
    · rintro ⟨heq, hlt⟩
      exact absurd (heq ▸ hlt) hge

def listedCategories (sel : Selector) (categories : List Category) : List Category :=
  if sel.categories.isEmpty then [] else categories

theorem mapM_listedCategories (h : categoryIds sel = .ok categories) :
    sel.categories.mapM categoryToByte = .ok (listedCategories sel categories) := by
  unfold categoryIds at h
  unfold listedCategories
  cases hempty : sel.categories.isEmpty with
  | true =>
    rw [List.isEmpty_iff.mp hempty]
    rfl
  | false =>
    rw [hempty, if_neg Bool.false_ne_true] at h
    rw [if_neg Bool.false_ne_true]
    exact h

theorem selectorMatches_count (dicts : Dictionaries) (sel : Selector) (categories : List Category)
    (row : StoredRow) :
    StoreInner.selectorMatches (idsOf dicts.universalKinds sel.universalKinds)
      (listedCategories sel categories)
        (kindIds dicts sel) row = true ↔
      (sel.universalKinds ≠ [] ∧ sel.categories ≠ []) ∧
        StoreInner.selectorMatches (universalKindIds dicts sel) categories (kindIds dicts sel) row =
          true := by
  by_cases hu : sel.universalKinds = []
  · simp [StoreInner.selectorMatches, hu, idsOf]
  · by_cases hc : sel.categories = []
    · simp [StoreInner.selectorMatches, hc, listedCategories]
    · rw [universalKindIds, listedCategories, if_neg (by simpa using hc),
        if_neg (by simpa using hu)]
      exact (and_iff_right ⟨hu, hc⟩).symm

end Meaning

section Exact

variable {inner : StoreInner} {reader : StoreReader} {sel : Selector} {generation limit : ℕ}
  {categories : List Category}

def ListedOnce (values names : List Text) (id : ℕ) : Prop :=
  ∀ name, names[id]? = some name → values.count name ≤ 1

structure SelectorOk (inner : StoreInner) (sel : Selector) (generation limit : ℕ) : Prop where
  categories : ∀ name ∈ sel.categories, name ∈ allCategories.map categoryName
  unknown : sel.KindsUnknown inner.dicts →
    (∀ row ∈ inner.iterVisible generation, sel.finds inner.dicts row = true →
      inner.dicts.universalKinds.length ≤ row.universalKindId) ∨
    limit = 0 ∧ (sel.universalKinds = [] ∨ sel.categories = [])
  known : ¬ sel.KindsUnknown inner.dicts →
    (inner.iterVisible generation).filter (sel.selects inner.dicts) = [] ∨
    0 < limit ∧ sel.universalKinds ≠ [] ∧ sel.categories ≠ [] ∧
      ((inner.iterVisible generation).filter (sel.selects inner.dicts)).length < 2 ^ 32 ∧
      ∀ row ∈ inner.iterVisible generation, sel.selects inner.dicts row = true →
        ListedOnce sel.universalKinds inner.dicts.universalKinds row.universalKindId ∧
        sel.categories.count (categoryName row.category) ≤ 1 ∧
        ListedOnce sel.kinds inner.dicts.kinds row.kindId

def countedRows (inner : StoreInner) (sel : Selector) (categories : List Category)
    (generation : ℕ) :
    List StoredRow :=
  inner.selectorRows (idsOf inner.dicts.universalKinds sel.universalKinds)
    (listedCategories sel categories)
    (kindIds inner.dicts sel) generation

theorem categoryIds_ok (sel : Selector) :
    (∃ categories, categoryIds sel = .ok categories) ↔
      ∀ name ∈ sel.categories, name ∈ allCategories.map categoryName := by
  unfold categoryIds
  cases hempty : sel.categories.isEmpty with
  | true =>
    rw [List.isEmpty_iff.mp hempty]
    exact iff_of_true ⟨_, rfl⟩ (fun name hname => absurd hname List.not_mem_nil)
  | false =>
    rw [if_neg Bool.false_ne_true]
    constructor
    · rintro ⟨categories, h⟩ name hname
      rw [mapM_categoryToByte.mp h] at hname
      obtain ⟨category, -, rfl⟩ := List.mem_map.mp hname
      exact List.mem_map_of_mem (mem_allCategories category)
    · intro h
      clear hempty
      generalize sel.categories = names at h
      induction names with
      | nil => exact ⟨[], rfl⟩
      | cons name names ih =>
        obtain ⟨category, -, hname⟩ := List.mem_map.mp (h name (List.mem_cons_self ..))
        obtain ⟨rest, hrest⟩ := ih (fun other hother => h other (List.mem_cons_of_mem _ hother))
        refine ⟨category :: rest, mapM_categoryToByte.mpr ?_⟩
        rw [List.map_cons, hname, ← mapM_categoryToByte.mp hrest]

theorem selectorExact_iff (h : inner.Reads reader) (hids : reader.IdsUnique)
    (hnames : NamesOk inner.dicts)
    (hcategories : categoryIds sel = .ok categories) :
    SelectorExact inner sel generation limit ↔
      (pageRows inner sel categories generation limit).Perm
        ((inner.iterVisible generation).filter (sel.selects inner.dicts)) ∧
      (countedRows inner sel categories generation).length =
          (pageRows inner sel categories generation limit).length ∧
      (pageRows inner sel categories generation limit).length < 2 ^ 32 := by
  constructor
  · rintro ⟨rows, hpages, hperm, hcount⟩
    have hrows := (hpages _ (Nat.lt_succ_self _)).symm.trans
      (selectorPages_rows h hids hnames hcategories (Nat.lt_succ_self _))
    obtain rfl := Option.some.inj (Except.ok.inj hrows)
    exact ⟨hperm, (countVisibleBySelector_ok generation (mapM_listedCategories hcategories)).mp
      hcount⟩
  · rintro ⟨hperm, hcount⟩
    exact ⟨_, fun fuel hfuel => selectorPages_rows h hids hnames hcategories hfuel, hperm,
      (countVisibleBySelector_ok generation (mapM_listedCategories hcategories)).mpr hcount⟩

theorem not_exact_of_error {fault : Fault} (h : categoryIds sel = .error fault) :
    ¬ SelectorExact inner sel generation limit := by
  rintro ⟨rows, hpages, -, -⟩
  have hpage := hpages _ (Nat.lt_succ_self _)
  rw [selectorPages_error h] at hpage
  cases hpage

theorem pageRows_perm (inner : StoreInner) (sel : Selector) (categories : List Category)
    (generation : ℕ)
    (hlimit : limit ≠ 0) :
    (pageRows inner sel categories generation limit).Perm ((inner.iterVisible generation).filter
      (StoreInner.selectorMatches (universalKindIds inner.dicts sel) categories
        (kindIds inner.dicts sel))) := by
  rw [pageRows, if_neg hlimit]
  exact sortOn_perm _ _

theorem pageRows_eq_nil (hnames : NamesOk inner.dicts)
    (hcategories : categoryIds sel = .ok categories) :
    pageRows inner sel categories generation limit = [] ↔ limit = 0 ∨
      ∀ row ∈ inner.iterVisible generation, ¬ (sel.finds inner.dicts row = true ∧
        row.universalKindId < inner.dicts.universalKinds.length ∧
          (sel.KindsUnknown inner.dicts ∨ listed sel.kinds inner.dicts.kinds row.kindId =
            true)) := by
  by_cases hlimit : limit = 0
  · rw [pageRows, if_pos hlimit]
    exact iff_of_true rfl (Or.inl hlimit)
  · have hempty := (pageRows_perm inner sel categories generation hlimit).length_eq
    rw [← List.length_eq_zero_iff, hempty, List.length_eq_zero_iff, List.filter_eq_nil_iff,
      or_iff_right hlimit]
    refine forall₂_congr (fun row _ => ?_)
    rw [selectorMatches_page hnames hcategories]

theorem selectorRows_eq_nil (h : inner.Reads reader) (hnames : NamesOk inner.dicts)
    (hcategories : categoryIds sel = .ok categories) :
    countedRows inner sel categories generation = [] ↔
      (sel.universalKinds = [] ∨ sel.categories = []) ∨
      ∀ row ∈ inner.iterVisible generation, ¬ (sel.finds inner.dicts row = true ∧
        row.universalKindId < inner.dicts.universalKinds.length ∧
          (sel.KindsUnknown inner.dicts ∨ listed sel.kinds inner.dicts.kinds row.kindId =
            true)) := by
  rw [countedRows, List.eq_nil_iff_forall_not_mem]
  simp only [h.mem_selectorRows _ generation (noneU16_notMem_kindIds hnames), List.mem_filter,
    selectorMatches_count, selectorMatches_page hnames hcategories, not_and]
  by_cases hu : sel.universalKinds = []
  · simp [hu]
  · by_cases hc : sel.categories = []
    · simp [hc]
    · simp [hu, hc]

theorem exact_unknown (h : inner.Reads reader) (hids : reader.IdsUnique)
    (hnames : NamesOk inner.dicts)
    (hcategories : categoryIds sel = .ok categories) (hunknown : sel.KindsUnknown inner.dicts) :
    SelectorExact inner sel generation limit ↔
      (∀ row ∈ inner.iterVisible generation, sel.finds inner.dicts row = true →
        inner.dicts.universalKinds.length ≤ row.universalKindId) ∨
      limit = 0 ∧ (sel.universalKinds = [] ∨ sel.categories = []) := by
  have hnone : (inner.iterVisible generation).filter (sel.selects inner.dicts) = [] := by
    rw [List.filter_eq_nil_iff]
    intro row _
    rw [not_selects_of_unknown hunknown]
    exact Bool.false_ne_true
  have hfound : (∀ row ∈ inner.iterVisible generation, ¬ (sel.finds inner.dicts row = true ∧
      row.universalKindId < inner.dicts.universalKinds.length ∧
        (sel.KindsUnknown inner.dicts ∨ listed sel.kinds inner.dicts.kinds row.kindId = true))) ↔
      ∀ row ∈ inner.iterVisible generation, sel.finds inner.dicts row = true →
        inner.dicts.universalKinds.length ≤ row.universalKindId := by
    refine forall₂_congr (fun row _ => ?_)
    rw [not_and, not_and]
    refine imp_congr_right (fun _ => ?_)
    constructor
    · intro hno
      by_contra hlt
      exact hno (not_le.mp hlt) (Or.inl hunknown)
    · intro hle hlt
      omega
  have hpage : pageRows inner sel categories generation limit = [] ↔ _ :=
    pageRows_eq_nil hnames hcategories
  have hcount : countedRows inner sel categories generation = [] ↔ _ :=
    selectorRows_eq_nil h hnames hcategories
  rw [hfound] at hpage hcount
  rw [selectorExact_iff h hids hnames hcategories, hnone, List.perm_nil, hpage]
  constructor
  · rintro ⟨hempty, hlength, -⟩
    rw [hpage.mpr hempty, List.length_nil, List.length_eq_zero_iff, hcount] at hlength
    tauto
  · intro hok
    have hempty : pageRows inner sel categories generation limit = [] := hpage.mpr (by tauto)
    rw [hempty, List.length_nil, List.length_eq_zero_iff, hcount]
    refine ⟨by tauto, by tauto, by decide⟩

theorem selects_iff (hu : sel.universalKinds ≠ []) (hknown : ¬ sel.KindsUnknown inner.dicts)
    (hnames : NamesOk inner.dicts) (hcategories : categoryIds sel = .ok categories)
    (row : StoredRow) :
    StoreInner.selectorMatches (universalKindIds inner.dicts sel) categories
      (kindIds inner.dicts sel) row =
      sel.selects inner.dicts row := by
  rw [Bool.eq_iff_iff, selectorMatches_page hnames hcategories, Selector.selects, Bool.and_eq_true,
    or_iff_right hknown]
  refine and_congr_right (fun hfinds => and_iff_right ?_)
  rw [Selector.finds, Bool.and_eq_true, listed, List.isEmpty_eq_false_iff.mpr hu,
    Bool.false_or] at hfinds
  by_contra hge
  rw [List.getElem?_eq_none (not_lt.mp hge)] at hfinds
  exact Bool.false_ne_true hfinds.1

theorem count_listedCategories (hc : sel.categories ≠ [])
    (hcategories : categoryIds sel = .ok categories)
    (category : Category) :
    (listedCategories sel categories).count category =
      sel.categories.count (categoryName category) := by
  have hempty := List.isEmpty_eq_false_iff.mpr hc
  rw [categoryIds, hempty, if_neg Bool.false_ne_true] at hcategories
  rw [listedCategories, hempty, if_neg Bool.false_ne_true]
  conv_rhs => rw [mapM_categoryToByte.mp hcategories]
  exact (List.count_map_of_injective _ _ categoryName_injective _).symm

theorem count_selected (hnames : NamesOk inner.dicts) (hu : sel.universalKinds ≠ [])
    (hc : sel.categories ≠ []) (hcategories : categoryIds sel = .ok categories) {row : StoredRow}
    (hselects : sel.selects inner.dicts row = true) :
    (idsOf inner.dicts.universalKinds sel.universalKinds).count row.universalKindId *
        ((listedCategories sel categories).count row.category *
          (if (kindIds inner.dicts sel).isEmpty then 1
            else (kindIds inner.dicts sel).count row.kindId)) = 1 ↔
      ListedOnce sel.universalKinds inner.dicts.universalKinds row.universalKindId ∧
        sel.categories.count (categoryName row.category) ≤ 1 ∧
        ListedOnce sel.kinds inner.dicts.kinds row.kindId := by
  have honce : ∀ {values names : List Text} {id : ℕ},
      (names[id]?).any (fun name => decide (name ∈ values)) = true →
      (((names[id]?).map (fun name => values.count name)).getD 0 = 1 ↔
        ListedOnce values names id) := by
    intro values names id hlisted
    unfold ListedOnce
    cases hname : names[id]? with
    | none =>
      rw [hname] at hlisted
      cases hlisted
    | some name =>
      rw [hname, Option.any_some, decide_eq_true_eq, ← List.count_pos_iff] at hlisted
      simp only [Option.map_some, Option.getD_some, Option.some.injEq, forall_eq']
      omega
  rw [Selector.selects, Selector.finds, Bool.and_eq_true, Bool.and_eq_true, listed,
    List.isEmpty_eq_false_iff.mpr hu, Bool.false_or, List.isEmpty_eq_false_iff.mpr hc,
      Bool.false_or,
    decide_eq_true_eq, ← List.count_pos_iff] at hselects
  obtain ⟨⟨huniversal, hcategory⟩, hkind⟩ := hselects
  have hkinds : (if (kindIds inner.dicts sel).isEmpty then 1
      else (kindIds inner.dicts sel).count row.kindId) = 1 ↔
      ListedOnce sel.kinds inner.dicts.kinds row.kindId := by
    rw [kindIds_eq]
    by_cases hempty : sel.kinds = []
    · rw [hempty]
      exact iff_of_true rfl (fun name _ => by simp)
    · rw [listed, List.isEmpty_eq_false_iff.mpr hempty, Bool.false_or] at hkind
      have hmem := (mem_idsOf hnames.kinds hnames.kinds_small).mpr hkind
      rw [if_neg (by simpa using List.ne_nil_of_mem hmem),
        count_idsOf hnames.kinds hnames.kinds_small]
      exact honce hkind
  rw [mul_eq_one, mul_eq_one, hkinds,
    count_idsOf hnames.universalKinds hnames.universalKinds_small, honce huniversal,
    count_listedCategories hc hcategories]
  refine and_congr_right (fun _ => and_congr_left (fun _ => ?_))
  omega

theorem mem_counted (h : inner.Reads reader) (hnames : NamesOk inner.dicts)
    (hcategories : categoryIds sel = .ok categories) (hknown : ¬ sel.KindsUnknown inner.dicts)
    (hu : sel.universalKinds ≠ []) (hc : sel.categories ≠ []) (row : StoredRow) :
    row ∈ countedRows inner sel categories generation ↔
      row ∈ (inner.iterVisible generation).filter (sel.selects inner.dicts) := by
  rw [countedRows, h.mem_selectorRows row generation (noneU16_notMem_kindIds hnames),
    List.mem_filter,
    List.mem_filter, selectorMatches_count, selects_iff hu hknown hnames hcategories]
  exact and_congr_right (fun _ => and_iff_right ⟨hu, hc⟩)

theorem count_counted (h : inner.Reads reader) (hids : reader.IdsUnique)
    (hnames : NamesOk inner.dicts)
    (hcategories : categoryIds sel = .ok categories) (hu : sel.universalKinds ≠ [])
    (hc : sel.categories ≠ []) {row : StoredRow} (hrow : row ∈ inner.iterVisible generation)
    (hselects : sel.selects inner.dicts row = true) :
    (countedRows inner sel categories generation).count row = 1 ↔
      ListedOnce sel.universalKinds inner.dicts.universalKinds row.universalKindId ∧
        sel.categories.count (categoryName row.category) ≤ 1 ∧
        ListedOnce sel.kinds inner.dicts.kinds row.kindId := by
  have hnodup : (inner.iterVisible generation).Nodup :=
    List.Nodup.of_map _ (h.visible_ids hids generation)
  rw [countedRows, h.count_selectorRows row generation (noneU16_notMem_kindIds hnames),
    List.count_eq_one_of_mem hnodup hrow, Nat.mul_one]
  exact count_selected hnames hu hc hcategories hselects

theorem exact_known (h : inner.Reads reader) (hids : reader.IdsUnique)
    (hnames : NamesOk inner.dicts)
    (hcategories : categoryIds sel = .ok categories) (hknown : ¬ sel.KindsUnknown inner.dicts) :
    SelectorExact inner sel generation limit ↔
      (inner.iterVisible generation).filter (sel.selects inner.dicts) = [] ∨
      0 < limit ∧ sel.universalKinds ≠ [] ∧ sel.categories ≠ [] ∧
        ((inner.iterVisible generation).filter (sel.selects inner.dicts)).length < 2 ^ 32 ∧
        ∀ row ∈ inner.iterVisible generation, sel.selects inner.dicts row = true →
          ListedOnce sel.universalKinds inner.dicts.universalKinds row.universalKindId ∧
          sel.categories.count (categoryName row.category) ≤ 1 ∧
          ListedOnce sel.kinds inner.dicts.kinds row.kindId := by
  have hnodup : ((inner.iterVisible generation).filter (sel.selects inner.dicts)).Nodup :=
    (List.Nodup.of_map _ (h.visible_ids hids generation)).sublist List.filter_sublist
  rw [selectorExact_iff h hids hnames hcategories]
  constructor
  · rintro ⟨hperm, hlength, hsmall⟩
    by_cases hempty : (inner.iterVisible generation).filter (sel.selects inner.dicts) = []
    · exact Or.inl hempty
    · have hlimit : limit ≠ 0 := by
        intro hzero
        rw [pageRows, if_pos hzero] at hperm
        exact hempty hperm.nil_eq.symm
      have hcounted : countedRows inner sel categories generation ≠ [] := by
        rw [← List.length_pos_iff, hlength, hperm.length_eq]
        exact List.length_pos_iff.mpr hempty
      rw [Ne, selectorRows_eq_nil h hnames hcategories, not_or, not_or] at hcounted
      obtain ⟨⟨hu, hc⟩, -⟩ := hcounted
      have hsub := hnodup.subperm (fun row hrow =>
        (mem_counted h hnames hcategories hknown hu hc row).mpr hrow)
      have hsame := hsub.perm_of_length_le (hlength.trans hperm.length_eq).le
      rw [hperm.length_eq] at hsmall
      refine Or.inr ⟨Nat.pos_of_ne_zero hlimit, hu, hc, hsmall, fun row hrow hselects => ?_⟩
      rw [← count_counted h hids hnames hcategories hu hc hrow hselects, ← hsame.count_eq]
      exact List.count_eq_one_of_mem hnodup (List.mem_filter.mpr ⟨hrow, hselects⟩)
  · rintro (hempty | ⟨hlimit, hu, hc, hsmall, honce⟩)
    · have hnone : ∀ row ∈ inner.iterVisible generation, ¬ (sel.finds inner.dicts row = true ∧
          row.universalKindId < inner.dicts.universalKinds.length ∧
            (sel.KindsUnknown inner.dicts ∨ listed sel.kinds inner.dicts.kinds row.kindId =
              true)) := by
        rintro row hrow ⟨hfinds, -, hkinds⟩
        refine List.filter_eq_nil_iff.mp hempty row hrow ?_
        rw [Selector.selects, hfinds, hkinds.resolve_left hknown]
        rfl
      have hpage : pageRows inner sel categories generation limit = [] :=
        (pageRows_eq_nil hnames hcategories).mpr (Or.inr hnone)
      have hcounted := (selectorRows_eq_nil h hnames hcategories).mpr (Or.inr hnone)
      rw [hempty, hpage, hcounted]
      exact ⟨List.Perm.nil, rfl, by decide⟩
    · have hpage : (pageRows inner sel categories generation limit).Perm
          ((inner.iterVisible generation).filter (sel.selects inner.dicts)) := by
        refine (pageRows_perm inner sel categories generation hlimit.ne').trans (List.Perm.of_eq ?_)
        exact List.filter_congr (fun row _ => selects_iff hu hknown hnames hcategories row)
      have hcounted : (countedRows inner sel categories generation).Perm
          ((inner.iterVisible generation).filter (sel.selects inner.dicts)) := by
        refine List.perm_iff_count.mpr (fun row => ?_)
        have hmem : row ∈ countedRows inner sel categories generation ↔ _ :=
          mem_counted h hnames hcategories hknown hu hc row
        by_cases hrow : row ∈ (inner.iterVisible generation).filter (sel.selects inner.dicts)
        · obtain ⟨hvisible, hselects⟩ := List.mem_filter.mp hrow
          rw [List.count_eq_one_of_mem hnodup hrow]
          exact (count_counted h hids hnames hcategories hu hc hvisible hselects).mpr
            (honce row hvisible hselects)
        · rw [List.count_eq_zero_of_not_mem hrow,
            List.count_eq_zero_of_not_mem (fun hin => hrow (hmem.mp hin))]
      rw [hpage.length_eq, hcounted.length_eq]
      exact ⟨hpage, rfl, hsmall⟩

theorem selector_pages_exact_iff [Sha256] {disk : Disk} {written : Digest32 → Option Bytes}
    {mtime : ℕ}
    {inner : StoreInner} (h : WrittenRun disk written) (hsnapshot : SnapshotOf ⟨disk, mtime⟩ inner)
    (hnames : NamesOk inner.dicts) (sel : Selector) (generation limit : ℕ) :
    SelectorExact inner sel generation limit ↔ SelectorOk inner sel generation limit := by
  obtain ⟨reader, hok⟩ := h.elided
  obtain ⟨reader', hopen, hreads⟩ := hsnapshot.reads
  obtain rfl := Except.ok.inj (hok.opens.symm.trans hopen)
  cases hcategories : categoryIds sel with
  | error fault =>
    refine iff_of_false (not_exact_of_error hcategories) (fun hsel => ?_)
    obtain ⟨categories, hok⟩ := (categoryIds_ok sel).mpr hsel.categories
    rw [hcategories] at hok
    cases hok
  | ok categories =>
    have hlisted := (categoryIds_ok sel).mp ⟨categories, hcategories⟩
    by_cases hunknown : sel.KindsUnknown inner.dicts
    · rw [exact_unknown hreads hok.ids hnames hcategories hunknown]
      exact ⟨fun hsel => ⟨hlisted, fun _ => hsel, fun hknown => absurd hunknown hknown⟩,
        fun hsel => hsel.unknown hunknown⟩
    · rw [exact_known hreads hok.ids hnames hcategories hunknown]
      exact ⟨fun hsel => ⟨hlisted, fun hyes => absurd hyes hunknown, fun _ => hsel⟩,
        fun hsel => hsel.known hunknown⟩

end Exact

section Instances

instance (dicts : Dictionaries) : Decidable (NamesOk dicts) :=
  decidable_of_iff (dicts.universalKinds.Nodup ∧ dicts.universalKinds.length ≤ 65535 ∧
    dicts.kinds.Nodup ∧
      dicts.kinds.length ≤ 65535)
    ⟨fun h => ⟨h.1, h.2.1, h.2.2.1, h.2.2.2⟩,
      fun h => ⟨h.universalKinds, h.universalKinds_small, h.kinds, h.kinds_small⟩⟩

def selectorBase : BaseInput :=
  { entityBase [plainEntity (Block.fill 32 1) (utf8 "jsts:function:a.ts:7:f") 7 1] with
    dicts := { Dictionaries.empty with
      kinds := [utf8 "jsts:entity_function"], universalKinds := [utf8 "core:declaration"] } }

def selectorScript [Sha256] : Except Fault (Disk × StoreInner) := do
  let (disk, _) ← writeBaseWithPending Disk.empty selectorBase
  let inner ← StoreInner.load ⟨disk, 0⟩
  if NamesOk inner.dicts then .ok (disk, inner) else .error (.error "names not admitted")

theorem selectorScript_store [Sha256] {disk : Disk} {inner : StoreInner}
    (h : selectorScript = .ok (disk, inner)) :
    (∃ written, WrittenRun disk written) ∧ SnapshotOf ⟨disk, 0⟩ inner ∧ NamesOk inner.dicts := by
  unfold selectorScript at h
  obtain ⟨⟨disk', roots⟩, hbase, h⟩ := ExceptOk.bind_eq_ok h
  obtain ⟨inner', hload, h⟩ := ExceptOk.bind_eq_ok h
  obtain ⟨hnames, h⟩ := ExceptOk.ite_eq_ok h
  cases h
  have hids : (selectorBase.rows.map (fun row => row.recordId)).Nodup := by decide +kernel
  exact ⟨⟨_, WrittenRun.base hids hbase⟩, .loaded hload, hnames⟩

theorem selector_pages_exact_iff_listed :
    ∃ (inner : StoreInner) (rows : List StoredRow), rows.length = 1 ∧
      countVisibleBySelector inner
        ⟨[utf8 "core:declaration"], [utf8 "entity"], [utf8 "jsts:entity_function"]⟩ 1 =
          .ok rows.length := by
  let _ := fixedDigest
  let sel : Selector := ⟨[utf8 "core:declaration"], [utf8 "entity"], [utf8 "jsts:entity_function"]⟩
  have hscript : (selectorScript).map (fun state =>
      (((state.2.iterVisible 1).filter (sel.selects state.2.dicts)).length, state.2.dicts.kinds)) =
        .ok (1, [utf8 "jsts:entity_function"]) := by
    decide +kernel
  obtain ⟨⟨disk, inner⟩, hstate, hfacts⟩ := ExceptOk.map_eq_ok hscript
  obtain ⟨hlength, hkinds⟩ := Prod.mk.inj hfacts
  obtain ⟨⟨written, hrun⟩, hsnapshot, hnames⟩ := selectorScript_store hstate
  have hsel : SelectorOk inner sel 1 1 := by
    refine ⟨by decide, fun hunknown => ?_,
      fun _ => Or.inr ⟨Nat.one_pos, by decide, by decide, ?_, ?_⟩⟩
    · exact absurd (hkinds ▸ List.mem_singleton_self _) (hunknown.2 _ (List.mem_singleton_self _))
    · rw [hlength]
      decide
    · intro row _ _
      refine ⟨fun name _ => ?_, ?_, fun name _ => ?_⟩
      · exact List.nodup_iff_count_le_one.mp (by decide) name
      · exact List.nodup_iff_count_le_one.mp (by decide) _
      · exact List.nodup_iff_count_le_one.mp (by decide) name
  obtain ⟨rows, -, hperm, hcount⟩ :=
    (selector_pages_exact_iff hrun hsnapshot hnames sel 1 1).mpr hsel
  exact ⟨inner, rows, hperm.length_eq.trans hlength, hcount⟩

theorem empty_selector_counts_nothing :
    ¬ ∀ (_ : Sha256) (disk : Disk) (written : Digest32 → Option Bytes) (mtime : ℕ)
      (inner : StoreInner),
      WrittenRun disk written → SnapshotOf ⟨disk, mtime⟩ inner → NamesOk inner.dicts →
      ∀ sel generation limit, SelectorExact inner sel generation limit := by
  intro hall
  let _ := fixedDigest
  have hscript : (selectorScript).map (fun state =>
      (((state.2.iterVisible 1).filter (Selector.selects ⟨[], [], []⟩ state.2.dicts)).length,
        match countVisibleBySelector state.2 ⟨[], [], []⟩ 1 with
        | .ok count => count
        | .error _ => 1)) = .ok (1, 0) := by
    decide +kernel
  obtain ⟨⟨disk, inner⟩, hstate, hfacts⟩ := ExceptOk.map_eq_ok hscript
  obtain ⟨hlength, hcounted⟩ := Prod.mk.inj hfacts
  obtain ⟨⟨written, hrun⟩, hsnapshot, hnames⟩ := selectorScript_store hstate
  obtain ⟨rows, -, hperm, hcount⟩ :=
    hall fixedDigest disk written 0 inner hrun hsnapshot hnames ⟨[], [], []⟩ 1 1
  have hone : rows.length = 1 := hperm.length_eq.trans hlength
  have hzero : rows.length = 0 := by
    dsimp only at hcounted
    rw [hcount] at hcounted
    exact hcounted
  omega

end Instances

end NativeNode
