import Urdira.Lib.AssocMap
import Urdira.Lib.DepthFirst
import Urdira.Lib.Utf16

open Utf16 DepthFirst Relation

namespace Canonical

namespace DigestRecipes

abbrev Name := List CodeUnit

def name (text : String) : Name := encode text.toList

def atSign : CodeUnit := 64

-- Numbers up to ===, with one NaN: how they print, and what Number reads from a text or from
-- undefined.
structure Numbers (N : Type) where
  text : N → Name
  parse : Option Name → N
  text_injective : Function.Injective text
  text_plain : ∀ n, atSign ∉ text n

structure DigestPayloadFieldBinding where
  valueMode : Name
  referencedDigestRecipeId : Option Name
  referencedDigestRecipeVersion : Option Name

inductive DigestPayloadBinding where
  | text (value : Name)
  | object (bindingKind : Name) (fieldBindings : Option (List DigestPayloadFieldBinding))

structure DigestRecipe (N : Type) where
  digestRecipeId : Name
  recipeVersion : N
  payloadBinding : Option DigestPayloadBinding

inductive Detail (N : Type) where
  | text (value : Name)
  | number (value : N)
  | path (coordinates : List Name)

structure RecipeError (N : Type) where
  code : String
  phase : String
  details : List (String × Detail N)

def decimalText : Option ℕ → List Char
  | some n => Nat.toDigits 10 n
  | none => "NaN".toList

def numberOf (text : List Char) : Option ℕ :=
  if text.all Char.isDigit then some (Nat.ofDigitChars 10 text 0) else none

theorem isDigit_of_mem_toDigits {n : ℕ} : ∀ c ∈ Nat.toDigits 10 n, c.isDigit = true :=
  fun _ hc => Nat.isDigit_of_mem_toDigits (by decide) (by decide) hc

theorem numberOf_decimalText (n : Option ℕ) : numberOf (decimalText n) = n := by
  cases n with
  | none => decide
  | some n =>
    rw [decimalText, numberOf, if_pos (List.all_eq_true.mpr isDigit_of_mem_toDigits),
      Nat.ofDigitChars_ten_toDigits]

theorem at_notMem_decimalText (n : Option ℕ) : '@' ∉ decimalText n := by
  intro hmem
  cases n with
  | none => exact absurd hmem (by decide)
  | some n => exact absurd (isDigit_of_mem_toDigits '@' hmem) (by decide)

def decimals : Numbers (Option ℕ) where
  text n := encode (decimalText n)
  parse text := text.bind (fun units => numberOf (units.map (fun unit => Char.ofNat unit.val)))
  text_injective := encode_injective.comp (Function.LeftInverse.injective numberOf_decimalText)
  text_plain n hmem := by
    obtain ⟨c, hc, hunit⟩ := List.mem_flatMap.mp hmem
    rcases Nat.lt_or_ge c.toNat 65536 with hplain | hhigh
    · rw [codeUnits_plain hplain, List.mem_singleton] at hunit
      have hval : '@'.toNat = c.toNat := Fin.mk.inj hunit
      exact at_notMem_decimalText n (Char.toNat_inj.mp hval ▸ hc)
    · obtain ⟨high, low, hunits, hhighVal, hlowVal, -, -⟩ := codeUnits_supplementary hhigh
      rw [hunits, List.mem_pair] at hunit
      have hval : atSign.val = 64 := rfl
      rcases hunit with h | h <;> rw [h] at hval <;> omega

section Validate

variable {N : Type} (numbers : Numbers N)

def coordinateOf (id : Name) (version : N) : Name := id ++ atSign :: numbers.text version

def coordinate (recipe : DigestRecipe N) : Name :=
  coordinateOf numbers recipe.digestRecipeId recipe.recipeVersion

def DigestPayloadFieldBinding.refers (field : DigestPayloadFieldBinding) : Bool :=
  decide (field.valueMode = name "referenced_digest") &&
    decide (field.referencedDigestRecipeId.getD [] ≠ [])

def DigestRecipe.references (recipe : DigestRecipe N) : List DigestPayloadFieldBinding :=
  match recipe.payloadBinding with
  | some (.object bindingKind fieldBindings) =>
    if bindingKind = name "record" then (fieldBindings.getD []).filter
      DigestPayloadFieldBinding.refers else []
  | _ => []

def fieldCoordinate (field : DigestPayloadFieldBinding) : Name :=
  coordinateOf numbers (field.referencedDigestRecipeId.getD [])
    (numbers.parse field.referencedDigestRecipeVersion)

def bindingInvalid (recipe : DigestRecipe N) : RecipeError N :=
  ⟨"uce:digest_binding_invalid", "recipe_validation",
    [("binding_failure_kind", .text (name "REFERENCED_RECIPE_INVALID")),
      ("digest_recipe_id", .text recipe.digestRecipeId),
        ("recipe_version", .number recipe.recipeVersion)]⟩

def recipeFaults : Faults DigestPayloadFieldBinding Name (RecipeError N) where
  cycle path := ⟨"uce:digest_recipe_cycle", "recipe_validation", [("cycle_path", .path path)]⟩
  unknown field :=
    ⟨"uce:unknown_digest_recipe", "recipe_validation",
      [("digest_recipe_id", .text (field.referencedDigestRecipeId.getD []))]⟩

def register : List (DigestRecipe N) → List (Name × DigestRecipe N) →
    Except (RecipeError N) (List (Name × DigestRecipe N))
  | [], byCoordinate => .ok byCoordinate
  | recipe :: recipes, byCoordinate =>
    if (AssocMap.get byCoordinate (coordinate numbers recipe)).isSome then .error
      (bindingInvalid recipe)
    else register recipes (AssocMap.insert byCoordinate (coordinate numbers recipe) recipe)

def recipeGraph (byCoordinate : List (Name × DigestRecipe N)) :
    Graph (DigestRecipe N) DigestPayloadFieldBinding Name where
  key := coordinate numbers
  edges := DigestRecipe.references
  target := fieldCoordinate numbers
  find := AssocMap.get byCoordinate

def validateDigestRecipeGraph (fuel : ℕ) (recipes : List (DigestRecipe N)) :
    Option (Except (RecipeError N) (List (DigestRecipe N))) :=
  match register numbers recipes [] with
  | .error fault => some (.error fault)
  | .ok byCoordinate =>
    (visitAll (recipeGraph numbers byCoordinate) recipeFaults fuel recipes ⟨[], []⟩).map
      (fun result => result.map (fun _ => recipes))

end Validate

section Coordinates

variable {N : Type} {numbers : Numbers N}

theorem append_at_inj {id id' version version' : Name} (h : atSign ∉ version)
    (h' : atSign ∉ version')
    (heq : id ++ atSign :: version = id' ++ atSign :: version') :
    id = id' ∧ version = version' := by
  have hlast : ∀ id version : Name, atSign ∉ version →
      (id ++ atSign :: version).reverse.takeWhile (fun unit => decide (unit ≠ atSign)) =
        version.reverse := by
    intro id version hplain
    have hall : ∀ unit ∈ version.reverse, decide (unit ≠ atSign) = true := by
      intro unit hunit
      refine decide_eq_true ?_
      rintro rfl
      exact hplain (List.mem_reverse.mp hunit)
    rw [List.reverse_append, List.reverse_cons, List.append_assoc,
      List.takeWhile_append_of_pos hall]
    simp
  have htail :=
    (hlast id version h).symm.trans ((congrArg _ (congrArg _ heq)).trans (hlast id' version' h'))
  have hversion : version = version' := List.reverse_injective htail
  rw [hversion] at heq
  exact ⟨List.append_cancel_right heq, hversion⟩

theorem coordinateOf_inj {id id' : Name} {version version' : N}
    (h : coordinateOf numbers id version = coordinateOf numbers id' version') :
    id = id' ∧ version = version' := by
  obtain ⟨hid, htext⟩ := append_at_inj (numbers.text_plain version) (numbers.text_plain version') h
  exact ⟨hid, numbers.text_injective htext⟩

def DigestRecipe.SharesCoordinate (a b : DigestRecipe N) : Prop :=
  a.digestRecipeId = b.digestRecipeId ∧ a.recipeVersion = b.recipeVersion

theorem coordinate_eq_iff {a b : DigestRecipe N} :
    coordinate numbers a = coordinate numbers b ↔ a.SharesCoordinate b := by
  constructor
  · exact coordinateOf_inj
  · rintro ⟨hid, hversion⟩
    rw [coordinate, coordinate, hid, hversion]

theorem register_ok {recipes : List (DigestRecipe N)}
    {byCoordinate : List (Name × DigestRecipe N)} :
    (∃ registered, register numbers recipes byCoordinate = .ok registered) ↔
      (recipes.map (coordinate numbers)).Nodup ∧
        ∀ recipe ∈ recipes, AssocMap.get byCoordinate (coordinate numbers recipe) = none := by
  induction recipes generalizing byCoordinate with
  | nil =>
    exact iff_of_true ⟨byCoordinate, rfl⟩ ⟨List.nodup_nil, fun _ h => absurd h List.not_mem_nil⟩
  | cons recipe recipes ih =>
    rw [register, List.map_cons, List.nodup_cons, List.forall_mem_cons]
    cases hget : AssocMap.get byCoordinate (coordinate numbers recipe) with
    | some known =>
      refine iff_of_false (fun ⟨_, h⟩ => ?_) (fun h => by cases h.2.1)
      cases h
    | none =>
      change (∃ registered, register numbers recipes _ = .ok registered) ↔ _
      rw [ih]
      constructor
      · rintro ⟨hnodup, hnew⟩
        have hfresh : coordinate numbers recipe ∉ recipes.map (coordinate numbers) := by
          intro hmem
          obtain ⟨other, hother, heq⟩ := List.mem_map.mp hmem
          have hnone := hnew other hother
          rw [heq, AssocMap.get_insert_self] at hnone
          cases hnone
        refine ⟨⟨hfresh, hnodup⟩, rfl, fun other hother => ?_⟩
        have hne : coordinate numbers other ≠ coordinate numbers recipe := by
          intro heq
          exact hfresh (heq ▸ List.mem_map_of_mem hother)
        have hnone := hnew other hother
        rwa [AssocMap.get_insert_ne _ _ hne] at hnone
      · rintro ⟨⟨hfresh, hnodup⟩, -, hnew⟩
        refine ⟨hnodup, fun other hother => ?_⟩
        have hne : coordinate numbers other ≠ coordinate numbers recipe := by
          intro heq
          exact hfresh (heq ▸ List.mem_map_of_mem hother)
        rw [AssocMap.get_insert_ne _ _ hne]
        exact hnew other hother

theorem register_eq {recipes : List (DigestRecipe N)}
    {byCoordinate registered : List (Name × DigestRecipe N)}
    (h : register numbers recipes byCoordinate = .ok registered) : registered =
      AssocMap.insertAll byCoordinate (recipes.map
        (fun recipe => (coordinate numbers recipe, recipe))) := by
  induction recipes generalizing byCoordinate with
  | nil => exact (Except.ok.inj h).symm
  | cons recipe recipes ih =>
    rw [register] at h
    split at h
    · cases h
    · exact ih h

theorem find_registered {recipes : List (DigestRecipe N)}
    {registered : List (Name × DigestRecipe N)}
    (h : register numbers recipes [] = .ok registered) (k : Name) (recipe : DigestRecipe N) :
    AssocMap.get registered k = some recipe ↔ recipe ∈ recipes ∧ coordinate numbers recipe = k := by
  obtain ⟨hnodup, -⟩ := register_ok.mp ⟨registered, h⟩
  have hkeys :
      ((recipes.map (fun recipe => (coordinate numbers recipe, recipe))).map Prod.fst).Nodup := by
    rw [List.map_map]
    exact hnodup
  have hmem : ∀ other ∈ recipes, AssocMap.get registered (coordinate numbers other) =
      some other := by
    intro other hother
    rw [register_eq h]
    exact AssocMap.get_insertAll_of_mem hkeys [] (List.mem_map.mpr ⟨other, hother, rfl⟩)
  constructor
  · intro hget
    by_cases hk : k ∈ recipes.map (coordinate numbers)
    · obtain ⟨other, hother, rfl⟩ := List.mem_map.mp hk
      obtain rfl := Option.some.inj ((hmem other hother).symm.trans hget)
      exact ⟨hother, rfl⟩
    · rw [register_eq h, AssocMap.get_insertAll_of_notMem] at hget
      · cases hget
      · rwa [List.map_map]
  · rintro ⟨hrecipe, rfl⟩
    exact hmem recipe hrecipe

end Coordinates

section References

variable {N : Type} (numbers : Numbers N) (recipes : List (DigestRecipe N))

def DistinctCoordinates : Prop := recipes.Pairwise (fun a b => ¬ a.SharesCoordinate b)

def DigestPayloadFieldBinding.Names (field : DigestPayloadFieldBinding) (target : DigestRecipe N) :
    Prop :=
  field.referencedDigestRecipeId = some target.digestRecipeId ∧
    numbers.parse field.referencedDigestRecipeVersion = target.recipeVersion

def ReferencesResolve : Prop :=
  ∀ recipe ∈ recipes, ∀ field ∈ recipe.references, ∃ target ∈ recipes, field.Names numbers target

def Refers (source target : Name × N) : Prop :=
  ∃ recipe ∈ recipes, ∃ field ∈ recipe.references, ∃ named ∈ recipes,
    (recipe.digestRecipeId, recipe.recipeVersion) = source ∧ field.Names numbers named ∧
      (named.digestRecipeId, named.recipeVersion) = target

def NoCycle : Prop := ∀ k, ¬ TransGen (Refers numbers recipes) k k

variable {numbers recipes}

theorem DigestPayloadFieldBinding.refers_of_mem {recipe : DigestRecipe N}
    {field : DigestPayloadFieldBinding}
    (h : field ∈ recipe.references) : field.refers = true := by
  unfold DigestRecipe.references at h
  split at h
  · split at h
    · exact (List.mem_filter.mp h).2
    · cases h
  · cases h

theorem names_iff {recipe target : DigestRecipe N} {field : DigestPayloadFieldBinding}
    (h : field ∈ recipe.references) :
    field.Names numbers target ↔ coordinate numbers target = fieldCoordinate numbers field := by
  have hid := (Bool.and_eq_true_iff.mp (DigestPayloadFieldBinding.refers_of_mem h)).2
  rw [decide_eq_true_eq] at hid
  obtain ⟨id, hsome⟩ : ∃ id, field.referencedDigestRecipeId = some id := by
    cases hcase : field.referencedDigestRecipeId with
    | none =>
      rw [hcase] at hid
      exact absurd rfl hid
    | some id => exact ⟨id, rfl⟩
  have hfield : fieldCoordinate numbers field =
      coordinateOf numbers id (numbers.parse field.referencedDigestRecipeVersion) := by
    rw [fieldCoordinate, hsome]
    rfl
  rw [hfield]
  constructor
  · rintro ⟨hname, hversion⟩
    rw [hsome] at hname
    rw [coordinate, ← Option.some.inj hname, ← hversion]
  · intro heq
    obtain ⟨hname, hversion⟩ := coordinateOf_inj heq
    exact ⟨by rw [hsome, hname], hversion.symm⟩

theorem distinctCoordinates_iff : (recipes.map (coordinate numbers)).Nodup ↔
      DistinctCoordinates recipes := by
  rw [List.Nodup, List.pairwise_map]
  constructor
  · exact fun h => h.imp (fun hab hshared => hab (coordinate_eq_iff.mpr hshared))
  · exact fun h => h.imp (fun hab heq => hab (coordinate_eq_iff.mp heq))

variable {registered : List (Name × DigestRecipe N)}
  (hregister : register numbers recipes [] = .ok registered)

include hregister

theorem dangling_iff : Dangling (recipeGraph numbers registered) ↔
      ¬ ReferencesResolve numbers recipes := by
  constructor
  · rintro ⟨k, recipe, field, hfind, hfield, hnone⟩ hresolve
    obtain ⟨hrecipe, -⟩ := (find_registered hregister k recipe).mp hfind
    obtain ⟨target, htarget, hnames⟩ := hresolve recipe hrecipe field hfield
    have hsome := (find_registered hregister _ target).mpr ⟨htarget, (names_iff hfield).mp hnames⟩
    exact Option.some_ne_none target (hsome.symm.trans hnone)
  · intro hunresolved
    unfold ReferencesResolve at hunresolved
    push Not at hunresolved
    obtain ⟨recipe, hrecipe, field, hfield, hnone⟩ := hunresolved
    refine ⟨_, recipe, field, (find_registered hregister _ recipe).mpr ⟨hrecipe, rfl⟩, hfield, ?_⟩
    cases hfind :
      (recipeGraph numbers registered).find ((recipeGraph numbers registered).target field) with
    | none => rfl
    | some target =>
      obtain ⟨htarget, hkey⟩ := (find_registered hregister _ target).mp hfind
      exact absurd ((names_iff hfield).mpr hkey) (hnone target htarget)

theorem edge_of_refers {source target : Name × N} (h : Refers numbers recipes source target) :
    Edge (recipeGraph numbers registered) (coordinateOf numbers source.1 source.2)
      (coordinateOf numbers target.1 target.2) := by
  obtain ⟨recipe, hrecipe, field, hfield, named, -, rfl, hnames, rfl⟩ := h
  exact ⟨recipe, (find_registered hregister _ recipe).mpr ⟨hrecipe, rfl⟩, field, hfield,
    ((names_iff hfield).mp hnames).symm⟩

theorem refers_of_edge (hresolve : ReferencesResolve numbers recipes) {a b : Name}
    (h : Edge (recipeGraph numbers registered) a b) :
    ∃ source target, coordinateOf numbers source.1 source.2 = a ∧
      coordinateOf numbers target.1 target.2 = b ∧
      Refers numbers recipes source target := by
  obtain ⟨recipe, hfind, field, hfield, rfl⟩ := h
  obtain ⟨hrecipe, hkey⟩ := (find_registered hregister a recipe).mp hfind
  obtain ⟨named, hnamed, hnames⟩ := hresolve recipe hrecipe field hfield
  exact ⟨(recipe.digestRecipeId, recipe.recipeVersion), (named.digestRecipeId, named.recipeVersion),
    hkey,
    (names_iff hfield).mp hnames, recipe, hrecipe, field, hfield, named, hnamed, rfl, hnames, rfl⟩

theorem refers_of_walk (hresolve : ReferencesResolve numbers recipes) {a b : Name}
    (h : TransGen (Edge (recipeGraph numbers registered)) a b) :
    ∃ source target, coordinateOf numbers source.1 source.2 = a ∧
      coordinateOf numbers target.1 target.2 = b ∧
      TransGen (Refers numbers recipes) source target := by
  induction h with
  | single hstep =>
    obtain ⟨source, target, hsource, htarget, hrefers⟩ := refers_of_edge hregister hresolve hstep
    exact ⟨source, target, hsource, htarget, .single hrefers⟩
  | tail _ hstep ih =>
    obtain ⟨source, middle, hsource, hmiddle, hwalk⟩ := ih
    obtain ⟨middle', target, hmiddle', htarget, hrefers⟩ := refers_of_edge hregister hresolve hstep
    obtain ⟨hid, hversion⟩ := coordinateOf_inj (hmiddle.trans hmiddle'.symm)
    obtain rfl : middle = middle' := Prod.ext hid hversion
    exact ⟨source, target, hsource, htarget, hwalk.tail hrefers⟩

theorem cyclic_iff (hresolve : ReferencesResolve numbers recipes) :
    Cyclic (recipeGraph numbers registered) ↔ ¬ NoCycle numbers recipes := by
  constructor
  · rintro ⟨k, hcycle⟩ hnone
    obtain ⟨source, target, hsource, htarget, hwalk⟩ := refers_of_walk hregister hresolve hcycle
    obtain ⟨hid, hversion⟩ := coordinateOf_inj (hsource.trans htarget.symm)
    obtain rfl : source = target := Prod.ext hid hversion
    exact hnone source hwalk
  · intro hcycle
    unfold NoCycle at hcycle
    push Not at hcycle
    obtain ⟨k, hwalk⟩ := hcycle
    exact ⟨_, hwalk.lift (fun c => coordinateOf numbers c.1 c.2)
      (fun _ _ hstep => edge_of_refers hregister hstep)⟩

end References

theorem recipe_graph_accepted_iff {N : Type} (numbers : Numbers N)
    (recipes : List (DigestRecipe N)) :
    ∃ result, (∀ fuel > recipes.length, validateDigestRecipeGraph numbers fuel recipes =
      some result) ∧
      (result = .ok recipes ↔
        DistinctCoordinates recipes ∧ ReferencesResolve numbers recipes ∧
          NoCycle numbers recipes) := by
  unfold validateDigestRecipeGraph
  cases hregister : register numbers recipes [] with
  | error fault =>
    refine ⟨.error fault, fun _ _ => rfl, iff_of_false (fun h => by cases h) ?_⟩
    rintro ⟨hdistinct, -⟩
    obtain ⟨registered, hok⟩ := register_ok.mpr
      ⟨distinctCoordinates_iff.mpr hdistinct, fun recipe _ =>
        (rfl : AssocMap.get [] (coordinate numbers recipe) = none)⟩
    rw [hregister] at hok
    cases hok
  | ok registered =>
    have hdistinct : DistinctCoordinates recipes :=
      distinctCoordinates_iff.mp (register_ok.mp ⟨registered, hregister⟩).1
    have hlaw : ∀ k recipe, (recipeGraph numbers registered).find k = some recipe →
        (recipeGraph numbers registered).key recipe = k :=
      fun k recipe hfind => ((find_registered hregister k recipe).mp hfind).2
    obtain ⟨result, hrun, hok⟩ :=
      @visitAll_iff _ _ _ (RecipeError N) (recipeGraph numbers registered) recipeFaults _
      hlaw recipes (find_registered hregister)
    refine ⟨result.map (fun _ => recipes), fun fuel hfuel => ?_, ?_⟩
    · dsimp only
      rw [hrun fuel hfuel]
      rfl
    · have hmap : result.map (fun _ => recipes) = .ok recipes ↔ ∃ marks, result = .ok marks := by
        cases result with
        | error fault => exact iff_of_false (fun h => by cases h) (fun ⟨_, h⟩ => by cases h)
        | ok marks => exact iff_of_true rfl ⟨marks, rfl⟩
      rw [hmap, hok, dangling_iff hregister, not_not]
      constructor
      · rintro ⟨hresolve, hcyclic⟩
        rw [cyclic_iff hregister hresolve, not_not] at hcyclic
        exact ⟨hdistinct, hresolve, hcyclic⟩
      · rintro ⟨-, hresolve, hcyclic⟩
        rw [cyclic_iff hregister hresolve, not_not]
        exact ⟨hresolve, hcyclic⟩

def referring (id target : String) : DigestRecipe (Option ℕ) :=
  ⟨name id, some 1,
    some (.object (name "record") (some
      [⟨name "referenced_digest", some (name target), some (name "1")⟩]))⟩

def faultCode : Option (Except (RecipeError (Option ℕ)) (List (DigestRecipe (Option ℕ)))) →
      Option String
  | some (.error fault) => some fault.code
  | _ => none

example : faultCode (validateDigestRecipeGraph decimals 3 [referring "a" "b", referring "b" "a"]) =
    some "uce:digest_recipe_cycle" := by decide +kernel

example : faultCode (validateDigestRecipeGraph decimals 2 [referring "a" "c"]) =
    some "uce:unknown_digest_recipe" := by decide +kernel

end DigestRecipes

end Canonical
