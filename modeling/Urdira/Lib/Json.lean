import Mathlib

inductive Json (N : Type) where
  | null
  | bool (flag : Bool)
  | number (value : N)
  | string (text : String)
  | array (items : List (Json N))
  | object (fields : List (String × Json N))

namespace Json

variable {N : Type}

mutual

theorem induct {P : Json N → Prop} (null : P .null) (bool : ∀ flag, P (.bool flag))
    (number : ∀ value, P (.number value)) (string : ∀ text, P (.string text))
    (array : ∀ items, (∀ item ∈ items, P item) → P (.array items))
    (object : ∀ fields, (∀ field ∈ fields, P field.2) → P (.object fields)) : ∀ v : Json N, P v
  | .null => null
  | .bool flag => bool flag
  | .number value => number value
  | .string text => string text
  | .array items => array items (induct_items null bool number string array object items)
  | .object fields => object fields (induct_fields null bool number string array object fields)

theorem induct_items {P : Json N → Prop} (null : P .null) (bool : ∀ flag, P (.bool flag))
    (number : ∀ value, P (.number value)) (string : ∀ text, P (.string text))
    (array : ∀ items, (∀ item ∈ items, P item) → P (.array items))
    (object : ∀ fields, (∀ field ∈ fields, P field.2) → P (.object fields)) :
    ∀ items : List (Json N), ∀ item ∈ items, P item
  | [] => List.forall_mem_nil _
  | v :: items => List.forall_mem_cons.mpr
      ⟨induct null bool number string array object v,
        induct_items null bool number string array object items⟩

theorem induct_fields {P : Json N → Prop} (null : P .null) (bool : ∀ flag, P (.bool flag))
    (number : ∀ value, P (.number value)) (string : ∀ text, P (.string text))
    (array : ∀ items, (∀ item ∈ items, P item) → P (.array items))
    (object : ∀ fields, (∀ field ∈ fields, P field.2) → P (.object fields)) :
    ∀ fields : List (String × Json N), ∀ field ∈ fields, P field.2
  | [] => List.forall_mem_nil _
  | (_, v) :: fields => List.forall_mem_cons.mpr
      ⟨induct null bool number string array object v,
        induct_fields null bool number string array object fields⟩

end

section Everywhere

variable (onNumber : N → Prop) (onKeys : List String → Prop)

mutual

def Everywhere : Json N → Prop
  | .number value => onNumber value
  | .array items => EverywhereItems items
  | .object fields => onKeys (fields.map Prod.fst) ∧ EverywhereFields fields
  | _ => True

def EverywhereItems : List (Json N) → Prop
  | [] => True
  | v :: items => Everywhere v ∧ EverywhereItems items

def EverywhereFields : List (String × Json N) → Prop
  | [] => True
  | (_, v) :: fields => Everywhere v ∧ EverywhereFields fields

end

variable {onNumber onKeys}

theorem everywhere_array {items : List (Json N)} :
    Everywhere onNumber onKeys (.array items) ↔ ∀ v ∈ items, Everywhere onNumber onKeys v := by
  change EverywhereItems onNumber onKeys items ↔ _
  induction items with
  | nil => simp [EverywhereItems]
  | cons v items ih => rw [EverywhereItems, ih, List.forall_mem_cons]

theorem everywhere_object {fields : List (String × Json N)} :
    Everywhere onNumber onKeys (.object fields) ↔
      onKeys (fields.map Prod.fst) ∧ ∀ field ∈ fields, Everywhere onNumber onKeys field.2 := by
  have hfields : EverywhereFields onNumber onKeys fields ↔
      ∀ field ∈ fields, Everywhere onNumber onKeys field.2 := by
    induction fields with
    | nil => simp [EverywhereFields]
    | cons field fields ih => rw [EverywhereFields, ih, List.forall_mem_cons]
  rw [Everywhere, hfields]

end Everywhere

end Json
