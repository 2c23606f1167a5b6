import Urdira.Daemon.IpcFrame
import Urdira.Lib.AssocMap

open ByteOrder

namespace Daemon

theorem JsValue.induct {P : JsValue → Prop} (null : P .null) (boolean : ∀ b, P (.boolean b))
    (number : ∀ n, P (.number n)) (string : ∀ s, P (.string s)) (bytes : ∀ b, P (.bytes b))
    (array : ∀ items, (∀ item ∈ items, P item) → P (.array items))
    (object : ∀ own, (∀ entry ∈ own, P entry.2) → P (.object own))
    (derived : ∀ own prototype, (∀ entry ∈ own, P entry.2) → P prototype →
      P (.derived own prototype))
    (value : JsValue) : P value :=
  @JsValue.rec P (fun items => ∀ item ∈ items, P item) (fun own => ∀ entry ∈ own, P entry.2)
    (fun entry => P entry.2)
    null boolean number string bytes array object
      (fun own prototype hown hprototype => derived own prototype hown hprototype)
    (fun _ hitem => absurd hitem List.not_mem_nil)
    (fun _ _ hhead htail item hitem => (List.mem_cons.mp hitem).elim (fun h => h ▸ hhead)
      (htail item))
    (fun _ hentry => absurd hentry List.not_mem_nil)
    (fun _ _ hhead htail entry hentry => (List.mem_cons.mp hentry).elim (fun h => h ▸ hhead)
      (htail entry))
    (fun _ _ hvalue => hvalue) value

mutual

def JsValue.all (p : JsValue → Bool) : JsValue → Bool
  | .array items => p (.array items) && allItems p items
  | .object own => p (.object own) && allEntries p own
  | .derived own prototype => p (.derived own prototype) && allEntries p own && prototype.all p
  | value => p value

def allItems (p : JsValue → Bool) : List JsValue → Bool
  | [] => true
  | item :: items => item.all p && allItems p items

def allEntries (p : JsValue → Bool) : List (String × JsValue) → Bool
  | [] => true
  | (_, value) :: own => value.all p && allEntries p own

end

mutual

def JsValue.sortKeys : JsValue → JsValue
  | .array items => .array (sortItems items)
  | .object own => .object ((sortEntries own).mergeSort (fun a b => keyLe a.1 b.1))
  | .derived own prototype =>
    .derived ((sortEntries own).mergeSort (fun a b => keyLe a.1 b.1)) prototype.sortKeys
  | value => value

def sortItems : List JsValue → List JsValue
  | [] => []
  | item :: items => item.sortKeys :: sortItems items

def sortEntries : List (String × JsValue) → List (String × JsValue)
  | [] => []
  | (key, value) :: own => (key, value.sortKeys) :: sortEntries own

end

theorem allItems_eq (p : JsValue → Bool) (items : List JsValue) :
    allItems p items = items.all (JsValue.all p) := by
  induction items with
  | nil => rfl
  | cons item items ih => rw [allItems, List.all_cons, ih]

theorem allEntries_eq (p : JsValue → Bool) (own : List (String × JsValue)) :
    allEntries p own = own.all (fun entry => entry.2.all p) := by
  induction own with
  | nil => rfl
  | cons entry own ih =>
    obtain ⟨key, value⟩ := entry
    rw [allEntries, List.all_cons, ih]

theorem sortItems_eq (items : List JsValue) : sortItems items = items.map JsValue.sortKeys := by
  induction items with
  | nil => rfl
  | cons item items ih => rw [sortItems, List.map_cons, ih]

def sortEntry (entry : String × JsValue) : String × JsValue := (entry.1, entry.2.sortKeys)

theorem sortEntries_eq (own : List (String × JsValue)) : sortEntries own = own.map sortEntry := by
  induction own with
  | nil => rfl
  | cons entry own ih =>
    obtain ⟨key, value⟩ := entry
    rw [sortEntries, List.map_cons, ih]
    rfl

def plainNode : JsValue → Bool
  | .object own => decide (own.map Prod.fst).Nodup
  | .derived _ _ => false
  | _ => true

def JsValue.Plain (value : JsValue) : Prop := value.all plainNode = true

def protoFreeNode (value : JsValue) : Bool :=
  value.own.all (fun entry => decide (entry.1 ≠ "__proto__"))

def JsValue.ProtoFree (value : JsValue) : Prop := value.all protoFreeNode = true

section Order

theorem keyLe_total (a b : String) : keyLe a b = true ∨ keyLe b a = true := by
  rcases le_total (utf8 a) (utf8 b) with h | h
  · exact .inl (decide_eq_true h)
  · exact .inr (decide_eq_true h)

theorem keyLe_trans {a b c : String} (hab : keyLe a b = true) (hbc : keyLe b c = true) :
    keyLe a c = true :=
  decide_eq_true (le_trans (of_decide_eq_true hab) (of_decide_eq_true hbc))

abbrev entryLe {V : Type} (a b : String × V) : Bool := keyLe a.1 b.1

theorem entryLe_pairwise {V : Type} (own : List (String × V)) :
    (own.mergeSort entryLe).Pairwise (fun a b => entryLe a b = true) := by
  have htrans : ∀ a b c : String × V, entryLe a b = true → entryLe b c = true →
      entryLe a c = true :=
    fun _ _ _ hab hbc => keyLe_trans hab hbc
  have htotal : ∀ a b : String × V, (entryLe a b || entryLe b a) = true :=
    fun a b => (Bool.or_eq_true _ _).mpr (keyLe_total a.1 b.1)
  exact List.pairwise_mergeSort htrans htotal own

theorem map_sortEntry_mergeSort (own : List (String × JsValue)) :
    (own.mergeSort entryLe).map sortEntry = (own.map sortEntry).mergeSort entryLe :=
  List.map_mergeSort (fun _ _ _ _ => rfl)

theorem sortKeys_object (own : List (String × JsValue)) :
    (JsValue.object own).sortKeys = .object ((own.mergeSort entryLe).map sortEntry) := by
  rw [JsValue.sortKeys, sortEntries_eq, map_sortEntry_mergeSort]

theorem sortKeys_derived (own : List (String × JsValue)) (prototype : JsValue) :
    (JsValue.derived own prototype).sortKeys =
      .derived ((own.mergeSort entryLe).map sortEntry) prototype.sortKeys := by
  rw [JsValue.sortKeys, sortEntries_eq, map_sortEntry_mergeSort]

theorem sortKeys_array (items : List JsValue) :
    (JsValue.array items).sortKeys = .array (items.map JsValue.sortKeys) := by
  rw [JsValue.sortKeys, sortItems_eq]

theorem sortEntry_idem {own : List (String × JsValue)}
    (h : ∀ entry ∈ own, entry.2.sortKeys.sortKeys = entry.2.sortKeys) :
    ((own.mergeSort entryLe).map sortEntry).mergeSort entryLe =
      (own.mergeSort entryLe).map sortEntry ∧
      ((own.mergeSort entryLe).map sortEntry).map sortEntry =
        (own.mergeSort entryLe).map sortEntry := by
  constructor
  · rw [← map_sortEntry_mergeSort, List.mergeSort_of_pairwise (entryLe_pairwise own)]
  · rw [List.map_map]
    refine List.map_congr_left (fun entry hentry => ?_)
    have hmem : entry ∈ own := (List.mergeSort_perm own entryLe).mem_iff.mp hentry
    exact congrArg (Prod.mk entry.1) (h entry hmem)

theorem sortKeys_idem (value : JsValue) : value.sortKeys.sortKeys = value.sortKeys := by
  induction value using JsValue.induct with
  | null => rfl
  | boolean => rfl
  | number => rfl
  | string => rfl
  | bytes => rfl
  | array items ih =>
    rw [sortKeys_array, sortKeys_array, List.map_map]
    exact congrArg JsValue.array (List.map_congr_left ih)
  | object own ih =>
    obtain ⟨hsorted, hentries⟩ := sortEntry_idem ih
    rw [sortKeys_object, sortKeys_object, hsorted, hentries]
  | derived own prototype ih ihp =>
    obtain ⟨hsorted, hentries⟩ := sortEntry_idem ih
    rw [sortKeys_derived, sortKeys_derived, hsorted, hentries, ihp]

theorem all_protoFree_sorted (own : List (String × JsValue))
    (h : ∀ entry ∈ own, entry.2.sortKeys.all protoFreeNode = entry.2.all protoFreeNode) :
    ((own.mergeSort entryLe).map sortEntry).all (fun entry => decide (entry.1 ≠ "__proto__")) =
        own.all (fun entry => decide (entry.1 ≠ "__proto__")) ∧
      ((own.mergeSort entryLe).map sortEntry).all (fun entry => entry.2.all protoFreeNode) =
        own.all (fun entry => entry.2.all protoFreeNode) := by
  have hperm := List.mergeSort_perm own entryLe
  constructor
  · rw [List.all_map, Bool.eq_iff_iff, List.all_eq_true, List.all_eq_true]
    exact forall_congr' fun entry => imp_congr_left hperm.mem_iff
  · rw [List.all_map, Bool.eq_iff_iff, List.all_eq_true, List.all_eq_true]
    refine forall_congr' fun entry => ?_
    rw [hperm.mem_iff]
    exact forall_congr' fun hentry => by rw [Function.comp_apply, sortEntry, h entry hentry]

theorem protoFree_sortKeys (value : JsValue) :
    value.sortKeys.all protoFreeNode = value.all protoFreeNode := by
  induction value using JsValue.induct with
  | null => rfl
  | boolean => rfl
  | number => rfl
  | string => rfl
  | bytes => rfl
  | array items ih =>
    rw [sortKeys_array, JsValue.all, JsValue.all, allItems_eq, allItems_eq, List.all_map]
    have hitems : items.all (JsValue.all protoFreeNode ∘ JsValue.sortKeys) =
        items.all (JsValue.all protoFreeNode) := by
      rw [Bool.eq_iff_iff, List.all_eq_true, List.all_eq_true]
      exact forall₂_congr fun item hitem => by rw [Function.comp_apply, ih item hitem]
    rw [hitems]
    rfl
  | object own ih =>
    obtain ⟨hkeys, hvalues⟩ := all_protoFree_sorted own ih
    rw [sortKeys_object, JsValue.all, JsValue.all, allEntries_eq, allEntries_eq, hvalues,
      protoFreeNode, protoFreeNode,
      JsValue.own, JsValue.own, hkeys]
  | derived own prototype ih ihp =>
    obtain ⟨hkeys, hvalues⟩ := all_protoFree_sorted own ih
    rw [sortKeys_derived, JsValue.all, JsValue.all, allEntries_eq, allEntries_eq, hvalues,
      protoFreeNode, protoFreeNode,
      JsValue.own, JsValue.own, hkeys, ihp]

end Order

end Daemon
