import Urdira.Daemon.ValueOrder

open ByteOrder

namespace Daemon

variable {wire : Wire} (hwire : wire.Lawful)

section Encoded

theorem encodeItems_ok {items : List JsValue} {encoded : List Bytes}
    (h : encodeItems wire items = .ok encoded) :
    List.Forall₂ (fun item bytes => encodeValue wire item = .ok bytes) items encoded := by
  induction items generalizing encoded with
  | nil =>
    obtain rfl := Except.ok.inj h
    exact .nil
  | cons item items ih =>
    rw [encodeItems] at h
    obtain ⟨first, hfirst, h⟩ := ExceptOk.bind_eq_ok h
    obtain ⟨rest, hrest, h⟩ := ExceptOk.bind_eq_ok h
    obtain rfl := Except.ok.inj h
    exact .cons hfirst (ih hrest)

theorem encodeEntries_ok {own : List (String × JsValue)} {entries : List (String × Bytes)}
    (h : encodeEntries wire own = .ok entries) :
    List.Forall₂ (fun entry encoded => entry.1 = encoded.1 ∧ encodeValue wire entry.2 =
      .ok encoded.2) own entries := by
  induction own generalizing entries with
  | nil =>
    obtain rfl := Except.ok.inj h
    exact .nil
  | cons entry own ih =>
    obtain ⟨key, value⟩ := entry
    rw [encodeEntries] at h
    obtain ⟨first, hfirst, h⟩ := ExceptOk.bind_eq_ok h
    obtain ⟨rest, hrest, h⟩ := ExceptOk.bind_eq_ok h
    obtain rfl := Except.ok.inj h
    exact .cons ⟨rfl, hfirst⟩ (ih hrest)

theorem exists_zip {α β : Type} {R : α → β → Prop} {xs : List α} {ys : List β}
    (h : List.Forall₂ R xs ys) :
    ∃ pairs : List (α × β), pairs.map Prod.fst = xs ∧ pairs.map Prod.snd = ys ∧ ∀ pair ∈ pairs,
      R pair.1 pair.2 := by
  induction h with
  | nil => exact ⟨[], rfl, rfl, fun _ hmem => absurd hmem List.not_mem_nil⟩
  | cons hhead _ ih =>
    obtain ⟨pairs, rfl, rfl, hpairs⟩ := ih
    exact ⟨(_, _) :: pairs, rfl, rfl, List.forall_mem_cons.mpr ⟨hhead, hpairs⟩⟩

end Encoded

section Steps

include hwire

theorem tag_isEmpty (field : ℕ) (wireType : WireType) (rest : Bytes) :
    (wire.tag field wireType ++ rest).isEmpty = false := by
  cases htag : wire.tag field wireType with
  | nil => exact absurd htag (hwire.tag_ne_nil field wireType)
  | cons byte bytes => rfl

theorem decodeValueFields_item (fuel : ℕ) {state : DecodedValueState}
    (hkind : state.kind = none ∨ state.kind = some .array) (body rest : Bytes) :
    decodeValueFields wire (fuel + 1) state
      (wire.tag 6 .lengthDelimited ++ wire.bytes body ++ rest) =
      decodeValue wire fuel body >>= fun value =>
        decodeValueFields wire fuel { state with
          kind := some .array, array := state.array ++ [value] } rest := by
  have hset : setDecodedCollectionKind state .array = .ok { state with kind := some .array } := by
    rw [setDecodedCollectionKind]
    rcases hkind with hkind | hkind
    · rw [hkind]
      rfl
    · rw [hkind]
      rfl
  have htag := hwire.readTag 6 .lengthDelimited (wire.bytes body ++ rest) (by decide) (by decide)
  have hbytes := hwire.readBytes body rest
  rw [decodeValueFields, List.append_assoc, tag_isEmpty hwire, htag]
  simp only [Bool.false_eq_true, if_false, read, bind, Except.bind, if_true,
    requireValueWireType, ne_eq,
    not_true_eq_false, hset, hbytes]

theorem decodeValueFields_entry (fuel : ℕ) {state : DecodedValueState}
    (hkind : state.kind = none ∨ state.kind = some .object) (body rest : Bytes) :
    decodeValueFields wire (fuel + 1) state
      (wire.tag 7 .lengthDelimited ++ wire.bytes body ++ rest) =
      decodeObjectEntry wire fuel none none body >>= fun entry =>
        if hasOwn state.object entry.1 then .error
          (frameInvalid "IPC object entry is incomplete or duplicated.")
        else assign state.object entry.1 entry.2 >>= fun object =>
          decodeValueFields wire fuel { state with kind := some .object, object } rest := by
  have hset : setDecodedCollectionKind state .object = .ok { state with kind := some .object } := by
    rw [setDecodedCollectionKind]
    rcases hkind with hkind | hkind
    · rw [hkind]
      rfl
    · rw [hkind]
      rfl
  have htag := hwire.readTag 7 .lengthDelimited (wire.bytes body ++ rest) (by decide) (by decide)
  have hbytes := hwire.readBytes body rest
  have hseven : ¬ (7 = 6) := by decide
  rw [decodeValueFields, List.append_assoc, tag_isEmpty hwire, htag]
  simp only [Bool.false_eq_true, if_false, read, bind, Except.bind, if_true,
    requireValueWireType, ne_eq,
    not_true_eq_false, hset, hbytes, if_neg hseven]

theorem decodeObjectEntry_encoded (fuel : ℕ) (key : String) (body : Bytes) :
    decodeObjectEntry wire (fuel + 3) none none (encodeEntry wire (key, body)) =
      (decodeValue wire (fuel + 1) body).map (fun value => (key, value)) := by
  have htag := hwire.readTag 1 .lengthDelimited
    (wire.string key ++ (wire.tag 2 .lengthDelimited ++ wire.bytes body)) (by decide) (by decide)
  have hstring := hwire.readString key (wire.tag 2 .lengthDelimited ++ wire.bytes body)
  have htag2 := hwire.readTag 2 .lengthDelimited (wire.bytes body) (by decide) (by decide)
  have hbytes := hwire.readBytes body []
  rw [List.append_nil] at hbytes
  rw [encodeEntry, List.append_assoc, decodeObjectEntry, tag_isEmpty hwire, htag]
  simp only [Bool.false_eq_true, if_false, read, bind, Except.bind, and_self, Option.isNone_none,
    if_true, hstring]
  rw [decodeObjectEntry, tag_isEmpty hwire, htag2]
  · simp only [Bool.false_eq_true, if_false, read, bind, Except.bind, and_self, Option.isNone_none,
      if_true, hbytes]
    cases decodeValue wire (fuel + 1) body with
    | error e => rfl
    | ok value => rfl
  · rintro _ _ - ⟨⟩
  · rintro _ _ ⟨⟩

theorem decodeValue_scalar {field : ℕ} {wireType : WireType} {rest : Bytes}
    {state : DecodedValueState}
    {value : JsValue} (hrange : 1 ≤ field ∧ field ≤ 10 ∧ field ≠ 6 ∧ field ≠ 7)
    (hfield : decodeScalarValueField wire field wireType {} rest = .ok (state, []))
    (hvalue : decodedValue state = .ok value) {fuel : ℕ}
    (hfuel : 2 * (wire.tag field wireType ++ rest).length + 2 ≤ fuel) :
    decodeValue wire fuel (wire.tag field wireType ++ rest) = .ok value := by
  have htag := hwire.readTag field wireType rest hrange.1 hrange.2.1
  have hpos := List.length_pos_of_ne_nil (hwire.tag_ne_nil field wireType)
  rw [List.length_append] at hfuel
  obtain ⟨fuel, rfl⟩ : ∃ n, fuel = n + 3 := ⟨fuel - 3, by omega⟩
  rw [decodeValue, decodeValueFields, tag_isEmpty hwire, htag]
  simp only [Bool.false_eq_true, if_false, read, bind, Except.bind, if_neg hrange.2.2.1,
    if_neg hrange.2.2.2, hfield]
  rw [decodeValueFields]
  exact hvalue

end Steps

section Items

theorem hasOwn_object {own : List (String × JsValue)} {key : String} (h : key ∉ own.map Prod.fst) :
    hasOwn (.object own) key = false := by
  have hnone : own.lookup key = none := (AssocMap.get_eq_none_iff own key).mpr h
  rw [hasOwn, JsValue.own, hnone]
  rfl

theorem assign_object {own : List (String × JsValue)} {key : String} (h : key ∉ own.map Prod.fst)
    (hproto : key ≠ "__proto__") (value : JsValue) :
    assign (.object own) key value = .ok (.object (own ++ [(key, value)])) := by
  have hnone : own.lookup key = none := (AssocMap.get_eq_none_iff own key).mpr h
  rw [assign, inherited, hnone, inheritedFromObject, if_neg hproto]
  rfl

include hwire

def DecodesTo (wire : Wire) (body : Bytes) (value : JsValue) : Prop :=
  ∀ fuel, 2 * body.length + 2 ≤ fuel → decodeValue wire fuel body = .ok value

def encodedItem (wire : Wire) (item : Bytes) : Bytes :=
  wire.tag 6 .lengthDelimited ++ wire.bytes item

def encodedEntry (wire : Wire) (entry : String × Bytes) : Bytes :=
  wire.tag 7 .lengthDelimited ++ wire.bytes (encodeEntry wire entry)

omit hwire in
theorem encodeObject_cons (entry : String × Bytes) (entries : List (String × Bytes)) :
    encodeObject wire (entry :: entries) =
      ((entry :: entries).mergeSort entryLe).flatMap (encodedEntry wire) := rfl

theorem length_encodedItem (item : Bytes) : item.length < (encodedItem wire item).length := by
  have htag := List.length_pos_of_ne_nil (hwire.tag_ne_nil 6 .lengthDelimited)
  have hbytes := hwire.length_bytes item
  rw [encodedItem, List.length_append]
  omega

theorem length_encodedEntry (entry : String × Bytes) :
    entry.2.length + 3 ≤ (encodedEntry wire entry).length := by
  have htag := List.length_pos_of_ne_nil (hwire.tag_ne_nil 7 .lengthDelimited)
  have htag1 := List.length_pos_of_ne_nil (hwire.tag_ne_nil 1 .lengthDelimited)
  have htag2 := List.length_pos_of_ne_nil (hwire.tag_ne_nil 2 .lengthDelimited)
  have hbytes := hwire.length_bytes (encodeEntry wire entry)
  have hvalue := hwire.length_bytes entry.2
  rw [encodeEntry, List.length_append, List.length_append, List.length_append] at hbytes
  rw [encodedEntry, List.length_append, encodeEntry]
  omega

theorem decodeValueFields_items {pairs : List (Bytes × JsValue)}
    (h : ∀ pair ∈ pairs, DecodesTo wire pair.1 pair.2)
    {state : DecodedValueState} (hkind : state.kind = none ∨ state.kind = some .array) {fuel : ℕ}
    (hfuel : 2 * (pairs.flatMap (fun pair => encodedItem wire pair.1)).length + 1 ≤ fuel) :
    decodeValueFields wire fuel state (pairs.flatMap (fun pair => encodedItem wire pair.1)) =
      .ok { state with
        kind := if pairs.isEmpty then state.kind else some .array
        array := state.array ++ pairs.map Prod.snd } := by
  induction pairs generalizing state fuel with
  | nil =>
    obtain ⟨fuel, rfl⟩ : ∃ n, fuel = n + 1 := ⟨fuel - 1, by omega⟩
    rw [List.flatMap_nil, decodeValueFields, List.map_nil, List.append_nil]
    rfl
  | cons pair pairs ih =>
    have hlength := length_encodedItem hwire pair.1
    rw [List.flatMap_cons, List.length_append] at hfuel
    obtain ⟨fuel, rfl⟩ : ∃ n, fuel = n + 1 := ⟨fuel - 1, by omega⟩
    have hvalue := h pair List.mem_cons_self fuel (by omega)
    have hrest : decodeValueFields wire fuel
        { state with kind := some .array, array := state.array ++ [pair.2] }
        (pairs.flatMap (fun pair => encodedItem wire pair.1)) = _ :=
      ih (fun pair hpair => h pair (List.mem_cons_of_mem _ hpair)) (.inr rfl) (by omega)
    rw [List.flatMap_cons, encodedItem, decodeValueFields_item hwire fuel hkind, hvalue]
    refine hrest.trans ?_
    simp only [ite_self, List.isEmpty_cons, Bool.false_eq_true, if_false, List.map_cons,
      List.append_assoc,
      List.singleton_append]

theorem decodeValueFields_entries {entries : List ((String × Bytes) × JsValue)}
    (h : ∀ entry ∈ entries, DecodesTo wire entry.1.2 entry.2 ∧ entry.1.1 ≠ "__proto__")
    {state : DecodedValueState} {own : List (String × JsValue)}
    (hobject : state.object = .object own)
    (hdistinct : (own.map Prod.fst ++ entries.map (fun entry => entry.1.1)).Nodup)
    (hkind : state.kind = none ∨ state.kind = some .object) {fuel : ℕ}
    (hfuel : 2 * (entries.flatMap (fun entry => encodedEntry wire entry.1)).length + 1 ≤ fuel) :
    decodeValueFields wire fuel state (entries.flatMap (fun entry => encodedEntry wire entry.1)) =
      .ok { state with
        kind := if entries.isEmpty then state.kind else some .object
        object := .object (own ++ entries.map (fun entry => (entry.1.1, entry.2))) } := by
  induction entries generalizing state own fuel with
  | nil =>
    obtain ⟨fuel, rfl⟩ : ∃ n, fuel = n + 1 := ⟨fuel - 1, by omega⟩
    rw [List.flatMap_nil, decodeValueFields, List.map_nil, List.append_nil, ← hobject]
    rfl
  | cons entry entries ih =>
    obtain ⟨⟨key, body⟩, value⟩ := entry
    obtain ⟨hdecodes, hproto⟩ := h _ List.mem_cons_self
    have hlength := length_encodedEntry hwire (key, body)
    rw [List.flatMap_cons, List.length_append] at hfuel
    dsimp only at hlength hfuel hdecodes
    obtain ⟨fuel, rfl⟩ : ∃ n, fuel = n + 4 := ⟨fuel - 4, by omega⟩
    have hvalue := hdecodes (fuel + 1) (by omega)
    have hfresh : key ∉ own.map Prod.fst := by
      intro hmem
      rw [List.map_cons] at hdistinct
      exact List.disjoint_of_nodup_append hdistinct hmem List.mem_cons_self
    have hnext :
        ((own ++ [(key, value)]).map Prod.fst ++ entries.map (fun entry => entry.1.1)).Nodup := by
      rw [List.map_append, List.append_assoc]
      exact hdistinct
    have hrest : decodeValueFields wire (fuel + 3)
        { state with kind := some .object, object := .object (own ++ [(key, value)]) }
        (entries.flatMap (fun entry => encodedEntry wire entry.1)) = _ :=
      ih (fun entry hentry => h entry (List.mem_cons_of_mem _ hentry)) rfl hnext
        (.inr rfl) (by omega)
    rw [List.flatMap_cons, encodedEntry, decodeValueFields_entry hwire (fuel + 3) hkind,
      decodeObjectEntry_encoded hwire fuel key body, hvalue]
    simp only [Except.map, bind, Except.bind, hobject, hasOwn_object hfresh,
      Bool.false_eq_true, if_false,
      assign_object hfresh hproto]
    refine hrest.trans ?_
    simp only [ite_self, List.isEmpty_cons, Bool.false_eq_true, if_false, List.map_cons,
      List.append_assoc,
      List.singleton_append]

end Items

section Sorted

theorem plain_object {own : List (String × JsValue)} (h : (JsValue.object own).Plain) :
    (own.map Prod.fst).Nodup ∧ ∀ entry ∈ own, entry.2.Plain := by
  rw [JsValue.Plain, JsValue.all, allEntries_eq, Bool.and_eq_true, List.all_eq_true] at h
  exact ⟨of_decide_eq_true h.1, h.2⟩

theorem plain_array {items : List JsValue} (h : (JsValue.array items).Plain) :
    ∀ item ∈ items, item.Plain := by
  rw [JsValue.Plain, JsValue.all, allItems_eq, Bool.and_eq_true, List.all_eq_true] at h
  exact h.2

theorem not_plain_derived {own : List (String × JsValue)} {prototype : JsValue} :
    ¬ (JsValue.derived own prototype).Plain := by
  intro h
  rw [JsValue.Plain, JsValue.all, Bool.and_eq_true, Bool.and_eq_true] at h
  cases h.1.1

theorem protoFree_object {own : List (String × JsValue)} :
    (JsValue.object own).ProtoFree ↔ ∀ entry ∈ own, entry.1 ≠ "__proto__" ∧ entry.2.ProtoFree := by
  rw [JsValue.ProtoFree, JsValue.all, allEntries_eq, Bool.and_eq_true, protoFreeNode, JsValue.own,
    List.all_eq_true,
    List.all_eq_true]
  simp only [decide_eq_true_eq]
  exact forall₂_and.symm

theorem protoFree_array {items : List JsValue} :
    (JsValue.array items).ProtoFree ↔ ∀ item ∈ items, item.ProtoFree := by
  rw [JsValue.ProtoFree, JsValue.all, allItems_eq, Bool.and_eq_true, List.all_eq_true]
  exact and_iff_right rfl

theorem protoFree_derived {own : List (String × JsValue)} {prototype : JsValue} :
    (JsValue.derived own prototype).ProtoFree ↔ (JsValue.object own).ProtoFree ∧
      prototype.ProtoFree := by
  rw [JsValue.ProtoFree, JsValue.ProtoFree, JsValue.ProtoFree, JsValue.all, JsValue.all,
    Bool.and_eq_true,
    Bool.and_eq_true, Bool.and_eq_true]
  rfl

theorem exists_written {own : List (String × JsValue)} {entries : List (String × Bytes)}
    (h : encodeEntries wire own = .ok entries) :
    ∃ written : List ((String × Bytes) × JsValue),
      written.map Prod.fst = entries.mergeSort entryLe ∧
      written.map (fun entry => (entry.1.1, entry.2)) = own.mergeSort entryLe ∧
      ∀ entry ∈ written, encodeValue wire entry.2 = .ok entry.1.2 := by
  obtain ⟨pairs, hown, hentries, hpairs⟩ := exists_zip (encodeEntries_ok h)
  have hsort : (pairs.mergeSort (fun a b => entryLe a.2 b.2)).map Prod.snd =
      entries.mergeSort entryLe := by
    rw [← hentries]
    exact List.map_mergeSort (fun _ _ _ _ => rfl)
  have hsort' : (pairs.mergeSort (fun a b => entryLe a.2 b.2)).map Prod.fst =
      own.mergeSort entryLe := by
    rw [← hown]
    refine List.map_mergeSort (fun a ha b hb => ?_)
    rw [entryLe, entryLe, (hpairs a ha).1, (hpairs b hb).1]
  have hmem : ∀ pair ∈ pairs.mergeSort (fun a b => entryLe a.2 b.2), pair ∈ pairs :=
    fun pair hpair => (List.mergeSort_perm pairs _).mem_iff.mp hpair
  refine ⟨(pairs.mergeSort (fun a b => entryLe a.2 b.2)).map (fun pair => (pair.2, pair.1.2)),
    ?_, ?_, ?_⟩
  · rw [List.map_map, ← hsort]
    rfl
  · rw [List.map_map, ← hsort']
    refine List.map_congr_left (fun pair hpair => ?_)
    exact Prod.ext (hpairs pair (hmem pair hpair)).1.symm rfl
  · intro entry hentry
    obtain ⟨pair, hpair, rfl⟩ := List.mem_map.mp hentry
    exact (hpairs pair (hmem pair hpair)).2

end Sorted

section RoundTrip

include hwire

theorem decodesTo_null : DecodesTo wire (wire.tag 1 .varint ++ wire.bool true) .null := by
  intro fuel hfuel
  have hread := hwire.readBool true []
  rw [List.append_nil] at hread
  have hfield : decodeScalarValueField wire 1 .varint {} (wire.bool true) =
      .ok ({ kind := some .null }, []) := by
    simp only [decodeScalarValueField, hread]
    rfl
  exact decodeValue_scalar hwire (by decide) hfield rfl hfuel

theorem decodesTo_boolean (value : Bool) :
    DecodesTo wire (wire.tag 2 .varint ++ wire.bool value) (.boolean value) := by
  intro fuel hfuel
  have hread := hwire.readBool value []
  rw [List.append_nil] at hread
  have hfield : decodeScalarValueField wire 2 .varint {} (wire.bool value) =
      .ok ({ kind := some .boolean, scalar := .boolean value }, []) := by
    simp only [decodeScalarValueField, hread]
    rfl
  exact decodeValue_scalar hwire (by decide) hfield rfl hfuel

theorem decodesTo_number (value : Double) :
    DecodesTo wire (wire.tag 3 .bit64 ++ wire.double value) (.number value) := by
  intro fuel hfuel
  have hread := hwire.readDouble value []
  rw [List.append_nil] at hread
  have hfield : decodeScalarValueField wire 3 .bit64 {} (wire.double value) =
      .ok ({ kind := some .number, scalar := .number value }, []) := by
    simp only [decodeScalarValueField, hread]
    rfl
  exact decodeValue_scalar hwire (by decide) hfield rfl hfuel

theorem decodesTo_string (value : String) :
    DecodesTo wire (wire.tag 4 .lengthDelimited ++ wire.string value) (.string value) := by
  intro fuel hfuel
  have hread := hwire.readString value []
  rw [List.append_nil] at hread
  have hfield : decodeScalarValueField wire 4 .lengthDelimited {} (wire.string value) =
      .ok ({ kind := some .string, scalar := .string value }, []) := by
    simp only [decodeScalarValueField, hread]
    rfl
  exact decodeValue_scalar hwire (by decide) hfield rfl hfuel

theorem decodesTo_bytes (value : Bytes) :
    DecodesTo wire (wire.tag 5 .lengthDelimited ++ wire.bytes value) (.bytes value) := by
  intro fuel hfuel
  have hread := hwire.readBytes value []
  rw [List.append_nil] at hread
  have hfield : decodeScalarValueField wire 5 .lengthDelimited {} (wire.bytes value) =
      .ok ({ kind := some .bytes, scalar := .bytes value }, []) := by
    simp only [decodeScalarValueField, hread]
    rfl
  exact decodeValue_scalar hwire (by decide) hfield rfl hfuel

theorem decodesTo_emptyArray :
    DecodesTo wire (wire.tag 8 .varint ++ wire.bool true) (.array []) := by
  intro fuel hfuel
  have hread := hwire.readBool true []
  rw [List.append_nil] at hread
  have hfield : decodeScalarValueField wire 8 .varint {} (wire.bool true) =
      .ok ({ kind := some .array }, []) := by
    simp only [decodeScalarValueField, hread]
    rfl
  exact decodeValue_scalar hwire (by decide) hfield rfl hfuel

theorem decodesTo_emptyObject :
    DecodesTo wire (wire.tag 9 .varint ++ wire.bool true) (.object []) := by
  intro fuel hfuel
  have hread := hwire.readBool true []
  rw [List.append_nil] at hread
  have hfield : decodeScalarValueField wire 9 .varint {} (wire.bool true) =
      .ok ({ kind := some .object }, []) := by
    simp only [decodeScalarValueField, hread]
    rfl
  exact decodeValue_scalar hwire (by decide) hfield rfl hfuel

theorem decodesTo_array {pairs : List (Bytes × JsValue)} (hne : pairs ≠ [])
    (h : ∀ pair ∈ pairs, DecodesTo wire pair.1 pair.2) :
    DecodesTo wire (pairs.flatMap (fun pair => encodedItem wire pair.1))
      (.array (pairs.map Prod.snd)) := by
  intro fuel hfuel
  obtain ⟨fuel, rfl⟩ : ∃ n, fuel = n + 1 := ⟨fuel - 1, by omega⟩
  have hfields := @decodeValueFields_items wire hwire pairs h {} (.inl rfl) fuel (by omega)
  have hkind : pairs.isEmpty = false := by rwa [List.isEmpty_eq_false_iff]
  rw [decodeValue, hfields]
  simp only [bind, Except.bind, hkind, Bool.false_eq_true, if_false, decodedValue, List.nil_append]

theorem decodesTo_object {entries : List ((String × Bytes) × JsValue)} (hne : entries ≠ [])
    (h : ∀ entry ∈ entries, DecodesTo wire entry.1.2 entry.2 ∧ entry.1.1 ≠ "__proto__")
    (hdistinct : (entries.map (fun entry => entry.1.1)).Nodup) :
    DecodesTo wire (entries.flatMap (fun entry => encodedEntry wire entry.1))
      (.object (entries.map (fun entry => (entry.1.1, entry.2)))) := by
  intro fuel hfuel
  obtain ⟨fuel, rfl⟩ : ∃ n, fuel = n + 1 := ⟨fuel - 1, by omega⟩
  have hfields :=
    @decodeValueFields_entries wire hwire entries h {} [] rfl hdistinct (.inl rfl) fuel (by omega)
  have hkind : entries.isEmpty = false := by rwa [List.isEmpty_eq_false_iff]
  rw [decodeValue, hfields]
  simp only [bind, Except.bind, hkind, Bool.false_eq_true, if_false, decodedValue, List.nil_append]

theorem decodesTo_sortKeys (value : JsValue) (hplain : value.Plain) (hfree : value.ProtoFree)
    {bytes : Bytes}
    (h : encodeValue wire value = .ok bytes) : DecodesTo wire bytes value.sortKeys := by
  induction value using JsValue.induct generalizing bytes with
  | null =>
    obtain rfl := Except.ok.inj h
    exact decodesTo_null hwire
  | boolean value =>
    obtain rfl := Except.ok.inj h
    exact decodesTo_boolean hwire value
  | number value =>
    rw [encodeValue] at h
    obtain ⟨-, h⟩ := ExceptOk.ite_eq_ok h
    obtain rfl := Except.ok.inj h
    exact decodesTo_number hwire value
  | string value =>
    obtain rfl := Except.ok.inj h
    exact decodesTo_string hwire value
  | bytes value =>
    obtain rfl := Except.ok.inj h
    exact decodesTo_bytes hwire value
  | array items ih =>
    rw [encodeValue] at h
    obtain ⟨encoded, hencoded, h⟩ := ExceptOk.bind_eq_ok h
    obtain ⟨pairs, rfl, rfl, hpairs⟩ := exists_zip (encodeItems_ok hencoded)
    have hdecodes : ∀ pair ∈ pairs, DecodesTo wire pair.2 pair.1.sortKeys := by
      intro pair hpair
      have hitem : pair.1 ∈ pairs.map Prod.fst := List.mem_map_of_mem hpair
      exact ih pair.1 hitem (plain_array hplain _ hitem) (protoFree_array.mp hfree _ hitem)
        (hpairs pair hpair)
    rw [sortKeys_array, List.map_map]
    cases pairs with
    | nil =>
      obtain rfl := Except.ok.inj h
      exact decodesTo_emptyArray hwire
    | cons pair pairs =>
      obtain rfl := Except.ok.inj h
      have harray :=
        @decodesTo_array wire hwire ((pair :: pairs).map (fun pair => (pair.2, pair.1.sortKeys)))
        (List.cons_ne_nil _ _) (by
          intro written hwritten
          obtain ⟨pair, hpair, rfl⟩ := List.mem_map.mp hwritten
          exact hdecodes pair hpair)
      rw [List.flatMap_map, List.map_map] at harray
      rw [List.flatMap_map]
      exact harray
  | object own ih =>
    rw [encodeValue] at h
    obtain ⟨entries, hentries, h⟩ := ExceptOk.bind_eq_ok h
    obtain ⟨hdistinct, hvalues⟩ := plain_object hplain
    have hproto := protoFree_object.mp hfree
    obtain ⟨written, hsorted, hown, hwritten⟩ := exists_written hentries
    obtain rfl := Except.ok.inj h
    cases entries with
    | nil =>
      have hempty : own = [] := by
        cases encodeEntries_ok hentries
        rfl
      rw [hempty, sortKeys_object, List.mergeSort_nil, List.map_nil]
      exact decodesTo_emptyObject hwire
    | cons entry entries =>
      have hmem : ∀ entry ∈ written, (entry.1.1, entry.2) ∈ own := by
        intro entry hentry
        have hsortedMem : (entry.1.1, entry.2) ∈ own.mergeSort entryLe := by
          rw [← hown]
          exact List.mem_map_of_mem hentry
        exact (List.mergeSort_perm own entryLe).mem_iff.mp hsortedMem
      have hne : written ≠ [] := by
        rintro rfl
        have hlength := congrArg List.length hsorted
        rw [List.length_mergeSort] at hlength
        cases hlength
      have hkeys : (written.map (fun entry => entry.1.1)).Nodup := by
        have hmap : written.map (fun entry => entry.1.1) =
            (own.mergeSort entryLe).map Prod.fst := by
          rw [← hown, List.map_map]
          rfl
        rw [hmap]
        exact ((List.mergeSort_perm own entryLe).map Prod.fst).nodup_iff.mpr hdistinct
      have hobject :=
        @decodesTo_object wire hwire (written.map (fun entry => (entry.1, entry.2.sortKeys)))
        (by rwa [ne_eq, List.map_eq_nil_iff]) (by
          intro sorted hsortedMem
          obtain ⟨entry, hentry, rfl⟩ := List.mem_map.mp hsortedMem
          have hin := hmem entry hentry
          exact ⟨ih _ hin (hvalues _ hin) (hproto _ hin).2 (hwritten entry hentry),
            (hproto _ hin).1⟩)
        (by rw [List.map_map]; exact hkeys)
      rw [List.flatMap_map, List.map_map] at hobject
      rw [sortKeys_object, ← hown, List.map_map, encodeObject_cons, ← hsorted, List.flatMap_map]
      exact hobject
  | derived own prototype ih ihp => exact absurd hplain not_plain_derived

end RoundTrip

section Prototype

theorem protoFree_own {object : JsValue} (h : object.ProtoFree) :
    (JsValue.object object.own).ProtoFree := by
  cases object with
  | object own => exact h
  | derived own prototype => exact (protoFree_derived.mp h).1
  | null => rfl
  | boolean => rfl
  | number => rfl
  | string => rfl
  | bytes => rfl
  | array => rfl

theorem protoFree_append {own : List (String × JsValue)} {key : String} {value : JsValue}
    (hown : (JsValue.object own).ProtoFree) (hkey : key ≠ "__proto__") (hvalue : value.ProtoFree) :
    (JsValue.object (own ++ [(key, value)])).ProtoFree := by
  refine protoFree_object.mpr (fun entry hentry => ?_)
  rcases List.mem_append.mp hentry with hentry | hentry
  · exact protoFree_object.mp hown entry hentry
  · obtain rfl := List.mem_singleton.mp hentry
    exact ⟨hkey, hvalue⟩

theorem protoFree_withOwn {object : JsValue} {key : String} {value : JsValue}
    (hobject : object.ProtoFree)
    (hkey : key ≠ "__proto__") (hvalue : value.ProtoFree) :
    (withOwn object key value).ProtoFree := by
  have happend := protoFree_append (protoFree_own hobject) hkey hvalue
  cases object with
  | derived own prototype => exact protoFree_derived.mpr ⟨happend, (protoFree_derived.mp hobject).2⟩
  | object own => exact happend
  | null => exact happend
  | boolean => exact happend
  | number => exact happend
  | string => exact happend
  | bytes => exact happend
  | array => exact happend

theorem protoFree_setPrototype {object prototype : JsValue} (hobject : object.ProtoFree)
    (hprototype : prototype.ProtoFree) : (setPrototype object prototype).ProtoFree := by
  have hderived := protoFree_derived.mpr ⟨protoFree_own hobject, hprototype⟩
  cases prototype with
  | boolean => exact hobject
  | number => exact hobject
  | string => exact hobject
  | derived own prototype => exact hderived
  | object own => exact hderived
  | null => exact hderived
  | bytes => exact hderived
  | array => exact hderived

theorem protoFree_assign {object assigned value : JsValue} {key : String}
    (hobject : object.ProtoFree)
    (hvalue : value.ProtoFree) (hkey : key = "__proto__" → ∃ own, object = .object own)
    (h : assign object key value = .ok assigned) : assigned.ProtoFree := by
  unfold assign at h
  split at h
  · obtain rfl := Except.ok.inj h
    exact protoFree_setPrototype hobject hvalue
  · cases h
  · next hinherited =>
    obtain rfl := Except.ok.inj h
    refine protoFree_withOwn hobject ?_ hvalue
    rintro rfl
    obtain ⟨own, rfl⟩ := hkey rfl
    have hnone : own.lookup "__proto__" = none := by
      refine (AssocMap.get_eq_none_iff own "__proto__").mpr (fun hmem => ?_)
      obtain ⟨entry, hentry, hname⟩ := List.mem_map.mp hmem
      exact (protoFree_object.mp hobject entry hentry).1 hname
    rw [inherited, hnone] at hinherited
    cases hinherited

theorem assign_stays_object {own : List (String × JsValue)} {key : String}
    {value assigned : JsValue}
    (hkey : key ≠ "__proto__") (h : assign (.object own) key value = .ok assigned) :
    ∃ own', assigned = .object own' := by
  have hassignable : inherited key (.object own) = .assignable := by
    rw [inherited, inheritedFromObject, if_neg hkey]
    exact ite_self _
  rw [assign, hassignable] at h
  exact ⟨_, (Except.ok.inj h).symm⟩

def DecodesFree (wire : Wire) (body : Bytes) : Prop :=
  ∀ fuel, 2 * body.length + 2 ≤ fuel → ∀ value, decodeValue wire fuel body = .ok value →
    value.ProtoFree

theorem DecodesTo.free {body : Bytes} {value : JsValue} (h : DecodesTo wire body value)
    (hvalue : value.ProtoFree) :
    DecodesFree wire body := by
  intro fuel hfuel result hresult
  obtain rfl := Except.ok.inj ((h fuel hfuel).symm.trans hresult)
  exact hvalue

include hwire

theorem protoFree_items {bodies : List Bytes} (h : ∀ body ∈ bodies, DecodesFree wire body)
    {state result : DecodedValueState} (hkind : state.kind = none ∨ state.kind = some .array)
    (hstate : ∀ item ∈ state.array, item.ProtoFree) {fuel : ℕ}
    (hfuel : 2 * (bodies.flatMap (encodedItem wire)).length + 1 ≤ fuel)
    (hresult : decodeValueFields wire fuel state (bodies.flatMap (encodedItem wire)) = .ok result) :
    (∀ item ∈ result.array, item.ProtoFree) ∧ result.kind = if bodies.isEmpty then state.kind
      else some .array := by
  induction bodies generalizing state fuel with
  | nil =>
    obtain ⟨fuel, rfl⟩ : ∃ n, fuel = n + 1 := ⟨fuel - 1, by omega⟩
    rw [List.flatMap_nil, decodeValueFields] at hresult
    obtain rfl := Except.ok.inj hresult
    exact ⟨hstate, rfl⟩
  | cons body bodies ih =>
    have hlength := length_encodedItem hwire body
    rw [List.flatMap_cons, List.length_append] at hfuel
    obtain ⟨fuel, rfl⟩ : ∃ n, fuel = n + 1 := ⟨fuel - 1, by omega⟩
    rw [List.flatMap_cons, encodedItem, decodeValueFields_item hwire fuel hkind] at hresult
    obtain ⟨value, hvalue, hrest⟩ := ExceptOk.bind_eq_ok hresult
    have hfree := h body List.mem_cons_self fuel (by omega) value hvalue
    have hnext : ∀ item ∈ state.array ++ [value], item.ProtoFree := by
      intro item hitem
      rcases List.mem_append.mp hitem with hitem | hitem
      · exact hstate item hitem
      · exact (List.mem_singleton.mp hitem) ▸ hfree
    obtain ⟨hall, hkind'⟩ :=
      ih (fun body hbody => h body (List.mem_cons_of_mem _ hbody)) (.inr rfl) hnext (by omega) hrest
    refine ⟨hall, ?_⟩
    rw [hkind']
    exact ite_self _

theorem protoFree_entries {entries : List (String × Bytes)}
    (h : ∀ entry ∈ entries, DecodesFree wire entry.2)
    (hdistinct : (entries.map Prod.fst).Nodup) {state result : DecodedValueState}
    (hkind : state.kind = none ∨ state.kind = some .object) (hstate : state.object.ProtoFree)
    (hfresh : "__proto__" ∈ entries.map Prod.fst → ∃ own, state.object = .object own) {fuel : ℕ}
    (hfuel : 2 * (entries.flatMap (encodedEntry wire)).length + 1 ≤ fuel)
    (hresult : decodeValueFields wire fuel state (entries.flatMap (encodedEntry wire)) =
      .ok result) :
    result.object.ProtoFree ∧ result.kind = if entries.isEmpty then state.kind
      else some .object := by
  induction entries generalizing state fuel with
  | nil =>
    obtain ⟨fuel, rfl⟩ : ∃ n, fuel = n + 1 := ⟨fuel - 1, by omega⟩
    rw [List.flatMap_nil, decodeValueFields] at hresult
    obtain rfl := Except.ok.inj hresult
    exact ⟨hstate, rfl⟩
  | cons entry entries ih =>
    obtain ⟨key, body⟩ := entry
    have hlength := length_encodedEntry hwire (key, body)
    rw [List.flatMap_cons, List.length_append] at hfuel
    dsimp only at hlength
    obtain ⟨fuel, rfl⟩ : ∃ n, fuel = n + 4 := ⟨fuel - 4, by omega⟩
    rw [List.flatMap_cons, encodedEntry, decodeValueFields_entry hwire (fuel + 3) hkind,
      decodeObjectEntry_encoded hwire fuel key body] at hresult
    obtain ⟨decoded, hdecoded, hresult⟩ := ExceptOk.bind_eq_ok hresult
    obtain ⟨value, hvalue, rfl⟩ := ExceptOk.map_eq_ok hdecoded
    have hfree := h (key, body) List.mem_cons_self (fuel + 1) (by dsimp only; omega) value hvalue
    split at hresult
    · cases hresult
    · obtain ⟨object, hobject, hrest⟩ := ExceptOk.bind_eq_ok hresult
      rw [List.map_cons, List.nodup_cons] at hdistinct
      have hassigned :=
        protoFree_assign hstate hfree (fun hkey => hfresh (hkey ▸ List.mem_cons_self)) hobject
      have hstays : "__proto__" ∈ entries.map Prod.fst → ∃ own, object = .object own := by
        intro hmem
        obtain ⟨own, hown⟩ := hfresh (List.mem_cons_of_mem _ hmem)
        rw [hown] at hobject
        refine assign_stays_object ?_ hobject
        rintro rfl
        exact hdistinct.1 hmem
      obtain ⟨hall, hkind'⟩ :=
        ih (fun entry hentry => h entry (List.mem_cons_of_mem _ hentry)) hdistinct.2 (.inr rfl)
        hassigned hstays (by omega) hrest
      refine ⟨hall, ?_⟩
      rw [hkind']
      exact ite_self _

theorem decodesFree (value : JsValue) (hplain : value.Plain) {bytes : Bytes}
    (h : encodeValue wire value = .ok bytes) :
    DecodesFree wire bytes := by
  induction value using JsValue.induct generalizing bytes with
  | null => exact (decodesTo_sortKeys hwire _ hplain rfl h).free rfl
  | boolean => exact (decodesTo_sortKeys hwire _ hplain rfl h).free rfl
  | number => exact (decodesTo_sortKeys hwire _ hplain rfl h).free rfl
  | string => exact (decodesTo_sortKeys hwire _ hplain rfl h).free rfl
  | bytes => exact (decodesTo_sortKeys hwire _ hplain rfl h).free rfl
  | array items ih =>
    rw [encodeValue] at h
    obtain ⟨encoded, hencoded, h⟩ := ExceptOk.bind_eq_ok h
    obtain ⟨pairs, rfl, rfl, hpairs⟩ := exists_zip (encodeItems_ok hencoded)
    have hfree : ∀ body ∈ pairs.map Prod.snd, DecodesFree wire body := by
      intro body hbody
      obtain ⟨pair, hpair, rfl⟩ := List.mem_map.mp hbody
      have hitem : pair.1 ∈ pairs.map Prod.fst := List.mem_map_of_mem hpair
      exact ih pair.1 hitem (plain_array hplain _ hitem) (hpairs pair hpair)
    cases hbodies : pairs.map Prod.snd with
    | nil =>
      rw [hbodies] at h
      obtain rfl := Except.ok.inj h
      exact (decodesTo_emptyArray hwire).free rfl
    | cons body bodies =>
      rw [hbodies] at h hfree
      obtain rfl := Except.ok.inj h
      intro fuel hfuel value hvalue
      obtain ⟨fuel, rfl⟩ : ∃ n, fuel = n + 1 := ⟨fuel - 1, by omega⟩
      rw [decodeValue] at hvalue
      obtain ⟨state, hstate, hvalue⟩ := ExceptOk.bind_eq_ok hvalue
      obtain ⟨hall, hkind⟩ := @protoFree_items wire hwire _ hfree {} state (.inl rfl)
        (fun item hitem => absurd hitem List.not_mem_nil) fuel (by unfold encodedItem; omega) hstate
      rw [decodedValue, hkind] at hvalue
      obtain rfl := Except.ok.inj hvalue
      exact protoFree_array.mpr hall
  | object own ih =>
    rw [encodeValue] at h
    obtain ⟨entries, hentries, h⟩ := ExceptOk.bind_eq_ok h
    obtain ⟨hdistinct, hvalues⟩ := plain_object hplain
    obtain ⟨written, hsorted, hown, hwritten⟩ := exists_written hentries
    obtain rfl := Except.ok.inj h
    cases entries with
    | nil => exact (decodesTo_emptyObject hwire).free rfl
    | cons entry entries =>
      have hfree : ∀ entry ∈ written.map Prod.fst, DecodesFree wire entry.2 := by
        intro encoded hencoded
        obtain ⟨entry, hentry, rfl⟩ := List.mem_map.mp hencoded
        have hsortedMem : (entry.1.1, entry.2) ∈ own.mergeSort entryLe := by
          rw [← hown]
          exact List.mem_map_of_mem hentry
        have hin := (List.mergeSort_perm own entryLe).mem_iff.mp hsortedMem
        exact ih _ hin (hvalues _ hin) (hwritten entry hentry)
      have hkeys : ((written.map Prod.fst).map Prod.fst).Nodup := by
        have hmap : (written.map Prod.fst).map Prod.fst = (own.mergeSort entryLe).map Prod.fst := by
          rw [← hown, List.map_map, List.map_map]
          rfl
        rw [hmap]
        exact ((List.mergeSort_perm own entryLe).map Prod.fst).nodup_iff.mpr hdistinct
      rw [hsorted] at hfree hkeys
      rw [encodeObject_cons]
      intro fuel hfuel value hvalue
      obtain ⟨fuel, rfl⟩ : ∃ n, fuel = n + 1 := ⟨fuel - 1, by omega⟩
      rw [decodeValue] at hvalue
      obtain ⟨state, hstate, hvalue⟩ := ExceptOk.bind_eq_ok hvalue
      have hnonempty : ((entry :: entries).mergeSort entryLe).isEmpty = false := by
        rw [List.isEmpty_eq_false_iff, ← List.length_pos_iff, List.length_mergeSort]
        exact Nat.succ_pos _
      obtain ⟨hall, hkind⟩ :=
        @protoFree_entries wire hwire _ hfree hkeys {} state (.inl rfl) rfl (fun _ => ⟨[], rfl⟩)
        fuel (by omega) hstate
      rw [decodedValue, hkind, hnonempty] at hvalue
      obtain rfl := Except.ok.inj hvalue
      exact hall
  | derived own prototype ih ihp => exact absurd hplain not_plain_derived

end Prototype

end Daemon
