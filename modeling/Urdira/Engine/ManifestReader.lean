import Urdira.Engine.ManifestStore

open Chunks

namespace Engine

variable {V : Type}

def firstAfter (items : List (QueryStreamItem V)) (position : Option JsString) : ℕ :=
  (position.bind (fun key => items.findIdx? (fun item => decide (item.stableSortKey = key)))).elim 0
    (· + 1)

def readAfter (items : List (QueryStreamItem V)) (request : ManifestStreamReadRequest) :
    ManifestStreamReadResult V :=
  if items.length = 0 then ⟨[], false, none⟩
  else
    let nextOrdinal := firstAfter items request.position
    let page := (items.drop nextOrdinal).take request.limit
    ⟨page, decide (nextOrdinal + page.length < items.length), some items.length⟩

theorem firstAfter_le (items : List (QueryStreamItem V)) (position : Option JsString) :
    firstAfter items position ≤ items.length := by
  unfold firstAfter
  cases hfound :
    position.bind (fun key => items.findIdx? (fun item => decide (item.stableSortKey = key))) with
  | none => exact Nat.zero_le _
  | some i =>
    obtain ⟨key, -, hidx⟩ := Option.bind_eq_some_iff.mp hfound
    exact (List.findIdx?_eq_some_iff_getElem.mp hidx).1

namespace MemoryManifest

theorem get_notePositions (items : List (QueryStreamItem V)) (positions : List (JsString × ℕ))
    (k : ℕ)
    (key : JsString) :
    AssocMap.get ((items.zipIdx k).foldl notePosition positions) key =
      (AssocMap.get positions key).or
      ((items.findIdx? (fun item => decide (item.stableSortKey = key))).map (· + k)) := by
  induction items generalizing positions k with
  | nil => simp
  | cons item items ih =>
    rw [List.zipIdx_cons, List.foldl_cons, ih, List.findIdx?_cons]
    have hshift : ∀ o : Option ℕ, o.map (· + (k + 1)) = (o.map (· + 1)).map (· + k) := by
      intro o
      rw [Option.map_map]
      refine congrArg (Option.map · o) (funext fun i => ?_)
      simp only [Function.comp_apply]
      omega
    by_cases hkey : item.stableSortKey = key
    · simp only [hkey, decide_true, if_true]
      unfold notePosition
      cases hseen : AssocMap.get positions key with
      | some i => simp only [hkey, hseen, Option.some_or]
      | none =>
        simp only [hkey, hseen, AssocMap.get_insert_self, Option.some_or, Option.none_or,
          Option.map_some,
          Nat.zero_add]
    · simp only [hkey, decide_false, Bool.false_eq_true, if_false, hshift]
      unfold notePosition
      cases AssocMap.get positions item.stableSortKey with
      | some i => rfl
      | none =>
        simp only
        rw [AssocMap.get_insert_ne _ _ (fun h => hkey h.symm)]

theorem segment_eq {items : List (QueryStreamItem V)} {n : ℕ} (hn : n < items.length) :
    (memoryManifest items).segments.getD (n / manifestSegmentRows) [] =
      (items.drop (n / manifestSegmentRows * manifestSegmentRows)).take manifestSegmentRows := by
  have hne : items.isEmpty = false := by
    cases items with
    | nil => simp at hn
    | cons item items => rfl
  have hindex : n / manifestSegmentRows <
      (items.length + manifestSegmentRows - 1) / manifestSegmentRows := by
    simp only [manifestSegmentRows]
    omega
  simp only [memoryManifest, hne, Bool.false_eq_true, if_false, chunks]
  rw [List.getD_eq_getElem?_getD, List.getElem?_map, List.getElem?_range hindex]
  rfl

theorem readLoop_eq (items : List (QueryStreamItem V)) (limit fuel n : ℕ)
    (acc : List (QueryStreamItem V))
    (hn : n ≤ items.length) (hfuel : limit - acc.length ≤ fuel) :
    (memoryManifest items).readLoop limit fuel n acc =
      (n + ((items.drop n).take (limit - acc.length)).length,
        acc ++ (items.drop n).take (limit - acc.length)) := by
  induction fuel generalizing n acc with
  | zero =>
    have hzero : limit - acc.length = 0 := by omega
    simp [readLoop, hzero]
  | succ fuel ih =>
    have hcount : (memoryManifest items).entryCount = items.length := rfl
    rw [readLoop, hcount]
    by_cases hmore : n < items.length ∧ acc.length < limit
    · rw [if_pos hmore]
      simp only [segment_eq hmore.1]
      have hrows : manifestSegmentRows = 512 := rfl
      have hlength : ((items.drop (n / manifestSegmentRows * manifestSegmentRows)).take
          manifestSegmentRows).length = min 512 (items.length - n / 512 * 512) := by
        rw [List.length_take, List.length_drop, hrows]
      simp only [hlength]
      obtain ⟨take, htake⟩ : ∃ take, take = min (limit - acc.length)
          (min 512 (items.length - n / 512 * 512) - n % 512) := ⟨_, rfl⟩
      rw [hrows, ← htake]
      have hpos : take ≠ 0 := by omega
      have hslice : (((items.drop (n / 512 * 512)).take 512).drop (n % 512)).take take =
          (items.drop n).take take := by
        rw [List.drop_take, List.drop_drop, List.take_take, Nat.div_add_mod' n 512]
        congr 1
        omega
      rw [if_neg hpos, hslice]
      have hlen : ((items.drop n).take take).length = take := by
        rw [List.length_take, List.length_drop]
        omega
      rw [ih (n + take) (acc ++ (items.drop n).take take) (by omega)
        (by rw [List.length_append, hlen]; omega)]
      have hrest :
          limit - acc.length = take + (limit - (acc ++ (items.drop n).take take).length) := by
        rw [List.length_append, hlen]
        omega
      rw [hrest, List.take_add, List.drop_drop, List.append_assoc, Nat.add_assoc]
      simp only [List.length_append, hlen]
    · rw [if_neg hmore]
      have hnil : (items.drop n).take (limit - acc.length) = [] := by
        rcases not_and_or.mp hmore with hn' | hl
        · rw [List.drop_eq_nil_of_le (by omega), List.take_nil]
        · rw [Nat.sub_eq_zero_of_le (by omega), List.take_zero]
      rw [hnil]
      simp

theorem read_eq (items : List (QueryStreamItem V)) (request : ManifestStreamReadRequest) :
    (memoryManifest items).read request = readAfter items request := by
  have hpositions : ∀ key, AssocMap.get (memoryManifest items).positions key =
      items.findIdx? (fun item => decide (item.stableSortKey = key)) := by
    intro key
    have hget := get_notePositions items [] 0 key
    simpa [memoryManifest, AssocMap.get] using hget
  have hnext : (request.position.bind (AssocMap.get (memoryManifest items).positions)).elim
      0 (· + 1) =
      firstAfter items request.position := by
    unfold firstAfter
    rw [funext hpositions]
  have hcount : (memoryManifest items).entryCount = items.length := rfl
  rw [read, readAfter, hcount]
  by_cases hempty : items.length = 0
  · rw [if_pos hempty, if_pos hempty]
  · rw [if_neg hempty, if_neg hempty]
    simp only [hnext]
    rw [readLoop_eq items request.limit request.limit _ [] (firstAfter_le _ _) (by simp)]
    simp

end MemoryManifest

def rowsOf (items : List (QueryStreamItem V)) : List (ManifestRow V) :=
  items.zipIdx.map (fun e => ⟨e.1, e.2⟩)

def Described (segment : DurableManifestSegmentDescriptor) (rows : List (ManifestRow V)) : Prop :=
  ∃ first rest, rows = first :: rest ∧ segment = ManifestWriter.segmentDescriptor first rest

namespace ManifestWriter

structure Stored (w : ManifestWriter V) (items : List (QueryStreamItem V)) : Prop where
  rows : w.segments.flatten ++ w.values = rowsOf items
  described : List.Forall₂ Described w.descriptors w.segments
  ordinal : w.ordinal = items.length

structure Compared (w : ManifestWriter V) (keys : List JsString) : Prop where
  previous : w.previousStableSortKey = keys.getLast?
  ascending : w.ascending = true ↔ keys.IsChain (· ≤ ·)
  descending : w.descending = true ↔ keys.IsChain (· ≥ ·)

variable {codec : SegmentCodec V} {w w' : ManifestWriter V} {items : List (QueryStreamItem V)}
  {keys : List JsString}

theorem stored_init : (init : ManifestWriter V).Stored [] := ⟨rfl, .nil, rfl⟩

theorem compared_init : (init : ManifestWriter V).Compared [] :=
  ⟨rfl, by simp [init], by simp [init]⟩

theorem flush_cases (hflush : w.flush codec = some w') : w' = w ∧ w.values = [] ∨
    ∃ first rest, w.values = first :: rest ∧ w' = { w with
      descriptors := w.descriptors ++ [segmentDescriptor first rest]
      segments := w.segments ++ [w.values]
      values := []
      bytes := 0 } := by
  unfold flush at hflush
  cases hvalues : w.values with
  | nil =>
    simp only [hvalues] at hflush
    exact Or.inl ⟨(Option.some.inj hflush).symm, rfl⟩
  | cons first rest =>
    simp only [hvalues] at hflush
    split at hflush
    · exact Or.inr ⟨first, rest, rfl, (Option.some.inj hflush).symm⟩
    · cases hflush

theorem Stored.flush (h : w.Stored items) (hflush : w.flush codec = some w') : w'.Stored items := by
  obtain ⟨rfl, -⟩ | ⟨first, rest, hvalues, rfl⟩ := flush_cases hflush
  · exact h
  · refine ⟨?_, ?_, h.ordinal⟩
    · rw [← h.rows]
      simp
    · exact List.rel_append h.described (.cons ⟨first, rest, hvalues, rfl⟩ .nil)

theorem Compared.flush (h : w.Compared keys) (hflush : w.flush codec = some w') :
    w'.Compared keys := by
  obtain ⟨rfl, -⟩ | ⟨first, rest, -, rfl⟩ := flush_cases hflush
  · exact h
  · exact ⟨h.previous, h.ascending, h.descending⟩

theorem flush_values (hflush : w.flush codec = some w') : w'.values = [] := by
  obtain ⟨rfl, hnil⟩ | ⟨first, rest, -, rfl⟩ := flush_cases hflush
  · exact hnil
  · rfl

theorem rowsOf_append (items : List (QueryStreamItem V)) (item : QueryStreamItem V) :
    rowsOf (items ++ [item]) = rowsOf items ++ [⟨item, items.length⟩] := by
  simp [rowsOf, List.zipIdx_append]

theorem isChain_concat (r : JsString → JsString → Prop) (keys : List JsString) (key : JsString) :
    (keys ++ [key]).IsChain r ↔ keys.IsChain r ∧ ∀ last ∈ keys.getLast?, r last key := by
  rw [List.isChain_append]
  simp

theorem Compared.comparePrevious (h : w.Compared keys) (key : JsString) :
    (w.comparePrevious key).Compared (keys ++ [key]) := by
  have hlast : (keys ++ [key]).getLast? = some key := by simp
  unfold ManifestWriter.comparePrevious
  cases hprevious : w.previousStableSortKey with
  | none =>
    have hnone : keys.getLast? = none := h.previous.symm.trans hprevious
    refine ⟨hlast.symm, ?_, ?_⟩
    · rw [isChain_concat, hnone, ← h.ascending]
      simp
    · rw [isChain_concat, hnone, ← h.descending]
      simp
  | some previous =>
    have hsome : keys.getLast? = some previous := h.previous.symm.trans hprevious
    refine ⟨hlast.symm, ?_, ?_⟩
    · rw [isChain_concat, hsome, ← h.ascending]
      simp
    · rw [isChain_concat, hsome, ← h.descending]
      simp

theorem Stored.comparePrevious (h : w.Stored items) (key : JsString) :
    (w.comparePrevious key).Stored items := by
  unfold ManifestWriter.comparePrevious
  cases w.previousStableSortKey with
  | none => exact ⟨h.rows, h.described, h.ordinal⟩
  | some previous => exact ⟨h.rows, h.described, h.ordinal⟩

theorem appendItem_ok (hstored : w.Stored items)
    (hcompared : w.Compared (items.map QueryStreamItem.stableSortKey)) {item : QueryStreamItem V}
    (happend : w.appendItem codec item = some w') :
    w'.Stored (items ++ [item]) ∧ w'.Compared
      ((items ++ [item]).map QueryStreamItem.stableSortKey) := by
  obtain ⟨valueBytes, -, hrest⟩ := Option.bind_eq_some_iff.mp happend
  obtain ⟨w₁, hfull, hpush⟩ := Option.bind_eq_some_iff.mp hrest
  obtain rfl := Option.some.inj hpush
  have hstored₀ := hstored.comparePrevious item.stableSortKey
  have hcompared₀ := hcompared.comparePrevious item.stableSortKey
  have hflushed : w₁.Stored items ∧ w₁.Compared
      (items.map QueryStreamItem.stableSortKey ++ [item.stableSortKey]) := by
    unfold flushFull at hfull
    split at hfull
    · exact ⟨hstored₀.flush hfull, hcompared₀.flush hfull⟩
    · obtain rfl := Option.some.inj hfull
      exact ⟨hstored₀, hcompared₀⟩
  obtain ⟨hstored₁, hcompared₁⟩ := hflushed
  refine ⟨⟨?_, hstored₁.described, ?_⟩, ?_⟩
  · rw [rowsOf_append, ← hstored₁.rows, ← hstored₁.ordinal, List.append_assoc]
    rfl
  · simp [push, hstored₁.ordinal]
  · rw [List.map_append, List.map_singleton]
    exact ⟨hcompared₁.previous, hcompared₁.ascending, hcompared₁.descending⟩

theorem appendItems_ok (later : List (QueryStreamItem V)) (hstored : w.Stored items)
    (hcompared : w.Compared (items.map QueryStreamItem.stableSortKey))
    (happend : later.foldlM (appendItem codec) w = some w') :
    w'.Stored (items ++ later) ∧ w'.Compared
      ((items ++ later).map QueryStreamItem.stableSortKey) := by
  induction later generalizing w items with
  | nil =>
    obtain rfl := Option.some.inj happend
    simpa using And.intro hstored hcompared
  | cons item later ih =>
    rw [List.foldlM_cons] at happend
    obtain ⟨w₁, hfirst, hrest⟩ := Option.bind_eq_some_iff.mp happend
    obtain ⟨hstored₁, hcompared₁⟩ := appendItem_ok hstored hcompared hfirst
    simpa using ih hstored₁ hcompared₁ hrest

end ManifestWriter

namespace DurableManifest

structure Holds (manifest : DurableManifest V) (items : List (QueryStreamItem V)) : Prop where
  rows : manifest.segments.flatten = rowsOf items
  described : List.Forall₂ Described manifest.descriptor.segments manifest.segments
  entryCount : manifest.descriptor.entryCount = items.length
  ascending : manifest.descriptor.positionOrder = .ascending →
    (items.map QueryStreamItem.stableSortKey).Pairwise (· ≤ ·)
  descending : manifest.descriptor.positionOrder = .descending →
    (items.map QueryStreamItem.stableSortKey).Pairwise (· ≥ ·)

theorem holds_append {codec : SegmentCodec V} {items : List (QueryStreamItem V)}
    {manifest : DurableManifest V}
    (h : append codec items = some manifest) : manifest.Holds items := by
  unfold append at h
  obtain ⟨w, hitems, hrest⟩ := Option.bind_eq_some_iff.mp h
  obtain ⟨w', hflush, hdescriptor⟩ := Option.bind_eq_some_iff.mp hrest
  obtain ⟨hstored, hcompared⟩ := ManifestWriter.appendItems_ok items ManifestWriter.stored_init
    ManifestWriter.compared_init hitems
  rw [List.nil_append] at hstored hcompared
  have hstored' := hstored.flush hflush
  have hcompared' := hcompared.flush hflush
  split at hdescriptor
  · obtain rfl := Option.some.inj hdescriptor
    refine ⟨?_, hstored'.described, hstored'.ordinal, ?_, ?_⟩
    · rw [← hstored'.rows, ManifestWriter.flush_values hflush, List.append_nil]
    · intro horder
      simp only [ManifestWriter.descriptor] at horder
      split at horder
      · next hasc => exact List.isChain_iff_pairwise.mp (hcompared'.ascending.mp hasc)
      · split at horder <;> cases horder
    · intro horder
      simp only [ManifestWriter.descriptor] at horder
      split at horder
      · cases horder
      · split at horder
        · next hdesc => exact List.isChain_iff_pairwise.mp (hcompared'.descending.mp hdesc)
        · cases horder
  · cases hdescriptor

variable {codec : SegmentCodec V} {items : List (QueryStreamItem V)} {manifest : DurableManifest V}

def start (manifest : DurableManifest V) (index : ℕ) : ℕ :=
  (manifest.segments.take index).flatten.length

theorem rowsOf_ordinals (items : List (QueryStreamItem V)) :
    (rowsOf items).map ManifestRow.ordinal = List.range' 0 items.length := by
  rw [rowsOf, List.map_map]
  exact List.zipIdx_map_snd 0 items

theorem segment_ordinals (h : manifest.Holds items) {index : ℕ} {rows : List (ManifestRow V)}
    (hrows : manifest.segments[index]? = some rows) :
    rows.map ManifestRow.ordinal = List.range' (manifest.start index) rows.length ∧
      manifest.start (index + 1) = manifest.start index + rows.length := by
  obtain ⟨hindex, hget⟩ := List.getElem?_eq_some_iff.mp hrows
  have htake : manifest.segments.take (index + 1) = manifest.segments.take index ++ [rows] := by
    rw [List.take_add_one, hrows]
    rfl
  have hstart : manifest.start (index + 1) = manifest.start index + rows.length := by
    rw [start, start, htake, List.flatten_append, List.length_append, List.flatten_singleton]
  refine ⟨?_, hstart⟩
  have hordinals := rowsOf_ordinals items
  rw [← h.rows, ← List.take_append_drop (index + 1) manifest.segments, htake, List.flatten_append,
    List.flatten_append, List.flatten_singleton, List.map_append, List.map_append,
      List.append_assoc] at hordinals
  have hlength := congrArg List.length hordinals
  simp only [List.length_append, List.length_map, List.length_range'] at hlength
  have hfront : (manifest.segments.take index).flatten.length = manifest.start index := rfl
  rw [← hlength, hfront] at hordinals
  have hsplit : List.range' 0 (manifest.start index + (rows.length +
      ((manifest.segments.drop (index + 1)).flatten).length)) =
      List.range' 0 (manifest.start index) ++ (List.range' (manifest.start index) rows.length ++
        List.range' (manifest.start index + rows.length)
          ((manifest.segments.drop (index + 1)).flatten).length) := by
    rw [← List.range'_append_1, ← List.range'_append_1, Nat.zero_add]
  rw [hsplit] at hordinals
  obtain ⟨-, hrest⟩ :=
    List.append_inj hordinals (by rw [List.length_map, List.length_range', hfront])
  exact (List.append_inj hrest (by simp)).1

theorem segment_described (h : manifest.Holds items) {index : ℕ} {rows : List (ManifestRow V)}
    (hrows : manifest.segments[index]? = some rows) :
    ∃ segment, manifest.descriptor.segments[index]? = some segment ∧ Described segment rows ∧
      segment.firstOrdinal = manifest.start index ∧ segment.entryCount = rows.length := by
  obtain ⟨hindex, hget⟩ := List.getElem?_eq_some_iff.mp hrows
  have hlen := h.described.length_eq
  have hdescribed := h.described.get (by omega : index < manifest.descriptor.segments.length) hindex
  simp only [List.get_eq_getElem, hget] at hdescribed
  refine ⟨_, List.getElem?_eq_getElem (by omega), hdescribed, ?_⟩
  obtain ⟨first, rest, rfl, hsegment⟩ := hdescribed
  rw [hsegment]
  refine ⟨?_, rfl⟩
  have hordinals := (segment_ordinals h hrows).1
  rw [List.map_cons, List.length_cons, List.range'_succ] at hordinals
  exact (List.cons.inj hordinals).1

theorem hydrate_eq (h : manifest.Holds items) {index : ℕ} {rows : List (ManifestRow V)}
    (hrows : manifest.segments[index]? = some rows) :
    manifest.hydrate codec index = rows.map codec.row := by
  obtain ⟨segment, hsegment, -, hfirst, hcount⟩ := segment_described h hrows
  obtain ⟨hordinals, -⟩ := segment_ordinals h hrows
  have hall : ∀ row ∈ rows.map codec.row, decide (segment.firstOrdinal ≤ row.ordinal ∧
      row.ordinal < segment.firstOrdinal + segment.entryCount) = true := by
    intro row hrow
    obtain ⟨row', hrow', rfl⟩ := List.mem_map.mp hrow
    have hmem : row'.ordinal ∈ List.range' (manifest.start index) rows.length :=
      hordinals ▸ List.mem_map_of_mem hrow'
    have hrange := List.mem_range'_1.mp hmem
    have hsame : (codec.row row').ordinal = row'.ordinal := rfl
    rw [decide_eq_true_eq, hfirst, hcount, hsame]
    exact hrange
  simp only [hydrate, hsegment, hrows]
  rw [List.filter_eq_self.mpr hall, hcount, List.take_of_length_le (by simp)]

theorem hydrate_all (h : manifest.Holds items) :
    (List.range manifest.segments.length).map (manifest.hydrate codec) =
      manifest.segments.map (fun rows => rows.map codec.row) := by
  refine List.ext_getElem (by simp) (fun index hindex hindex' => ?_)
  simp only [List.length_map, List.length_range] at hindex
  rw [List.getElem_map, List.getElem_range, List.getElem_map]
  exact hydrate_eq h (List.getElem?_eq_getElem hindex)

end DurableManifest

theorem pushRows_eq (limit nextOrdinal : ℕ) (rows : List (ManifestRow V))
    (page : List (QueryStreamItem V))
    (hpage : page.length < limit) :
    pushRows limit nextOrdinal rows page = page ++
      ((rows.filter (fun row => decide (nextOrdinal ≤ row.ordinal))).map ManifestRow.item).take
        (limit - page.length) := by
  induction rows generalizing page with
  | nil => simp [pushRows]
  | cons row rows ih =>
    rw [pushRows]
    by_cases hbefore : row.ordinal < nextOrdinal
    · rw [if_pos hbefore, ih page hpage, List.filter_cons_of_neg (by simpa using hbefore)]
    · rw [if_neg hbefore, List.filter_cons_of_pos (by simpa using hbefore), List.map_cons]
      obtain ⟨k, hk⟩ : ∃ k, limit - page.length = k + 1 := ⟨limit - page.length - 1, by omega⟩
      rw [hk, List.take_succ_cons]
      simp only [List.length_append, List.length_singleton]
      by_cases hfull : limit ≤ page.length + 1
      · obtain rfl : k = 0 := by omega
        rw [if_pos hfull, List.take_zero]
      · rw [if_neg hfull, ih (page ++ [row.item]) (by simp; omega), List.append_assoc]
        have hrest : limit - (page ++ [row.item]).length = k := by
          simp only [List.length_append, List.length_singleton]
          omega
        rw [hrest]
        rfl

theorem pushSegments_eq (limit nextOrdinal : ℕ) (segments : List (List (ManifestRow V)))
    (page : List (QueryStreamItem V)) (hpage : page.length ≤ limit) :
    pushSegments limit nextOrdinal segments page = page ++
      ((segments.flatten.filter (fun row => decide (nextOrdinal ≤ row.ordinal))).map
        ManifestRow.item).take
        (limit - page.length) := by
  induction segments generalizing page with
  | nil => simp [pushSegments]
  | cons rows segments ih =>
    rw [pushSegments]
    by_cases hroom : page.length < limit
    · rw [if_pos hroom, pushRows_eq limit nextOrdinal rows page hroom, ih, List.append_assoc,
        List.flatten_cons,
        List.filter_append, List.map_append, List.take_append]
      · congr 2
        simp only [List.length_append, List.length_take]
        congr 1
        omega
      · simp only [List.length_append, List.length_take]
        omega
    · rw [if_neg hroom, Nat.sub_eq_zero_of_le (by omega), List.take_zero, List.append_nil]

theorem ordinalLoop_spec {segments : List DurableManifestSegmentDescriptor} {start : ℕ → ℕ}
    {ordinal : ℕ}
    (hmono : Monotone start)
    (hsegments : ∀ index segment, segments[index]? = some segment →
      segment.firstOrdinal = start index ∧ start (index + 1) =
        segment.firstOrdinal + segment.entryCount)
    (fuel low stop : ℕ) (hlow : start low ≤ ordinal) :
    start (ordinalLoop segments ordinal fuel low stop) ≤ ordinal := by
  have hend : start (min low (segments.length - 1)) ≤ ordinal :=
    (hmono (min_le_left _ _)).trans hlow
  induction fuel generalizing low stop with
  | zero => exact hend
  | succ fuel ih =>
    rw [ordinalLoop]
    split
    · cases hsegment : segments[low + (stop - 1 - low) / 2]? with
      | none =>
        simp only [hsegment]
        exact hend
      | some segment =>
        obtain ⟨hfirst, hnext⟩ := hsegments _ segment hsegment
        simp only [hsegment]
        split
        · exact ih low _ hlow hend
        · split
          · next hafter =>
            have hlow' : start (low + (stop - 1 - low) / 2 + 1) ≤ ordinal := hnext.trans_le hafter
            exact ih _ stop hlow' ((hmono (min_le_left _ _)).trans hlow')
          · next hbefore _ => exact hfirst ▸ Nat.le_of_not_lt hbefore
    · exact hend

def precedes (descending : Bool) (left right : JsString) : Prop :=
  if descending then right ≤ left else left ≤ right

theorem compareInPositionOrder_ne_gt (left right : JsString) (descending : Bool) :
    compareInPositionOrder left right descending ≠ .gt ↔ precedes descending left right := by
  unfold compareInPositionOrder compareStableSortKeys precedes
  rcases lt_trichotomy left right with hlt | rfl | hgt
  · cases descending <;> simp [hlt, hlt.le, not_le.mpr hlt]
  · cases descending <;> simp
  · cases descending <;> simp [hgt, hgt.le, not_lt.mpr hgt.le, not_le.mpr hgt]

theorem precedes_trans {descending : Bool} {a b c : JsString} (hab : precedes descending a b)
    (hbc : precedes descending b c) : precedes descending a c := by
  unfold precedes at *
  cases descending
  · exact le_trans hab hbc
  · exact le_trans hbc hab

theorem precedes_antisymm {descending : Bool} {a b : JsString} (hab : precedes descending a b)
    (hba : precedes descending b a) : a = b := by
  unfold precedes at *
  cases descending
  · exact le_antisymm hab hba
  · exact le_antisymm hba hab

theorem candidateLoop_spec {segments : List DurableManifestSegmentDescriptor} {position : JsString}
    {descending : Bool} {below : ℕ → Prop}
    (hbelow : ∀ index segment, segments[index]? = some segment →
      (precedes descending segment.firstStableSortKey position ↔ below index))
    (hmono : ∀ i j, i ≤ j → j < segments.length → below j → below i) (fuel low stop : ℕ)
    (hfuel : stop - low ≤ fuel) (hstop : stop ≤ segments.length) (hlow : ∀ i < low, below i)
    (hhigh : ∀ i, stop ≤ i → i < segments.length → ¬ below i) {c : ℕ} (hlo : low ≤ stop)
    (hc : candidateLoop segments position descending fuel low stop (if low = 0 then none
      else some (low - 1)) =
      some c) :
    c < segments.length ∧ below c ∧ ∀ i, c < i → i < segments.length → ¬ below i := by
  have hdone : ∀ low, (∀ i < low, below i) → (∀ i, low ≤ i → i < segments.length → ¬ below i) →
      low ≤ segments.length → (if low = 0 then none else some (low - 1)) = some c →
      c < segments.length ∧ below c ∧ ∀ i, c < i → i < segments.length → ¬ below i := by
    intro low hlow hhigh hle hif
    split at hif
    · cases hif
    · obtain rfl := Option.some.inj hif
      exact ⟨by omega, hlow _ (by omega), fun i hi => hhigh i (by omega)⟩
  induction fuel generalizing low stop with
  | zero =>
    obtain rfl : low = stop := by omega
    exact hdone low hlow hhigh hstop hc
  | succ fuel ih =>
    rw [candidateLoop] at hc
    split at hc
    · next hlt =>
      obtain ⟨middle, hmiddle⟩ : ∃ middle, middle = low + (stop - 1 - low) / 2 := ⟨_, rfl⟩
      rw [← hmiddle] at hc
      have hin : middle < segments.length := by omega
      simp only [List.getElem?_eq_getElem hin] at hc
      have hiff := hbelow middle _ (List.getElem?_eq_getElem hin)
      split at hc
      · next hne =>
        have hmid : below middle := hiff.mp ((compareInPositionOrder_ne_gt _ _ _).mp hne)
        refine ih (middle + 1) stop (by omega) hstop ?_ hhigh (by omega) ?_
        · exact fun i hi => hmono i middle (by omega) hin hmid
        · simpa using hc
      · next hgt =>
        have hmid : ¬ below middle :=
          fun h => hgt ((compareInPositionOrder_ne_gt _ _ _).mpr (hiff.mpr h))
        refine ih low middle (by omega) (by omega) hlow ?_ (by omega) hc
        exact fun i hi hi' hb => hmid (hmono middle i hi hi' hb)
    · obtain rfl : low = stop := by omega
      exact hdone low hlow hhigh hstop hc

theorem earliestCandidate_spec (segments : List DurableManifestSegmentDescriptor)
    (position : JsString) (c : ℕ) :
    earliestCandidate segments position c ≤ c ∧
      (∀ i, earliestCandidate segments position c ≤ i → i < c →
        (segments[i]?).map (·.lastStableSortKey) = some position) ∧
      ∀ i, i + 1 = earliestCandidate segments position c →
        (segments[i]?).map (·.lastStableSortKey) ≠ some position := by
  induction c with
  | zero => exact ⟨le_rfl, fun i hi hi' => absurd hi' (by omega),
      fun i hi => by simp [earliestCandidate] at hi⟩
  | succ c ih =>
    obtain ⟨hle, hback, hstop⟩ := ih
    rw [earliestCandidate]
    split
    · next hlast =>
      refine ⟨by omega, fun i hi hi' => ?_, hstop⟩
      by_cases hic : i = c
      · rw [hic]
        exact hlast
      · exact hback i hi (by omega)
    · next hlast =>
      refine ⟨le_rfl, fun i hi hi' => absurd hi' (by omega), fun i hi => ?_⟩
      obtain rfl : i = c := by omega
      exact hlast

end Engine
