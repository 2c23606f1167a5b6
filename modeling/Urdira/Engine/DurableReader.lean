import Urdira.Engine.ManifestReader

namespace Engine

variable {V : Type} {codec : SegmentCodec V} {items : List (QueryStreamItem V)}
  {manifest : DurableManifest V}

def ManifestRow.key (row : ManifestRow V) : JsString := row.item.stableSortKey

theorem rowsOf_items (items : List (QueryStreamItem V)) :
    (rowsOf items).map ManifestRow.item = items := by
  rw [rowsOf, List.map_map]
  exact List.zipIdx_map_fst 0 items

theorem find_rowsOf (items : List (QueryStreamItem V)) (position : JsString) (k : ℕ) :
    (((items.zipIdx k).map (fun e => (⟨e.1, e.2⟩ : ManifestRow V))).find? (fun row =>
      decide (row.item.stableSortKey = position))).map ManifestRow.ordinal =
      (items.findIdx? (fun item => decide (item.stableSortKey = position))).map (· + k) := by
  induction items generalizing k with
  | nil => rfl
  | cons item items ih =>
    rw [List.zipIdx_cons, List.map_cons, List.find?_cons, List.findIdx?_cons]
    by_cases hkey : item.stableSortKey = position
    · simp [hkey]
    · simp only [hkey, decide_false, Bool.false_eq_true, if_false, ih, Option.map_map]
      refine congrArg (Option.map · _) (funext fun i => ?_)
      simp only [Function.comp_apply]
      omega

theorem described_first {segment : DurableManifestSegmentDescriptor} {rows : List (ManifestRow V)}
    (h : Described segment rows) : ∃ row ∈ rows, row.key = segment.firstStableSortKey := by
  obtain ⟨first, rest, rfl, rfl⟩ := h
  exact ⟨first, List.mem_cons_self, rfl⟩

theorem described_last {segment : DurableManifestSegmentDescriptor} {rows : List (ManifestRow V)}
    (h : Described segment rows) : ∃ row ∈ rows, row.key = segment.lastStableSortKey := by
  obtain ⟨first, rest, rfl, rfl⟩ := h
  exact ⟨_, List.getLast_mem (by simp), rfl⟩

theorem first_precedes {descending : Bool} {segment : DurableManifestSegmentDescriptor}
    {rows : List (ManifestRow V)} (h : Described segment rows)
    (hsorted : rows.Pairwise (fun a b => precedes descending a.key b.key)) {row : ManifestRow V}
    (hrow : row ∈ rows) : precedes descending segment.firstStableSortKey row.key := by
  obtain ⟨first, rest, rfl, rfl⟩ := h
  rcases List.mem_cons.mp hrow with rfl | hrow
  · unfold precedes
    split <;> exact le_rfl
  · exact (List.pairwise_cons.mp hsorted).1 row hrow

theorem precedes_last {descending : Bool} {segment : DurableManifestSegmentDescriptor}
    {rows : List (ManifestRow V)} (h : Described segment rows)
    (hsorted : rows.Pairwise (fun a b => precedes descending a.key b.key)) {row : ManifestRow V}
    (hrow : row ∈ rows) : precedes descending row.key segment.lastStableSortKey := by
  obtain ⟨first, rest, rfl, rfl⟩ := h
  have hsplit := List.dropLast_append_getLast (List.cons_ne_nil first rest)
  rw [← hsplit] at hsorted hrow
  rcases List.mem_append.mp hrow with hrow | hrow
  · exact (List.pairwise_append.mp hsorted).2.2 row hrow _ (List.mem_singleton.mpr rfl)
  · rw [List.mem_singleton.mp hrow]
    unfold precedes
    split <;> exact le_rfl

namespace DurableManifest

structure Sorted (manifest : DurableManifest V) (descending : Bool) : Prop where
  within : ∀ {index : ℕ} {rows : List (ManifestRow V)}, manifest.segments[index]? = some rows →
    rows.Pairwise (fun a b => precedes descending a.key b.key)
  across : ∀ {i j : ℕ} {rows rows' : List (ManifestRow V)}, i < j →
    manifest.segments[i]? = some rows → manifest.segments[j]? = some rows' →
    ∀ row ∈ rows, ∀ row' ∈ rows', precedes descending row.key row'.key

theorem sorted_of_order (h : manifest.Holds items)
    (horder : manifest.descriptor.positionOrder ≠ .unordered) :
    manifest.Sorted (decide (manifest.descriptor.positionOrder = .descending)) := by
  obtain ⟨descending, hdescending⟩ : ∃ d,
      d = decide (manifest.descriptor.positionOrder = .descending) := ⟨_, rfl⟩
  rw [← hdescending]
  have hkeys : (items.map QueryStreamItem.stableSortKey).Pairwise (precedes descending) := by
    cases hcase : manifest.descriptor.positionOrder with
    | unordered => exact absurd hcase horder
    | ascending =>
      rw [hcase] at hdescending
      rw [hdescending]
      exact h.ascending hcase
    | descending =>
      rw [hcase] at hdescending
      rw [hdescending]
      exact h.descending hcase
  have hrows : (rowsOf items).Pairwise (fun a b => precedes descending a.key b.key) := by
    rw [← rowsOf_items items, List.map_map, List.pairwise_map] at hkeys
    exact hkeys
  rw [← h.rows, List.pairwise_flatten] at hrows
  constructor
  · exact fun hget => hrows.1 _ (List.mem_of_getElem? hget)
  · intro i j rows rows' hij hi hj
    obtain ⟨hlt, rfl⟩ := List.getElem?_eq_some_iff.mp hi
    obtain ⟨hlt', rfl⟩ := List.getElem?_eq_some_iff.mp hj
    exact List.pairwise_iff_getElem.mp hrows.2 i j hlt hlt' hij

theorem segment_of_descriptor (h : manifest.Holds items) {index : ℕ}
    {segment : DurableManifestSegmentDescriptor}
    (hsegment : manifest.descriptor.segments[index]? = some segment) :
    ∃ rows, manifest.segments[index]? = some rows ∧ Described segment rows := by
  obtain ⟨hlt, -⟩ := List.getElem?_eq_some_iff.mp hsegment
  have hlen := h.described.length_eq
  have hrows := List.getElem?_eq_getElem (by omega : index < manifest.segments.length)
  obtain ⟨segment', hsegment', hdescribed, -⟩ := segment_described h hrows
  rw [hsegment] at hsegment'
  obtain rfl := Option.some.inj hsegment'
  exact ⟨_, hrows, hdescribed⟩

def HasKey (manifest : DurableManifest V) (position : JsString) (index : ℕ) : Prop :=
  ∃ rows, manifest.segments[index]? = some rows ∧ ∃ row ∈ rows, row.key = position

theorem segmentIndexForPosition_some (h : manifest.Holds items) {position : JsString} {c : ℕ}
    (hc : segmentIndexForPosition manifest.descriptor position = some c) :
    c < manifest.segments.length ∧ (∀ i < c, ¬ manifest.HasKey position i) ∧
      ∀ i, c < i → manifest.HasKey position i → manifest.HasKey position c := by
  unfold segmentIndexForPosition at hc
  split at hc
  · cases hc
  next horder =>
  have hsorted := sorted_of_order h horder
  obtain ⟨descending, hdescending⟩ : ∃ d,
      d = decide (manifest.descriptor.positionOrder = .descending) := ⟨_, rfl⟩
  simp only [← hdescending] at hc hsorted
  obtain ⟨found, hfound, hrest⟩ := Option.bind_eq_some_iff.mp hc
  obtain ⟨segment, hsegment, hlast⟩ := Option.bind_eq_some_iff.mp hrest
  have hcandidate : earliestCandidate manifest.descriptor.segments position found = c := by
    split at hlast
    · cases hlast
    · exact Option.some.inj hlast
  rw [hcandidate] at hsegment
  have hlen := h.described.length_eq
  let below : ℕ → Prop := fun i => ∃ segment, manifest.descriptor.segments[i]? = some segment ∧
    precedes descending segment.firstStableSortKey position
  have hmono : ∀ i j, i ≤ j → j < manifest.descriptor.segments.length → below j → below i := by
    rintro i j hij hj ⟨segmentj, hsegmentj, hprecedes⟩
    rcases Nat.lt_or_eq_of_le hij with hlt | rfl
    · have hsegmenti :=
        List.getElem?_eq_getElem (by omega : i < manifest.descriptor.segments.length)
      obtain ⟨rowsi, hrowsi, hdescribedi⟩ := segment_of_descriptor h hsegmenti
      obtain ⟨rowsj, hrowsj, hdescribedj⟩ := segment_of_descriptor h hsegmentj
      obtain ⟨rowi, hrowi, hkeyi⟩ := described_first hdescribedi
      obtain ⟨rowj, hrowj, hkeyj⟩ := described_first hdescribedj
      refine ⟨_, hsegmenti, ?_⟩
      rw [← hkeyi]
      refine precedes_trans (hsorted.across hlt hrowsi hrowsj rowi hrowi rowj hrowj) ?_
      rw [hkeyj]
      exact hprecedes
    · exact ⟨segmentj, hsegmentj, hprecedes⟩
  have hbelow : ∀ index segment, manifest.descriptor.segments[index]? = some segment →
      (precedes descending segment.firstStableSortKey position ↔ below index) := by
    intro index segment hsegment
    constructor
    · exact fun hprecedes => ⟨segment, hsegment, hprecedes⟩
    · rintro ⟨segment', hsegment', hprecedes⟩
      rw [hsegment] at hsegment'
      rwa [Option.some.inj hsegment']
  obtain ⟨hfoundLt, hfoundBelow, hfoundAbove⟩ := candidateLoop_spec hbelow hmono
    manifest.descriptor.segments.length 0 manifest.descriptor.segments.length
      (by omega) le_rfl (by omega)
    (by omega) (by omega) (by simpa using hfound)
  obtain ⟨hle, hback, hstop⟩ := earliestCandidate_spec manifest.descriptor.segments position found
  rw [hcandidate] at hle hback hstop
  have hlastKey : ∀ i segment, manifest.descriptor.segments[i]? = some segment →
      segment.lastStableSortKey = position → manifest.HasKey position i := by
    intro i segment hsegment hkey
    obtain ⟨rows, hrows, hdescribed⟩ := segment_of_descriptor h hsegment
    obtain ⟨row, hrow, hrowKey⟩ := described_last hdescribed
    exact ⟨rows, hrows, row, hrow, hrowKey.trans hkey⟩
  have hcBelow : precedes descending segment.firstStableSortKey position := by
    rcases Nat.lt_or_eq_of_le hle with hlt | heq
    · have hkey : segment.lastStableSortKey = position := by
        have hmap := hback c le_rfl hlt
        rw [hsegment, Option.map_some] at hmap
        exact Option.some.inj hmap
      obtain ⟨rows, hrows, hdescribed⟩ := segment_of_descriptor h hsegment
      obtain ⟨row, hrow, hrowKey⟩ := described_last hdescribed
      rw [← hkey, ← hrowKey]
      exact first_precedes hdescribed (hsorted.within hrows) hrow
    · exact (hbelow c segment hsegment).mpr (heq ▸ hfoundBelow)
  refine ⟨by omega, ?_, ?_⟩
  · -- a row of an earlier segment with this key would make the previous segment end in it
    rintro i hic ⟨rows, hrows, row, hrow, hkey⟩
    obtain ⟨previous, hprevious⟩ : ∃ previous, manifest.descriptor.segments[c - 1]? =
        some previous :=
      ⟨_, List.getElem?_eq_getElem (by omega)⟩
    obtain ⟨rowsp, hrowsp, hdescribedp⟩ := segment_of_descriptor h hprevious
    obtain ⟨rowp, hrowp, hkeyp⟩ := described_last hdescribedp
    obtain ⟨rowsc, hrowsc, hdescribedc⟩ := segment_of_descriptor h hsegment
    obtain ⟨rowc, hrowc, hkeyc⟩ := described_first hdescribedc
    have hup : precedes descending position previous.lastStableSortKey := by
      rcases Nat.lt_or_eq_of_le (by omega : i ≤ c - 1) with hlt | heq
      · rw [← hkey, ← hkeyp]
        exact hsorted.across hlt hrows hrowsp row hrow rowp hrowp
      · rw [← hkey]
        rw [heq, hrowsp] at hrows
        obtain rfl := Option.some.inj hrows
        exact precedes_last hdescribedp (hsorted.within hrowsp) hrow
    have hdown : precedes descending previous.lastStableSortKey position := by
      refine precedes_trans ?_ hcBelow
      rw [← hkeyp, ← hkeyc]
      exact hsorted.across (by omega) hrowsp hrowsc rowp hrowp rowc hrowc
    refine hstop (c - 1) (by omega) ?_
    rw [hprevious, Option.map_some, precedes_antisymm hdown hup]
  · rintro i hci ⟨rows, hrows, row, hrow, hkey⟩
    rcases Nat.lt_or_eq_of_le hle with hlt | heq
    · have hmap := hback c le_rfl hlt
      rw [hsegment, Option.map_some] at hmap
      exact hlastKey c segment hsegment (Option.some.inj hmap)
    · obtain ⟨segmenti, hsegmenti, hdescribedi, -⟩ := segment_described h hrows
      have hlti : i < manifest.descriptor.segments.length :=
        (List.getElem?_eq_some_iff.mp hsegmenti).1
      refine absurd ?_ (hfoundAbove i (by omega) hlti)
      refine (hbelow i segmenti hsegmenti).mp ?_
      rw [← hkey]
      exact first_precedes hdescribedi (hsorted.within hrows) hrow

theorem start_mono (manifest : DurableManifest V) : Monotone manifest.start := by
  intro i j hij
  obtain ⟨later, hlater⟩ := List.take_prefix_take_left (l := manifest.segments) hij
  rw [start, start, ← hlater, List.flatten_append, List.length_append]
  exact Nat.le_add_right _ _

theorem codec_segments (h : manifest.Holds items) {index : ℕ}
    {segment : DurableManifestSegmentDescriptor}
    (hsegment : (codec.descriptor manifest.descriptor).segments[index]? = some segment) :
    segment.firstOrdinal = manifest.start index ∧
      manifest.start (index + 1) = segment.firstOrdinal + segment.entryCount := by
  rw [SegmentCodec.descriptor, List.getElem?_map, Option.map_eq_some_iff] at hsegment
  obtain ⟨segment', hsegment', rfl⟩ := hsegment
  obtain ⟨rows, hrows, -⟩ := segment_of_descriptor h hsegment'
  obtain ⟨segment'', hsegment'', -, hfirst, hcount⟩ := segment_described h hrows
  rw [hsegment'] at hsegment''
  obtain rfl := Option.some.inj hsegment''
  refine ⟨hfirst, ?_⟩
  rw [(segment_ordinals h hrows).2, hfirst, hcount]

theorem filter_ordinals {rows : List (ManifestRow V)} {first n : ℕ}
    (hordinals : rows.map ManifestRow.ordinal = List.range' first rows.length) :
    rows.filter (fun row => decide (first + n ≤ row.ordinal)) = rows.drop n := by
  induction rows generalizing first n with
  | nil => simp
  | cons row rows ih =>
    rw [List.map_cons, List.length_cons, List.range'_succ, List.cons.injEq] at hordinals
    obtain ⟨hfirst, hrest⟩ := hordinals
    cases n with
    | zero =>
      rw [List.drop_zero, List.filter_eq_self]
      intro row' hrow'
      rw [decide_eq_true_eq]
      rcases List.mem_cons.mp hrow' with rfl | hrow'
      · omega
      · have hmem : row'.ordinal ∈ List.range' (first + 1) rows.length :=
          hrest ▸ List.mem_map_of_mem hrow'
        have hrange := List.mem_range'_1.mp hmem
        omega
    | succ n =>
      have hshift : first + (n + 1) = first + 1 + n := by omega
      rw [List.filter_cons_of_neg (by rw [decide_eq_true_eq]; omega), List.drop_succ_cons, hshift]
      exact ih hrest

theorem page_eq (h : manifest.Holds items) (limit n : ℕ) :
    pushSegments limit n (((List.range (codec.descriptor manifest.descriptor).segments.length).drop
      (segmentIndexForOrdinal (codec.descriptor manifest.descriptor).segments n)).map
        (manifest.hydrate codec)) [] = ((items.map codec.item).drop n).take limit := by
  have hcount : (codec.descriptor manifest.descriptor).segments.length =
      manifest.segments.length := by
    rw [SegmentCodec.descriptor, List.length_map, h.described.length_eq]
  have hsegments : ∀ index segment, (codec.descriptor manifest.descriptor).segments[index]? =
      some segment →
      segment.firstOrdinal = manifest.start index ∧
        manifest.start (index + 1) = segment.firstOrdinal + segment.entryCount :=
    fun _ _ hsegment => codec_segments h hsegment
  have hindex := ordinalLoop_spec manifest.start_mono hsegments
    (codec.descriptor manifest.descriptor).segments.length 0
    (codec.descriptor manifest.descriptor).segments.length (Nat.zero_le n)
  obtain ⟨c, hc⟩ : ∃ c, c = segmentIndexForOrdinal (codec.descriptor manifest.descriptor).segments
      n := ⟨_, rfl⟩
  have hstart : manifest.start c ≤ n := by
    rw [hc]
    exact hindex
  rw [← hc, hcount, List.map_drop, hydrate_all h, pushSegments_eq _ _ _ _ (Nat.zero_le _),
    List.nil_append,
    List.length_nil, Nat.sub_zero]
  obtain ⟨rows, hrows⟩ : ∃ rows, rows = (rowsOf items).map codec.row := ⟨_, rfl⟩
  have hflatten : (manifest.segments.map (fun rows => rows.map codec.row)).flatten = rows := by
    rw [hrows, ← h.rows, List.map_flatten]
  have hordinals : rows.map ManifestRow.ordinal = List.range' 0 rows.length := by
    rw [hrows, List.map_map, List.length_map, rowsOf, List.length_map, List.length_zipIdx]
    exact rowsOf_ordinals items
  have hall : (((manifest.segments.map (fun rows => rows.map codec.row)).drop c).flatten).filter
      (fun row => decide (n ≤ row.ordinal)) = rows.drop n := by
    have hfilter := filter_ordinals (n := n) hordinals
    rw [Nat.zero_add] at hfilter
    rw [← hfilter, ← hflatten]
    conv_rhs => rw [← List.take_append_drop c
      (manifest.segments.map (fun rows => rows.map codec.row))]
    rw [List.flatten_append, List.filter_append]
    refine (List.append_left_eq_self.mpr ?_).symm
    rw [List.filter_eq_nil_iff]
    intro row hrow
    have hbefore : row.ordinal < manifest.start c := by
      have hlength :
          ((manifest.segments.map (fun rows => rows.map codec.row)).take c).flatten.length =
          manifest.start c := by
        rw [← List.map_take, ← List.map_flatten, List.length_map]
        rfl
      have hfront : ((manifest.segments.map (fun rows => rows.map codec.row)).take c).flatten =
          rows.take (manifest.start c) := by
        rw [← hflatten, ← hlength]
        conv_rhs =>
          rw [← List.take_append_drop c (manifest.segments.map (fun rows => rows.map codec.row)),
            List.flatten_append]
        simp
      rw [hfront] at hrow
      obtain ⟨i, hi, rfl⟩ := List.mem_take_iff_getElem.mp hrow
      have hat := List.getElem_of_eq hordinals (by simpa using (lt_min_iff.mp hi).2)
      rw [List.getElem_map, List.getElem_range'_1, Nat.zero_add] at hat
      exact hat.trans_lt (lt_min_iff.mp hi).1
    rw [decide_eq_true_eq]
    omega
  rw [hall, hrows, List.map_drop, List.map_map]
  congr 2
  have hitems : (ManifestRow.item ∘ codec.row : ManifestRow V → QueryStreamItem V) =
      codec.item ∘ ManifestRow.item := rfl
  rw [hitems, ← List.map_map, rowsOf_items]

theorem read_of_next (h : manifest.Holds items) (request : ManifestStreamReadRequest) {n : ℕ}
    (hn : (request.position.bind (manifest.positionOrdinal codec)).elim 0 (· + 1) = n) :
    manifest.read codec request =
      if items.length = 0 then ⟨[], false, none⟩
      else
        let page := ((items.map codec.item).drop n).take request.limit
        ⟨page, decide (n + page.length < items.length), some items.length⟩ := by
  have hcount : (codec.descriptor manifest.descriptor).entryCount = items.length := h.entryCount
  rw [read]
  simp only [hcount, hn]
  by_cases hempty : items.length = 0
  · rw [if_pos hempty, if_pos hempty]
  · rw [if_neg hempty, if_neg hempty, page_eq h]
    by_cases hin : n < items.length ∧ 0 < request.limit
    · rw [if_pos hin]
    · rw [if_neg hin]
      have hnil : ((items.map codec.item).drop n).take request.limit = [] := by
        rcases not_and_or.mp hin with hpast | hzero
        · rw [List.drop_eq_nil_of_le (by rw [List.length_map]; omega), List.take_nil]
        · rw [Nat.eq_zero_of_not_pos hzero, List.take_zero]
      rw [hnil]

theorem codec_rows (h : manifest.Holds items) (hfix : ∀ item ∈ items, codec.item item = item) :
    ∀ rows ∈ manifest.segments, rows.map codec.row = rows := by
  intro rows hrows
  refine (List.map_congr_left (fun row hrow => ?_)).trans (List.map_id rows)
  have hmem : row ∈ rowsOf items := h.rows ▸ List.mem_flatten_of_mem hrows hrow
  have hitem : row.item ∈ items := rowsOf_items items ▸ List.mem_map_of_mem hmem
  rw [SegmentCodec.row, hfix row.item hitem]
  rfl

theorem codec_descriptor (h : manifest.Holds items)
    (hfix : ∀ item ∈ items, codec.item item = item) :
    codec.descriptor manifest.descriptor = manifest.descriptor := by
  have hkey : ∀ rows ∈ manifest.segments, ∀ row ∈ rows, codec.text row.key = row.key := by
    intro rows hrows row hrow
    have hmem : row ∈ rowsOf items := h.rows ▸ List.mem_flatten_of_mem hrows hrow
    have hitem : row.item ∈ items := rowsOf_items items ▸ List.mem_map_of_mem hmem
    exact congrArg QueryStreamItem.stableSortKey (hfix row.item hitem)
  have hsegments : (codec.descriptor manifest.descriptor).segments =
      manifest.descriptor.segments := by
    refine (List.map_congr_left (fun segment hsegment => ?_)).trans (List.map_id _)
    obtain ⟨index, hindex⟩ := List.getElem?_of_mem hsegment
    obtain ⟨rows, hrows, hdescribed⟩ := segment_of_descriptor h hindex
    obtain ⟨first, hfirst, hfirstKey⟩ := described_first hdescribed
    obtain ⟨last, hlast, hlastKey⟩ := described_last hdescribed
    rw [← hfirstKey, ← hlastKey, hkey rows (List.mem_of_getElem? hrows) first hfirst,
      hkey rows (List.mem_of_getElem? hrows) last hlast, hfirstKey, hlastKey]
    rfl
  change ({ manifest.descriptor with segments := (codec.descriptor manifest.descriptor).segments } :
    DurableManifestDescriptor) = manifest.descriptor
  rw [hsegments]

theorem find_first_segment (h : manifest.Holds items) {position : JsString} {c : ℕ}
    (hbefore : ∀ i < c, ¬ manifest.HasKey position i)
    (hafter : ∀ i, c < i → manifest.HasKey position i → manifest.HasKey position c)
    {rows : List (ManifestRow V)} (hrows : manifest.segments[c]? = some rows) :
    rows.find? (fun row => decide (row.item.stableSortKey = position)) =
      (rowsOf items).find? (fun row => decide (row.item.stableSortKey = position)) := by
  have hnone : ∀ segments : List (List (ManifestRow V)),
      (∀ rows' ∈ segments, ∀ row ∈ rows', row.key ≠ position) →
      segments.flatten.find? (fun row => decide (row.item.stableSortKey = position)) = none := by
    intro segments hnot
    rw [List.find?_eq_none]
    intro row hrow hkey
    obtain ⟨rows', hrows', hrow'⟩ := List.mem_flatten.mp hrow
    exact hnot rows' hrows' row hrow' (of_decide_eq_true hkey)
  have hsplit : manifest.segments = manifest.segments.take c ++ rows :: manifest.segments.drop
      (c + 1) := by
    obtain ⟨hlt, hget⟩ := List.getElem?_eq_some_iff.mp hrows
    rw [← hget, List.cons_getElem_drop_succ, List.take_append_drop]
  rw [← h.rows, hsplit, List.flatten_append, List.flatten_cons, List.find?_append,
    List.find?_append,
    hnone (manifest.segments.take c), Option.none_or]
  · cases hfind : rows.find? (fun row => decide (row.item.stableSortKey = position)) with
    | some row => rfl
    | none =>
      rw [Option.none_or]
      refine (hnone _ ?_).symm
      intro rows' hrows' row hrow hkey
      obtain ⟨i, hi⟩ := List.getElem?_of_mem hrows'
      rw [List.getElem?_drop] at hi
      obtain ⟨rowsc, hrowsc, rowc, hrowc, hkeyc⟩ :=
        hafter (c + 1 + i) (by omega) ⟨rows', hi, row, hrow, hkey⟩
      rw [hrows] at hrowsc
      obtain rfl := Option.some.inj hrowsc
      exact List.find?_eq_none.mp hfind rowc hrowc (decide_eq_true hkeyc)
  · intro rows' hrows' row hrow hkey
    obtain ⟨i, hi⟩ := List.getElem?_of_mem hrows'
    rw [List.getElem?_take] at hi
    split at hi
    · next hlt => exact hbefore i hlt ⟨rows', hi, row, hrow, hkey⟩
    · cases hi

theorem positionOrdinal_eq (h : manifest.Holds items)
    (hfix : ∀ item ∈ items, codec.item item = item)
    (position : JsString) : manifest.positionOrdinal codec position =
      items.findIdx? (fun item => decide (item.stableSortKey = position)) := by
  have hfound : ((rowsOf items).find? (fun row => decide (row.item.stableSortKey = position))).map
      ManifestRow.ordinal = items.findIdx?
        (fun item => decide (item.stableSortKey = position)) := by
    have hfind := find_rowsOf items position 0
    simpa [rowsOf] using hfind
  have hhydrate : ∀ index rows, manifest.segments[index]? = some rows →
      manifest.hydrate codec index = rows :=
    fun index rows hrows =>
      (hydrate_eq h hrows).trans (codec_rows h hfix rows (List.mem_of_getElem? hrows))
  rw [positionOrdinal]
  simp only [codec_descriptor h hfix]
  cases hsegment : segmentIndexForPosition manifest.descriptor position with
  | some c =>
    obtain ⟨hlt, hbefore, hafter⟩ := segmentIndexForPosition_some h hsegment
    have hrows := List.getElem?_eq_getElem hlt
    rw [Option.elim_some, List.findSome?_singleton, hhydrate c _ hrows,
      find_first_segment h hbefore hafter hrows, hfound]
  | none =>
    have hall : (List.range manifest.segments.length).map (manifest.hydrate codec) =
        manifest.segments := by
      rw [hydrate_all h]
      exact (List.map_congr_left (codec_rows h hfix)).trans (List.map_id _)
    have hscan : (List.range manifest.segments.length).findSome? (fun index =>
        ((manifest.hydrate codec index).find?
          (fun row => decide (row.item.stableSortKey = position))).map
          ManifestRow.ordinal) =
        manifest.segments.findSome? (fun rows =>
          (rows.find? (fun row => decide (row.item.stableSortKey = position))).map
            ManifestRow.ordinal) := by
      conv_rhs => rw [← hall]
      rw [List.findSome?_map]
      rfl
    rw [Option.elim_none, h.described.length_eq, hscan, ← hfound, ← h.rows, List.find?_flatten,
      List.map_findSome?]
    rfl

theorem read_eq (h : manifest.Holds items) (hfix : ∀ item ∈ items, codec.item item = item)
    (request : ManifestStreamReadRequest) :
    manifest.read codec request = readAfter items request := by
  have hnext : (request.position.bind (manifest.positionOrdinal codec)).elim 0 (· + 1) =
      firstAfter items request.position := by
    unfold firstAfter
    rw [funext (positionOrdinal_eq h hfix)]
  have hitems : items.map codec.item = items := (List.map_congr_left hfix).trans (List.map_id _)
  rw [read_of_next h request hnext, hitems]
  rfl

theorem read_eq_memory (codec : SegmentCodec V) (items : List (QueryStreamItem V))
    (manifest : DurableManifest V)
    (happend : append codec items = some manifest) (hrows : ∀ item ∈ items, codec.item item = item)
    (request : ManifestStreamReadRequest) :
    manifest.read codec request = (memoryManifest items).read request := by
  have hholds : manifest.Holds items := holds_append happend
  rw [read_eq hholds hrows, MemoryManifest.read_eq]

def sizedCodec : SegmentCodec ℕ where
  canonicalBytes := fun item => some item.fields
  accepts := fun rows => decide (rows.length ≤ manifestSegmentRows)
  acceptsDescriptor := fun _ => true
  text := id
  fields := id

theorem read_eq_memory_sized :
    ∃ manifest, append sizedCodec [⟨[97], 700000⟩, ⟨[98], 600000⟩, ⟨[98], 10⟩, ⟨[98], 900000⟩] =
      some manifest ∧
      manifest.segments.length = 3 ∧ manifest.read sizedCodec ⟨some [98], 2⟩ =
        (memoryManifest [⟨[97], 700000⟩, ⟨[98], 600000⟩, ⟨[98], 10⟩, ⟨[98], 900000⟩]).read
          ⟨some [98], 2⟩ := by
  have hsome :
      (append sizedCodec [⟨[97], 700000⟩, ⟨[98], 600000⟩, ⟨[98], 10⟩, ⟨[98], 900000⟩]).isSome =
        true := by
    decide +kernel
  obtain ⟨manifest, hmanifest⟩ := Option.isSome_iff_exists.mp hsome
  have hsegments :
      (append sizedCodec [⟨[97], 700000⟩, ⟨[98], 600000⟩, ⟨[98], 10⟩, ⟨[98], 900000⟩]).map
      (fun manifest => manifest.segments.length) = some 3 := by decide +kernel
  refine ⟨manifest, hmanifest, ?_, read_eq_memory _ _ _ hmanifest (fun _ _ => rfl) _⟩
  rw [hmanifest] at hsegments
  exact Option.some.inj hsegments

end DurableManifest

end Engine
