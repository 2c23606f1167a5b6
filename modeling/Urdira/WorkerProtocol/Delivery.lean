import Urdira.Lib.Interleaving
import Urdira.WorkerProtocol.Message

open ByteOrder FramedStream Interleaving Utf8

namespace WorkerProtocol

section Accept

variable {options : FrameOptions} {payload : Bytes} {offset sequence maxBytes : ℕ}
  {streams : List (U32 × PendingStream)}

def budget (options : FrameOptions) (maxBytes : ℕ) : ℕ :=
  min (min options.byteBudget.val options.inFlightBudget.val) maxBytes

def pendingAt (options : FrameOptions) (payload : Bytes) (offset sequence : ℕ) : PendingStream :=
  ⟨options.cancellationId, options.byteBudget, options.inFlightBudget, Fin.ofNat _ sequence,
    Fin.ofNat _ offset,
    payload.take offset⟩

def decoded (options : FrameOptions) (payload : Bytes) : DecodedMessage :=
  ⟨options.streamId, options.cancellationId, options.byteBudget, options.inFlightBudget, payload⟩

def Holds (streams : List (U32 × PendingStream)) (options : FrameOptions) (payload : Bytes)
    (offset sequence : ℕ) :
    Prop :=
  offset = 0 ∧ sequence = 0 ∧ AssocMap.get streams options.streamId = none ∨
    AssocMap.get streams options.streamId = some (pendingAt options payload offset sequence)

theorem Holds.getD (h : Holds streams options payload offset sequence) :
    (AssocMap.get streams options.streamId).getD
      ⟨options.cancellationId, options.byteBudget, options.inFlightBudget, 0, 0, []⟩ =
        pendingAt options payload offset sequence := by
  rcases h with ⟨rfl, rfl, hnone⟩ | hsome
  · rw [hnone]
    rfl
  · rw [hsome]
    rfl

theorem acceptPending_piece {length : ℕ} {finalFrame : Bool} (hsequence : sequence + 1 < 4294967296)
    (hinside : offset + length ≤ payload.length)
    (hbudget : payload.length ≤ budget options maxBytes) :
    FrameDecoder.acceptPending maxBytes (pendingAt options payload offset sequence)
      ⟨options.streamId, Fin.ofNat _ sequence, Fin.ofNat _ offset, options.byteBudget,
        options.inFlightBudget,
        options.cancellationId, (payload.drop offset).take length, finalFrame⟩ =
      .ok (pendingAt options payload (offset + length) (sequence + 1)) := by
  have hsize : (payload.take offset).length + ((payload.drop offset).take length).length =
      offset + length := by
    rw [List.length_take, List.length_take, List.length_drop]
    omega
  have hfits : ¬ budget options maxBytes < offset + length := by omega
  have hword : budget options maxBytes < 4294967296 := by
    have hbyte := options.byteBudget.isLt
    have hmin : budget options maxBytes ≤ options.byteBudget.val :=
      le_trans (min_le_left _ _) (min_le_left _ _)
    omega
  have hnext : (Fin.ofNat 4294967296 sequence).val = sequence := Nat.mod_eq_of_lt (by omega)
  unfold FrameDecoder.acceptPending
  rw [if_neg (by simp [pendingAt]), if_neg (by simp [pendingAt])]
  simp only [pendingAt, hsize, hnext]
  rw [budget] at hfits
  rw [if_neg hfits, if_neg (by omega), if_neg (by omega), List.take_add]

theorem acceptFrame_more {length : ℕ} {body : Bytes} (hvalid : options.Valid)
    (hbudget : payload.length ≤ budget options maxBytes)
    (hinside : offset + length < payload.length)
    (hsequence : sequence + 1 < 4294967296)
    (hbody : frameBody options sequence offset ((payload.drop offset).take length) false = .ok body)
    (hholds : Holds streams options payload offset sequence) :
    FrameDecoder.acceptFrame maxBytes streams body =
      .ok (none, AssocMap.insert streams options.streamId
        (pendingAt options payload (offset + length) (sequence + 1))) := by
  have hframe := decodeFrame_body hvalid (by omega) hbody
  unfold FrameDecoder.acceptFrame
  simp only [hframe, bind, Except.bind, hholds.getD,
    acceptPending_piece hsequence hinside.le hbudget]
  rfl

theorem acceptFrame_final {body : Bytes} (hvalid : options.Valid)
    (hbudget : payload.length ≤ budget options maxBytes)
    (hoffset : offset ≤ payload.length) (hsequence : sequence + 1 < 4294967296)
    (hbody : frameBody options sequence offset (payload.drop offset) true = .ok body)
    (hholds : Holds streams options payload offset sequence) :
    FrameDecoder.acceptFrame maxBytes streams body =
      .ok (some (decoded options payload), AssocMap.erase streams options.streamId) := by
  have hframe := decodeFrame_body hvalid (by omega) hbody
  have hwhole : (payload.drop offset).take (payload.length - offset) = payload.drop offset :=
    List.take_of_length_le (by rw [List.length_drop])
  have hend : offset + (payload.length - offset) = payload.length := by omega
  have hpending :=
    @acceptPending_piece options payload offset sequence maxBytes (payload.length - offset) true
    hsequence hend.le hbudget
  rw [hwhole, hend] at hpending
  have hall : (pendingAt options payload payload.length (sequence + 1)).payload = payload :=
    List.take_length
  unfold FrameDecoder.acceptFrame
  simp only [hframe, bind, Except.bind, hholds.getD, hpending, if_true, hall]
  rfl

end Accept

section Reassembly

variable {M : Type} {options : M → FrameOptions} {payload : M → Bytes}

structure Reassembling (options : M → FrameOptions) (payload : M → Bytes)
    (sources : List (M × List Bytes))
    (streams : List (U32 × PendingStream)) : Prop where
  distinct : (sources.map (fun source => (options source.1).streamId)).Nodup
  valid : ∀ source ∈ sources, (options source.1).Valid ∧
    (payload source.1).length ≤ budget (options source.1) maxMessageBytes
  holds : ∀ source ∈ sources, ∃ offset sequence,
    FramesFrom (options source.1) (payload source.1) offset sequence source.2 ∧
      Holds streams (options source.1) (payload source.1) offset sequence
  known : ∀ id ∈ streams.map Prod.fst, ∃ source ∈ sources, (options source.1).streamId = id

theorem ne_of_nodup {before after : List (M × List Bytes)} {m : M} {frames : List Bytes}
    (h : ((before ++ (m, frames) :: after).map (fun source => (options source.1).streamId)).Nodup) :
    ∀ source ∈ before ++ after, (options source.1).streamId ≠ (options m).streamId := by
  intro source hsource heq
  rw [List.map_append, List.map_cons] at h
  have hnotin := (List.nodup_cons.mp (List.perm_middle.nodup_iff.mp h)).1
  rw [← List.map_append] at hnotin
  exact hnotin (heq ▸ List.mem_map_of_mem hsource)

theorem Holds.frame {streams streams' : List (U32 × PendingStream)} {opts : FrameOptions}
    {text : Bytes}
    {offset sequence : ℕ} (h : Holds streams opts text offset sequence)
    (hget : AssocMap.get streams' opts.streamId = AssocMap.get streams opts.streamId) :
    Holds streams' opts text offset sequence := by
  rw [Holds, hget]
  exact h

theorem Reassembling.more {before after : List (M × List Bytes)} {m : M}
    {frames frames' : List Bytes}
    {streams : List (U32 × PendingStream)} {offset sequence : ℕ}
    (h : Reassembling options payload (before ++ (m, frames) :: after) streams)
    (hframes : FramesFrom (options m) (payload m) offset sequence frames') :
    Reassembling options payload (before ++ (m, frames') :: after)
      (AssocMap.insert streams (options m).streamId
        (pendingAt (options m) (payload m) offset sequence)) where
  distinct := by
    have hdistinct := h.distinct
    rw [List.map_append, List.map_cons] at hdistinct ⊢
    exact hdistinct
  valid := by
    intro source hsource
    rcases List.mem_append.mp hsource with hbefore | hafter
    · exact h.valid source (List.mem_append_left _ hbefore)
    · rcases List.mem_cons.mp hafter with rfl | hafter
      · exact h.valid (m, frames) (List.mem_append_right _ List.mem_cons_self)
      · exact h.valid source (List.mem_append_right _ (List.mem_cons_of_mem _ hafter))
  holds := by
    intro source hsource
    rcases List.mem_cons.mp (List.perm_middle.mem_iff.mp hsource) with rfl | hother
    · exact ⟨offset, sequence, hframes, .inr (AssocMap.get_insert_self _ _ _)⟩
    · obtain ⟨offset, sequence, hfrom, hholds⟩ :=
        h.holds source (List.perm_middle.mem_iff.mpr (List.mem_cons_of_mem _ hother))
      exact ⟨offset, sequence, hfrom, hholds.frame
        (AssocMap.get_insert_ne _ _ (ne_of_nodup h.distinct source hother))⟩
  known := by
    intro id hid
    rcases (AssocMap.mem_keys_insert _ _ _ _).mp hid with rfl | hold
    · exact ⟨(m, frames'), List.mem_append_right _ List.mem_cons_self, rfl⟩
    · obtain ⟨source, hsource, rfl⟩ := h.known id hold
      rcases List.mem_cons.mp (List.perm_middle.mem_iff.mp hsource) with rfl | hother
      · exact ⟨(m, frames'), List.mem_append_right _ List.mem_cons_self, rfl⟩
      · exact ⟨source, List.perm_middle.mem_iff.mpr (List.mem_cons_of_mem _ hother), rfl⟩

theorem Reassembling.last {before after : List (M × List Bytes)} {m : M} {frames : List Bytes}
    {streams : List (U32 × PendingStream)}
    (h : Reassembling options payload (before ++ (m, frames) :: after) streams) :
    Reassembling options payload (before ++ after)
      (AssocMap.erase streams (options m).streamId) where
  distinct := by
    have hdistinct := h.distinct
    rw [List.map_append, List.map_cons] at hdistinct
    rw [List.map_append]
    exact (List.nodup_cons.mp (List.perm_middle.nodup_iff.mp hdistinct)).2
  valid source hsource :=
    h.valid source (List.perm_middle.mem_iff.mpr (List.mem_cons_of_mem _ hsource))
  holds := by
    intro source hsource
    obtain ⟨offset, sequence, hfrom, hholds⟩ :=
      h.holds source (List.perm_middle.mem_iff.mpr (List.mem_cons_of_mem _ hsource))
    exact ⟨offset, sequence, hfrom, hholds.frame
      (AssocMap.get_erase_ne _ (ne_of_nodup h.distinct source hsource))⟩
  known := by
    intro id hid
    obtain ⟨hold, hne⟩ := (AssocMap.mem_keys_erase _ _ _).mp hid
    obtain ⟨source, hsource, rfl⟩ := h.known id hold
    rcases List.mem_cons.mp (List.perm_middle.mem_iff.mp hsource) with rfl | hother
    · exact absurd rfl hne
    · exact ⟨source, hother, rfl⟩

theorem body_length {opts : FrameOptions} {sequence offset : ℕ} {piece body : Bytes}
    {finalFrame : Bool}
    (h : frameBody opts sequence offset piece finalFrame = .ok body) (maxBytes : ℕ) :
    body.length < 256 ^ 4 ∧ (FrameDecoder.protocol maxBytes).lengthError body.length = none := by
  obtain ⟨-, hchunk, cancellation, written, -, -, hbody⟩ := frameBody_ok h
  have hpos := length_writeVarintField_pos 9 finalFrame.toNat
  have hbodyPos : 1 ≤ body.length := by
    rw [hbody, List.length_append]
    omega
  exact ⟨lt_of_le_of_lt hchunk (by decide), if_pos ⟨hbodyPos, hchunk⟩⟩

theorem reads_interleaved {sources : List (M × List Bytes)} {stream : List Bytes} {order : List M}
    (h : Interleaves sources stream order) {streams : List (U32 × PendingStream)}
    (hreassembling : Reassembling options payload sources streams) :
    Reads (FrameDecoder.protocol maxMessageBytes) stream.flatten streams
      (order.map (fun m => decoded (options m) (payload m))) (.ok ([], [])) := by
  induction h generalizing streams with
  | done =>
    have hempty : streams = [] := by
      cases streams with
      | nil => rfl
      | cons entry streams =>
        obtain ⟨source, hsource, -⟩ := hreassembling.known entry.1 List.mem_cons_self
        cases hsource
    rw [hempty]
    exact .stops (next_nil _ _)
  | @more before after m x xs stream order hxs h ih =>
    have hmem : (m, x :: xs) ∈ before ++ (m, x :: xs) :: after :=
      List.mem_append_right _ List.mem_cons_self
    obtain ⟨hvalid, hbudget⟩ := hreassembling.valid _ hmem
    obtain ⟨offset, sequence, hfrom, hholds⟩ := hreassembling.holds _ hmem
    cases hfrom with
    | final => exact absurd rfl hxs
    | more hlength hinside hsequence hbody hframes =>
      obtain ⟨hshort, hnone⟩ := body_length hbody maxMessageBytes
      have haccept := acceptFrame_more hvalid hbudget hinside hsequence hbody hholds
      rw [List.flatten_cons]
      exact Reads.framed hshort hnone haccept (ih (hreassembling.more hframes))
  | @last before after m x stream order h ih =>
    have hmem : (m, [x]) ∈ before ++ (m, [x]) :: after := List.mem_append_right _ List.mem_cons_self
    obtain ⟨hvalid, hbudget⟩ := hreassembling.valid _ hmem
    obtain ⟨offset, sequence, hfrom, hholds⟩ := hreassembling.holds _ hmem
    cases hfrom with
    | final hoffset hsequence hbody =>
      obtain ⟨hshort, hnone⟩ := body_length hbody maxMessageBytes
      have haccept := acceptFrame_final hvalid hbudget hoffset hsequence hbody hholds
      rw [List.flatten_cons]
      exact Reads.framed hshort hnone haccept (ih hreassembling.last)
    | more hlength hinside hsequence hbody hframes => exact absurd rfl hframes.ne_nil

end Reassembly

section Delivery

variable {T : Type}

structure Carries (toVec : T → Option Bytes) (sent : T × FrameOptions) (message : DecodedMessage) :
    Prop where
  streamId : message.streamId = sent.2.streamId
  cancellationId : message.cancellationId = sent.2.cancellationId
  byteBudget : message.byteBudget = sent.2.byteBudget
  inFlightBudget : message.inFlightBudget = sent.2.inFlightBudget
  payload : toVec sent.1 = some message.payload

theorem reassembling_start {toVec : T → Option Bytes}
    {sources : List ((T × FrameOptions) × List Bytes)}
    (hencoded : ∀ source ∈ sources, encodeMessage toVec source.1.1 source.1.2 = .ok source.2)
    (hdistinct : (sources.map (fun source => source.1.2.streamId)).Nodup) :
    Reassembling (fun sent : T × FrameOptions => sent.2) (fun sent => (toVec sent.1).getD [])
      sources [] where
  distinct := hdistinct
  valid := by
    intro source hsource
    obtain ⟨hvalid, payload, hvalue, hlimit, -⟩ := encodeMessage_ok (hencoded source hsource)
    rw [hvalue]
    exact ⟨hvalid, hlimit⟩
  holds := by
    intro source hsource
    obtain ⟨-, payload, hvalue, -, hfrom⟩ := encodeMessage_ok (hencoded source hsource)
    rw [hvalue]
    exact ⟨0, 0, hfrom, .inl ⟨rfl, rfl, rfl⟩⟩
  known := by
    intro id hid
    cases hid

theorem forall_carries {toVec : T → Option Bytes} {order : List (T × FrameOptions)}
    (h : ∀ sent ∈ order, (toVec sent.1).isSome = true) :
    List.Forall₂ (Carries toVec) order (order.map
      (fun sent => decoded sent.2 ((toVec sent.1).getD []))) := by
  induction order with
  | nil => exact .nil
  | cons sent order ih =>
    obtain ⟨payload, hvalue⟩ := Option.isSome_iff_exists.mp (h sent List.mem_cons_self)
    refine .cons ⟨rfl, rfl, rfl, rfl, ?_⟩
      (ih (fun sent hsent => h sent (List.mem_cons_of_mem _ hsent)))
    change toVec sent.1 = some ((toVec sent.1).getD [])
    rw [hvalue]
    rfl

theorem interleaved_messages_are_delivered (toVec : T → Option Bytes) :
    (∀ value options, encodeMessage toVec value options ≠
      .error "Protobuf frame exceeds its chunk budget") ∧
    ∀ (sources : List ((T × FrameOptions) × List Bytes)) (stream : List Bytes)
      (order : List (T × FrameOptions))
      (chunks : List Bytes),
      (∀ source ∈ sources, encodeMessage toVec source.1.1 source.1.2 = .ok source.2) →
      (sources.map (fun source => source.1.2.streamId)).Nodup →
      Interleaves sources stream order → chunks.flatten = stream.flatten →
      ∃ messages decoder, FrameDecoder.default.pushAll chunks = (messages, .ok decoder) ∧
        decoder.finish = .ok () ∧ List.Forall₂ (Carries toVec) order messages ∧
        order.Perm (sources.map Prod.fst) := by
  refine ⟨encodeMessage_never_exceeds toVec, ?_⟩
  intro sources stream order chunks hencoded hdistinct hinterleaves hcut
  have hreads := reads_interleaved hinterleaves (reassembling_start hencoded hdistinct)
  rw [← hcut] at hreads
  have hpushed := pushAll_ok (next_nil _ _) hreads
  have hsome : ∀ sent ∈ order, (toVec sent.1).isSome = true := by
    intro sent hsent
    obtain ⟨source, hsource, rfl⟩ := List.mem_map.mp (hinterleaves.perm.mem_iff.mp hsent)
    obtain ⟨-, payload, hvalue, -⟩ := encodeMessage_ok (hencoded source hsource)
    rw [hvalue]
    rfl
  have hdefault : FrameDecoder.default = ⟨[], [], maxMessageBytes⟩ := rfl
  refine ⟨_, ⟨[], [], maxMessageBytes⟩, ?_, rfl, forall_carries hsome, hinterleaves.perm⟩
  rw [hdefault, FrameDecoder.pushAll_eq, hpushed]
  rfl

def shortOptions (streamId : U32) : FrameOptions := ⟨streamId, "", 64, 64⟩

theorem encode_short {options : FrameOptions} {byte : Byte} {body : Bytes} (hvalid : options.Valid)
    (hbudget : 1 ≤ min (min options.byteBudget.val options.inFlightBudget.val) maxMessageBytes)
    (hbody : frameBody options 0 0 [byte] true = .ok body) :
    encodeMessage some [byte] options = .ok [framed body] := by
  obtain ⟨frames, hframes, hfrom⟩ :=
    encodeMessage_spec hvalid (show some [byte] = some [byte] from rfl) hbudget
  cases hfrom with
  | final hoffset hsequence hbody' =>
    obtain rfl := Except.ok.inj (hbody.symm.trans hbody')
    exact hframes
  | more hlength hinside =>
    rw [List.length_singleton] at hinside
    omega

theorem interleaved_messages_two :
    let body (streamId byte : Byte) : Bytes :=
      [8, 2, 16, streamId, 24, 0, 32, 0, 40, 64, 48, 64, 58, 0, 66, 1, byte, 72, 1]
    let first : Bytes := framed (body 1 7)
    let second : Bytes := framed (body 2 9)
    ∃ messages decoder, FrameDecoder.default.pushAll [second.take 5, second.drop 5 ++ first.take 2,
      first.drop 2] =
      (messages, .ok decoder) ∧ decoder.finish = .ok () ∧
        List.Forall₂ (Carries some) [([9], shortOptions 2), ([7], shortOptions 1)] messages := by
  intro body first second
  have hfirst : encodeMessage some [7] (shortOptions 1) = .ok [first] :=
    encode_short ⟨rfl, by decide, by decide⟩ (by decide) (by decide +kernel)
  have hsecond : encodeMessage some [9] (shortOptions 2) = .ok [second] :=
    encode_short ⟨rfl, by decide, by decide⟩ (by decide) (by decide +kernel)
  have hinterleaves : Interleaves [((([7] : Bytes), shortOptions 1), [first]),
      ((([9] : Bytes), shortOptions 2), [second])]
      [second, first] [([9], shortOptions 2), ([7], shortOptions 1)] :=
    @Interleaves.last _ _ [(([7], shortOptions 1), [first])]
      [] _ _ _ _ (@Interleaves.last _ _ [] [] _ _ _ _ .done)
  have hencoded : ∀ source ∈ [(([7], shortOptions 1), [first]), (([9], shortOptions 2), [second])],
      encodeMessage some source.1.1 source.1.2 = .ok source.2 := by
    intro source hsource
    rcases List.mem_cons.mp hsource with rfl | hsource
    · exact hfirst
    · obtain rfl := List.mem_singleton.mp hsource
      exact hsecond
  obtain ⟨messages, decoder, hpushed, hfinish, hcarried, -⟩ :=
    (interleaved_messages_are_delivered some).2 _ _ _
    [second.take 5, second.drop 5 ++ first.take 2, first.drop 2] hencoded
      (by decide) hinterleaves rfl
  exact ⟨messages, decoder, hpushed, hfinish, hcarried⟩

end Delivery

end WorkerProtocol
