import Urdira.WorkerProtocol.FrameRoundTrip

open ByteOrder FramedStream PrefixCode Utf8

namespace WorkerProtocol

inductive FramesFrom (options : FrameOptions) (payload : Bytes) : ℕ → ℕ → List Bytes → Prop
  | final {offset sequence : ℕ} {body : Bytes} (hoffset : offset ≤ payload.length)
      (hsequence : sequence + 1 < 4294967296)
      (hbody : frameBody options sequence offset (payload.drop offset) true = .ok body) :
      FramesFrom options payload offset sequence [framed body]
  | more {offset sequence length : ℕ} {body : Bytes} {frames : List Bytes} (hlength : 0 < length)
      (hinside : offset + length < payload.length) (hsequence : sequence + 1 < 4294967296)
      (hbody : frameBody options sequence offset ((payload.drop offset).take length) false =
        .ok body)
      (hframes : FramesFrom options payload (offset + length) (sequence + 1) frames) :
      FramesFrom options payload offset sequence (framed body :: frames)

theorem FramesFrom.ne_nil {options : FrameOptions} {payload : Bytes} {offset sequence : ℕ}
    {frames : List Bytes}
    (h : FramesFrom options payload offset sequence frames) : frames ≠ [] := by
  cases h with
  | final => exact List.cons_ne_nil _ _
  | more => exact List.cons_ne_nil _ _

section Loop

variable {options : FrameOptions} {payload : Bytes} {maxPayload : ℕ} (hpayload : 0 < maxPayload)

theorem encodeFrames_final {offset sequence : ℕ} {body : Bytes} (hoffset : offset ≤ payload.length)
    (hlast : payload.length ≤ offset + maxPayload) (hsequence : sequence + 1 < 4294967296)
    (hbody : frameBody options sequence offset (payload.drop offset) true = .ok body) :
    encodeFrames options payload maxPayload hpayload offset sequence = .ok [framed body] := by
  have hchunk : body.length < 4294967296 := lt_of_le_of_lt (frameBody_ok hbody).2.1 (by decide)
  have hmin : min (payload.length - offset) maxPayload = payload.length - offset :=
    min_eq_left (by omega)
  have hall : payload.length ≤ offset + (payload.length - offset) := by omega
  have hpiece : (payload.drop offset).take (payload.length - offset) = payload.drop offset :=
    List.take_of_length_le (by rw [List.length_drop])
  rw [encodeFrames]
  simp only [hmin, hpiece, decide_eq_true hall, hbody, u32TryFrom_lt hchunk,
    u32TryFrom_lt hsequence, bind,
    Except.bind, if_pos hall]
  rfl

theorem encodeFrames_more {offset sequence : ℕ} {body : Bytes}
    (hinside : offset + maxPayload < payload.length)
    (hsequence : sequence + 1 < 4294967296)
    (hbody : frameBody options sequence offset ((payload.drop offset).take maxPayload) false =
      .ok body) :
    encodeFrames options payload maxPayload hpayload offset sequence =
      (encodeFrames options payload maxPayload hpayload (offset + maxPayload) (sequence + 1)).map
        (framed body :: ·) := by
  have hchunk : body.length < 4294967296 := lt_of_le_of_lt (frameBody_ok hbody).2.1 (by decide)
  have hmin : min (payload.length - offset) maxPayload = maxPayload := min_eq_right (by omega)
  have hnot : ¬ payload.length ≤ offset + maxPayload := Nat.not_le.mpr hinside
  rw [encodeFrames]
  simp only [hmin, decide_eq_false hnot, hbody, u32TryFrom_lt hchunk, u32TryFrom_lt hsequence, bind,
    Except.bind,
    if_neg hnot]
  cases encodeFrames options payload maxPayload hpayload (offset + maxPayload) (sequence + 1) with
  | error e => rfl
  | ok frames => rfl

theorem exists_encodeFrames
    (hbudget : maxProtobufFrameOverheadBytes + (utf8 options.cancellationId).length + maxPayload ≤
      maxFrameChunkBytes)
    (hsmall : payload.length ≤ maxMessageBytes) {offset sequence : ℕ}
    (hoffset : offset ≤ payload.length)
    (hsequence : sequence ≤ offset) :
    ∃ frames, encodeFrames options payload maxPayload hpayload offset sequence = .ok frames ∧
      FramesFrom options payload offset sequence frames := by
  have hmessage : maxMessageBytes + 1 < 4294967296 := by decide
  induction hleft : payload.length - offset using Nat.strongRecOn generalizing offset sequence with
  | ind left ih =>
    rcases Nat.lt_or_ge (offset + maxPayload) payload.length with hinside | hlast
    · have hpiece : ((payload.drop offset).take maxPayload).length ≤ maxPayload :=
        List.length_take_le _ _
      obtain ⟨body, hbody⟩ :
          ∃ body, frameBody options sequence offset ((payload.drop offset).take maxPayload) false =
          .ok body := exists_frameBody options (by omega) (by omega) (by omega) false
      obtain ⟨frames, hframes, hfrom⟩ := ih (payload.length - (offset + maxPayload)) (by omega)
        (show offset + maxPayload ≤ payload.length by omega) (show sequence + 1 ≤
          offset + maxPayload by omega) rfl
      refine ⟨framed body :: frames, ?_, .more hpayload hinside (by omega) hbody hfrom⟩
      rw [encodeFrames_more hpayload hinside (by omega) hbody, hframes]
      rfl
    · have hpiece : (payload.drop offset).length ≤ maxPayload := by
        rw [List.length_drop]
        omega
      obtain ⟨body, hbody⟩ : ∃ body, frameBody options sequence offset (payload.drop offset) true =
          .ok body :=
        exists_frameBody options (by omega) (by omega) (by omega) true
      exact ⟨[framed body], encodeFrames_final hpayload hoffset hlast (by omega) hbody,
        .final hoffset (by omega) hbody⟩

end Loop

theorem validateIdentifier_ok {value : String} (h : validateIdentifier value true = .ok ()) :
    (utf8 value).length ≤ 240 := by
  unfold validateIdentifier at h
  split at h
  · cases h
  · next hvalid =>
    simp only [Bool.or_eq_true, decide_eq_true_eq, not_or] at hvalid
    omega

section Message

variable {T : Type} {toVec : T → Option Bytes} {value : T} {options : FrameOptions}

theorem encodeMessage_spec {payload : Bytes} (hvalid : options.Valid)
    (hvalue : toVec value = some payload)
    (hlimit : payload.length ≤ min (min options.byteBudget.val options.inFlightBudget.val)
      maxMessageBytes) :
    ∃ frames, encodeMessage toVec value options = .ok frames ∧
      FramesFrom options payload 0 0 frames := by
  have hidentifier := validateIdentifier_ok hvalid.1
  have hroom : maxProtobufFrameOverheadBytes + (utf8 options.cancellationId).length <
      maxFrameChunkBytes :=
    lt_of_le_of_lt (Nat.add_le_add_left hidentifier _) (by decide)
  have hpositive : ¬ (options.byteBudget = 0 ∨ options.inFlightBudget = 0) := not_or.mpr hvalid.2
  have hfits : maxProtobufFrameOverheadBytes + (utf8 options.cancellationId).length +
      (maxFrameChunkBytes - (maxProtobufFrameOverheadBytes +
        (utf8 options.cancellationId).length)) ≤
        maxFrameChunkBytes := by omega
  obtain ⟨frames, hframes, hfrom⟩ := exists_encodeFrames (Nat.sub_pos_of_lt hroom) hfits
    (le_trans hlimit (min_le_right _ _)) (Nat.zero_le _) le_rfl
  refine ⟨frames, ?_, hfrom⟩
  unfold encodeMessage
  simp only [hvalid.1, bind, Except.bind, if_neg hpositive, hvalue, if_neg (Nat.not_lt.mpr hlimit),
    dif_pos hroom]
  exact hframes

theorem encodeMessage_cases (toVec : T → Option Bytes) (value : T) (options : FrameOptions) :
    (∃ payload frames, options.Valid ∧ toVec value = some payload ∧
      payload.length ≤ min (min options.byteBudget.val options.inFlightBudget.val) maxMessageBytes ∧
      FramesFrom options payload 0 0 frames ∧ encodeMessage toVec value options = .ok frames) ∨
    encodeMessage toVec value options ∈ [.error "protocol identifier is invalid",
      .error "byte and in-flight budgets must be positive", .error "message serialization failed",
      .error "message exceeds its mandatory budget"] := by
  cases hidentifier : validateIdentifier options.cancellationId true with
  | error e =>
    have hmessage : e = "protocol identifier is invalid" := by
      unfold validateIdentifier at hidentifier
      split at hidentifier
      · exact (Except.error.inj hidentifier).symm
      · cases hidentifier
    refine .inr ?_
    simp only [encodeMessage, hidentifier, hmessage, bind, Except.bind]
    exact List.mem_cons_self
  | ok u =>
    by_cases hpositive : options.byteBudget = 0 ∨ options.inFlightBudget = 0
    · refine .inr ?_
      simp only [encodeMessage, hidentifier, bind, Except.bind, if_pos hpositive]
      exact List.mem_cons_of_mem _ List.mem_cons_self
    · have hvalid : options.Valid := ⟨hidentifier, not_or.mp hpositive⟩
      cases hvalue : toVec value with
      | none =>
        refine .inr ?_
        simp only [encodeMessage, hidentifier, bind, Except.bind, if_neg hpositive, hvalue]
        exact List.mem_cons_of_mem _ (List.mem_cons_of_mem _ List.mem_cons_self)
      | some payload =>
        rcases Nat.lt_or_ge (min (min options.byteBudget.val options.inFlightBudget.val)
          maxMessageBytes)
          payload.length with hlarge | hlimit
        · refine .inr ?_
          simp only [encodeMessage, hidentifier, bind, Except.bind, if_neg hpositive, hvalue,
            if_pos hlarge]
          exact List.mem_cons_of_mem _ (List.mem_cons_of_mem
            _ (List.mem_cons_of_mem _ List.mem_cons_self))
        · obtain ⟨frames, hframes, hfrom⟩ := encodeMessage_spec hvalid hvalue hlimit
          exact .inl ⟨payload, frames, hvalid, rfl, hlimit, hfrom, hframes⟩

theorem encodeMessage_ok {frames : List Bytes}
    (h : encodeMessage toVec value options = .ok frames) :
    options.Valid ∧ ∃ payload, toVec value = some payload ∧
      payload.length ≤ min (min options.byteBudget.val options.inFlightBudget.val) maxMessageBytes ∧
      FramesFrom options payload 0 0 frames := by
  rcases encodeMessage_cases toVec value options with ⟨payload, frames', hvalid, hvalue, hlimit,
    hfrom, hok⟩ | herror
  · obtain rfl := Except.ok.inj (h.symm.trans hok)
    exact ⟨hvalid, payload, hvalue, hlimit, hfrom⟩
  · rw [h] at herror
    simp at herror

theorem encodeMessage_never_exceeds (toVec : T → Option Bytes) (value : T)
    (options : FrameOptions) :
    encodeMessage toVec value options ≠ .error "Protobuf frame exceeds its chunk budget" := by
  intro h
  rcases encodeMessage_cases toVec value options with ⟨payload, frames, -, -, -, -, hok⟩ | herror
  · cases h.symm.trans hok
  · rw [h] at herror
    simp at herror

end Message

end WorkerProtocol
