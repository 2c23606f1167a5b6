import Urdira.Daemon.IpcFrame
import Urdira.WorkerProtocol.Delivery

open ByteOrder FramedStream

namespace StreamCuts

def delivered {μ ε σ : Type} (pushed : List μ × Except ε σ) : List μ × Bool :=
  (pushed.1, pushed.2.isOk)

theorem isOk_map {ε α β : Type} (x : Except ε α) (f : α → β) : (x.map f).isOk = x.isOk := by
  cases x with
  | error e => rfl
  | ok a => rfl

theorem agrees_iff {μ ε σ τ : Type} (p : Protocol ε σ μ) (s : σ) (bytes : Bytes)
    (pushAll : List Bytes → List μ × Except ε τ) (f : Bytes × σ → τ)
    (hpush : ∀ chunks, pushAll chunks =
      ((FramedStream.pushAll p [] s chunks).1, (FramedStream.pushAll p [] s chunks).2.map f)) :
    (∀ cut cut' : List Bytes, cut.flatten = bytes → cut'.flatten = bytes →
      delivered (pushAll cut) = delivered (pushAll cut')) ↔ ¬ DeliversBeforeError p s bytes := by
  rw [← pushAll_agrees_iff p s bytes]
  refine forall₂_congr fun cut cut' => forall₂_congr fun _ _ => ?_
  rw [delivered, delivered, hpush, hpush, Prod.mk.injEq, isOk_map, isOk_map]

theorem cuts_agree_iff (wire : Daemon.Wire) (maxMessageBytes maxFrameBytes : ℕ) (bytes : Bytes) :
    ((∀ cut cut' : List Bytes, cut.flatten = bytes → cut'.flatten = bytes →
        delivered ((WorkerProtocol.FrameDecoder.new maxMessageBytes).pushAll cut) =
          delivered ((WorkerProtocol.FrameDecoder.new maxMessageBytes).pushAll cut')) ↔
      ¬ DeliversBeforeError (WorkerProtocol.FrameDecoder.protocol
        (min maxMessageBytes WorkerProtocol.maxMessageBytes)) [] bytes) ∧
    ((∀ cut cut' : List Bytes, cut.flatten = bytes → cut'.flatten = bytes →
        delivered ((Daemon.LengthPrefixedDecoder.new maxFrameBytes).pushAll wire cut) =
          delivered ((Daemon.LengthPrefixedDecoder.new maxFrameBytes).pushAll wire cut')) ↔
      ¬ DeliversBeforeError (Daemon.LengthPrefixedDecoder.protocol wire maxFrameBytes)
        () bytes) := by
  constructor
  · exact agrees_iff _ _ bytes _ _ (WorkerProtocol.FrameDecoder.pushAll_eq _)
  · exact agrees_iff _ _ bytes _ _ (Daemon.LengthPrefixedDecoder.pushAll_eq wire _)

def shortFrame : Bytes := framed [8, 2, 16, 1, 24, 0, 32, 0, 40, 64, 48, 64, 58, 0, 66, 1, 7, 72, 1]

theorem message_lost_with_error :
    [shortFrame, [0, 0, 0, 0]].flatten = [shortFrame ++ [0, 0, 0, 0]].flatten ∧
    delivered (WorkerProtocol.FrameDecoder.default.pushAll [shortFrame, [0, 0, 0, 0]]) =
      ([⟨1, "", 64, 64, [7]⟩], false) ∧
    delivered (WorkerProtocol.FrameDecoder.default.pushAll [shortFrame ++ [0, 0, 0, 0]]) =
      ([], false) := by
  decide +kernel

end StreamCuts
