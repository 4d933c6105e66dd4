import Hftrs.App.Readers

/-! What the consumer hears: the messages that reach its handler. -/
namespace Hftrs.App

open Hftrs.Itch5 Hftrs.Library Hftrs.Moldudp

/-- The messages of the standard packets up to the end of the session: what `parse_stream` accepts
of each. -/
def heard : List (List UInt8) → List Message
  | [] => []
  | datagram :: datagrams =>
    match Packet.parse datagram with
    | none => []
    | some packet =>
      match packet.packetKind with
      | .Heartbeat => heard datagrams
      | .EndOfSession => []
      | .Standard => readPrefix (splitBlocks packet.messages) ++ heard datagrams

/-- The loop takes another datagram after this one. -/
def continues (datagram : List UInt8) : Bool :=
  (Packet.parse datagram).any fun packet => packet.packetKind ≠ .EndOfSession

theorem heard_cons (datagram : List UInt8) (datagrams : List (List UInt8)) :
    heard (datagram :: datagrams) =
      heard [datagram] ++ if continues datagram then heard datagrams else [] := by
  unfold continues
  rw [heard, heard]
  cases Packet.parse datagram with
  | none => rfl
  | some packet => cases kind : packet.packetKind <;> simp [kind, heard]

theorem heard_append (first second : List (List UInt8)) :
    heard (first ++ second) = heard first ++ if first.all continues then heard second else [] := by
  induction first with
  | nil => rfl
  | cons datagram first ih =>
    rw [List.cons_append, heard_cons, ih, heard_cons datagram first, List.all_cons]
    cases continues datagram with
    | true => simp
    | false => simp

/-- The loop hands over what it hears. -/
theorem Receiving.loop_heard {R : Type} [Orderbook.Registry R] (env : Env)
    (alive : env.shutdown = false) (trySend : RetransmissionPacket → Bool)
    (datagrams : List (List UInt8))
    (headed : ∀ d ∈ datagrams, (Packet.parse d).isSome) (state : Receiving R) :
    (loop env trySend datagrams state).map Receiving.handler =
      deliver (MessageHandler.on env) (heard datagrams) state.handler := by
  induction datagrams generalizing state with
  | nil => rfl
  | cons datagram datagrams ih =>
    have onwards := ih fun d member => headed d (by simp [member])
    obtain ⟨packet, parsed⟩ := Option.isSome_iff_exists.mp (headed datagram (by simp))
    rw [loop, heard]
    cases kind : packet.packetKind with
    | Heartbeat =>
      simp only [turn, alive, parsed, kind, Bool.false_eq_true, if_false]
      exact onwards _
    | EndOfSession =>
      simp only [turn, alive, parsed, kind, Bool.false_eq_true, if_false]
      rfl
    | Standard =>
      obtain ⟨ms, r, bytes, tagged, invalid⟩ := exists_frames packet.messages
      obtain ⟨left, streamed⟩ := parseStream_framed (MessageHandler.on env)
        (MessageHandler.on_ne_break (R := R) env alive) ms tagged r invalid state.handler
      have intact : ¬packet.iter.remaining ≠ packet.msgCount := by
        rw [Packet.iter_standard kind]
        exact fun differ => differ rfl
      simp only [turn, alive, parsed, kind, Bool.false_eq_true, if_false, consume, if_neg intact]
      rw [deliver_append, bytes, readPrefix_framed ms tagged r invalid, streamed]
      cases deliver (MessageHandler.on env) ms state.handler with
      | none => rfl
      | some handler => exact onwards _

end Hftrs.App
