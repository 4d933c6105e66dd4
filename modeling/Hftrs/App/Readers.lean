import Hftrs.App.Receive

/-! The two readers of a packet: the iterator over its blocks, which stops at the announced count,
and the parser, which the receive loop lets walk the bytes behind the header. -/
namespace Hftrs.App

open Hftrs.Itch5 Hftrs.Library Hftrs.Moldudp

namespace Receiving

variable {R : Type} [Orderbook.Registry R]

/-- The length that the iterator answers is that of what it yields, and the packet is asked for
again just when it is short, exactly in the packets that are not short. -/
theorem truncation_iff (env : Env) (trySend : RetransmissionPacket → Bool) (datagram : List UInt8)
    (packet : Packet) (parsed : Packet.parse datagram = some packet)
    (standard : packet.packetKind = .Standard) :
    (packet.iter.remaining = packet.iter.drain.1.length ∧
      ∀ state state' : Receiving R, turn env trySend datagram state = some (.Continue, state') →
        (state'.requests =
            state.requests ++ [⟨packet.session, packet.seqNum, packet.msgCount⟩] ↔
          (splitBlocks packet.messages).length < packet.msgCount)) ↔
      packet.msgCount ≤ (splitBlocks packet.messages).length := by
  rw [Packet.iter_standard standard, Messages.drain_eq_take, List.length_take]
  constructor
  · rintro ⟨exact_size, _⟩
    exact min_eq_left_iff.mp exact_size.symm
  · intro complete
    refine ⟨(Nat.min_eq_left complete).symm, fun state state' turned => ?_⟩
    have kept : state'.requests = state.requests := by
      simp only [turn, parsed, standard] at turned
      split at turned
      next => cases turned
      next =>
        obtain ⟨state'', consumed, equal⟩ := Option.map_eq_some_iff.mp turned
        cases equal
        -- the iterator says that it has the announced count left
        have silent : ¬packet.iter.remaining ≠ packet.msgCount := by
          rw [Packet.iter_standard standard]
          exact not_not.mpr rfl
        simp only [consume, if_neg silent, Option.bind_eq_bind, Option.bind_eq_some_iff] at consumed
        obtain ⟨_, _, equal⟩ := consumed
        cases equal
        rfl
    refine iff_of_false (fun asked => ?_) (Nat.not_lt.mpr complete)
    rw [kept] at asked
    have length := congrArg List.length asked
    rw [List.length_append, List.length_singleton] at length
    omega

/-- One order where two are announced: the iterator answers 2, and nothing is asked for. -/
theorem short_packet_unnoticed :
    ∃ packet, Packet.parse (Packet.header sessionA 7 2 ++ framed [directoryOf1]) = some packet ∧
      packet.packetKind = .Standard ∧ packet.iter.remaining = 2 ∧ packet.iter.drain.1.length = 1 ∧
      (turn quietEnv (fun _ => true) (Packet.header sessionA 7 2 ++ framed [directoryOf1])
        (⟨MessageHandler.new none, .default, []⟩ : Receiving Orderbook.HashMapRegistry)).map
          (fun turned => turned.2.requests) = some [] := by
  refine ⟨⟨sessionA, 7, 2, framed [directoryOf1]⟩, Packet.parse_header _ _ _ _ (by decide)
    (by decide), by decide, rfl, by decide +kernel, by decide +kernel⟩

/-- A packet of two messages with as many announced. -/
theorem truncation_iff_whole :
    (⟨sessionA, 7, 2, framed [directoryOf1, cancel10]⟩ : Packet).iter.drain.1.length = 2 := by
  have parsed := Packet.parse_header sessionA 7 2 (framed [directoryOf1, cancel10]) (by decide)
    (by decide)
  have complete : 2 ≤ (splitBlocks (framed [directoryOf1, cancel10])).length := by decide +kernel
  exact ((truncation_iff (R := Orderbook.HashMapRegistry) quietEnv (fun _ => true) _ _ parsed
    (by decide)).mpr complete).1.symm

end Receiving

/-! ### The messages that are handed over -/

section Handing

variable {σ : Type}

/-- The handler with a record of the messages handed to it. A method that panics ends the stream
and leaves no state. -/
def recorded (on : Handler σ) : Handler (Option σ × List Message)
  | _, _, (none, handed) => some (.Break, none, handed)
  | kind, msg, (some s, handed) =>
    match on kind msg s with
    | none => some (.Break, none, handed ++ [⟨kind, msg⟩])
    | some (cf, s') => some (cf, some s', handed ++ [⟨kind, msg⟩])

/-- The messages that parsing the bytes hands to the handler's methods. -/
def dispatched (on : Handler σ) (buf : List UInt8) (s : σ) : List Message :=
  match parseStream (recorded on) buf (some s, []) with
  | none => []
  | some (_, _, _, handed) => handed

/-- The messages that a handler is given up to the first on which it panics. -/
def given (on : Handler σ) : List Message → σ → List Message
  | [], _ => []
  | m :: ms, s =>
    match on m.1 m.2 s with
    | none => [m]
    | some (_, s') => m :: given on ms s'

/-- Recording leaves the handler's state as it is. -/
theorem parseStream_recorded (on : Handler σ) (buf : List UInt8) (s : σ) (handed : List Message) :
    ((parseStream (recorded on) buf (some s, handed)).bind fun parsed => parsed.2.2.1) =
      (parseStream on buf s).map fun parsed => parsed.2.2 := by
  obtain ⟨ms, r, rfl, tagged, invalid⟩ := exists_frames buf
  induction ms generalizing s handed with
  | nil =>
    obtain ⟨left, stopped⟩ := parseStream_stop on r s invalid
    obtain ⟨left', stopped'⟩ := parseStream_stop (recorded on) r (some s, handed) invalid
    rw [framed_nil, List.nil_append, stopped, stopped', Option.bind_some, Option.map_some]
  | cons m ms ih =>
    rw [framed_cons, List.append_assoc, parseStream_frame _ m (tagged m (by simp)),
      parseStream_frame _ m (tagged m (by simp)), recorded]
    cases called : on m.1 m.2 s with
    | none => rfl
    | some result =>
      obtain ⟨cf, s'⟩ := result
      cases cf with
      | Break => rfl
      | Continue => exact ih s' _ fun n member => tagged n (by simp [member])

variable (on : Handler σ)
  (neverBreaks : ∀ kind msg s s', on kind msg s ≠ some (.Break, s'))

include neverBreaks in
/-- What the parser hands over is the valid frames at the front, up to a panic. -/
theorem dispatched_framed (ms : List Message) (tagged : ∀ m ∈ ms, m.Tagged) (r : List UInt8)
    (invalid : NoFrame r) (s : σ) : dispatched on (framed ms ++ r) s = given on ms s := by
  have logged (handed : List Message) :
      ∃ result left state, parseStream (recorded on) (framed ms ++ r) (some s, handed) =
        some (result, left, state, handed ++ given on ms s) := by
    induction ms generalizing s handed with
    | nil =>
      obtain ⟨left, stopped⟩ := parseStream_stop (recorded on) r (some s, handed) invalid
      exact ⟨_, left, some s, by rw [framed_nil, List.nil_append, stopped, given, List.append_nil]⟩
    | cons m ms ih =>
      rw [framed_cons, List.append_assoc, parseStream_frame _ m (tagged m (by simp)), recorded,
        given]
      cases called : on m.1 m.2 s with
      | none => exact ⟨_, _, none, rfl⟩
      | some result =>
        obtain ⟨cf, s'⟩ := result
        cases cf with
        | Break => exact absurd called (neverBreaks m.1 m.2 s s')
        | Continue =>
          obtain ⟨result, left, state, rest⟩ := ih (fun n member => tagged n (by simp [member])) s'
            (handed ++ [m])
          rw [List.append_assoc] at rest
          exact ⟨result, left, state, rest⟩
  obtain ⟨result, left, state, parsed⟩ := logged []
  rw [dispatched, parsed]
  rfl

/-- A handler is given the first `n` messages exactly when it gets to the last of these, and, where
there are more, no further. -/
theorem given_eq_take_iff (ms : List Message) (n : Nat) (s : σ) :
    given on ms s = ms.take n ↔ (deliver on (ms.take n).dropLast s).isSome ∧
      (n < ms.length → deliver on (ms.take n) s = none) := by
  induction ms generalizing n s with
  | nil => simp [given, deliver]
  | cons m ms ih =>
    cases n with
    | zero => cases called : on m.1 m.2 s <;> simp [given, deliver, called]
    | succ n =>
      have step : (deliver on (m :: ms.take n).dropLast s).isSome ↔
          ms.take n = [] ∨ ((on m.1 m.2 s).bind fun called =>
            deliver on (ms.take n).dropLast called.2).isSome := by
        cases ms.take n with
        | nil => simp [deliver]
        | cons next others => simp [deliver, List.dropLast_cons_cons]
      rw [List.take_succ_cons, step, given, List.length_cons, deliver, Nat.succ_lt_succ_iff]
      cases called : on m.1 m.2 s with
      | none =>
        simp only [Option.bind_none, Option.isSome_none, Bool.false_eq_true, or_false,
          List.cons.injEq, true_and, implies_true, and_true]
        exact eq_comm
      | some result =>
        obtain ⟨cf, s'⟩ := result
        simp only [Option.bind_some, List.cons.injEq, true_and, ih n s']
        constructor
        · exact fun both => ⟨.inr both.1, both.2⟩
        · rintro ⟨none | reached, beyond⟩
          · refine ⟨?_, beyond⟩
            rw [none]
            rfl
          · exact ⟨reached, beyond⟩

end Handing

/-! ### The messages that are announced -/

/-- The message whose bytes the body is: a known tag and the length of its struct. -/
def readMessage (body : List UInt8) : Option Message :=
  match body.head?.bind arm with
  | none => none
  | some kind => if length : body.length = kind.len then some ⟨kind, body, length⟩ else none

/-- The messages in the bodies up to the first that is not one. -/
def readPrefix : List (List UInt8) → List Message
  | [] => []
  | body :: bodies =>
    match readMessage body with
    | none => []
    | some m => m :: readPrefix bodies

theorem arm_some {tag : UInt8} {kind : MsgKind} (found : arm tag = some kind) : kind.tag = tag := by
  rw [arm, Option.map_eq_some_iff] at found
  obtain ⟨⟨tag', kind'⟩, entry, equal⟩ := found
  have member := List.mem_of_find?_eq_some entry
  have here := List.find?_some entry
  have tags : ∀ entry ∈ arms, entry.2.tag = entry.1 := by decide
  rw [← equal, tags _ member]
  simpa using here

theorem readMessage_some {body : List UInt8} {m : Message} (read : readMessage body = some m) :
    m.2.bytes = body ∧ m.Tagged := by
  unfold readMessage at read
  split at read
  next => cases read
  next kind known =>
    split at read
    next length =>
      cases read
      obtain ⟨tag, tagged, found⟩ := Option.bind_eq_some_iff.mp known
      exact ⟨rfl, tagged.trans (congrArg some (arm_some found).symm)⟩
    next => cases read

theorem readMessage_bytes (m : Message) (tagged : m.Tagged) : readMessage m.2.bytes = some m := by
  obtain ⟨kind, msg⟩ := m
  have known : msg.bytes.head?.bind arm = some kind := by
    rw [show msg.bytes.head? = some kind.tag from tagged, Option.bind_some, arm_tag]
  simp only [readMessage, known, dif_pos msg.length]

theorem readPrefix_take (bodies : List (List UInt8)) (n : Nat) :
    readPrefix (bodies.take n) = (readPrefix bodies).take n := by
  induction bodies generalizing n with
  | nil => simp [readPrefix]
  | cons body bodies ih =>
    cases n with
    | zero => simp [readPrefix]
    | succ n =>
      rw [List.take_succ_cons, readPrefix, readPrefix]
      cases readMessage body with
      | none => rfl
      | some m => exact congrArg (m :: ·) (ih n)

/-- The messages in the blocks of the bytes are the valid frames at the front. -/
theorem readPrefix_framed (ms : List Message) (tagged : ∀ m ∈ ms, m.Tagged) (r : List UInt8)
    (invalid : NoFrame r) : readPrefix (splitBlocks (framed ms ++ r)) = ms := by
  induction ms with
  | nil =>
    rw [framed_nil, List.nil_append]
    cases found : splitBlock r with
    | none => rw [splitBlocks_none found, readPrefix]
    | some first =>
      obtain ⟨body, rest⟩ := first
      obtain ⟨shape, _⟩ := splitBlock_some found
      rw [splitBlocks_some found, readPrefix]
      cases read : readMessage body with
      | none => rfl
      | some m =>
        obtain ⟨rfl, valid⟩ := readMessage_some read
        exact absurd ⟨rest, shape.symm⟩ (invalid m valid)
  | cons m ms ih =>
    have head := tagged m (by simp)
    rw [framed_cons, List.append_assoc, splitBlocks_some (splitBlock_block _ _ m.2.fits),
      readPrefix, readMessage_bytes m head]
    exact congrArg (m :: ·) (ih fun n member => tagged n (by simp [member]))

variable {R : Type} [Orderbook.Registry R]

/-- The parser hands over the messages that the iterator yields exactly when the handler gets to
the last of them, and, where as many valid messages and more are in the packet, no further. -/
theorem dispatched_iff (env : Env) (alive : env.shutdown = false) (handler : MessageHandler R)
    (packet : Packet) (standard : packet.packetKind = .Standard) :
    dispatched (MessageHandler.on env) packet.messages handler =
        readPrefix packet.iter.drain.1 ↔
      (deliver (MessageHandler.on env)
        ((readPrefix (splitBlocks packet.messages)).take packet.msgCount).dropLast handler).isSome ∧
      (packet.msgCount < (readPrefix (splitBlocks packet.messages)).length →
        deliver (MessageHandler.on env)
          ((readPrefix (splitBlocks packet.messages)).take packet.msgCount) handler = none) := by
  obtain ⟨ms, r, frames, tagged, invalid⟩ := exists_frames packet.messages
  rw [Packet.iter_standard standard, Messages.drain_eq_take, readPrefix_take, frames,
    readPrefix_framed ms tagged r invalid,
    dispatched_framed _ (MessageHandler.on_ne_break env alive) ms tagged r invalid handler]
  exact given_eq_take_iff _ ms packet.msgCount handler

/-- A directory entry and an order, both announced. -/
theorem dispatched_iff_pair :
    dispatched (MessageHandler.on quietEnv) (framed [directoryOf1, buy100 1])
        (MessageHandler.new none : MessageHandler Orderbook.HashMapRegistry) =
      readPrefix (⟨Receiving.sessionA, 7, 2, framed [directoryOf1, buy100 1]⟩ :
        Packet).iter.drain.1 := by
  have valid : readPrefix (splitBlocks (framed [directoryOf1, buy100 1])) =
      [directoryOf1, buy100 1] := by
    have frames := readPrefix_framed [directoryOf1, buy100 1] (by decide) [] noFrame_nil
    rwa [List.append_nil] at frames
  refine (dispatched_iff quietEnv rfl (MessageHandler.new none)
    ⟨Receiving.sessionA, 7, 2, framed [directoryOf1, buy100 1]⟩ (by decide)).mpr ?_
  simp only [valid]
  exact ⟨by decide, fun more => absurd more (by decide)⟩

/-- An order behind the one message that is announced is handed over as well. -/
theorem unannounced_order_dispatched :
    (⟨Receiving.sessionA, 7, 1, framed [directoryOf1, buy100 1]⟩ : Packet).packetKind = .Standard ∧
      readPrefix (⟨Receiving.sessionA, 7, 1, framed [directoryOf1, buy100 1]⟩ :
        Packet).iter.drain.1 = [directoryOf1] ∧
      dispatched (MessageHandler.on quietEnv) (framed [directoryOf1, buy100 1])
        (MessageHandler.new none : MessageHandler Orderbook.HashMapRegistry) =
          [directoryOf1, buy100 1] := by
  refine ⟨by decide, by decide +kernel, by decide +kernel⟩

end Hftrs.App
