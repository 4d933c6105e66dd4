import Hftrs.App.Handler
import Hftrs.Itch5.Acceptance
import Hftrs.Moldudp.Client

/-! The receive loop of the consumer. It hands over the messages of the packets in the order in
which these arrive. -/
namespace Hftrs.App

open Hftrs.Itch5 Hftrs.Library Hftrs.Moldudp

/-- Network-layer counters scoped to one run. -/
structure NetCounters where
  packetsReceived : Nat
  heartbeats : Nat
  retransmissionRequests : Nat
  parseErrors : Nat
  truncatedPackets : Nat
  deriving DecidableEq, Repr

def NetCounters.default : NetCounters := ⟨0, 0, 0, 0, 0⟩

/-- What the loop works on: the shared handler, its counters and the requests it has sent. -/
structure Receiving (R : Type) where
  handler : MessageHandler R
  net : NetCounters
  requests : List RetransmissionPacket

namespace Receiving

variable {R : Type} [Orderbook.Registry R]

/-- Ask for the packet again, unless the channel refuses the request. -/
def requestRetransmission (trySend : RetransmissionPacket → Bool) (packet : Packet)
    (state : Receiving R) : Receiving R :=
  let rereq : RetransmissionPacket := ⟨packet.session, packet.seqNum, packet.msgCount⟩
  if trySend rereq then
    { state with
      net := { state.net with retransmissionRequests := state.net.retransmissionRequests + 1 }
      requests := state.requests ++ [rereq] }
  else state

/-- The part of the loop that standard packets reach. -/
def consume (env : Env) (trySend : RetransmissionPacket → Bool) (packet : Packet)
    (state : Receiving R) : Option (Receiving R) := do
  let net := { state.net with packetsReceived := state.net.packetsReceived + 1 }
  let state :=
    -- `packet.iter().len()` is what the iterator says is left, not what it finds
    if packet.iter.remaining ≠ packet.msgCount then
      requestRetransmission trySend packet
        { state with net := { net with truncatedPackets := net.truncatedPackets + 1 } }
    else { state with net }
  let (result, _, handler) ← parseStream (MessageHandler.on env) packet.messages state.handler
  -- an error is counted, and what was applied before it stays
  let parseErrors := match result with
    | .ok _ => state.net.parseErrors
    | .error _ => state.net.parseErrors + 1
  return { state with handler, net := { state.net with parseErrors } }

/-- One turn of the loop, on the datagram it received. -/
def turn (env : Env) (trySend : RetransmissionPacket → Bool) (datagram : List UInt8)
    (state : Receiving R) : Option (ControlFlow × Receiving R) :=
  if env.shutdown then some (.Break, state)
  else
    match Packet.parse datagram with
    | none => none
    | some packet =>
      match packet.packetKind with
      | .Heartbeat => some (.Continue,
        { state with net := { state.net with heartbeats := state.net.heartbeats + 1 } })
      | .EndOfSession => some (.Break, state)
      | .Standard => (consume env trySend packet state).map fun state => (.Continue, state)

/-- The loop over the datagrams that arrive before the channel falls silent. -/
def loop (env : Env) (trySend : RetransmissionPacket → Bool) :
    List (List UInt8) → Receiving R → Option (Receiving R)
  | [], state => some state
  | datagram :: datagrams, state =>
    match turn env trySend datagram state with
    | none => none
    | some (.Break, state) => some state
    | some (.Continue, state) => loop env trySend datagrams state

/-- `handler::run`, less the summary it logs. -/
def run (env : Env) (trySend : RetransmissionPacket → Bool) (datagrams : List (List UInt8))
    (handler : MessageHandler R) : Option (Receiving R) :=
  loop env trySend datagrams ⟨handler, .default, []⟩

/-! ### Messages in the order of arrival -/

/-- A standard packet whose bytes are frames of the messages. -/
def Holds (datagram : List UInt8) (ms : List Message) : Prop :=
  ∃ packet, Packet.parse datagram = some packet ∧ packet.packetKind = .Standard ∧
    packet.messages = framed ms ∧ ∀ m ∈ ms, m.Tagged

/-- A packet that ends the session. -/
def EndsSession (datagram : List UInt8) : Prop :=
  ∃ packet, Packet.parse datagram = some packet ∧ packet.packetKind = .EndOfSession

variable (env : Env) (trySend : RetransmissionPacket → Bool)

private theorem turn_holds (alive : env.shutdown = false) (datagram : List UInt8)
    (ms : List Message) (holds : Holds datagram ms) (state : Receiving R) :
    match deliver (MessageHandler.on env) ms state.handler with
    | none => turn env trySend datagram state = none
    | some handler => ∃ state', turn env trySend datagram state = some (.Continue, state') ∧
      state'.handler = handler := by
  obtain ⟨packet, parsed, standard, bytes, valid⟩ := holds
  obtain ⟨left, streamed⟩ := parseStream_framed (MessageHandler.on env)
    (MessageHandler.on_ne_break env alive) ms valid [] noFrame_nil state.handler
  have whole : ¬packet.iter.remaining ≠ packet.msgCount := by
    rw [Packet.iter_standard standard]
    exact fun differ => differ rfl
  have consumed : turn env trySend datagram state =
      (consume env trySend packet state).map fun state => (.Continue, state) := by
    simp only [turn, alive, parsed, standard, Bool.false_eq_true, if_false]
  rw [List.append_nil, ← bytes] at streamed
  simp only [consumed, consume, if_neg whole, streamed]
  cases deliver (MessageHandler.on env) ms state.handler with
  | none => rfl
  | some handler => exact ⟨_, rfl, rfl⟩

private theorem loop_holds (alive : env.shutdown = false) (datagrams : List (List UInt8))
    (contents : List (List Message)) (holds : List.Forall₂ Holds datagrams contents)
    (closing : List (List UInt8)) (closed : ∀ d ∈ closing.head?, EndsSession d)
    (state : Receiving R) :
    (loop env trySend (datagrams ++ closing) state).map Receiving.handler =
      deliver (MessageHandler.on env) contents.flatten state.handler := by
  -- packet by packet; the loop ends with the datagrams or at an end of session
  induction holds generalizing state with
  | nil =>
    cases closing with
    | nil => rfl
    | cons d ds =>
      obtain ⟨packet, parsed, kind⟩ := closed d rfl
      simp only [List.nil_append, loop, turn, alive, parsed, kind]
      rfl
  | @cons datagram ms datagrams contents first _ ih =>
    have turned := turn_holds env trySend alive datagram ms first state
    rw [List.flatten_cons, deliver_append, List.cons_append, loop]
    cases delivered : deliver (MessageHandler.on env) ms state.handler with
    | none =>
      rw [delivered] at turned
      rw [turned]
      rfl
    | some handler =>
      rw [delivered] at turned
      obtain ⟨state', equal, rfl⟩ := turned
      rw [equal]
      exact ih state'

/-- The loop hands over the messages of the packets as they arrive: it neither reorders nor
drops any. -/
theorem run_holds (alive : env.shutdown = false) (datagrams : List (List UInt8))
    (contents : List (List Message)) (holds : List.Forall₂ Holds datagrams contents)
    (closing : List (List UInt8)) (closed : ∀ d ∈ closing.head?, EndsSession d)
    (handler : MessageHandler R) :
    (run env trySend (datagrams ++ closing) handler).map Receiving.handler =
      deliver (MessageHandler.on env) contents.flatten handler :=
  loop_holds env trySend alive datagrams contents holds closing closed ⟨handler, .default, []⟩

/-! ### Packets of a log -/

/-- The messages of the log that the packet's number and count name. -/
def slice (start : Nat) (log : List Message) (packet : Packet) : List Message :=
  (log.drop (packet.seqNum - start)).take packet.msgCount

/-- The datagram is a standard packet with a run of the log, labelled with its first number. -/
structure Carries (session : Session) (start : Nat) (log : List Message) (datagram : List UInt8)
    (packet : Packet) : Prop where
  parsed : Packet.parse datagram = some packet
  standard : packet.packetKind = .Standard
  ident : packet.session = session
  first : start ≤ packet.seqNum
  last : packet.seqNum + packet.msgCount ≤ start + log.length
  bytes : packet.messages = framed (slice start log packet)

/-- Each packet begins where the one before it stopped. -/
def InSequence : Nat → List Packet → Prop
  | _, [] => True
  | next, packet :: packets =>
    packet.seqNum = next ∧ InSequence (next + packet.msgCount) packets

def total (packets : List Packet) : Nat := (packets.map Packet.msgCount).sum

theorem total_cons (packet : Packet) (packets : List Packet) :
    total (packet :: packets) = packet.msgCount + total packets := by
  rw [total, List.map_cons, List.sum_cons, total]

theorem InSequence.take {next : Nat} {packets : List Packet} (inSequence : InSequence next packets)
    (n : Nat) : InSequence next (packets.take n) := by
  induction n generalizing next packets with
  | zero => trivial
  | succ n ih =>
    cases packets with
    | nil => trivial
    | cons packet packets => exact ⟨inSequence.1, ih inSequence.2⟩

/-- No packet reaches beyond the messages counted. -/
theorem InSequence.last_le {next : Nat} {packets : List Packet}
    (inSequence : InSequence next packets) (packet : Packet) (member : packet ∈ packets) :
    packet.seqNum + packet.msgCount ≤ next + total packets := by
  induction packets generalizing next with
  | nil => cases member
  | cons p ps ih =>
    rw [total_cons]
    obtain ⟨rfl, rest⟩ := inSequence
    rcases List.mem_cons.mp member with rfl | later
    · omega
    · have bound := ih rest later
      omega

/-- Packets in sequence hold the log without a hole, a repetition or an overlap. -/
theorem InSequence.slices {start k : Nat} {packets : List Packet} (log : List Message)
    (inSequence : InSequence (start + k) packets) :
    (packets.map (slice start log)).flatten = (log.drop k).take (total packets) := by
  induction packets generalizing k with
  | nil => rw [total, List.map_nil, List.map_nil, List.sum_nil, List.take_zero, List.flatten_nil]
  | cons packet packets ih =>
    obtain ⟨here, rest⟩ := inSequence
    rw [Nat.add_assoc] at rest
    have offset : packet.seqNum - start = k := by omega
    rw [List.map_cons, List.flatten_cons, ih rest, slice, offset, total_cons, List.take_add,
      List.drop_drop]

private theorem holds_of_carries {session : Session} {start : Nat} {log : List Message}
    (valid : ∀ m ∈ log, m.Tagged) {datagrams : List (List UInt8)} {packets : List Packet}
    (carries : List.Forall₂ (Carries session start log) datagrams packets) :
    List.Forall₂ Holds datagrams (packets.map (slice start log)) := by
  rw [List.forall₂_map_right_iff]
  apply carries.imp
  intro datagram packet carried
  refine ⟨packet, carried.parsed, carried.standard, carried.bytes, ?_⟩
  intro m member
  exact valid m (List.mem_of_mem_drop (List.mem_of_mem_take member))

/-- When the packets of a log arrive in sequence, the messages handed over are at every moment
those of the log so far, each once and in order, and in the end all of them. -/
theorem run_exactly_once (alive : env.shutdown = false) (session : Session) (start : Nat)
    (log : List Message) (valid : ∀ m ∈ log, m.Tagged) (datagrams : List (List UInt8))
    (packets : List Packet)
    (carries : List.Forall₂ (Carries session start log) datagrams packets)
    (complete : ∀ k < log.length, ∃ p ∈ packets,
      p.seqNum ≤ start + k ∧ start + k < p.seqNum + p.msgCount)
    (closing : List (List UInt8)) (closed : ∀ d ∈ closing.head?, EndsSession d)
    (inSequence : InSequence start packets) (handler : MessageHandler R) :
    (run env trySend (datagrams ++ closing) handler).map Receiving.handler =
        deliver (MessageHandler.on env) log handler ∧
      ∀ n, (run env trySend (datagrams.take n) handler).map Receiving.handler =
        deliver (MessageHandler.on env) (log.take (total (packets.take n))) handler := by
  have holds := holds_of_carries valid carries
  constructor
  · have all : log.length ≤ total packets := by
      -- the packet with the last message ends within the messages counted
      cases length : log.length with
      | zero => exact Nat.zero_le _
      | succ k =>
        obtain ⟨p, member, _, reached⟩ := complete k (by omega)
        have bound := inSequence.last_le p member
        omega
    have whole : (packets.map (slice start log)).flatten = log := by
      have slices := InSequence.slices (k := 0) log inSequence
      rw [slices, List.drop_zero, List.take_of_length_le all]
    rw [run_holds env trySend alive datagrams _ holds closing closed handler, whole]
  · intro n
    have slices := InSequence.slices (k := 0) log (inSequence.take n)
    have taken := run_holds env trySend alive (datagrams.take n) _
      (List.forall₂_take n holds) [] (by simp) handler
    rwa [List.append_nil, ← List.map_take, slices] at taken

def sessionA : Session := ⟨List.replicate 10 65, rfl⟩

/-- A packet of the session with the messages, and its bytes. -/
def packetOf (seqNum : Nat) (ms : List Message) : Packet := ⟨sessionA, seqNum, ms.length, framed ms⟩

def datagramOf (seqNum : Nat) (ms : List Message) : List UInt8 :=
  Packet.header sessionA seqNum ms.length ++ framed ms

theorem carries_packetOf (start : Nat) (log : List Message) (seqNum : Nat) (ms : List Message)
    (seq : seqNum < 2 ^ 64) (count : 1 ≤ ms.length ∧ ms.length ≤ 65534) (first : start ≤ seqNum)
    (last : seqNum + ms.length ≤ start + log.length)
    (bytes : framed ms = framed (slice start log (packetOf seqNum ms))) :
    Carries sessionA start log (datagramOf seqNum ms) (packetOf seqNum ms) where
  parsed := Packet.parse_header _ _ _ _ seq (by omega)
  standard := by
    rw [Packet.packetKind_standard, heartbeatIdent, endOfSessionIdent]
    exact ⟨Nat.ne_of_gt count.1, Nat.ne_of_lt (Nat.lt_succ_of_le count.2)⟩
  ident := rfl
  first := first
  last := last
  bytes := bytes

/-- Two packets in sequence. -/
theorem run_exactly_once_sample :
    (run quietEnv (fun _ => true)
        [datagramOf 7 [directoryOf1, buy100 1], datagramOf 9 [cancel10]]
        (MessageHandler.new none : MessageHandler Orderbook.HashMapRegistry)).map
          Receiving.handler =
      deliver (MessageHandler.on quietEnv) [directoryOf1, buy100 1, cancel10]
        (MessageHandler.new none) := by
  have carries : List.Forall₂ (Carries sessionA 7 [directoryOf1, buy100 1, cancel10])
      [datagramOf 7 [directoryOf1, buy100 1], datagramOf 9 [cancel10]]
      [packetOf 7 [directoryOf1, buy100 1], packetOf 9 [cancel10]] := by
    refine .cons ?_ (.cons ?_ .nil)
    · exact carries_packetOf 7 _ 7 _ (by decide) (by decide) (by decide) (by decide) (by decide)
    · exact carries_packetOf 7 _ 9 _ (by decide) (by decide) (by decide) (by decide) (by decide)
  exact (run_exactly_once quietEnv (fun _ => true) rfl sessionA 7
    [directoryOf1, buy100 1, cancel10] (by decide) _ _ carries (by decide) [] (by simp)
    ⟨rfl, rfl, trivial⟩ (MessageHandler.new none)).1

/-- A packet that arrives again is applied again: the order is left with 80 instead of 90. -/
theorem repeated_packet_applied_twice :
    (List.Forall₂ (Carries sessionA 7 [directoryOf1, buy100 1, cancel10])
      [datagramOf 7 [directoryOf1, buy100 1], datagramOf 9 [cancel10], datagramOf 9 [cancel10]]
      [packetOf 7 [directoryOf1, buy100 1], packetOf 9 [cancel10], packetOf 9 [cancel10]]) ∧
    (∀ k < 3, ∃ p ∈ [packetOf 7 [directoryOf1, buy100 1], packetOf 9 [cancel10],
      packetOf 9 [cancel10]], p.seqNum ≤ 7 + k ∧ 7 + k < p.seqNum + p.msgCount) ∧
    ∃ received applied, run quietEnv (fun _ => true)
        [datagramOf 7 [directoryOf1, buy100 1], datagramOf 9 [cancel10], datagramOf 9 [cancel10]]
        (MessageHandler.new none : MessageHandler Orderbook.HashMapRegistry) = some received ∧
      deliver (MessageHandler.on quietEnv) [directoryOf1, buy100 1, cancel10]
        (MessageHandler.new none : MessageHandler Orderbook.HashMapRegistry) = some applied ∧
      received.handler.registry ≠ applied.registry := by
  have carries : List.Forall₂ (Carries sessionA 7 [directoryOf1, buy100 1, cancel10])
      [datagramOf 7 [directoryOf1, buy100 1], datagramOf 9 [cancel10], datagramOf 9 [cancel10]]
      [packetOf 7 [directoryOf1, buy100 1], packetOf 9 [cancel10], packetOf 9 [cancel10]] := by
    refine .cons ?_ (.cons ?_ (.cons ?_ .nil))
    · exact carries_packetOf 7 _ 7 _ (by decide) (by decide) (by decide) (by decide) (by decide)
    · exact carries_packetOf 7 _ 9 _ (by decide) (by decide) (by decide) (by decide) (by decide)
    · exact carries_packetOf 7 _ 9 _ (by decide) (by decide) (by decide) (by decide) (by decide)
  refine ⟨carries, by decide, ?_⟩
  have received := run_holds quietEnv (fun _ => true) rfl _ _
    (holds_of_carries (by decide) carries) [] (by simp)
    (MessageHandler.new none : MessageHandler Orderbook.HashMapRegistry)
  have twice : (deliver (MessageHandler.on quietEnv)
      ([packetOf 7 [directoryOf1, buy100 1], packetOf 9 [cancel10], packetOf 9 [cancel10]].map
        (slice 7 [directoryOf1, buy100 1, cancel10])).flatten
      (MessageHandler.new none : MessageHandler Orderbook.HashMapRegistry)).map
        (fun handler => (handler.registry.get 1).bind Orderbook.OrderBook.bestBid) =
      some (some (5, 80)) := by decide
  have once : (deliver (MessageHandler.on quietEnv) [directoryOf1, buy100 1, cancel10]
      (MessageHandler.new none : MessageHandler Orderbook.HashMapRegistry)).map
        (fun handler => (handler.registry.get 1).bind Orderbook.OrderBook.bestBid) =
      some (some (5, 90)) := by decide
  rw [← received, Option.map_map, Option.map_eq_some_iff] at twice
  obtain ⟨state, ran, eighty⟩ := twice
  obtain ⟨applied, delivered, ninety⟩ := Option.map_eq_some_iff.mp once
  refine ⟨state, applied, ran, delivered, fun same => ?_⟩
  rw [Function.comp_apply, same, ninety] at eighty
  cases eighty

end Receiving

end Hftrs.App
