import Hftrs.Moldudp.Packet
import Hftrs.Profile

/-! The client's receive path: gap detection on the multicast stream. A panic is `none`. -/
namespace Hftrs.Moldudp

open Hftrs.Library

/-- A buffer of the pool after a receive: its first `n` bytes are the datagram, the others are
left from earlier ones. -/
structure Filled where
  buf : List UInt8
  n : Nat
  within : n ≤ buf.length

def Filled.bytes (filled : Filled) : List UInt8 := filled.buf.take filled.n

/-- A request for the messages from `seqNum` on. -/
structure RetransmissionPacket where
  session : Session
  seqNum : Nat
  msgCount : Nat
  deriving DecidableEq

inductive LoopAction where
  | Continue
  | Stop
  deriving DecidableEq, Repr

/-- What processing a datagram does besides updating the expectation: the re-request it enqueues,
the bytes it forwards to the consumer, and whether the loop goes on. -/
structure Effects where
  request : Option RetransmissionPacket
  forwarded : Option (List UInt8)
  action : LoopAction
  deriving DecidableEq

/-- The gap-detection state. -/
structure Client where
  expectedSessionIdent : Option Session
  expectedSeqNum : Option Nat
  deriving DecidableEq

/-- The re-request for a packet that skips ahead of the expectation within its session. -/
def Client.rerequest (client : Client) (packet : Packet) : Option RetransmissionPacket :=
  match client.expectedSessionIdent, client.expectedSeqNum with
  | some expSession, some expSeq =>
    if expSession = packet.session ∧ packet.seqNum > expSeq then
      -- the missing range, cut to what the 16-bit count can say
      let gap := packet.seqNum - expSeq
      some { session := packet.session, seqNum := expSeq, msgCount := min gap 65535 }
    else none
  | _, _ => none

def processMulticastDatagram (profile : Profile) (client : Client) (filled : Filled) :
    Option (Effects × Client) :=
  if filled.n < Packet.minPacketLen then some (⟨none, none, .Continue⟩, client)
  else
    -- the view is of the whole buffer, not of the bytes received
    match Packet.parse filled.buf with
    | none => some (⟨none, none, .Stop⟩, client)
    | some packet => do
      let request := client.rerequest packet
      -- advance past this packet's last message, from wherever the expectation was
      let expected ← profile.add 64 packet.seqNum packet.msgCount
      return (⟨request, some filled.bytes, .Continue⟩,
        { expectedSessionIdent := some packet.session, expectedSeqNum := some expected })

/-- Retransmissions leave the gap-detection state alone. -/
def processRereqDatagram (filled : Filled) : Effects :=
  if filled.n < Packet.minPacketLen then ⟨none, none, .Continue⟩
  else ⟨none, some filled.bytes, .Continue⟩

/-- The header of a full datagram is read from the bytes received, not from what the buffer held
before. -/
theorem parse_filled {filled : Filled} {packet : Packet}
    (parsed : Packet.parse filled.bytes = some packet) :
    Packet.minPacketLen ≤ filled.n ∧ ∃ messages,
      Packet.parse filled.buf = some { packet with messages } := by
  obtain ⟨whole, seq, count⟩ := Packet.parse_some parsed
  have long := congrArg List.length whole
  have within := filled.within
  rw [Filled.bytes, List.length_take, List.length_append, Packet.length_header] at long
  -- the messages of the view run on into the stale bytes; the three header fields do not
  refine ⟨by omega, packet.messages ++ filled.buf.drop filled.n, ?_⟩
  have buffer : filled.buf = Packet.header packet.session packet.seqNum packet.msgCount ++
      (packet.messages ++ filled.buf.drop filled.n) := by
    rw [← List.append_assoc, ← whole, Filled.bytes, List.take_append_drop]
  have read := Packet.parse_header packet.session packet.seqNum packet.msgCount
    (packet.messages ++ filled.buf.drop filled.n) seq count
  rwa [← buffer] at read

/-- What processing a datagram with a header does. -/
theorem processMulticastDatagram_eq (profile : Profile) (client : Client) {filled : Filled}
    {packet : Packet} (parsed : Packet.parse filled.bytes = some packet) :
    processMulticastDatagram profile client filled =
      (profile.add 64 packet.seqNum packet.msgCount).map fun expected =>
        (⟨client.rerequest packet, some filled.bytes, .Continue⟩,
          ⟨some packet.session, some expected⟩) := by
  obtain ⟨enough, messages, view⟩ := parse_filled parsed
  have long : ¬filled.n < Packet.minPacketLen := Nat.not_lt.mpr enough
  simp only [processMulticastDatagram, if_neg long, view]
  cases profile.add 64 packet.seqNum packet.msgCount <;> rfl

/-- A short datagram does nothing. -/
theorem processMulticastDatagram_short (profile : Profile) (client : Client) {filled : Filled}
    (short : Packet.parse filled.bytes = none) :
    processMulticastDatagram profile client filled = some (⟨none, none, .Continue⟩, client) := by
  have cut : filled.n < Packet.minPacketLen := by
    unfold Packet.parse at short
    split at short
    next => cases short
    next few =>
      have length : filled.bytes.length = filled.n := List.length_take_of_le filled.within
      omega
  rw [processMulticastDatagram, if_pos cut]

theorem processRereqDatagram_eq (filled : Filled) :
    processRereqDatagram filled =
      ⟨none, (Packet.parse filled.bytes).map fun _ => filled.bytes, .Continue⟩ := by
  have length : filled.bytes.length = filled.n := List.length_take_of_le filled.within
  unfold processRereqDatagram Packet.parse
  split
  next short => rw [dif_neg (by omega), Option.map_none]
  next long => rw [dif_pos (by omega), Option.map_some]

/-- No re-request when the packet does not skip ahead. -/
theorem rerequest_eq_none (session : Session) (expected : Nat) (packet : Packet)
    (pinned : packet.session = session) :
    Client.rerequest ⟨some session, some expected⟩ packet = none ↔ packet.seqNum ≤ expected := by
  simp [Client.rerequest, pinned]

end Hftrs.Moldudp
