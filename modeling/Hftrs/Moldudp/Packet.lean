import Hftrs.Library.Framing

/-! The MoldUDP64 packet: a 20-byte header and message blocks. -/
namespace Hftrs.Moldudp

open Hftrs.Library

/-- Heartbeat sentinel in `msg_count`. -/
def heartbeatIdent : Nat := 0

/-- End-of-session sentinel in `msg_count`: `u16::MAX`. -/
def endOfSessionIdent : Nat := 65535

/-- A session identifier: `[u8; 10]`. -/
structure Session where
  bytes : List UInt8
  length : bytes.length = 10
  deriving DecidableEq

inductive PacketKind where
  | Heartbeat
  | EndOfSession
  | Standard
  deriving DecidableEq, Repr

structure Packet where
  session : Session
  seqNum : Nat
  msgCount : Nat
  messages : List UInt8
  deriving DecidableEq

/-- The state of the iterator over message blocks. -/
structure Messages where
  bytes : List UInt8
  remaining : Nat
  deriving DecidableEq, Repr

namespace Messages

/-- The next message's data. A block that does not fit in the bytes ends the iteration. -/
def next (messages : Messages) : Option (List UInt8 × Messages) :=
  if messages.remaining = 0 then none
  else
    match splitAtChecked messages.bytes 2 with
    -- the length field is read first and skipped afterwards, with the body
    | none => none
    | some (lenField, _) =>
      match splitAtChecked messages.bytes (2 + decode lenField) with
      | none => none
      | some (msg, rest) => some (msg.drop 2, ⟨rest, messages.remaining - 1⟩)

/-- The messages read the next block. -/
theorem next_eq (bytes : List UInt8) (remaining : Nat) :
    next ⟨bytes, remaining + 1⟩ =
      (splitBlock bytes).map fun (body, rest) => (body, ⟨rest, remaining⟩) := by
  simp only [next, splitBlock, Nat.add_one_ne_zero, if_false, Nat.add_sub_cancel]
  cases first : splitAtChecked bytes 2 with
  | none => rfl
  | some split =>
    obtain ⟨lenField, tail⟩ := split
    obtain ⟨rfl, two⟩ := splitAtChecked_some first
    simp only [Option.bind_some]
    cases second : splitAtChecked tail (decode lenField) with
    | none =>
      have short := (splitAtChecked_none _ _).mp second
      -- the block does not fit, with its length field or without
      have whole : splitAtChecked (lenField ++ tail) (2 + decode lenField) = none := by
        rw [splitAtChecked_none, List.length_append, two]
        omega
      rw [whole, Option.map_none]
    | some inner =>
      obtain ⟨body, rest⟩ := inner
      obtain ⟨rfl, length⟩ := splitAtChecked_some second
      have whole := splitAtChecked_append (lenField ++ body) rest
      rw [List.length_append, two, length, List.append_assoc] at whole
      rw [whole, Option.map_some]
      simp only [List.drop_append_of_le_length (Nat.le_of_eq two.symm)]
      rw [← two, List.drop_length, List.nil_append]

theorem next_none (bytes : List UInt8) : next ⟨bytes, 0⟩ = none := rfl

theorem next_remaining {messages rest : Messages} {body : List UInt8}
    (found : messages.next = some (body, rest)) : rest.remaining < messages.remaining := by
  obtain ⟨bytes, remaining⟩ := messages
  cases remaining with
  | zero => cases found
  | succ remaining =>
    rw [next_eq] at found
    obtain ⟨_, _, equal⟩ := Option.map_eq_some_iff.mp found
    cases equal
    exact Nat.lt_succ_self remaining

/-- What iterating to the end yields, and the iterator that is left. -/
def drain (messages : Messages) : List (List UInt8) × Messages :=
  match _found : messages.next with
  | none => ([], messages)
  | some (body, rest) => (body :: rest.drain.1, rest.drain.2)
  termination_by messages.remaining
  decreasing_by all_goals exact next_remaining _found

theorem drain_none {messages : Messages} (last : messages.next = none) :
    messages.drain = ([], messages) := by
  rw [drain]
  split
  next => rfl
  next found => rw [last] at found; cases found

theorem drain_some {messages rest : Messages} {body : List UInt8}
    (found : messages.next = some (body, rest)) :
    messages.drain = (body :: rest.drain.1, rest.drain.2) := by
  rw [drain]
  split
  next last => rw [found] at last; cases last
  next same => rw [found] at same; cases same; rfl

/-- Iterating yields the complete blocks, up to the announced count. -/
theorem drain_eq_take (bytes : List UInt8) (remaining : Nat) :
    (drain ⟨bytes, remaining⟩).1 = (splitBlocks bytes).take remaining := by
  induction remaining generalizing bytes with
  | zero => rw [drain_none (next_none bytes), List.take_zero]
  | succ remaining ih =>
    have step := next_eq bytes remaining
    cases found : splitBlock bytes with
    | none =>
      rw [found, Option.map_none] at step
      rw [drain_none step, splitBlocks_none found, List.take_nil]
    | some split =>
      rw [found, Option.map_some] at step
      rw [drain_some step, splitBlocks_some found, List.take_succ_cons, ih]

end Messages

namespace Packet

def minPacketLen : Nat := 20

/-- Zero-copy view of a buffer that holds a header. -/
def parse (bytes : List UInt8) : Option Packet :=
  if enough : minPacketLen ≤ bytes.length then
    some
      { session := ⟨bytes.take 10, List.length_take_of_le (Nat.le_trans (by decide) enough)⟩
        seqNum := decode ((bytes.drop 10).take 8)
        msgCount := decode ((bytes.drop 18).take 2)
        messages := bytes.drop 20 }
  else none

def packetKind (packet : Packet) : PacketKind :=
  if packet.msgCount = heartbeatIdent then .Heartbeat
  else if packet.msgCount = endOfSessionIdent then .EndOfSession
  else .Standard

def iter (packet : Packet) : Messages :=
  { bytes := packet.messages
    -- the sentinel counts announce no messages
    remaining :=
      if packet.msgCount = endOfSessionIdent ∨ packet.msgCount = heartbeatIdent then 0
      else packet.msgCount }

theorem packetKind_standard (packet : Packet) :
    packet.packetKind = .Standard ↔
      packet.msgCount ≠ heartbeatIdent ∧ packet.msgCount ≠ endOfSessionIdent := by
  unfold packetKind
  split
  next heartbeat => simp [heartbeat]
  next other =>
    split
    next ended => simp [ended]
    next standard => simp [other, standard]

/-- The iterator of a standard packet expects every announced message. -/
theorem iter_standard {packet : Packet} (standard : packet.packetKind = .Standard) :
    packet.iter = ⟨packet.messages, packet.msgCount⟩ := by
  obtain ⟨some, finite⟩ := packet.packetKind_standard.mp standard
  simp [iter, some, finite]

/-- The 20 bytes in front of the messages. -/
def header (session : Session) (seqNum msgCount : Nat) : List UInt8 :=
  session.bytes ++ encode 8 seqNum ++ encode 2 msgCount

theorem length_header (session : Session) (seqNum msgCount : Nat) :
    (header session seqNum msgCount).length = minPacketLen := by
  simp [header, session.length, minPacketLen]

/-- A header in range reads back, whatever follows. -/
theorem parse_header (session : Session) (seqNum msgCount : Nat) (messages : List UInt8)
    (seq : seqNum < 2 ^ 64) (count : msgCount < 2 ^ 16) :
    parse (header session seqNum msgCount ++ messages) =
      some ⟨session, seqNum, msgCount, messages⟩ := by
  obtain ⟨bytes, length⟩ := session
  have whole : minPacketLen ≤ (header ⟨bytes, length⟩ seqNum msgCount ++ messages).length := by
    rw [List.length_append, length_header]
    omega
  have shape : header ⟨bytes, length⟩ seqNum msgCount ++ messages =
      bytes ++ (encode 8 seqNum ++ (encode 2 msgCount ++ messages)) := by
    simp only [header, List.append_assoc]
  have ident : (header ⟨bytes, length⟩ seqNum msgCount ++ messages).take 10 = bytes := by
    rw [shape, List.take_left' length]
  have number : ((header ⟨bytes, length⟩ seqNum msgCount ++ messages).drop 10).take 8 =
      encode 8 seqNum := by
    rw [shape, List.drop_left' length, List.take_left' (length_encode 8 seqNum)]
  have counter : ((header ⟨bytes, length⟩ seqNum msgCount ++ messages).drop 18).take 2 =
      encode 2 msgCount := by
    have front : (bytes ++ encode 8 seqNum).length = 18 := by simp [length]
    rw [shape, ← List.append_assoc, List.drop_left' front,
      List.take_left' (length_encode 2 msgCount)]
  have body : (header ⟨bytes, length⟩ seqNum msgCount ++ messages).drop 20 = messages :=
    List.drop_left' (length_header _ _ _)
  rw [parse, dif_pos whole]
  simp only [ident, number, counter, body, decode_encode 8 seqNum seq,
    decode_encode 2 msgCount count]

private theorem take_append_drop_add (l : List UInt8) (m n : Nat) :
    (l.drop m).take n ++ l.drop (m + n) = l.drop m := by
  rw [← List.drop_drop, List.take_append_drop]

/-- What parses is a header and the rest of the bytes. -/
theorem parse_some {bytes : List UInt8} {packet : Packet} (parsed : parse bytes = some packet) :
    bytes = header packet.session packet.seqNum packet.msgCount ++ packet.messages ∧
      packet.seqNum < 2 ^ 64 ∧ packet.msgCount < 2 ^ 16 := by
  unfold parse at parsed
  split at parsed
  next enough =>
    cases parsed
    have eight : ((bytes.drop 10).take 8).length = 8 := by
      simp only [List.length_take, List.length_drop, minPacketLen] at enough ⊢
      omega
    have two : ((bytes.drop 18).take 2).length = 2 := by
      simp only [List.length_take, List.length_drop, minPacketLen] at enough ⊢
      omega
    have number := encode_decode ((bytes.drop 10).take 8)
    have counter := encode_decode ((bytes.drop 18).take 2)
    have numberBound := decode_lt ((bytes.drop 10).take 8)
    have counterBound := decode_lt ((bytes.drop 18).take 2)
    rw [eight] at number numberBound
    rw [two] at counter counterBound
    refine ⟨?_, numberBound, counterBound⟩
    have tail : (bytes.drop 18).take 2 ++ bytes.drop 20 = bytes.drop 18 :=
      take_append_drop_add bytes 18 2
    have middle : (bytes.drop 10).take 8 ++ bytes.drop 18 = bytes.drop 10 :=
      take_append_drop_add bytes 10 8
    simp only [header, number, counter, List.append_assoc, tail, middle, List.take_append_drop]
  next => cases parsed

end Packet

end Hftrs.Moldudp
