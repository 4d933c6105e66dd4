import Hftrs.Moldudp.Iteration
import Hftrs.Moldudp.Server

/-! The packet codec: `build_packet` and the packet iterator are inverse to each other. -/
namespace Hftrs.Moldudp

open Hftrs.Library

/-- Iterating over blocks yields their bodies, and goes on behind them. -/
theorem Messages.drain_blocks_append (bodies : List (List UInt8)) (rest : List UInt8)
    (remaining : Nat) (lengths : ∀ body ∈ bodies, body.length < 2 ^ 16) :
    drain ⟨blocks bodies ++ rest, bodies.length + remaining⟩ =
      (bodies ++ (drain ⟨rest, remaining⟩).1, (drain ⟨rest, remaining⟩).2) := by
  induction bodies with
  | nil => rw [blocks_nil, List.nil_append, List.nil_append, List.length_nil, Nat.zero_add]
  | cons body bodies ih =>
    have first : next ⟨blocks (body :: bodies) ++ rest, (body :: bodies).length + remaining⟩ =
        some (body, ⟨blocks bodies ++ rest, bodies.length + remaining⟩) := by
      rw [blocks_cons, List.append_assoc, List.length_cons, Nat.succ_add, next_eq,
        splitBlock_block _ _ (lengths body (by simp))]
      rfl
    rw [drain_some first, ih fun b member => lengths b (by simp [member]), List.cons_append]

/-- Iterating over as many blocks as are announced yields their bodies. -/
theorem Messages.drain_blocks (bodies : List (List UInt8)) (rest : List UInt8)
    (lengths : ∀ body ∈ bodies, body.length < 2 ^ 16) :
    drain ⟨blocks bodies ++ rest, bodies.length⟩ = (bodies, ⟨rest, 0⟩) := by
  have drained := Messages.drain_blocks_append bodies rest 0 lengths
  rwa [drain_none (next_none rest), List.append_nil] at drained

/-! ### Reading a datagram -/

/-- The messages that a datagram is read as: none, unless it parses. -/
def readBlocks (datagram : List UInt8) : List (List UInt8) :=
  match Packet.parse datagram with
  | none => []
  | some packet => packet.iter.drain.1

/-- Below the count of an end of session, iterating yields all the messages. -/
theorem Packet.drain_iter (session : Session) (seqNum : Nat) {msgs : List (List UInt8)}
    (count : msgs.length < endOfSessionIdent) (lengths : ∀ m ∈ msgs, m.length < 2 ^ 16) :
    (iter ⟨session, seqNum, msgs.length, blocks msgs⟩).drain.1 = msgs := by
  have announced : iter ⟨session, seqNum, msgs.length, blocks msgs⟩ =
      ⟨blocks msgs, msgs.length⟩ := by
    rw [iter, Messages.mk.injEq]
    refine ⟨rfl, ?_⟩
    by_cases none : msgs.length = heartbeatIdent
    · rw [if_pos (.inr none), none, heartbeatIdent]
    · exact if_neg fun special => special.elim (Nat.ne_of_lt count) none
  have drained := Messages.drain_blocks msgs [] lengths
  rw [List.append_nil] at drained
  rw [announced, drained]

/-- With that count, it yields none of them. -/
theorem Packet.drain_iter_full (session : Session) (seqNum : Nat) {msgs : List (List UInt8)}
    (count : msgs.length = endOfSessionIdent) :
    (iter ⟨session, seqNum, msgs.length, blocks msgs⟩).drain.1 = [] := by
  simp only [iter, count, true_or, if_true]
  rw [Messages.drain_none (Messages.next_none _)]

theorem readBlocks_packetBytes (session : Session) {seqNum : Nat} (small : seqNum < 2 ^ 64)
    {msgs : List (List UInt8)} (count : msgs.length < endOfSessionIdent)
    (lengths : ∀ m ∈ msgs, m.length < 2 ^ 16) :
    readBlocks (packetBytes session seqNum msgs) = msgs := by
  have narrow : msgs.length < 2 ^ 16 := Nat.lt_trans count (by decide)
  rw [readBlocks, packetBytes, Packet.parse_header session seqNum _ _ small narrow]
  exact Packet.drain_iter session seqNum count lengths

theorem readBlocks_full (session : Session) {seqNum : Nat} (small : seqNum < 2 ^ 64)
    {msgs : List (List UInt8)} (count : msgs.length = endOfSessionIdent) :
    readBlocks (packetBytes session seqNum msgs) = [] := by
  rw [readBlocks, packetBytes, Packet.parse_header session seqNum _ _ small (by rw [count]; decide)]
  exact Packet.drain_iter_full session seqNum count

/-- The bodies of all the message blocks in a packet, whatever its count says. -/
def Packet.contents (packet : Packet) : List (List UInt8) :=
  (Messages.drain ⟨packet.messages, packet.messages.length⟩).1

theorem length_le_blocks (bodies : List (List UInt8)) : bodies.length ≤ (blocks bodies).length := by
  induction bodies with
  | nil => exact Nat.le_refl 0
  | cons body bodies ih =>
    rw [blocks_cons, List.length_append, length_block, List.length_cons]
    omega

theorem Packet.contents_blocks (session : Session) (seqNum msgCount : Nat)
    (msgs : List (List UInt8)) (lengths : ∀ m ∈ msgs, m.length < 2 ^ 16) :
    contents ⟨session, seqNum, msgCount, blocks msgs⟩ = msgs := by
  -- there are more bytes than blocks, and behind the blocks there is nothing
  obtain ⟨extra, enough⟩ := Nat.exists_eq_add_of_le (length_le_blocks msgs)
  have last : Messages.next ⟨[], extra⟩ = none := by
    cases extra with
    | zero => rfl
    | succ extra => rfl
  have drained := Messages.drain_blocks_append msgs [] extra lengths
  rw [Messages.drain_none last, List.append_nil, List.append_nil, ← enough] at drained
  rw [contents, drained]

theorem expectU16_some {n count : Nat} (found : expectU16 n = some count) : n < 2 ^ 16 := by
  unfold expectU16 at found
  split at found
  next small => exact small
  next => cases found

/-- Only messages within the 16-bit counts are built into a packet. -/
theorem buildPacket_some {session : Session} {seqNum : Nat} {msgs : List (List UInt8)}
    {bytes : List UInt8} (built : buildPacket session seqNum msgs = some bytes) :
    msgs.length < 2 ^ 16 ∧ (∀ m ∈ msgs, m.length < 2 ^ 16) ∧
      bytes = packetBytes session seqNum msgs := by
  have parts := built
  simp only [buildPacket, Option.bind_eq_bind, Option.bind_eq_some_iff] at parts
  obtain ⟨count, counted, bodies, found, _⟩ := parts
  have small := expectU16_some counted
  have lengths : ∀ m ∈ msgs, m.length < 2 ^ 16 := by
    intro m member
    obtain ⟨body, done⟩ := mapM_some_each _ msgs bodies found m member
    obtain ⟨len, checked, _⟩ := Option.bind_eq_some_iff.mp done
    exact expectU16_some checked
  have same := buildPacket_eq session seqNum msgs small lengths
  rw [built, Option.some.injEq] at same
  exact ⟨small, lengths, same⟩

/-- A packet that was built parses back to its parts. -/
theorem parse_buildPacket (session : Session) (seqNum : Nat) (msgs : List (List UInt8))
    (seq : seqNum < 2 ^ 64) (count : msgs.length < 2 ^ 16)
    (lengths : ∀ m ∈ msgs, m.length < 2 ^ 16) :
    ∃ bytes, buildPacket session seqNum msgs = some bytes ∧
      Packet.parse bytes = some ⟨session, seqNum, msgs.length, blocks msgs⟩ :=
  ⟨_, buildPacket_eq session seqNum msgs count lengths,
    Packet.parse_header session seqNum msgs.length (blocks msgs) seq count⟩

/-- Between one and 65534 messages make a standard packet. -/
theorem standard_of_count (packet : Packet) (nonempty : 1 ≤ packet.msgCount)
    (count : packet.msgCount ≤ 65534) : packet.packetKind = .Standard := by
  rw [Packet.packetKind_standard, heartbeatIdent, endOfSessionIdent]
  omega

/-- The bytes of a standard packet are its header and the blocks that iterating it yields, when
these use the bytes up. -/
theorem buildPacket_parse (bytes : List UInt8) (packet : Packet)
    (parsed : Packet.parse bytes = some packet) (standard : packet.packetKind = .Standard)
    (complete : packet.iter.drain.1.length = packet.msgCount)
    (exhausted : packet.iter.drain.2.bytes = []) :
    buildPacket packet.session packet.seqNum packet.iter.drain.1 = some bytes := by
  obtain ⟨whole, _, count⟩ := Packet.parse_some parsed
  have iterated := Messages.drain_whole packet.messages packet.msgCount
  rw [← Packet.iter_standard standard, exhausted, List.append_nil] at iterated
  obtain ⟨body, lengths⟩ := iterated
  rw [← complete] at count
  rw [buildPacket_eq _ _ _ count lengths, complete, ← body, ← whole]

/-- Building and then parsing gives back the session, the sequence number and the messages;
parsing a packet without left-over bytes and then building gives back its bytes. -/
theorem codec_round_trip :
    (∀ (session : Session) (seqNum : Nat) (msgs : List (List UInt8)), seqNum < 2 ^ 64 →
      1 ≤ msgs.length → msgs.length ≤ 65534 → (∀ m ∈ msgs, m.length ≤ 65535) →
      ∃ bytes packet, buildPacket session seqNum msgs = some bytes ∧
        Packet.parse bytes = some packet ∧ packet.packetKind = .Standard ∧
        packet.session = session ∧ packet.seqNum = seqNum ∧ packet.msgCount = msgs.length ∧
        packet.iter.drain.1 = msgs ∧ packet.iter.drain.2.next = none) ∧
    (∀ (bytes : List UInt8) (packet : Packet), Packet.parse bytes = some packet →
      packet.packetKind = .Standard → packet.iter.drain.1.length = packet.msgCount →
      packet.iter.drain.2.bytes = [] →
      buildPacket packet.session packet.seqNum packet.iter.drain.1 = some bytes) := by
  constructor
  · intro session seqNum msgs seq nonempty count lengths
    have small : ∀ m ∈ msgs, m.length < 2 ^ 16 :=
      fun m member => Nat.lt_succ_of_le (lengths m member)
    obtain ⟨bytes, built, parsed⟩ :=
      parse_buildPacket session seqNum msgs seq (Nat.lt_of_le_of_lt count (by decide)) small
    have standard := standard_of_count ⟨session, seqNum, msgs.length, blocks msgs⟩ nonempty count
    have drained := Messages.drain_blocks msgs [] small
    rw [List.append_nil] at drained
    refine ⟨bytes, _, built, parsed, standard, rfl, rfl, rfl, ?_, ?_⟩
    · rw [Packet.iter_standard standard, drained]
    · rw [Packet.iter_standard standard, drained]
      exact Messages.next_none []
  · exact buildPacket_parse

/-- A message and an empty message make a packet that parses back to them. -/
theorem codec_round_trip_empty_message :
    ∃ bytes packet, buildPacket (padSession [65, 66]) 7 [[1, 2, 3], []] = some bytes ∧
      Packet.parse bytes = some packet ∧ packet.iter.drain.1 = [[1, 2, 3], []] := by
  obtain ⟨bytes, packet, built, parsed, _, _, _, _, drained, _⟩ := codec_round_trip.1
    (padSession [65, 66]) 7 [[1, 2, 3], []] (by decide) (by decide) (by decide) (by decide)
  exact ⟨bytes, packet, built, parsed, drained⟩

end Hftrs.Moldudp
