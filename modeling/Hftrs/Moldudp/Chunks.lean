import Hftrs.Library.Greedy
import Hftrs.Moldudp.Responder

/-! Chunks as a greedy cut by payload, and what the packets built from them can say. -/
namespace Hftrs.Moldudp

open Hftrs.Library

/-- What the loop of `chunk_messages` keeps: nothing so far, or a greedy cut whose last group is
the chunk under way. -/
structure Chunking.Cut (chunkSize : Nat) (state : Chunking) : Prop where
  size : state.currentSize = weight List.length state.current
  groups : (state.current = [] ∧ state.chunks = []) ∨
    Greedy List.length chunkSize (state.chunks ++ [state.current])

private theorem push_cut (chunkSize : Nat) (state : Chunking) (cut : state.Cut chunkSize)
    (msg : List UInt8) : (state.push chunkSize msg).Cut chunkSize := by
  obtain ⟨size, groups⟩ := cut
  unfold Chunking.push
  split
  next flush =>
    have greedy := groups.resolve_left fun empty => flush.1 empty.1
    exact ⟨by simp, .inr (greedy.start (size ▸ flush.2))⟩
  next stay =>
    refine ⟨by simp [size], .inr ?_⟩
    rcases groups with ⟨empty, none⟩ | greedy
    · simp only [empty, none, List.nil_append]
      exact .single _ _ msg
    · -- the chunk under way is not empty, so that the message has room in it
      have nonempty := greedy.nonempty state.current (by simp)
      have room : ¬state.currentSize + msg.length > chunkSize :=
        fun excess => stay ⟨nonempty, excess⟩
      exact greedy.extend (size ▸ Nat.le_of_not_lt room)

private theorem foldl_cut (chunkSize : Nat) (msgs : List (List UInt8)) (state : Chunking)
    (cut : state.Cut chunkSize) :
    (msgs.foldl (Chunking.push chunkSize) state).Cut chunkSize := by
  induction msgs generalizing state with
  | nil => exact cut
  | cons msg msgs ih => exact ih _ (push_cut chunkSize state cut msg)

/-- The chunks are a greedy cut by payload. -/
theorem chunkMessages_greedy (msgs : List (List UInt8)) (chunkSize : Nat) :
    Greedy List.length chunkSize (chunkMessages msgs chunkSize) := by
  obtain ⟨_, groups⟩ := foldl_cut chunkSize msgs ⟨[], [], 0⟩ ⟨rfl, .inl ⟨rfl, rfl⟩⟩
  simp only [chunkMessages]
  split
  next nonempty => exact groups.resolve_left fun empty => nonempty empty.1
  next empty =>
    rcases groups with ⟨_, none⟩ | greedy
    · rw [none]
      exact .nil _ _
    · exact absurd (not_not.mp empty) (greedy.nonempty _ (by simp))

/-- Every group of the greedy cut of the messages by payload is of a kind. -/
def EachGroup (limit : Nat) (msgs : List (List UInt8)) (kind : List (List UInt8) → Prop) : Prop :=
  ∀ groups, groups.flatten = msgs → Greedy List.length limit groups → ∀ group ∈ groups, kind group

theorem eachGroup_iff (limit : Nat) (msgs : List (List UInt8))
    (kind : List (List UInt8) → Prop) :
    EachGroup limit msgs kind ↔ ∀ chunk ∈ chunkMessages msgs limit, kind chunk := by
  have greedy := chunkMessages_greedy msgs limit
  have whole := (chunkMessages_spec msgs limit).1
  constructor
  · exact fun each => each _ whole greedy
  · intro each groups same greedy'
    rw [greedy'.unique greedy (same.trans whole.symm)]
    exact each

/-- The chunks are the messages in order, cut greedily: none is empty, several messages in one are
within the limit, a message above it is alone, and the first message of a chunk had no room in the
chunk before. -/
theorem chunks_partition (msgs : List (List UInt8)) (chunkSize : Nat) :
    (chunkMessages msgs chunkSize).flatten = msgs ∧
    (∀ chunk ∈ chunkMessages msgs chunkSize, chunk ≠ []) ∧
    (∀ chunk ∈ chunkMessages msgs chunkSize, 2 ≤ chunk.length → payload chunk ≤ chunkSize) ∧
    (∀ chunk ∈ chunkMessages msgs chunkSize, ∀ m ∈ chunk, chunkSize < m.length → chunk = [m]) ∧
    ∀ (before after : List (List (List UInt8))) (chunk next : List (List UInt8))
      (m : List UInt8), chunkMessages msgs chunkSize = before ++ chunk :: next :: after →
      next.head? = some m → chunkSize < payload chunk + m.length := by
  have greedy := chunkMessages_greedy msgs chunkSize
  refine ⟨(chunkMessages_spec msgs chunkSize).1, greedy.nonempty, greedy.within, ?_, ?_⟩
  · intro chunk member m inside oversize
    have nonempty := List.length_pos_iff.mpr (greedy.nonempty chunk member)
    have alone : chunk.length = 1 := by
      by_contra several
      have within := greedy.within chunk member (by omega)
      have part := le_weight List.length inside
      omega
    obtain ⟨only, rfl⟩ := List.length_eq_one_iff.mp alone
    rw [List.mem_singleton.mp inside]
  · intro before after chunk next m split first
    have full := greedy.full
    rw [split] at full
    exact (List.isChain_cons_cons.mp full.right_of_append).1 m first

/-! ### What a packet announces -/

/-- The packet reads as a standard packet with as many messages as the chunk has. -/
def Announces (chunk : List (List UInt8)) (datagram : List UInt8) : Prop :=
  ∃ packet, Packet.parse datagram = some packet ∧ packet.packetKind = .Standard ∧
    packet.msgCount = chunk.length

/-- A chunk of messages can be announced when both widths of a packet have room for it, and the
count is not that of an end of session. -/
theorem announces_iff (session : Session) (seqNum : Nat) (small : seqNum < 2 ^ 64)
    (chunk : List (List UInt8)) (nonempty : chunk ≠ []) :
    (∃ datagram, buildPacket session seqNum chunk = some datagram ∧ Announces chunk datagram) ↔
      chunk.length < 65535 ∧ ∀ m ∈ chunk, m.length < 2 ^ 16 := by
  constructor
  · rintro ⟨datagram, built, packet, parsed, standard, count⟩
    obtain ⟨wide, lengths, _⟩ := buildPacket_some built
    have reserved := (packet.packetKind_standard.mp standard).2
    rw [count, endOfSessionIdent] at reserved
    exact ⟨by omega, lengths⟩
  · rintro ⟨count, lengths⟩
    obtain ⟨datagram, built, parsed⟩ :=
      parse_buildPacket session seqNum chunk small (by omega) lengths
    refine ⟨datagram, built, _, parsed, standard_of_count _ ?_ ?_, rfl⟩
    · exact List.length_pos_iff.mpr nonempty
    · exact Nat.le_of_lt_succ count

/-- Messages of 16-bit lengths, cut by payload into groups of fewer than 65535. -/
def Regular (maxPayload : Nat) (msgs : List (List UInt8)) : Prop :=
  (∀ m ∈ msgs, m.length < 2 ^ 16) ∧ EachGroup maxPayload msgs fun group => group.length < 65535

theorem packets_announce_iff (session : Session) (seqNum maxPayload : Nat)
    (small : seqNum < 2 ^ 64) (msgs : List (List UInt8)) :
    (∃ packets, (chunkMessages msgs maxPayload).mapM (buildPacket session seqNum) = some packets ∧
      List.Forall₂ Announces (chunkMessages msgs maxPayload) packets) ↔
      Regular maxPayload msgs := by
  obtain ⟨whole, chunks⟩ := chunkMessages_spec msgs maxPayload
  rw [mapM_forall₂_iff, Regular, eachGroup_iff]
  constructor
  · intro each
    have good (chunk : List (List UInt8)) (member : chunk ∈ chunkMessages msgs maxPayload) :=
      (announces_iff session seqNum small chunk (chunks chunk member).1).mp (each chunk member)
    refine ⟨fun m inside => ?_, fun chunk member => (good chunk member).1⟩
    rw [← whole] at inside
    obtain ⟨chunk, member, part⟩ := List.mem_flatten.mp inside
    exact (good chunk member).2 m part
  · rintro ⟨lengths, counts⟩ chunk member
    refine (announces_iff session seqNum small chunk (chunks chunk member).1).mpr
      ⟨counts chunk member, fun m part => lengths m ?_⟩
    rw [← whole]
    exact List.mem_flatten.mpr ⟨chunk, member, part⟩

/-- What a send comes to, once its messages are logged and numbered. -/
theorem senderStep_packets {profile : Profile} (maxPayload : Nat) {sender : Sender}
    {msgs : List (List UInt8)} {log : Log} {nextSeq : Nat} (running : sender.stopped = false)
    (nonempty : msgs ≠ [])
    (stored : storeMessages profile sender.log sender.nextSeq msgs = some log)
    (counted : profile.add 64 sender.nextSeq msgs.length = some nextSeq) :
    senderStep profile maxPayload sender (.Ok (.Send msgs)) =
      ((chunkMessages msgs maxPayload).mapM (buildPacket sender.session sender.nextSeq)).map
        fun packets => (packets, { sender with log, nextSeq }) := by
  simp only [senderStep, running, Bool.false_eq_true, if_false, nonempty, stored, counted,
    Option.bind_eq_bind, Option.bind_some, Option.map_eq_bind]
  rfl

/-- Building the packets of a send, and of the answer to a request, succeeds with a standard
packet for every chunk exactly when the messages are regular. -/
theorem sent_packets_announce_iff (profile : Profile) (maxPayload : Nat) :
    (∀ (sender : Sender) (msgs : List (List UInt8)) (log : Log) (nextSeq : Nat),
      sender.nextSeq < 2 ^ 64 → sender.stopped = false → msgs ≠ [] →
      storeMessages profile sender.log sender.nextSeq msgs = some log →
      profile.add 64 sender.nextSeq msgs.length = some nextSeq →
      ((∃ packets, senderStep profile maxPayload sender (.Ok (.Send msgs)) =
          some (packets, { sender with log, nextSeq }) ∧
        List.Forall₂ Announces (chunkMessages msgs maxPayload) packets) ↔
          Regular maxPayload msgs)) ∧
    ∀ (session : Session) (log : Log) (datagram : List UInt8) (startSeq want : Nat)
      (msgs : List (List UInt8)), readRequest session datagram = some (startSeq, want) →
      collect profile log startSeq want 0 = some msgs →
      ((∃ packets, serve profile maxPayload session log datagram = some packets ∧
        List.Forall₂ Announces (chunkMessages msgs maxPayload) packets) ↔
          Regular maxPayload msgs) := by
  constructor
  · intro sender msgs log nextSeq small running nonempty stored counted
    rw [← packets_announce_iff sender.session sender.nextSeq maxPayload small msgs]
    rw [senderStep_packets maxPayload running nonempty stored counted]
    simp only [Option.map_eq_some_iff, Prod.mk.injEq, and_true, exists_eq_right]
  · intro session log datagram startSeq want msgs read found
    have small := (readRequest_some read).1
    rw [← packets_announce_iff session startSeq maxPayload small msgs]
    have served : serve profile maxPayload session log datagram =
        (chunkMessages msgs maxPayload).mapM (buildPacket session startSeq) := by
      simp only [serve, read, found]
      rfl
    rw [served]

/-- Two messages, one of them empty, are announced, sent as well as served. -/
theorem sent_packets_announce_iff_pair :
    (∃ packets sender, senderStep .release 1452 ⟨padSession [65, 66], ∅, 1, false⟩
        (.Ok (.Send [[7], []])) = some (packets, sender) ∧
      List.Forall₂ Announces (chunkMessages [[7], []] 1452) packets) ∧
    ∃ packets, serve .release 1452 (padSession [65, 66]) ((∅ : Log).insert 1 [7])
        (Packet.header (padSession [65, 66]) 1 2) = some packets ∧
      List.Forall₂ Announces (chunkMessages [[7]] 1452) packets := by
  have regular (msgs : List (List UInt8)) (few : msgs.length < 65535)
      (lengths : ∀ m ∈ msgs, m.length < 2 ^ 16) : Regular 1452 msgs := by
    refine ⟨lengths, fun groups whole _ group member => ?_⟩
    have part := (List.sublist_flatten_of_mem member).length_le
    rw [whole] at part
    exact Nat.lt_of_le_of_lt part few
  constructor
  · obtain ⟨packets, sent, announced⟩ := ((sent_packets_announce_iff .release 1452).1
      ⟨padSession [65, 66], ∅, 1, false⟩ [[7], []] _ 3 (by decide) rfl (by simp) rfl rfl).mpr
      (regular _ (by decide) (by decide))
    exact ⟨packets, _, sent, announced⟩
  · have read : readRequest (padSession [65, 66]) (Packet.header (padSession [65, 66]) 1 2) =
        some (1, 2) := by
      rw [readRequest_header _ _ _ _ (by decide) (by decide) (by decide), if_pos rfl]
    exact ((sent_packets_announce_iff .release 1452).2 _ _ _ 1 2 [[7]] read rfl).mpr
      (regular _ (by decide) (by decide))

private theorem send_single (profile : Profile) (maxPayload : Nat) (msgs : List (List UInt8))
    (nonempty : msgs ≠ []) (single : Fits maxPayload msgs) (few : msgs.length < 2 ^ 63) :
    ∃ sender, senderStep profile maxPayload ⟨padSession [65, 66], ∅, 1, false⟩ (.Ok (.Send msgs)) =
      (buildPacket (padSession [65, 66]) 1 msgs).map fun packet => ([packet], sender) := by
  have counted : profile.add 64 1 msgs.length = some (1 + msgs.length) := profile.add_eq (by omega)
  obtain ⟨log, stored⟩ := storeMessages_isSome profile 1 msgs ∅ fun _ => by omega
  refine ⟨⟨padSession [65, 66], log, 1 + msgs.length, false⟩, ?_⟩
  rw [senderStep_packets maxPayload rfl nonempty stored counted,
    (chunkMessages_single msgs maxPayload nonempty).mpr single, List.mapM_cons, List.mapM_nil]
  cases buildPacket (padSession [65, 66]) 1 msgs <;> rfl

/-- A message of 2^16 bytes stops the server, and 65535 empty messages are an end of session. -/
theorem send_too_wide :
    senderStep .release 1452 ⟨padSession [65, 66], ∅, 1, false⟩
        (.Ok (.Send [List.replicate 65536 0])) = none ∧
      ∃ datagram sender packet, senderStep .release 1452 ⟨padSession [65, 66], ∅, 1, false⟩
          (.Ok (.Send (List.replicate 65535 []))) = some ([datagram], sender) ∧
        Packet.parse datagram = some packet ∧ packet.packetKind = .EndOfSession := by
  constructor
  · obtain ⟨sender, sent⟩ := send_single .release 1452 [List.replicate 65536 0]
      (List.cons_ne_nil _ _) (.inl (Nat.le_refl 1)) (by rw [List.length_singleton]; decide)
    rw [sent, Option.map_eq_none_iff, Option.eq_none_iff_forall_ne_some]
    intro packet built
    have narrow := (buildPacket_some built).2.1 _ (List.mem_singleton_self _)
    rw [List.length_replicate] at narrow
    exact absurd narrow (by decide)
  · have count := List.length_replicate (n := 65535) (a := ([] : List UInt8))
    have empty : payload (List.replicate 65535 []) = 0 := by
      rw [payload, List.map_replicate, List.sum_replicate]
      rfl
    obtain ⟨sender, sent⟩ := send_single .release 1452 (List.replicate 65535 [])
      (fun none => by rw [none] at count; cases count) (.inr (by omega)) (by omega)
    obtain ⟨datagram, built, parsed⟩ := parse_buildPacket (padSession [65, 66]) 1
      (List.replicate 65535 []) (by decide) (by omega)
      fun m member => by rw [List.eq_of_mem_replicate member]; decide
    rw [built, Option.map_some] at sent
    refine ⟨datagram, sender, _, sent, parsed, ?_⟩
    simp only [Packet.packetKind, count]
    rfl

/-! ### What a packet measures -/

/-- The bytes of a message in a packet, its length field included. -/
def blockSize (m : List UInt8) : Nat := m.length + 2

theorem length_packetBytes (session : Session) (seqNum : Nat) (msgs : List (List UInt8)) :
    (packetBytes session seqNum msgs).length = Packet.minPacketLen + weight blockSize msgs := by
  have measured : (blocks msgs).length = weight blockSize msgs := by
    induction msgs with
    | nil => rfl
    | cons m msgs ih =>
      rw [blocks_cons, List.length_append, length_block, ih, weight_cons, blockSize]
  rw [packetBytes, List.length_append, Packet.length_header, measured]

/-- The packets of several messages stay within the header and the limit exactly when the messages
of a group that can be built do with their length fields. -/
theorem packets_within_iff (session : Session) (seqNum maxPayload : Nat)
    (msgs : List (List UInt8)) :
    (∀ chunk ∈ chunkMessages msgs maxPayload, 1 < chunk.length →
      ∀ datagram, buildPacket session seqNum chunk = some datagram →
        datagram.length ≤ 20 + maxPayload) ↔
    EachGroup maxPayload msgs fun group => 1 < group.length → group.length < 2 ^ 16 →
      (∀ m ∈ group, m.length < 2 ^ 16) → weight blockSize group ≤ maxPayload := by
  rw [eachGroup_iff]
  refine forall₂_congr fun chunk _ => forall_congr' fun _ => ?_
  constructor
  · intro within count lengths
    have fits := within _ (buildPacket_eq session seqNum chunk count lengths)
    rw [← packetBytes, length_packetBytes, Packet.minPacketLen] at fits
    omega
  · intro within datagram built
    obtain ⟨count, lengths, rfl⟩ := buildPacket_some built
    have fits := within count lengths
    rw [length_packetBytes, Packet.minPacketLen]
    omega

/-- Two messages of 726 bytes have room in 1452 bytes, and their packet none in 1472. -/
theorem packet_beyond_limit :
    ∃ datagram, chunkMessages [List.replicate 726 0, List.replicate 726 0] 1452 =
        [[List.replicate 726 0, List.replicate 726 0]] ∧
      buildPacket (padSession [65, 66]) 1 [List.replicate 726 0, List.replicate 726 0] =
        some datagram ∧
      20 + 1452 < datagram.length := by
  have half := List.length_replicate (n := 726) (a := (0 : UInt8))
  generalize List.replicate 726 (0 : UInt8) = m at half
  refine ⟨packetBytes (padSession [65, 66]) 1 [m, m], ?_, ?_, ?_⟩
  · rw [chunkMessages_single _ _ (List.cons_ne_nil _ _)]
    exact .inr (by simp [half])
  · exact buildPacket_eq _ _ _ (by simp) (by simp [half])
  · rw [length_packetBytes]
    simp [blockSize, half, Packet.minPacketLen]

end Hftrs.Moldudp
