import Hftrs.Moldudp.GapCover
import Hftrs.Moldudp.Labels
import Hftrs.Moldudp.Protocol

/-! What the network lost and the client can make up for.

While the session lasts, the client only asks for messages that the server has, and the server
answers with them: the answer is read as the messages, unless there are so many of them in one
packet that it announces the end of the session. When each send is one packet, nothing between the
first expectation and the current one is missing from both what arrived and what was asked for. -/
namespace Hftrs.Moldudp

open Hftrs.Library

/-- The sender leaves its session alone, unless told to change it. -/
theorem Threads.step_sender_session (profile : Profile) (maxPayload : Nat) (threads : Threads)
    (move : ThreadStep) (stays : ∀ s, move ≠ .receive (.Ok (.ChangeSession s))) :
    (threads.step profile maxPayload move).sender.session = threads.sender.session := by
  have storing (msgs : List (List UInt8)) (onwards : SenderPhase) :
      (threads.store profile msgs onwards).sender.session = threads.sender.session := by
    simp only [Threads.store]
    repeat' split
    all_goals rfl
  cases move with
  | receive received =>
    simp only [Threads.step]
    split
    next =>
      unfold Threads.receive
      split
      next msgs =>
        repeat' split
        all_goals first | rfl | exact storing _ _
      next msgs =>
        repeat' split
        all_goals first | rfl | exact storing _ _
      next => rfl
      next => rfl
      next s => exact absurd rfl (stays s)
      next => rfl
      next => rfl
    next => rfl
  | send =>
    simp only [Threads.step]
    repeat' split
    all_goals rfl
  | request datagram =>
    simp only [Threads.step, Threads.request]
    repeat' split
    all_goals rfl
  | reply =>
    simp only [Threads.step]
    repeat' split
    all_goals rfl

/-- A re-request is for the gap between the expectation and the packet. -/
theorem rerequest_gap {client : Client} {packet : Packet} {request : RetransmissionPacket}
    (asked : client.rerequest packet = some request) :
    ∃ expected, client.expectedSeqNum = some expected ∧ expected < packet.seqNum ∧
      request = ⟨packet.session, expected, min (packet.seqNum - expected) 65535⟩ := by
  unfold Client.rerequest at asked
  split at asked
  next _ expected _ known =>
    split at asked
    next ahead =>
      cases asked
      exact ⟨expected, known, ahead.2, rfl⟩
    next => cases asked
  next => cases asked

namespace Protocol

/-- The server stays in its session and takes messages within 16-bit lengths, and the client is
not told that the session has ended. -/
def Steady (protocol : Protocol) : Move → Prop
  | .server (.receive (.Ok (.ChangeSession _))) => False
  | .server move => ∀ entry ∈ protocol.server.takes move, entry.2.length < 2 ^ 16
  | .multicast filled _ _ =>
    ∀ packet ∈ Packet.parse filled.bytes, packet.packetKind ≠ .EndOfSession
  | .retx _ _ => True

instance (protocol : Protocol) (move : Move) : Decidable (protocol.Steady move) := by
  unfold Steady
  split <;> infer_instance

theorem Steady.server {protocol : Protocol} {move : ThreadStep}
    (steady : protocol.Steady (.server move)) :
    (∀ s, move ≠ .receive (.Ok (.ChangeSession s))) ∧
      ∀ entry ∈ protocol.server.takes move, entry.2.length < 2 ^ 16 := by
  unfold Steady at steady
  split at steady
  next => exact steady.elim
  next other same =>
    cases same
    refine ⟨?_, steady⟩
    rintro s rfl
    exact other s rfl
  next same => cases same
  next same => cases same

/-! ### Within the session -/

/-- Packets of the session, with numbers of messages that the server has taken. -/
def Anchored (session : Session) (first : Nat) (live : Origin) : Prop :=
  ∀ taken s seqNum msgs, live taken s seqNum msgs →
    s = session ∧ first ≤ seqNum ∧ seqNum + msgs.length ≤ first + taken.length

/-- What the parties keep while the session lasts. -/
structure Pinned (session : Session) (first : Nat) (protocol : Protocol) : Prop where
  sender : protocol.server.sender.session = session
  replies : protocol.server.session = session
  taken : ∀ entry ∈ protocol.server.taken, entry.1 = session ∧ entry.2.length < 2 ^ 16
  ident : protocol.client.expectedSessionIdent = some session
  expected : ∀ expected ∈ protocol.client.expectedSeqNum, first ≤ expected
  requests : ∀ request ∈ protocol.requests, request.session = session ∧
    first ≤ request.seqNum ∧ 0 < request.msgCount ∧ request.msgCount < 2 ^ 16 ∧
    request.seqNum + request.msgCount ≤ first + protocol.server.taken.length
  lasts : ∀ datagram, (.multicast, datagram) ∈ protocol.forwarded →
    ∀ packet ∈ Packet.parse datagram, packet.packetKind ≠ .EndOfSession

theorem start_pinned (session : Session) (first : Nat) (expected : Option Nat)
    (above : ∀ e ∈ expected, first ≤ e) :
    (start session first ⟨some session, expected⟩).Pinned session first where
  sender := rfl
  replies := rfl
  taken := by rintro _ ⟨⟩
  ident := rfl
  expected := above
  requests := by rintro _ ⟨⟩
  lasts := by rintro _ ⟨⟩

section Moves

variable {live : Origin} {session : Session} {first : Nat} {protocol next : Protocol}

/-- What the client makes of a datagram of the session. -/
theorem Sound.hears (sound : protocol.Sound live first) (anchored : Anchored session first live)
    (profile : Profile) {filled : Filled} {queued taken : Bool}
    (enabled : protocol.Enabled (.multicast filled queued taken))
    (steady : protocol.Steady (.multicast filled queued taken))
    (inRange : protocol.InRange first) :
    ∃ packet, Packet.parse filled.bytes = some packet ∧ packet.session = session ∧
      first ≤ packet.seqNum ∧ packet.msgCount = packet.contents.length ∧
      packet.seqNum + packet.msgCount ≤ first + protocol.server.taken.length ∧
      processMulticastDatagram profile protocol.client filled =
        some (⟨protocol.client.rerequest packet, some filled.bytes, .Continue⟩,
          ⟨some session, some (packet.seqNum + packet.msgCount)⟩) := by
  obtain ⟨packet, parsed, from_there, counted⟩ := (sound.traced.sent _ enabled).read (by
    intro s seqNum msgs from_there
    obtain ⟨_, _, below⟩ := anchored _ _ _ _ from_there
    exact Nat.lt_of_le_of_lt (Nat.le_trans (Nat.le_add_right _ _) below) inRange)
  obtain ⟨rfl, above, below⟩ := anchored _ _ _ _ from_there
  have count := counted.resolve_left (steady packet parsed)
  rw [← count] at below
  have added := profile.add_eq (Nat.lt_of_le_of_lt below inRange)
  refine ⟨packet, parsed, rfl, above, count, below, ?_⟩
  rw [processMulticastDatagram_eq profile protocol.client parsed, added, Option.map_some]

theorem Pinned.after_move (pinned : protocol.Pinned session first)
    (sound : protocol.Sound live first) (anchored : Anchored session first live)
    (profile : Profile) (maxPayload : Nat) (move : Move) (enabled : protocol.Enabled move)
    (steady : protocol.Steady move) (inRange : protocol.InRange first) {answer : Unit}
    (stepped : protocol.step profile maxPayload move = some (answer, next)) :
    next.Pinned session first := by
  cases move with
  | server move =>
    cases stepped
    obtain ⟨stays, lengths⟩ := steady.server
    have grown := protocol.server.step_taken profile maxPayload move
    refine { pinned with sender := ?_, replies := ?_, taken := ?_, requests := ?_ }
    · exact (protocol.server.step_sender_session profile maxPayload move stays).trans pinned.sender
    · exact (protocol.server.step_session profile maxPayload move).trans pinned.replies
    · intro entry member
      rw [grown] at member
      rcases List.mem_append.mp member with old | new
      · exact pinned.taken entry old
      · refine ⟨?_, lengths entry new⟩
        -- taken under the sender's session, which is that of the run
        unfold Threads.takes at new
        split at new
        next =>
          split at new
          next =>
            obtain ⟨_, _, rfl⟩ := List.mem_map.mp new
            exact pinned.sender
          next => cases new
        next => cases new
    · intro request member
      obtain ⟨same, above, positive, count, below⟩ := pinned.requests request member
      refine ⟨same, above, positive, count, ?_⟩
      rw [grown, List.length_append]
      omega
  | multicast filled queued taken =>
    obtain ⟨packet, parsed, same, above, _, below, processed⟩ :=
      sound.hears anchored profile enabled steady inRange
    obtain ⟨⟨effects, client⟩, done, equal⟩ := Option.map_eq_some_iff.mp stepped
    rw [processed] at done
    cases done
    cases equal
    refine { pinned with ident := rfl, expected := ?_, requests := ?_, lasts := ?_ }
    · rintro _ ⟨⟩
      omega
    · intro request member
      rcases List.mem_append.mp member with old | new
      · exact pinned.requests request old
      · have asked : protocol.client.rerequest packet = some request := by
          cases queued with
          | false => cases new
          | true => exact Option.mem_toList.mp new
        obtain ⟨expected, known, ahead, rfl⟩ := rerequest_gap asked
        have low := pinned.expected expected known
        refine ⟨same, low, ?_, ?_, ?_⟩ <;> simp only <;> omega
    · intro datagram member view viewed
      rcases List.mem_append.mp member with old | new
      · exact pinned.lasts datagram old view viewed
      · obtain ⟨_, _, forwarded⟩ := mem_offered.mp new
        rw [processMulticastDatagram_forwarded processed forwarded] at viewed
        exact steady view viewed
  | retx filled taken =>
    cases stepped
    refine { pinned with lasts := ?_ }
    intro datagram member
    rcases List.mem_append.mp member with old | new
    · exact pinned.lasts datagram old
    · cases (mem_offered.mp new).2.1

end Moves

/-! ### Requests -/

/-- Rows of the record, under the session. -/
def ownRow (session : Session) (first : Nat) : Origin := fun taken s seqNum msgs =>
  s = session ∧ replyRow first taken s seqNum msgs

theorem ownRow_lasting (session : Session) (first : Nat) : Lasting (ownRow session first) :=
  fun taken more s seqNum msgs from_there =>
    ⟨from_there.1, replyRow_lasting first taken more s seqNum msgs from_there.2⟩

theorem ownRow_anchored (session : Session) (first : Nat) :
    Anchored session first (ownRow session first) := by
  rintro taken s seqNum msgs ⟨same, entries, row, rfl⟩
  rw [List.length_map]
  exact ⟨same, row.1, row.last_le⟩

theorem tracks_ownRow {threads : Threads} {session : Session}
    (own : threads.sender.session = session) (first maxPayload : Nat) (received : Received) :
    threads.Tracks (ownRow session first) first maxPayload received := by
  have rows := threads.tracks_liveRow first maxPayload received
  constructor
  case nothing =>
    obtain ⟨entries, row, same, _⟩ := rows.nothing
    exact ⟨own, entries, row, same⟩
  case chunks =>
    intro msgs equal chunk member
    obtain ⟨entries, row, same, _⟩ := rows.chunks msgs equal chunk member
    exact ⟨own, entries, row, same⟩

/-- The invariants of a run within one session. -/
theorem run_pinned {live : Origin} {session : Session} {first : Nat} {protocol last : Protocol}
    (lasting : Lasting live) (anchored : Anchored session first live) (profile : Profile)
    (maxPayload : Nat) {C : Protocol → Move → Prop}
    (tracks : ∀ (protocol : Protocol) received,
      protocol.server.sender.session = session → C protocol (.server (.receive received)) →
      protocol.server.Tracks live first maxPayload received)
    (sound : protocol.Sound live first) (pinned : protocol.Pinned session first)
    (moves : List Move)
    (along : Along (step profile maxPayload) (fun protocol move =>
      (protocol.Enabled move ∧ protocol.Steady move) ∧ C protocol move) protocol moves)
    {answers : List Unit} (returned : run (step profile maxPayload) protocol moves =
      some (answers, last))
    (inRange : last.InRange first) :
    Throughout (step profile maxPayload) (fun protocol => protocol.InRange first ∧
      protocol.Sound live first ∧ protocol.Pinned session first) protocol moves := by
  have numbers := Throughout.of_last (inRange_earlier profile maxPayload first) returned inRange
  refine Along.keeps ?_ ⟨numbers.head, sound, pinned⟩ along numbers
  rintro protocol move answer next ⟨before, sound, pinned⟩ ⟨⟨enabled, steady⟩, orderly⟩ inRange
    stepped
  refine ⟨inRange, ?_, ?_⟩
  · refine sound.after_move lasting profile maxPayload move enabled ?_ stepped inRange
    rintro received rfl
    exact tracks protocol received pinned.sender orderly
  · exact pinned.after_move sound anchored profile maxPayload move enabled steady before stepped

/-- The messages that a re-request is for. -/
def wanted (first : Nat) (protocol : Protocol) (request : RetransmissionPacket) :
    List (List UInt8) :=
  (protocol.server.kept.drop (request.seqNum - first)).take request.msgCount

/-- The server has what the client asks for, and its answer is read as that, unless it announces
the end of the session. -/
theorem served {live : Origin} {session : Session} {first : Nat} {protocol : Protocol}
    (sound : protocol.Sound live first) (pinned : protocol.Pinned session first)
    (profile : Profile) (maxPayload : Nat) (inRange : protocol.InRange first)
    (request : RetransmissionPacket) (asked : request ∈ protocol.requests) :
    (protocol.wanted first request).length = request.msgCount ∧
      ∃ packets, serve profile maxPayload protocol.server.session protocol.server.sender.log
          (Packet.header request.session request.seqNum request.msgCount) = some packets ∧
        (packets.flatMap readBlocks = protocol.wanted first request ↔
          Legible maxPayload (protocol.wanted first request)) := by
  obtain ⟨same, above, positive, count, below⟩ := pinned.requests request asked
  -- the record is of one session, that of the responder
  have good : ∀ entry ∈ protocol.server.taken,
      entry.1 = protocol.server.session ∧ entry.2.length < 2 ^ 16 := by
    rw [pinned.replies]
    exact pinned.taken
  have answer := sound.stored.serves profile maxPayload inRange good request.seqNum
    request.msgCount positive count above below
  rw [List.map_take, List.map_drop, pinned.replies, ← same] at answer
  have length : (protocol.wanted first request).length = request.msgCount := by
    rw [wanted, List.length_take, List.length_drop, Threads.length_kept]
    omega
  rw [pinned.replies, ← same]
  refine ⟨length, _, answer, reading_iff request.session ?_ maxPayload ?_ ?_⟩
  · exact Nat.lt_of_le_of_lt (Nat.le_trans (Nat.le_add_right _ _) below) inRange
  · exact Nat.lt_of_le_of_lt (Nat.le_of_eq length) count
  · intro m member
    obtain ⟨entry, taken, rfl⟩ :=
      List.mem_map.mp (List.mem_of_mem_drop (List.mem_of_mem_take member))
    exact (good entry taken).2

/-- Within a session, over any interleaving and any loss: each re-request that the client ever
made is for messages that the server has. At any later time it is answered, and the answer is read
as these messages, unless they are as many as an end of session announces and fit in one packet. -/
theorem requests_served (profile : Profile) (maxPayload : Nat) (session : Session) (first : Nat)
    (expected : Option Nat) (above : ∀ e ∈ expected, first ≤ e) (moves : List Move)
    (answers : List Unit) (protocol : Protocol)
    (returned : run (step profile maxPayload) (start session first ⟨some session, expected⟩)
      moves = some (answers, protocol))
    (delivered : Along (step profile maxPayload) Enabled
      (start session first ⟨some session, expected⟩) moves)
    (steady : Along (step profile maxPayload) Steady
      (start session first ⟨some session, expected⟩) moves)
    (inRange : protocol.InRange first) (request : RetransmissionPacket)
    (asked : request ∈ protocol.requests) :
    (protocol.wanted first request).length = request.msgCount ∧
      ∃ packets, serve profile maxPayload protocol.server.session protocol.server.sender.log
          (Packet.header request.session request.seqNum request.msgCount) = some packets ∧
        (packets.flatMap readBlocks = protocol.wanted first request ↔
          Legible maxPayload (protocol.wanted first request)) := by
  have along := (delivered.and steady).and (Along.of_forall (C := fun _ _ => True)
    (fun _ _ => trivial) _ _)
  obtain ⟨_, sound, pinned⟩ := (run_pinned (ownRow_lasting session first)
    (ownRow_anchored session first) profile maxPayload
    (fun protocol received own _ => tracks_ownRow own first maxPayload received)
    (start_sound _ session first _) (start_pinned session first expected above) moves along
    returned inRange).last returned
  exact served sound pinned profile maxPayload inRange request asked

/-- A request under way from a client that lost two messages of a packet. -/
theorem requests_served_staged :
    ∃ packets,
      serve .debug 10 (padSession [65])
          (((∅ : Log).insert 5 [1]).insert 6 [2] |>.insert 7 [3])
          (Packet.header (padSession [65]) 5 2) = some packets ∧
        packets.flatMap readBlocks = [[1], [2]] := by
  obtain ⟨_, packets, answer, reading⟩ := requests_served .debug 10 (padSession [65]) 5 (some 5)
    (by decide) stagedMoves _ _ rfl (by decide +kernel) (by decide +kernel) (by decide)
    ⟨padSession [65], 5, 2⟩ (by decide)
  exact ⟨packets, answer, reading.mpr (legible_of_short (by decide))⟩

/-! ### What is neither received nor asked for -/

/-- Messages that stand in the record under their numbers. -/
def ownPlace (session : Session) (first : Nat) : Origin := fun taken s seqNum msgs =>
  s = session ∧ ∃ before entries after, taken = before ++ entries ++ after ∧
    seqNum = first + before.length ∧ entries.map Prod.snd = msgs

theorem ownPlace_lasting (session : Session) (first : Nat) : Lasting (ownPlace session first) := by
  rintro taken more s seqNum msgs ⟨same, before, entries, after, rfl, place, shape⟩
  exact ⟨same, before, entries, after ++ more, by simp only [List.append_assoc], place, shape⟩

theorem ownPlace_anchored (session : Session) (first : Nat) :
    Anchored session first (ownPlace session first) := by
  rintro taken s seqNum msgs ⟨same, before, entries, after, rfl, rfl, rfl⟩
  simp only [List.length_append, List.length_map]
  exact ⟨same, Nat.le_add_right _ _, by omega⟩

/-- Each send is one packet, the queue and the channel take what the client offers them, and no
packet is more than 65535 ahead. -/
def Orderly (maxPayload : Nat) (protocol : Protocol) : Move → Prop
  | .server (.receive (.Ok (.Send msgs))) => Fits maxPayload msgs
  | .multicast filled queued taken =>
    queued = true ∧ taken = true ∧ NarrowGap protocol.client filled
  | _ => True

instance (maxPayload : Nat) (protocol : Protocol) (move : Move) :
    Decidable (protocol.Orderly maxPayload move) := by
  unfold Orderly Fits
  split <;> infer_instance

/-- A send that is one packet has all of its messages in place. -/
theorem tracks_ownPlace {session : Session} {protocol : Protocol} {received : Received}
    (own : protocol.server.sender.session = session) (first maxPayload : Nat)
    (orderly : protocol.Orderly maxPayload (.server (.receive received))) :
    protocol.server.Tracks (ownPlace session first) first maxPayload received where
  nothing := ⟨own, protocol.server.taken, [], [], by simp, rfl, rfl⟩
  chunks := by
    rintro msgs rfl chunk member
    have nonempty : msgs ≠ [] := by
      rintro rfl
      cases member
    rw [(chunkMessages_single msgs maxPayload nonempty).mpr orderly] at member
    rw [List.mem_singleton.mp member]
    refine ⟨own, protocol.server.taken, _, [], (List.append_nil _).symm, rfl, ?_⟩
    rw [List.map_map]
    exact List.map_id msgs

/-- The packets that the multicast loop forwarded. -/
def heard (protocol : Protocol) : List Packet :=
  protocol.forwarded.filterMap fun entry =>
    if entry.1 = .multicast then Packet.parse entry.2 else none

theorem mem_heard {protocol : Protocol} {packet : Packet} :
    packet ∈ protocol.heard ↔ ∃ datagram, (.multicast, datagram) ∈ protocol.forwarded ∧
      Packet.parse datagram = some packet := by
  rw [heard, List.mem_filterMap]
  constructor
  · rintro ⟨⟨source, datagram⟩, member, parsed⟩
    cases source with
    | multicast => exact ⟨datagram, member, parsed⟩
    | retx => cases parsed
  · rintro ⟨datagram, member, parsed⟩
    exact ⟨(.multicast, datagram), member, parsed⟩

/-- Every number from the first expectation to the current one was heard or asked for. -/
def Accounted (expected : Nat) (protocol : Protocol) : Prop :=
  ∃ current, protocol.client.expectedSeqNum = some current ∧
    ∀ k, expected ≤ k → k < current → Covered protocol.heard protocol.requests k

theorem Accounted.after_move {live : Origin} {session : Session} {first expected maxPayload : Nat}
    {protocol next : Protocol} (accounted : protocol.Accounted expected)
    (sound : protocol.Sound live first) (anchored : Anchored session first live)
    (pinned : protocol.Pinned session first) (profile : Profile) (move : Move)
    (enabled : protocol.Enabled move) (steady : protocol.Steady move)
    (orderly : protocol.Orderly maxPayload move) (inRange : protocol.InRange first) {answer : Unit}
    (stepped : protocol.step profile maxPayload move = some (answer, next)) :
    next.Accounted expected := by
  obtain ⟨current, known, covers⟩ := accounted
  cases move with
  | server move =>
    cases stepped
    exact ⟨current, known, covers⟩
  | multicast filled queued taken =>
    obtain ⟨rfl, rfl, narrow⟩ := orderly
    obtain ⟨packet, parsed, same, _, _, _, processed⟩ :=
      sound.hears anchored profile enabled steady inRange
    rw [Protocol.step, processed, Option.map_some] at stepped
    cases stepped
    refine ⟨_, rfl, fun k low high => ?_⟩
    have close : packet.seqNum ≤ current + 65535 := by
      simpa only [NarrowGap, known, parsed] using narrow
    by_cases old : k < current
    · apply (covers k low old).mono
      · intro view member
        obtain ⟨datagram, there, viewed⟩ := mem_heard.mp member
        exact mem_heard.mpr ⟨datagram, List.mem_append_left _ there, viewed⟩
      · exact List.subset_append_left _ _
    · -- what is new lies in the gap before the packet, or in the packet
      have step := step_covers session current packet same close k (Nat.le_of_not_lt old) high
      have client : protocol.client = ⟨some session, some current⟩ := by
        rw [← pinned.ident, ← known]
      apply step.mono
      · intro view member
        rw [List.mem_singleton.mp member]
        exact mem_heard.mpr ⟨filled.bytes, List.mem_append_right _ (by simp [offered]), parsed⟩
      · rw [if_pos rfl, client]
        exact List.subset_append_right _ _
  | retx filled taken =>
    cases stepped
    refine ⟨current, known, fun k low high => (covers k low high).mono ?_ (List.Subset.refl _)⟩
    intro view member
    obtain ⟨datagram, there, viewed⟩ := mem_heard.mp member
    exact mem_heard.mpr ⟨datagram, List.mem_append_left _ there, viewed⟩

/-- A packet in place has each of its messages at the message's number. -/
theorem messagesAt_issued {session : Session} {first : Nat}
    {taken : List (Session × List UInt8)} {datagram : List UInt8} {packet : Packet}
    (issued : Issued (ownPlace session first) taken datagram)
    (parsed : Packet.parse datagram = some packet) (lasts : packet.packetKind ≠ .EndOfSession)
    (inRange : first + taken.length < 2 ^ 64) {k : Nat} (low : packet.seqNum ≤ k)
    (high : k < packet.seqNum + packet.msgCount) :
    ∃ m, (taken.map Prod.snd)[k - first]? = some m ∧ messagesAt datagram k = [m] := by
  obtain ⟨s, seqNum, msgs, ⟨rfl, before, entries, after, rfl, rfl, rfl⟩, shape⟩ := issued
  have small : first + before.length < 2 ^ 64 := by
    simp only [List.length_append] at inRange
    omega
  rcases shape with ⟨rfl, count, lengths⟩ | ⟨empty, rfl⟩
  · rw [packetBytes, Packet.parse_header _ _ _ _ small count] at parsed
    cases parsed
    have few : (entries.map Prod.snd).length < 65535 := by
      by_contra many
      have full : (entries.map Prod.snd).length = 65535 := by omega
      exact lasts (by simp [Packet.packetKind, full, endOfSessionIdent, heartbeatIdent])
    have labelled := messagesAt_packetBytes s small few lengths k
    simp only at low high
    have inside : k - (first + before.length) < (entries.map Prod.snd).length := by omega
    refine ⟨(entries.map Prod.snd)[k - (first + before.length)], ?_, ?_⟩
    · have index : k - first = (before.map Prod.snd).length + (k - (first + before.length)) := by
        rw [List.length_map]
        omega
      rw [List.map_append, List.map_append, List.append_assoc, index,
        List.getElem?_append_right (Nat.le_add_right _ _), Nat.add_sub_cancel_left,
        List.getElem?_append_left inside, List.getElem?_eq_getElem inside]
    · rw [labelled, numbered, if_pos low, List.getElem?_eq_getElem inside]
      rfl
  · have special := Packet.parse_header s (first + before.length) endOfSessionIdent [] small
      (by decide)
    rw [List.append_nil] at special
    rw [buildSpecial] at parsed
    rw [Packet.header] at special
    rw [special] at parsed
    cases parsed
    exact absurd rfl lasts

/-- What the server answers each request with has reached the consumer. -/
def Answered (profile : Profile) (maxPayload : Nat) (protocol : Protocol) : Prop :=
  ∀ request ∈ protocol.requests, ∀ packets,
    serve profile maxPayload protocol.server.session protocol.server.sender.log
      (Packet.header request.session request.seqNum request.msgCount) = some packets →
    ∀ datagram ∈ packets, (.retx, datagram) ∈ protocol.forwarded

/-- Each send is one packet, no gap is wider than a request can say, nothing is dropped at the
client, and no answer announces the end of the session. Then, over any interleaving and whatever
the network loses, repeats, delays and reorders: once the answers to its requests are there, the
consumer has every message from the first expected one to the current expectation, in a live packet
at its number or in its place in an answer. -/
theorem nothing_lost (profile : Profile) (maxPayload : Nat) (session : Session)
    (first expected : Nat) (above : first ≤ expected) (moves : List Move) (answers : List Unit)
    (protocol : Protocol)
    (returned : run (step profile maxPayload) (start session first ⟨some session, some expected⟩)
      moves = some (answers, protocol))
    (delivered : Along (step profile maxPayload) Enabled
      (start session first ⟨some session, some expected⟩) moves)
    (steady : Along (step profile maxPayload) Steady
      (start session first ⟨some session, some expected⟩) moves)
    (orderly : Along (step profile maxPayload) (Orderly maxPayload)
      (start session first ⟨some session, some expected⟩) moves)
    (inRange : protocol.InRange first)
    (legible : ∀ request ∈ protocol.requests, Legible maxPayload (protocol.wanted first request))
    (answered : protocol.Answered profile maxPayload)
    (current : Nat) (reached : protocol.client.expectedSeqNum = some current) (k : Nat)
    (low : expected ≤ k) (high : k < current) :
    ∃ m, protocol.server.kept[k - first]? = some m ∧
      ((∃ datagram, (.multicast, datagram) ∈ protocol.forwarded ∧ messagesAt datagram k = [m]) ∨
        ∃ request ∈ protocol.requests, ∃ packets,
          serve profile maxPayload protocol.server.session protocol.server.sender.log
            (Packet.header request.session request.seqNum request.msgCount) = some packets ∧
          (∀ datagram ∈ packets, (.retx, datagram) ∈ protocol.forwarded) ∧
          request.seqNum ≤ k ∧
          (packets.flatMap readBlocks)[k - request.seqNum]? = some m) := by
  have along := (delivered.and steady).and orderly
  have throughout := run_pinned (ownPlace_lasting session first)
    (ownPlace_anchored session first) profile maxPayload (C := Orderly maxPayload)
    (fun protocol received own orderly => tracks_ownPlace own first maxPayload orderly)
    (start_sound _ session first _)
    (start_pinned session first (some expected) (by rintro _ ⟨⟩; exact above)) moves along
    returned inRange
  obtain ⟨_, sound, pinned⟩ := throughout.last returned
  have accounted : protocol.Accounted expected := by
    -- what is accounted for rests on the invariants before each move
    refine (Along.keeps (R := fun _ => True) ?_ ?_ (throughout.along.and along)
      (throughout.imp fun _ _ => trivial)).last returned
    · rintro protocol move answer next accounted
        ⟨⟨inRange, sound, pinned⟩, ⟨enabled, steady⟩, orderly⟩ _ stepped
      exact accounted.after_move sound (ownPlace_anchored session first) pinned profile move
        enabled steady orderly inRange stepped
    · exact ⟨expected, rfl, fun k low high => absurd low (Nat.not_le.mpr high)⟩
  obtain ⟨_, known, covers⟩ := accounted
  rw [reached] at known
  cases known
  rcases covers k low high with ⟨packet, member, from_k, to_k⟩ | ⟨request, asked, from_k, to_k⟩
  · -- heard live, at its number
    obtain ⟨datagram, there, parsed⟩ := mem_heard.mp member
    obtain ⟨m, stands, labelled⟩ := messagesAt_issued (sound.multicast datagram there) parsed
      (pinned.lasts datagram there packet parsed) inRange from_k to_k
    exact ⟨m, stands, .inl ⟨datagram, there, labelled⟩⟩
  · -- asked for: the answer has it as far in as the request
    obtain ⟨_, low_request, _, _, _⟩ := pinned.requests request asked
    obtain ⟨length, packets, answer, reading⟩ :=
      served sound pinned profile maxPayload inRange request asked
    have read := reading.mpr (legible request asked)
    have inside : k - request.seqNum < (protocol.wanted first request).length := by omega
    have place : (protocol.wanted first request)[k - request.seqNum]? =
        protocol.server.kept[k - first]? := by
      rw [wanted, List.getElem?_take_of_lt (by omega), List.getElem?_drop]
      congr 1
      omega
    refine ⟨(protocol.wanted first request)[k - request.seqNum], ?_,
      .inr ⟨request, asked, packets, answer, answered request asked packets answer, from_k, ?_⟩⟩
    · rw [← place, List.getElem?_eq_getElem inside]
    · rw [read]
      exact List.getElem?_eq_getElem inside

/-- The client that missed the staged messages gets them on request. -/
theorem nothing_lost_staged :
    ∃ answers protocol, run (step .debug 10)
        (start (padSession [65]) 5 ⟨some (padSession [65]), some 5⟩) stagedMoves =
          some (answers, protocol) ∧
      protocol.client.expectedSeqNum = some 8 ∧
      ∃ m, protocol.server.kept[1]? = some m ∧
        ((∃ datagram, (.multicast, datagram) ∈ protocol.forwarded ∧ messagesAt datagram 6 = [m]) ∨
          ∃ request ∈ protocol.requests, ∃ packets,
            serve .debug 10 protocol.server.session protocol.server.sender.log
              (Packet.header request.session request.seqNum request.msgCount) = some packets ∧
            (∀ datagram ∈ packets, (.retx, datagram) ∈ protocol.forwarded) ∧
            request.seqNum ≤ 6 ∧ (packets.flatMap readBlocks)[6 - request.seqNum]? = some m) := by
  refine ⟨_, _, rfl, by decide, ?_⟩
  refine nothing_lost .debug 10 (padSession [65]) 5 5 (Nat.le_refl 5) stagedMoves _ _ rfl
    (by decide +kernel) (by decide +kernel) (by decide +kernel) (by decide) ?_ ?_ 8 (by decide) 6
    (by decide) (by decide)
  · intro request asked
    have only : request = ⟨padSession [65], 5, 2⟩ := List.mem_singleton.mp asked
    subst only
    exact legible_of_short (by decide)
  · intro request asked packets answer datagram member
    have only : request = ⟨padSession [65], 5, 2⟩ := List.mem_singleton.mp asked
    subst only
    have sole : packets = [packetBytes (padSession [65]) 5 [[1], [2]]] :=
      (Option.some.inj answer).symm.trans (by decide +kernel)
    subst sole
    revert datagram
    decide

end Protocol

end Hftrs.Moldudp
