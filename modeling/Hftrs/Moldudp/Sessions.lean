import Hftrs.Moldudp.Announced
import Hftrs.Moldudp.Labels

/-! The two copies of the session: what retransmission owes to messages taken under one. -/
namespace Hftrs.Moldudp

open Hftrs.Library

namespace Threads

/-- A request, under their session, for messages taken under one session is answered: the packets,
all of that session, are read as these messages. -/
def Answers (profile : Profile) (maxPayload first : Nat) (threads : Threads) : Prop :=
  ∀ session startSeq want, 0 < want → want < 2 ^ 16 → first ≤ startSeq →
    startSeq + want ≤ first + threads.taken.length →
    (∀ entry ∈ (threads.taken.drop (startSeq - first)).take want, entry.1 = session) →
    ∃ packets,
      serve profile maxPayload threads.session threads.sender.log
          (Packet.header session startSeq want) = some packets ∧
      (∀ datagram ∈ packets, (Packet.parse datagram).map Packet.session = some session) ∧
      packets.flatMap readBlocks =
        ((threads.taken.drop (startSeq - first)).take want).map Prod.snd

/-- Retransmission follows the session: the loop is there and answers, and a packet that it sent
contains only messages that were taken under the session of the packet. -/
structure Follows (profile : Profile) (maxPayload first : Nat) (threads : Threads) : Prop where
  alive : threads.replies ≠ .dead
  answers : threads.Answers profile maxPayload first
  only : ∀ datagram ∈ threads.replied, ∃ packet, Packet.parse datagram = some packet ∧
    ∀ m ∈ packet.contents, (packet.session, m) ∈ threads.taken

/-- What a step takes, it takes under the session of the re-request loop, and each message has a
length of 16 bits. -/
def Loyal (threads : Threads) (move : ThreadStep) : Prop :=
  ∀ entry ∈ threads.takes move, entry.1 = threads.session ∧ entry.2.length < 2 ^ 16

instance (threads : Threads) (move : ThreadStep) : Decidable (threads.Loyal move) :=
  inferInstanceAs (Decidable (∀ entry ∈ threads.takes move, _))

/-- No answer with messages taken so far, those of the step included, announces the end of a
session. -/
def Counted (maxPayload : Nat) (threads : Threads) (move : ThreadStep) : Prop :=
  ∀ i, Legible maxPayload
    (((threads.kept ++ (threads.takes move).map Prod.snd).drop i).take endOfSessionIdent)

theorem counted_of_short {maxPayload : Nat} {threads : Threads} {move : ThreadStep}
    (short : threads.taken.length + (threads.takes move).length < endOfSessionIdent) :
    threads.Counted maxPayload move := by
  intro i
  apply legible_of_short
  rw [List.length_take, List.length_drop, List.length_append, List.length_map, length_kept]
  omega

/-! ### What the steps leave alone -/

theorem store_frame (profile : Profile) (threads : Threads) (msgs : List (List UInt8))
    (onwards : SenderPhase) :
    (threads.store profile msgs onwards).session = threads.session ∧
      (threads.store profile msgs onwards).replies = threads.replies ∧
      (threads.store profile msgs onwards).replied = threads.replied := by
  simp only [Threads.store]
  repeat' split
  all_goals exact ⟨rfl, rfl, rfl⟩

theorem receive_frame (profile : Profile) (maxPayload : Nat) (threads : Threads)
    (received : Received) :
    (threads.receive profile maxPayload received).session = threads.session ∧
      (threads.receive profile maxPayload received).replies = threads.replies ∧
      (threads.receive profile maxPayload received).replied = threads.replied := by
  unfold Threads.receive
  repeat' split
  all_goals first
    | exact ⟨rfl, rfl, rfl⟩
    | exact threads.store_frame profile _ _

/-- The sender loop leaves the re-request loop alone. -/
theorem sender_frame (profile : Profile) (maxPayload : Nat) (threads : Threads)
    (move : ThreadStep) (sender : move = .send ∨ ∃ received, move = .receive received) :
    (threads.step profile maxPayload move).session = threads.session ∧
      (threads.step profile maxPayload move).replies = threads.replies ∧
      (threads.step profile maxPayload move).replied = threads.replied := by
  rcases sender with rfl | ⟨received, rfl⟩
  · simp only [Threads.step]
    repeat' split
    all_goals exact ⟨rfl, rfl, rfl⟩
  · simp only [Threads.step]
    split
    next => exact threads.receive_frame profile maxPayload received
    next => exact ⟨rfl, rfl, rfl⟩

theorem step_session (profile : Profile) (maxPayload : Nat) (threads : Threads)
    (move : ThreadStep) : (threads.step profile maxPayload move).session = threads.session := by
  cases move with
  | receive received =>
    exact (threads.sender_frame profile maxPayload _ (.inr ⟨received, rfl⟩)).1
  | send => exact (threads.sender_frame profile maxPayload _ (.inl rfl)).1
  | request datagram =>
    simp only [Threads.step, Threads.request]
    repeat' split
    all_goals rfl
  | reply =>
    simp only [Threads.step]
    repeat' split
    all_goals rfl

theorem run_session (profile : Profile) (maxPayload : Nat) (threads : Threads)
    (steps : List ThreadStep) :
    (threads.run profile maxPayload steps).session = threads.session := by
  induction steps generalizing threads with
  | nil => rfl
  | cons move steps ih => exact (ih _).trans (threads.step_session profile maxPayload move)

/-- The record is of one session, in 16-bit lengths, when every step is loyal. -/
theorem taken_of_loyal (profile : Profile) (maxPayload : Nat) (threads : Threads)
    (steps : List ThreadStep)
    (initial : ∀ entry ∈ threads.taken, entry.1 = threads.session ∧ entry.2.length < 2 ^ 16)
    (loyal : ∀ earlier move later, steps = earlier ++ move :: later →
      (threads.run profile maxPayload earlier).Loyal move) :
    ∀ entry ∈ (threads.run profile maxPayload steps).taken,
      entry.1 = threads.session ∧ entry.2.length < 2 ^ 16 := by
  induction steps generalizing threads with
  | nil => exact initial
  | cons move steps ih =>
    have same := threads.step_session profile maxPayload move
    have next := ih (threads.step profile maxPayload move)
    rw [same] at next
    apply next
    · intro entry member
      rw [step_taken] at member
      rcases List.mem_append.mp member with old | new
      · exact initial entry old
      · exact loyal [] move steps rfl entry new
    · intro earlier later rest equal
      exact loyal (move :: earlier) later rest (by rw [equal]; rfl)

/-- Conversely, a step that is not loyal leaves its mark on the record. -/
theorem loyal_of_taken (profile : Profile) (maxPayload : Nat) (threads : Threads)
    (earlier later : List ThreadStep) (move : ThreadStep)
    (taken : ∀ entry ∈ (threads.run profile maxPayload (earlier ++ move :: later)).taken,
      entry.1 = threads.session ∧ entry.2.length < 2 ^ 16) :
    (threads.run profile maxPayload earlier).Loyal move := by
  intro entry member
  rw [run_session]
  apply taken
  have after := taken_run profile maxPayload
    ((threads.run profile maxPayload earlier).step profile maxPayload move) later
  rw [run_append]
  apply after.subset
  rw [step_taken]
  exact List.mem_append_right _ member

/-! ### The re-request loop -/

/-- What the re-request loop keeps while the messages have lengths of 16 bits. -/
structure Serving (threads : Threads) : Prop where
  alive : threads.replies ≠ .dead
  counts : ∀ startSeq chunks, threads.replies = .replying startSeq chunks →
    ∀ chunk ∈ chunks, chunk.length < 2 ^ 16
  own : ∀ datagram ∈ threads.replied, ∃ packet, Packet.parse datagram = some packet ∧
    packet.session = threads.session

theorem start_serving (session : Session) (first : Nat) : Serving (start session first) := by
  constructor
  · rintro ⟨⟩
  · rintro _ _ ⟨⟩
  · rintro _ ⟨⟩

theorem Serving.request {first : Nat} {threads : Threads} (serving : Serving threads)
    (stored : Stored first threads) (profile : Profile) (maxPayload : Nat)
    (datagram : List UInt8) (fits : first + threads.kept.length < 2 ^ 64) :
    Serving (threads.request profile maxPayload datagram) := by
  simp only [Threads.request, if_neg stored.unlocked]
  split
  next => exact serving
  next startSeq want read =>
    obtain ⟨seq, _, count⟩ := readRequest_some read
    obtain ⟨msgs, found, _⟩ := stored.collect profile startSeq want seq fits
    simp only [found]
    refine { serving with alive := ?_, counts := ?_ }
    · rintro ⟨⟩
    · rintro _ _ ⟨⟩ chunk member
      have bound := length_collect found
      have part := length_chunk_le member
      omega

theorem Serving.step {first : Nat} {threads : Threads} (serving : Serving threads)
    (stored : Stored first threads) (profile : Profile) (maxPayload : Nat) (move : ThreadStep)
    (fits : first + threads.kept.length < 2 ^ 64) (small : ∀ m ∈ threads.kept, m.length < 2 ^ 16) :
    Serving (threads.step profile maxPayload move) := by
  have aside : (move = .send ∨ ∃ received, move = .receive received) →
      Serving (threads.step profile maxPayload move) := by
    intro sender
    obtain ⟨session, replies, replied⟩ := threads.sender_frame profile maxPayload move sender
    constructor
    · rw [replies]; exact serving.alive
    · rw [replies]; exact serving.counts
    · rw [replied, session]; exact serving.own
  cases move with
  | receive received => exact aside (.inr ⟨received, rfl⟩)
  | send => exact aside (.inl rfl)
  | request datagram =>
    simp only [Threads.step]
    split
    next => exact serving.request stored profile maxPayload datagram fits
    next => exact serving
  | reply =>
    simp only [Threads.step]
    cases replies : threads.replies with
    | idle => exact serving
    | dead => exact absurd replies serving.alive
    | replying startSeq chunks =>
      cases chunks with
      | nil =>
        refine { serving with alive := ?_, counts := ?_ }
        · rintro ⟨⟩
        · rintro _ _ ⟨⟩
      | cons chunk chunks =>
        have counts := serving.counts startSeq (chunk :: chunks) replies
        have within := stored.replying startSeq (chunk :: chunks) replies chunk (by simp)
        -- the packet can be built, since its messages are among those of the log
        have built := buildPacket_eq threads.session startSeq chunk (counts chunk (by simp))
          fun m member => small m (within.2 m member)
        obtain ⟨view, parsed, session, _⟩ := Backed.built within fits built
        simp only [built]
        constructor
        case alive => rintro ⟨⟩
        case counts =>
          rintro _ _ ⟨⟩ other member
          exact counts other (by simp [member])
        case own =>
          intro other member
          rcases List.mem_append.mp member with old | new
          · exact serving.own other old
          · rw [List.mem_singleton.mp new]
            exact ⟨view, parsed, session⟩

theorem Serving.run {first : Nat} {threads : Threads} (serving : Serving threads)
    (stored : Stored first threads) (profile : Profile) (maxPayload : Nat)
    (steps : List ThreadStep)
    (fits : first + (threads.run profile maxPayload steps).taken.length < 2 ^ 64)
    (small : ∀ m ∈ (threads.run profile maxPayload steps).kept, m.length < 2 ^ 16) :
    Serving (threads.run profile maxPayload steps) := by
  induction steps generalizing threads with
  | nil => exact serving
  | cons move steps ih =>
    -- the record only grows, so that it is within the bounds at every step
    have whole := kept_run profile maxPayload threads (move :: steps)
    have later := taken_run profile maxPayload (threads.step profile maxPayload move) steps
    have now : first + threads.kept.length < 2 ^ 64 := by
      have length := whole.length_le
      rw [length_kept (threads.run profile maxPayload (move :: steps))] at length
      omega
    have after : first + (threads.step profile maxPayload move).taken.length < 2 ^ 64 :=
      Nat.lt_of_le_of_lt (Nat.add_le_add_left later.length_le first) fits
    have stepped := serving.step stored profile maxPayload move now
      fun m member => small m (whole.subset member)
    exact ih stepped (stored.step profile maxPayload move after) fits small

/-! ### Answers -/

/-- The messages of a range that is kept are the answer to a request for it. -/
theorem Stored.collect_range {first : Nat} {threads : Threads} (stored : Stored first threads)
    (profile : Profile) (startSeq want : Nat) (above : first ≤ startSeq)
    (positive : 0 < want) (below : startSeq + want ≤ first + threads.taken.length)
    (fits : first + threads.taken.length < 2 ^ 64) :
    Moldudp.collect profile threads.sender.log startSeq want 0 =
      some (((threads.taken.drop (startSeq - first)).take want).map Prod.snd) := by
  have seq : startSeq < 2 ^ 64 := by omega
  rw [← length_kept] at fits
  have found := stored.log.collect profile fits startSeq want 0 above seq (.inl rfl)
  rw [found, kept, Nat.add_zero, List.map_take, List.map_drop]

/-- The packets that answer a request for messages of the session of the loop. -/
theorem Stored.serves {first : Nat} {threads : Threads} (stored : Stored first threads)
    (profile : Profile) (maxPayload : Nat) (fits : first + threads.taken.length < 2 ^ 64)
    (good : ∀ entry ∈ threads.taken, entry.1 = threads.session ∧ entry.2.length < 2 ^ 16)
    (startSeq want : Nat) (positive : 0 < want) (count : want < 2 ^ 16) (above : first ≤ startSeq)
    (below : startSeq + want ≤ first + threads.taken.length) :
    serve profile maxPayload threads.session threads.sender.log
        (Packet.header threads.session startSeq want) =
      some ((chunkMessages (((threads.taken.drop (startSeq - first)).take want).map Prod.snd)
        maxPayload).map (packetBytes threads.session startSeq)) := by
  have found := stored.collect_range profile startSeq want above positive below fits
  have read := readRequest_header threads.session threads.session startSeq want (by omega)
    positive count
  rw [if_pos rfl] at read
  have lengths := length_collect found
  have listed : ∀ m ∈ ((threads.taken.drop (startSeq - first)).take want).map Prod.snd,
      m.length < 2 ^ 16 := by
    intro m member
    obtain ⟨entry, inside, rfl⟩ := List.mem_map.mp member
    exact (good entry (List.mem_of_mem_drop (List.mem_of_mem_take inside))).2
  generalize ((threads.taken.drop (startSeq - first)).take want).map Prod.snd = msgs
    at found lengths listed ⊢
  simp only [serve, read, found]
  apply mapM_eq_some_map
  intro chunk member
  have few := length_chunk_le member
  refine buildPacket_eq threads.session startSeq chunk (by omega) fun m part => listed m ?_
  rw [← (chunkMessages_spec msgs maxPayload).1]
  exact List.mem_flatten.mpr ⟨chunk, member, part⟩

theorem Stored.answers {first : Nat} {threads : Threads} (stored : Stored first threads)
    (profile : Profile) (maxPayload : Nat) (fits : first + threads.taken.length < 2 ^ 64)
    (good : ∀ entry ∈ threads.taken, entry.1 = threads.session ∧ entry.2.length < 2 ^ 16)
    (counted : ∀ i, Legible maxPayload ((threads.kept.drop i).take endOfSessionIdent)) :
    threads.Answers profile maxPayload first := by
  intro session startSeq want positive count above below one
  have served := stored.serves profile maxPayload fits good startSeq want positive count above below
  have length : ((threads.taken.drop (startSeq - first)).take want).length = want := by
    rw [List.length_take, List.length_drop]
    omega
  have inside : ∀ entry ∈ (threads.taken.drop (startSeq - first)).take want,
      entry ∈ threads.taken :=
    fun entry member => List.mem_of_mem_drop (List.mem_of_mem_take member)
  have legible : Legible maxPayload
      (((threads.taken.drop (startSeq - first)).take want).map Prod.snd) := by
    intro full
    have whole := counted (startSeq - first)
    rw [List.length_map, length] at full
    rw [kept, ← List.map_drop, ← List.map_take, ← full] at whole
    exact whole (by rw [List.length_map, length, full])
  generalize (threads.taken.drop (startSeq - first)).take want = range
    at served length inside one legible ⊢
  -- the range is not empty, and its first message was taken under the session of the loop
  have same : session = threads.session := by
    have entry := range.head (List.ne_nil_of_length_pos (length ▸ positive))
    have member := range.head_mem (List.ne_nil_of_length_pos (length ▸ positive))
    rw [← one _ member]
    exact (good _ (inside _ member)).1
  subst same
  refine ⟨_, served, ?_, ?_⟩
  · intro datagram member
    obtain ⟨chunk, part, rfl⟩ := List.mem_map.mp member
    have few := length_chunk_le part
    rw [List.length_map, length] at few
    rw [packetBytes, Packet.parse_header _ _ _ _ (by omega) (Nat.lt_of_le_of_lt few count)]
    rfl
  · refine (reading_iff threads.session (by omega) maxPayload ?_ ?_).mpr legible
    · rwa [List.length_map, length]
    · intro m member
      obtain ⟨entry, taken, rfl⟩ := List.mem_map.mp member
      exact (good entry (inside entry taken)).2

/-- A message of another session is not found, and one that is too long ends the loop. -/
theorem Stored.good_of_answers {first : Nat} {threads : Threads} (stored : Stored first threads)
    (profile : Profile) (maxPayload : Nat) (fits : first + threads.taken.length < 2 ^ 64)
    (answers : threads.Answers profile maxPayload first) :
    ∀ entry ∈ threads.taken, entry.1 = threads.session ∧ entry.2.length < 2 ^ 16 := by
  intro entry member
  obtain ⟨j, inside, place⟩ := List.getElem_of_mem member
  have range : (threads.taken.drop (first + j - first)).take 1 = [entry] := by
    rw [Nat.add_sub_cancel_left, List.drop_eq_getElem_cons inside, place]
    rfl
  -- the request for this one message
  obtain ⟨packets, served, _, all⟩ := answers entry.1 (first + j) 1 (by decide) (by decide)
    (Nat.le_add_right _ _) (by omega) (by rw [range]; simp)
  have found := stored.collect_range profile (first + j) 1 (Nat.le_add_right _ _) (by decide)
    (by omega) fits
  have read := readRequest_header entry.1 threads.session (first + j) 1 (by omega) (by decide)
    (by decide)
  rw [range] at found all
  by_cases same : entry.1 = threads.session
  · refine ⟨same, ?_⟩
    rw [if_pos same] at read
    simp only [serve, read, found] at served
    have single : chunkMessages [entry.2] maxPayload = [[entry.2]] := by
      simp [chunkMessages, Chunking.push]
    obtain ⟨packet, built⟩ := mapM_some_each _ _ _ served [entry.2] (by
      rw [List.map_cons, List.map_nil, single]
      simp)
    exact (buildPacket_some built).2.1 entry.2 (by simp)
  · rw [if_neg same] at read
    simp only [serve, read] at served
    cases served
    cases all

/-- An answer that announces the end of a session is read as nothing. -/
theorem Stored.counted_of_answers {first : Nat} {threads : Threads} (stored : Stored first threads)
    (profile : Profile) (maxPayload : Nat) (fits : first + threads.taken.length < 2 ^ 64)
    (answers : threads.Answers profile maxPayload first) (i : Nat) :
    Legible maxPayload ((threads.kept.drop i).take endOfSessionIdent) := by
  by_cases short : ((threads.kept.drop i).take endOfSessionIdent).length < endOfSessionIdent
  · exact legible_of_short short
  · rw [List.length_take, List.length_drop, length_kept, endOfSessionIdent] at short
    have good := stored.good_of_answers profile maxPayload fits answers
    -- the request for as many messages as that count
    have range : (threads.taken.drop (first + i - first)).take endOfSessionIdent =
        (threads.taken.drop i).take endOfSessionIdent := by rw [Nat.add_sub_cancel_left]
    have inside : ∀ entry ∈ (threads.taken.drop i).take endOfSessionIdent,
        entry.1 = threads.session ∧ entry.2.length < 2 ^ 16 :=
      fun entry member => good entry (List.mem_of_mem_drop (List.mem_of_mem_take member))
    have served := stored.serves profile maxPayload fits good (first + i) endOfSessionIdent
      (by decide) (by decide) (Nat.le_add_right _ _) (by rw [endOfSessionIdent]; omega)
    obtain ⟨packets, same, _, all⟩ := answers threads.session (first + i) endOfSessionIdent
      (by decide) (by decide) (Nat.le_add_right _ _) (by rw [endOfSessionIdent]; omega)
      (by rw [range]; exact fun entry member => (inside entry member).1)
    rw [served, Option.some.injEq] at same
    rw [← same, range] at all
    rw [kept, ← List.map_drop, ← List.map_take]
    have small : first + i < 2 ^ 64 := by omega
    refine (reading_iff threads.session small maxPayload ?_ ?_).mp all
    · rw [List.length_map, List.length_take]
      exact Nat.lt_of_le_of_lt (Nat.min_le_left _ _) (by decide)
    · intro m member
      obtain ⟨entry, taken, rfl⟩ := List.mem_map.mp member
      exact (inside entry taken).2

/-- What every prefix of the record shows, the whole record shows. -/
theorem counted_of_kept {maxPayload : Nat} {threads : Threads} {move : ThreadStep}
    {msgs : List (List UInt8)}
    (grown : threads.kept ++ (threads.takes move).map Prod.snd <+: msgs)
    (counted : ∀ i, Legible maxPayload ((msgs.drop i).take endOfSessionIdent)) :
    threads.Counted maxPayload move := by
  intro i
  obtain ⟨more, rfl⟩ := grown
  generalize threads.kept ++ (threads.takes move).map Prod.snd = record at counted ⊢
  by_cases short : ((record.drop i).take endOfSessionIdent).length < endOfSessionIdent
  · exact legible_of_short short
  · -- messages behind these do not change them
    rw [List.length_take, List.length_drop, endOfSessionIdent] at short
    have whole := counted i
    rwa [List.drop_append_of_le_length (by omega), List.take_append_of_le_length] at whole
    rw [List.length_drop, endOfSessionIdent]
    omega

/-- The record is counted when every step is. -/
theorem kept_of_counted (profile : Profile) (maxPayload : Nat) (session : Session) (first : Nat)
    (steps : List ThreadStep)
    (counted : ∀ earlier move later, steps = earlier ++ move :: later →
      ((start session first).run profile maxPayload earlier).Counted maxPayload move) (i : Nat) :
    Legible maxPayload
      ((((start session first).run profile maxPayload steps).kept.drop i).take
        endOfSessionIdent) := by
  rcases List.eq_nil_or_concat steps with rfl | ⟨earlier, move, rfl⟩
  · apply legible_of_short
    rw [show ((start session first).run profile maxPayload []).kept = [] from rfl,
      List.drop_nil, List.take_nil]
    decide
  · -- the last step saw the whole record
    rw [List.concat_eq_append] at counted ⊢
    have last := counted earlier move [] rfl i
    rw [kept, ← List.map_append, ← step_taken] at last
    rw [run_append]
    exact last

/-- In every run that does not overflow, retransmission follows the session at every point exactly
when each step takes its messages under the session that the re-request loop was started with,
in lengths of 16 bits, and never completes a row of 65535 messages that one packet holds. -/
theorem retransmission_follows_iff (profile : Profile) (maxPayload : Nat) (session : Session)
    (first : Nat) (steps : List ThreadStep)
    (fits : first + ((start session first).run profile maxPayload steps).taken.length < 2 ^ 64) :
    (∀ earlier later, steps = earlier ++ later →
      ((start session first).run profile maxPayload earlier).Follows profile maxPayload first) ↔
    ∀ earlier move later, steps = earlier ++ move :: later →
      ((start session first).run profile maxPayload earlier).Loyal move ∧
        ((start session first).run profile maxPayload earlier).Counted maxPayload move := by
  constructor
  · rintro follows earlier move later rfl
    -- the record at the end shows what every step took
    have stored := (start_stored session first).run profile maxPayload _ fits
    have answers := (follows (earlier ++ move :: later) [] (List.append_nil _).symm).answers
    have good := stored.good_of_answers profile maxPayload fits answers
    rw [run_session] at good
    constructor
    · exact loyal_of_taken profile maxPayload (start session first) earlier later move good
    · apply counted_of_kept ?_ (stored.counted_of_answers profile maxPayload fits answers)
      have grown := kept_run profile maxPayload
        (((start session first).run profile maxPayload earlier).step profile maxPayload move) later
      rw [kept, step_taken, List.map_append] at grown
      rw [run_append]
      exact grown
  · rintro each earlier later rfl
    have grown := taken_run profile maxPayload
      ((start session first).run profile maxPayload earlier) later
    rw [run_append] at fits
    have room := Nat.lt_of_le_of_lt (Nat.add_le_add_left grown.length_le first) fits
    have stored := (start_stored session first).run profile maxPayload earlier room
    have before : ∀ front move back, earlier = front ++ move :: back →
        ((start session first).run profile maxPayload front).Loyal move ∧
          ((start session first).run profile maxPayload front).Counted maxPayload move := by
      intro front move back equal
      exact each front move (back ++ later) (by
        rw [equal, List.append_assoc]
        rfl)
    have good := taken_of_loyal profile maxPayload (start session first) earlier
      (fun entry member => by cases member)
      fun front move back equal => (before front move back equal).1
    have counted := kept_of_counted profile maxPayload session first earlier
      fun front move back equal => (before front move back equal).2
    have small : ∀ m ∈ ((start session first).run profile maxPayload earlier).kept,
        m.length < 2 ^ 16 := by
      intro m member
      obtain ⟨entry, taken, rfl⟩ := List.mem_map.mp member
      exact (good entry taken).2
    have serving := (start_serving session first).run (start_stored session first) profile maxPayload
      earlier room small
    have own := run_session profile maxPayload (start session first) earlier
    have home := good
    rw [← own] at home
    constructor
    case alive => exact serving.alive
    case answers => exact stored.answers profile maxPayload room home counted
    case only =>
      intro datagram member
      obtain ⟨packet, parsed, same⟩ := serving.own datagram member
      obtain ⟨view, viewed, within⟩ := stored.replied datagram member
      rw [parsed, Option.some.injEq] at viewed
      refine ⟨packet, parsed, fun m inside => ?_⟩
      -- a message of the packet was taken, under the one session there is
      obtain ⟨entry, taken, rfl⟩ := List.mem_map.mp (within.2 m (viewed ▸ inside))
      rw [same, ← (home entry taken).1]
      exact taken

/-- Messages of one session throughout, one of them staged. -/
theorem retransmission_follows_iff_one_session :
    ((start (padSession [65]) 1).run .debug 10
      [.receive (.Ok (.SendDropped [[1]])), .receive (.Ok (.Send [[2]]))]).Follows .debug 10 1 :=
  (retransmission_follows_iff .debug 10 (padSession [65]) 1
    [.receive (.Ok (.SendDropped [[1]])), .receive (.Ok (.Send [[2]]))] (by decide)).mpr
    (by
      intro earlier move later equal
      match earlier, equal with
      | [], equal => cases equal; exact ⟨by decide, counted_of_short (by decide)⟩
      | [_], equal => cases equal; exact ⟨by decide, counted_of_short (by decide)⟩
      | [_, _], equal => cases equal
      | _ :: _ :: _ :: _, equal => cases equal)
    _ [] (List.append_nil _).symm

/-- After a change of session the re-request loop still serves the old one: a message staged under
the new session is not found under it, and is handed out under the old one. -/
theorem changed_session_is_not_served :
    ∃ threads, (start (padSession [65]) 1).run .release 10
        [.receive (.Ok (.ChangeSession [66])), .receive (.Ok (.SendDropped [[7]])),
          .request (Packet.header (padSession [65]) 1 1), .reply] = threads ∧
      threads.taken = [(padSession [66], [7])] ∧
      serve .release 10 threads.session threads.sender.log
        (Packet.header (padSession [66]) 1 1) = some [] ∧
      threads.replied = [packetBytes (padSession [65]) 1 [[7]]] ∧
      ¬threads.Follows .release 10 1 := by
  refine ⟨_, rfl, by decide, by decide, by decide, ?_⟩
  intro follows
  obtain ⟨packets, served, _, all⟩ := follows.answers (padSession [66]) 1 1 (by decide) (by decide)
    (by decide) (by decide) (by decide)
  have nothing : some [] = some packets := served
  rw [← Option.some.inj nothing] at all
  revert all
  decide

end Threads

end Hftrs.Moldudp
