import Hftrs.Moldudp.Threads

/-! What is announced is stored: the log, the numbers and the datagrams of the two threads over
every interleaving. -/
namespace Hftrs.Moldudp

open Hftrs.Library

namespace Threads

/-- Messages under a sequence number do not go beyond those that are kept, and are among them. -/
def Within (first : Nat) (kept : List (List UInt8)) (seqNum : Nat) (msgs : List (List UInt8)) :
    Prop :=
  seqNum + msgs.length ≤ first + kept.length ∧ ∀ m ∈ msgs, m ∈ kept

theorem Within.mono {first seqNum : Nat} {kept more msgs : List (List UInt8)}
    (within : Within first kept seqNum msgs) : Within first (kept ++ more) seqNum msgs := by
  obtain ⟨below, known⟩ := within
  refine ⟨?_, fun m member => List.mem_append_left _ (known m member)⟩
  rw [List.length_append]
  omega

/-- A datagram is a packet whose blocks are within what is kept. -/
def Backed (first : Nat) (kept : List (List UInt8)) (datagram : List UInt8) : Prop :=
  ∃ packet, Packet.parse datagram = some packet ∧
    Within first kept packet.seqNum packet.contents

theorem Backed.mono {first : Nat} {kept more : List (List UInt8)} {datagram : List UInt8}
    (backed : Backed first kept datagram) : Backed first (kept ++ more) datagram := by
  obtain ⟨packet, parsed, within⟩ := backed
  exact ⟨packet, parsed, within.mono⟩

theorem Backed.special {first seqNum msgCount : Nat} {kept : List (List UInt8)}
    (session : Session) (below : seqNum ≤ first + kept.length) (seq : seqNum < 2 ^ 64)
    (count : msgCount < 2 ^ 16) : Backed first kept (buildSpecial session seqNum msgCount) := by
  have parsed := Packet.parse_header session seqNum msgCount [] seq count
  rw [List.append_nil] at parsed
  have nothing : Packet.contents ⟨session, seqNum, msgCount, []⟩ = [] :=
    Packet.contents_blocks session seqNum msgCount [] (by simp)
  refine ⟨_, parsed, ?_⟩
  rw [nothing]
  exact ⟨below, by simp⟩

theorem Backed.built {first seqNum : Nat} {kept msgs : List (List UInt8)} {session : Session}
    {datagram : List UInt8} (within : Within first kept seqNum msgs)
    (fits : first + kept.length < 2 ^ 64)
    (built : buildPacket session seqNum msgs = some datagram) :
    ∃ packet, Packet.parse datagram = some packet ∧ packet.session = session ∧
      Within first kept packet.seqNum packet.contents := by
  obtain ⟨count, lengths, rfl⟩ := buildPacket_some built
  obtain ⟨below, known⟩ := within
  have parsed := Packet.parse_header session seqNum msgs.length (blocks msgs) (by omega) count
  refine ⟨_, parsed, rfl, ?_⟩
  rw [Packet.contents_blocks session seqNum msgs.length msgs lengths]
  exact ⟨below, known⟩

/-- What the two threads keep, while the numbers do not overflow. -/
structure Stored (first : Nat) (threads : Threads) : Prop where
  log : Holds threads.sender.log first threads.kept
  next : threads.sender.nextSeq = first + threads.kept.length
  clean : threads.poisoned = false
  sending : ∀ pktSeq chunks, threads.phase = .sending pktSeq chunks →
    ∀ chunk ∈ chunks, Within first threads.kept pktSeq chunk
  replying : ∀ startSeq chunks, threads.replies = .replying startSeq chunks →
    ∀ chunk ∈ chunks, Within first threads.kept startSeq chunk
  sent : ∀ datagram ∈ threads.sent, Backed first threads.kept datagram
  replied : ∀ datagram ∈ threads.replied, Backed first threads.kept datagram

theorem Stored.unlocked {first : Nat} {threads : Threads} (stored : Stored first threads) :
    ¬threads.poisoned = true := by
  rw [stored.clean]
  exact Bool.false_ne_true

theorem start_stored (session : Session) (first : Nat) : Stored first (start session first) where
  log := by
    intro k
    have nothing : (start session first).kept[k - first]? = none := List.getElem?_nil
    rw [nothing, ite_self]
    exact Std.ExtTreeMap.getElem?_empty
  next := rfl
  clean := rfl
  sending := by intro _ _ phase; cases phase
  replying := by intro _ _ phase; cases phase
  sent := by intro _ member; cases member
  replied := by intro _ member; cases member

/-- Chunks of messages are within what is kept when the messages are. -/
theorem within_chunks {first seqNum maxPayload : Nat} {kept msgs : List (List UInt8)}
    (within : Within first kept seqNum msgs) :
    ∀ chunk ∈ chunkMessages msgs maxPayload, Within first kept seqNum chunk := by
  intro chunk member
  have all := (chunkMessages_spec msgs maxPayload).1
  obtain ⟨below, known⟩ := within
  have part : chunk.Sublist msgs := by
    rw [← all]
    exact List.sublist_flatten_of_mem member
  exact ⟨Nat.le_trans (Nat.add_le_add_left part.length_le _) below,
    fun m inside => known m (part.subset inside)⟩

/-- Messages are stored, and the sender goes on behind them. -/
theorem Stored.store {first : Nat} {threads : Threads} (stored : Stored first threads)
    (profile : Profile) (msgs : List (List UInt8)) (onwards : SenderPhase)
    (fits : first + threads.kept.length + msgs.length < 2 ^ 64) :
    ∃ log, Holds log first (threads.kept ++ msgs) ∧
      threads.store profile msgs onwards =
        { threads with
          sender := { threads.sender with
            log, nextSeq := first + threads.kept.length + msgs.length }
          phase := onwards
          taken := threads.taken ++ msgs.map fun m => (threads.sender.session, m) } := by
  obtain ⟨log, done, holds⟩ := stored.log.store profile msgs fits
  rw [← stored.next] at done
  have added : profile.add 64 threads.sender.nextSeq msgs.length =
      some (first + threads.kept.length + msgs.length) := by
    rw [stored.next]
    exact profile.add_eq fits
  exact ⟨log, holds, threads.store_eq profile msgs onwards stored.clean done added⟩

theorem Stored.after_store {first : Nat} {threads : Threads} (stored : Stored first threads)
    (profile : Profile) (msgs : List (List UInt8)) (onwards : SenderPhase)
    (within : ∀ pktSeq chunks, onwards = .sending pktSeq chunks →
      ∀ chunk ∈ chunks, Within first (threads.kept ++ msgs) pktSeq chunk)
    (fits : first + (threads.store profile msgs onwards).taken.length < 2 ^ 64) :
    Stored first (threads.store profile msgs onwards) := by
  have taken := threads.store_taken profile msgs onwards
  rw [taken, List.length_append, List.length_map, ← length_kept] at fits
  obtain ⟨log, holds, equal⟩ := stored.store profile msgs onwards (by omega)
  have more : (threads.store profile msgs onwards).kept = threads.kept ++ msgs := by
    rw [kept, taken, List.map_append, List.map_map]
    exact congrArg _ (List.map_id msgs)
  constructor
  case log => rw [more, equal]; exact holds
  case next =>
    rw [more, equal, List.length_append]
    exact Nat.add_assoc _ _ _
  case clean => rw [equal]; exact stored.clean
  case sending => rw [more, equal]; exact within
  case replying =>
    rw [more, equal]
    exact fun startSeq chunks phase chunk member =>
      (stored.replying startSeq chunks phase chunk member).mono
  case sent => rw [more, equal]; exact fun datagram member => (stored.sent datagram member).mono
  case replied =>
    rw [more, equal]
    exact fun datagram member => (stored.replied datagram member).mono

/-- One more datagram of the sender. -/
theorem Stored.emit {first : Nat} {threads : Threads} (stored : Stored first threads)
    (datagram : List UInt8) (backed : Backed first threads.kept datagram) :
    Stored first { threads with sent := threads.sent ++ [datagram] } :=
  { stored with
    sent := by
      intro other member
      rcases List.mem_append.mp member with old | new
      · exact stored.sent other old
      · rw [List.mem_singleton.mp new]
        exact backed }

theorem Stored.receive {first : Nat} {threads : Threads} (stored : Stored first threads)
    (profile : Profile) (maxPayload : Nat) (received : Received)
    (fits : first + (threads.receive profile maxPayload received).taken.length < 2 ^ 64) :
    Stored first (threads.receive profile maxPayload received) := by
  -- what is sent on the side carries the next number and no messages
  have special : ∀ msgCount, msgCount < 2 ^ 16 → first + threads.kept.length < 2 ^ 64 →
      Backed first threads.kept
        (buildSpecial threads.sender.session threads.sender.nextSeq msgCount) := by
    intro msgCount count room
    rw [← stored.next] at room
    exact Backed.special _ (Nat.le_of_eq stored.next) room count
  have periodic : first + threads.kept.length < 2 ^ 64 →
      Backed first threads.kept (sendPeriodic threads.sender) := by
    apply special
    split <;> decide
  have own := length_kept threads
  cases received with
  | Timeout => exact stored.emit _ (periodic (own ▸ fits))
  | Ok command =>
    cases command with
    | Send msgs =>
      simp only [Threads.receive] at fits ⊢
      split
      next => exact stored
      next running =>
        split
        next => exact stored
        next nonempty =>
          rw [if_neg running, if_neg nonempty] at fits
          apply stored.after_store profile msgs _ _ fits
          rintro _ _ ⟨⟩
          -- the messages of the command are the last ones that are kept
          apply within_chunks
          constructor
          · rw [stored.next, List.length_append, Nat.add_assoc]
          · exact fun m member => List.mem_append_right _ member
    | SendDropped msgs =>
      simp only [Threads.receive] at fits ⊢
      split
      next => exact stored
      next running =>
        split
        next => exact stored
        next nonempty =>
          rw [if_neg running, if_neg nonempty] at fits
          exact stored.after_store profile msgs _ (by rintro _ _ ⟨⟩) fits
    | Heartbeat => exact stored.emit _ (periodic (own ▸ fits))
    | EndOfSession => exact stored.emit _ (special _ (by decide) (own ▸ fits))
    | ChangeSession s =>
      simp only [Threads.receive]
      split
      next => exact stored
      next => exact { stored with }
    | StopSession => exact { stored with }

/-- Reading the log does not fail, and finds nothing beyond it. -/
theorem Stored.collect {first : Nat} {threads : Threads} (stored : Stored first threads)
    (profile : Profile) (startSeq want : Nat) (seq : startSeq < 2 ^ 64)
    (fits : first + threads.kept.length < 2 ^ 64) :
    ∃ msgs, collect profile threads.sender.log startSeq want 0 = some msgs ∧
      (msgs = [] ∨ Within first threads.kept startSeq msgs) := by
  by_cases below : startSeq < first
  · exact ⟨[], stored.log.collect_below profile startSeq want below seq, .inl rfl⟩
  · have found := stored.log.collect profile fits startSeq want 0 (Nat.le_of_not_lt below) seq
      (.inl rfl)
    refine ⟨_, found, ?_⟩
    by_cases inside : startSeq ≤ first + threads.kept.length
    · right
      constructor
      · rw [List.length_take, List.length_drop]
        omega
      · exact fun m part => List.mem_of_mem_drop (List.mem_of_mem_take part)
    · left
      rw [List.drop_eq_nil_of_le (by omega), List.take_nil]

theorem Stored.request {first : Nat} {threads : Threads} (stored : Stored first threads)
    (profile : Profile) (maxPayload : Nat) (datagram : List UInt8)
    (fits : first + threads.kept.length < 2 ^ 64) :
    Stored first (threads.request profile maxPayload datagram) := by
  simp only [Threads.request, if_neg stored.unlocked]
  split
  next => exact stored
  next startSeq want read =>
    obtain ⟨seq, _, _⟩ := readRequest_some read
    obtain ⟨msgs, found, known⟩ := stored.collect profile startSeq want seq fits
    simp only [found]
    refine { stored with replying := ?_ }
    rintro _ _ ⟨⟩
    rcases known with rfl | within
    · rintro chunk ⟨⟩
    · exact within_chunks within

theorem Stored.step {first : Nat} {threads : Threads} (stored : Stored first threads)
    (profile : Profile) (maxPayload : Nat) (move : ThreadStep)
    (fits : first + (threads.step profile maxPayload move).taken.length < 2 ^ 64) :
    Stored first (threads.step profile maxPayload move) := by
  have own := length_kept threads
  cases move with
  | receive received =>
    simp only [Threads.step] at fits ⊢
    cases phase : threads.phase with
    | idle =>
      rw [phase] at fits
      exact stored.receive profile maxPayload received fits
    | sending => exact stored
    | dead => exact stored
  | send =>
    simp only [Threads.step] at fits ⊢
    cases phase : threads.phase with
    | idle => exact stored
    | dead => exact stored
    | sending pktSeq chunks =>
      cases chunks with
      | nil => exact { stored with sending := by rintro _ _ ⟨⟩ }
      | cons chunk chunks =>
        simp only [phase] at fits ⊢
        cases built : buildPacket threads.sender.session pktSeq chunk with
        | none => exact { stored with sending := by rintro _ _ ⟨⟩ }
        | some packet =>
          simp only [built] at fits
          have within := stored.sending pktSeq (chunk :: chunks) phase
          obtain ⟨view, parsed, _, backed⟩ :=
            Backed.built (within chunk (by simp)) (own ▸ fits) built
          refine { stored.emit packet ⟨view, parsed, backed⟩ with sending := ?_ }
          rintro _ _ ⟨⟩ other member
          exact within other (by simp [member])
  | request datagram =>
    simp only [Threads.step] at fits ⊢
    cases replies : threads.replies with
    | idle =>
      simp only [replies, request_taken] at fits
      exact stored.request profile maxPayload datagram (own ▸ fits)
    | replying => exact stored
    | dead => exact stored
  | reply =>
    simp only [Threads.step] at fits ⊢
    cases replies : threads.replies with
    | idle => exact stored
    | dead => exact stored
    | replying startSeq chunks =>
      cases chunks with
      | nil => exact { stored with replying := by rintro _ _ ⟨⟩ }
      | cons chunk chunks =>
        simp only [replies] at fits ⊢
        cases built : buildPacket threads.session startSeq chunk with
        | none => exact { stored with replying := by rintro _ _ ⟨⟩ }
        | some packet =>
          simp only [built] at fits
          have within := stored.replying startSeq (chunk :: chunks) replies
          obtain ⟨view, parsed, _, backed⟩ :=
            Backed.built (within chunk (by simp)) (own ▸ fits) built
          refine { stored with replying := ?_, replied := ?_ }
          · rintro _ _ ⟨⟩ other member
            exact within other (by simp [member])
          · intro other member
            rcases List.mem_append.mp member with old | new
            · exact stored.replied other old
            · rw [List.mem_singleton.mp new]
              exact ⟨view, parsed, backed⟩

theorem Stored.run {first : Nat} {threads : Threads} (stored : Stored first threads)
    (profile : Profile) (maxPayload : Nat) (steps : List ThreadStep)
    (fits : first + (threads.run profile maxPayload steps).taken.length < 2 ^ 64) :
    Stored first (threads.run profile maxPayload steps) := by
  induction steps generalizing threads with
  | nil => exact stored
  | cons move steps ih =>
    -- the numbers only grow, so that they were in range after the first step
    have later :=
      (taken_run profile maxPayload (threads.step profile maxPayload move) steps).length_le
    have room : first + (threads.step profile maxPayload move).taken.length < 2 ^ 64 :=
      Nat.lt_of_le_of_lt (Nat.add_le_add_left later first) fits
    exact ih (stored.step profile maxPayload move room) fits

/-- At every point of an interleaving the log holds the messages taken so far, numbered from the
first number on; what it held before it still holds; and all that a datagram on its way announces
is in it, ready to be asked for. -/
theorem store_before_announce (profile : Profile) (maxPayload : Nat) (session : Session)
    (first : Nat) (steps : List ThreadStep) (threads : Threads)
    (reached : (start session first).run profile maxPayload steps = threads)
    (fits : first + threads.taken.length < 2 ^ 64) :
    (∀ k : Nat, threads.sender.log[k]? =
      if first ≤ k then (threads.taken[k - first]?).map Prod.snd else none) ∧
    (∀ earlier later, steps = earlier ++ later → ∀ (k : Nat) (msg : List UInt8),
      ((start session first).run profile maxPayload earlier).sender.log[k]? = some msg →
      threads.sender.log[k]? = some msg) ∧
    ∀ datagram ∈ threads.sent ++ threads.replied,
      ∃ packet, Packet.parse datagram = some packet ∧
        (∀ k, first ≤ k → k < packet.seqNum + packet.contents.length → k ∈ threads.sender.log) ∧
        ∀ startSeq want, first ≤ startSeq →
          startSeq + want ≤ packet.seqNum + packet.contents.length →
          ∃ msgs, collect profile threads.sender.log startSeq want 0 = some msgs ∧
            msgs.length = want ∧
            ∀ i, i < want → msgs[i]? = threads.sender.log[startSeq + i]? := by
  subst reached
  have stored := (start_stored session first).run profile maxPayload steps fits
  refine ⟨?_, ?_, ?_⟩
  · intro k
    rw [stored.log k, kept, List.getElem?_map]
  · -- what was taken by then is a prefix of what is taken now
    rintro earlier later rfl k msg found
    rw [run_append] at fits stored ⊢
    have grown := taken_run profile maxPayload
      ((start session first).run profile maxPayload earlier) later
    have before := (start_stored session first).run profile maxPayload earlier
      (Nat.lt_of_le_of_lt (Nat.add_le_add_left grown.length_le first) fits)
    rw [before.log k] at found
    rw [stored.log k]
    split at found
    next above =>
      rw [if_pos above]
      obtain ⟨rest, whole⟩ := kept_run profile maxPayload
        ((start session first).run profile maxPayload earlier) later
      obtain ⟨inside, _⟩ := List.getElem?_eq_some_iff.mp found
      rw [← whole, List.getElem?_append_left inside, found]
    next => cases found
  · intro datagram member
    have backed : Backed first
        ((start session first).run profile maxPayload steps).kept datagram := by
      rcases List.mem_append.mp member with broadcast | answer
      · exact stored.sent datagram broadcast
      · exact stored.replied datagram answer
    obtain ⟨packet, parsed, below, _⟩ := backed
    refine ⟨packet, parsed, ?_, ?_⟩
    · intro k above under
      exact (stored.log.mem_iff k).mpr ⟨above, Nat.lt_of_lt_of_le under below⟩
    · intro startSeq want above under
      rw [← length_kept] at fits
      have found := stored.log.collect profile fits startSeq want 0 above (by omega) (.inl rfl)
      refine ⟨_, found, ?_, ?_⟩
      · rw [List.length_take, List.length_drop]
        omega
      · intro i inside
        rw [List.getElem?_take_of_lt inside, List.getElem?_drop, stored.log, if_pos (by omega)]
        congr 1
        omega

/-- Two messages are staged, a third is broadcast while a client asks for all of them. -/
theorem store_before_announce_staged :
    ∃ threads, (start (padSession [65]) 5).run .release 10
        [.receive (.Ok (.SendDropped [[1], [2]])), .receive (.Ok (.Send [[3]])),
          .request (Packet.header (padSession [65]) 5 9), .send, .reply] = threads ∧
      threads.sent ++ threads.replied =
        [packetBytes (padSession [65]) 7 [[3]], packetBytes (padSession [65]) 5 [[1], [2], [3]]] ∧
      (threads.sender.log[7]? : Option (List UInt8)) = some [3] := by
  have stored := (store_before_announce .release 10 (padSession [65]) 5
    [.receive (.Ok (.SendDropped [[1], [2]])), .receive (.Ok (.Send [[3]])),
      .request (Packet.header (padSession [65]) 5 9), .send, .reply] _ rfl (by decide)).1 7
  exact ⟨_, rfl, by decide, stored⟩

end Threads

end Hftrs.Moldudp
