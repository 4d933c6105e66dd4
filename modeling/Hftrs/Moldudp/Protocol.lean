import Hftrs.Moldudp.PerfectNetwork
import Hftrs.Moldudp.Sessions

/-! The server, a client and the network between them.

The network hands the client datagrams that the server has sent at some time: on both paths it may
lose, repeat, delay and reorder them. Whoever asks the re-request loop, and for what, is left
open. -/
namespace Hftrs.Moldudp

open Hftrs.Library

/-- The loop of the client that forwards a datagram. -/
inductive Source where
  | multicast
  | retx
  deriving DecidableEq

/-- The client's loops go on whatever they receive: a buffer is never shorter than its datagram. -/
structure Protocol where
  server : Threads
  client : Client
  -- the re-requests that the queue took
  requests : List RetransmissionPacket
  -- the datagrams that the consumer's channel took
  forwarded : List (Source × List UInt8)

/-- Who acts next. Whether the queue and the channel take what they are offered is up to those
who drain them. -/
inductive Move where
  | server (move : ThreadStep)
  | multicast (filled : Filled) (queued taken : Bool)
  | retx (filled : Filled) (taken : Bool)

/-- The server's part of a move. -/
def Move.threadStep : Move → Option ThreadStep
  | .server move => some move
  | _ => none

namespace Protocol

/-- A server that has sent nothing, and a client in any state. -/
def start (session : Session) (first : Nat) (client : Client) : Protocol :=
  ⟨Threads.start session first, client, [], []⟩

/-- What the channel gets of what a loop forwards. -/
def offered (source : Source) (taken : Bool) (effects : Effects) : List (Source × List UInt8) :=
  if taken then effects.forwarded.toList.map fun bytes => (source, bytes) else []

def step (profile : Profile) (maxPayload : Nat) (protocol : Protocol) :
    Move → Option (Unit × Protocol)
  | .server move =>
    some ((), { protocol with server := protocol.server.step profile maxPayload move })
  | .multicast filled queued taken =>
    (processMulticastDatagram profile protocol.client filled).map fun (effects, client) =>
      ((), { protocol with
        client
        requests := protocol.requests ++ if queued then effects.request.toList else []
        forwarded := protocol.forwarded ++ offered .multicast taken effects })
  | .retx filled taken =>
    let effects := processRereqDatagram filled
    some ((), { protocol with
      forwarded := protocol.forwarded ++ offered .retx taken effects })

/-- The server of a run goes through the steps of its threads. -/
theorem run_server (profile : Profile) (maxPayload : Nat) {protocol last : Protocol}
    {moves : List Move} {answers : List Unit}
    (returned : run (step profile maxPayload) protocol moves = some (answers, last)) :
    last.server = protocol.server.run profile maxPayload (moves.filterMap Move.threadStep) := by
  induction moves generalizing protocol answers with
  | nil =>
    cases returned
    rfl
  | cons move moves ih =>
    obtain ⟨_, _, next, _, stepped, onwards⟩ := (run_cons_iff _ _ _ _ _ _).mp returned
    rw [ih onwards]
    cases move with
    | server move =>
      cases stepped
      rfl
    -- the client's loops leave the server alone
    | multicast filled queued taken =>
      obtain ⟨_, _, equal⟩ := Option.map_eq_some_iff.mp stepped
      cases equal
      rfl
    | retx filled taken =>
      cases stepped
      rfl

/-- The record at the end of a run is what the commands of the run brought. -/
theorem run_taken (profile : Profile) (maxPayload : Nat) {session : Session} {first : Nat}
    {client : Client} {last : Protocol} {moves : List Move} {answers : List Unit}
    (returned : run (step profile maxPayload) (start session first client) moves =
      some (answers, last)) :
    last.server.taken = Threads.allTakes profile maxPayload (Threads.start session first)
      (moves.filterMap Move.threadStep) := by
  rw [run_server profile maxPayload returned, Threads.run_taken]
  exact List.nil_append _

/-- A datagram that arrives was sent before. -/
def Enabled (protocol : Protocol) : Move → Prop
  | .server _ => True
  | .multicast filled _ _ => filled.bytes ∈ protocol.server.sent
  | .retx filled _ => filled.bytes ∈ protocol.server.replied

instance (protocol : Protocol) : (move : Move) → Decidable (protocol.Enabled move)
  | .server _ => isTrue trivial
  | .multicast filled _ _ => inferInstanceAs (Decidable (filled.bytes ∈ protocol.server.sent))
  | .retx filled _ => inferInstanceAs (Decidable (filled.bytes ∈ protocol.server.replied))

/-- The messages that the server has taken so far have numbers. -/
def InRange (first : Nat) (protocol : Protocol) : Prop :=
  first + protocol.server.taken.length < 2 ^ 64

instance (first : Nat) (protocol : Protocol) : Decidable (protocol.InRange first) :=
  inferInstanceAs (Decidable (_ < _))

/-- The record of what the server took only grows. -/
theorem inRange_earlier (profile : Profile) (maxPayload first : Nat) (protocol : Protocol)
    (move : Move) (answer : Unit) (next : Protocol)
    (stepped : protocol.step profile maxPayload move = some (answer, next))
    (inRange : next.InRange first) : protocol.InRange first := by
  have grown : protocol.server.taken.length ≤ next.server.taken.length := by
    cases move with
    | server move =>
      cases stepped
      rw [Threads.step_taken, List.length_append]
      exact Nat.le_add_right _ _
    | multicast filled queued taken =>
      obtain ⟨_, _, equal⟩ := Option.map_eq_some_iff.mp stepped
      cases equal
      exact Nat.le_refl _
    | retx filled taken =>
      cases stepped
      exact Nat.le_refl _
  exact Nat.lt_of_le_of_lt (Nat.add_le_add_left grown first) inRange

end Protocol

/-! ### Where the messages of a datagram come from -/

/-- What the server has taken, a session, a number, and the messages sent under them. -/
abbrev Origin := List (Session × List UInt8) → Session → Nat → List (List UInt8) → Prop

/-- A packet of messages of that origin, or the end of a session. -/
def Issued (origin : Origin) (taken : List (Session × List UInt8)) (datagram : List UInt8) :
    Prop :=
  ∃ session seqNum msgs, origin taken session seqNum msgs ∧
    (datagram = packetBytes session seqNum msgs ∧ msgs.length < 2 ^ 16 ∧
        (∀ m ∈ msgs, m.length < 2 ^ 16) ∨
      msgs = [] ∧ datagram = buildSpecial session seqNum endOfSessionIdent)

/-- More messages do not change where the earlier ones come from. -/
def Lasting (origin : Origin) : Prop :=
  ∀ taken more session seqNum msgs, origin taken session seqNum msgs →
    origin (taken ++ more) session seqNum msgs

theorem Issued.mono {origin : Origin} (lasting : Lasting origin)
    {taken more : List (Session × List UInt8)} {datagram : List UInt8}
    (issued : Issued origin taken datagram) : Issued origin (taken ++ more) datagram := by
  obtain ⟨session, seqNum, msgs, from_there, shape⟩ := issued
  exact ⟨session, seqNum, msgs, lasting taken more session seqNum msgs from_there, shape⟩

theorem Issued.built {origin : Origin} {taken : List (Session × List UInt8)} {session : Session}
    {seqNum : Nat} {msgs : List (List UInt8)} {datagram : List UInt8}
    (from_there : origin taken session seqNum msgs)
    (built : buildPacket session seqNum msgs = some datagram) : Issued origin taken datagram := by
  obtain ⟨count, lengths, bytes⟩ := buildPacket_some built
  exact ⟨session, seqNum, msgs, from_there, .inl ⟨bytes, count, lengths⟩⟩

/-- A heartbeat is a packet without messages. -/
theorem Issued.special {origin : Origin} {taken : List (Session × List UInt8)} {session : Session}
    {seqNum msgCount : Nat} (from_there : origin taken session seqNum [])
    (kind : msgCount = heartbeatIdent ∨ msgCount = endOfSessionIdent) :
    Issued origin taken (buildSpecial session seqNum msgCount) := by
  refine ⟨session, seqNum, [], from_there, ?_⟩
  rcases kind with rfl | rfl
  · exact .inl ⟨(List.append_nil _).symm, by decide, by simp⟩
  · exact .inr ⟨rfl, rfl⟩

/-- How an issued packet reads. -/
theorem Issued.read {origin : Origin} {taken : List (Session × List UInt8)}
    {datagram : List UInt8} (issued : Issued origin taken datagram)
    (small : ∀ session seqNum msgs, origin taken session seqNum msgs → seqNum < 2 ^ 64) :
    ∃ packet, Packet.parse datagram = some packet ∧
      origin taken packet.session packet.seqNum packet.contents ∧
      (packet.packetKind = .EndOfSession ∨ packet.msgCount = packet.contents.length) := by
  obtain ⟨session, seqNum, msgs, from_there, shape⟩ := issued
  have seq := small session seqNum msgs from_there
  rcases shape with ⟨rfl, count, lengths⟩ | ⟨rfl, rfl⟩
  · have contents := Packet.contents_blocks session seqNum msgs.length msgs lengths
    refine ⟨_, Packet.parse_header session seqNum msgs.length (blocks msgs) seq count, ?_, ?_⟩
    · rw [contents]
      exact from_there
    · rw [contents]
      exact .inr rfl
  · have parsed := Packet.parse_header session seqNum endOfSessionIdent [] seq (by decide)
    have contents := Packet.contents_blocks session seqNum endOfSessionIdent [] (by simp)
    rw [List.append_nil] at parsed
    rw [blocks_nil] at contents
    refine ⟨_, parsed, ?_, .inl rfl⟩
    rw [contents]
    exact from_there

/-! ### The origin of all that is under way -/

namespace Threads

/-- Every chunk and every datagram comes from what was taken: the sender's in one way, those of
the re-request loop in another. -/
structure Traced (live reply : Origin) (threads : Threads) : Prop where
  sending : ∀ pktSeq chunks, threads.phase = .sending pktSeq chunks →
    ∀ chunk ∈ chunks, live threads.taken threads.sender.session pktSeq chunk
  replying : ∀ startSeq chunks, threads.replies = .replying startSeq chunks →
    ∀ chunk ∈ chunks, reply threads.taken threads.session startSeq chunk
  sent : ∀ datagram ∈ threads.sent, Issued live threads.taken datagram
  replied : ∀ datagram ∈ threads.replied, Issued reply threads.taken datagram

/-- What the sender is about to do has the origin: the packets without messages, and the chunks
of a send. -/
structure Tracks (live : Origin) (first maxPayload : Nat) (threads : Threads)
    (received : Received) : Prop where
  nothing : live threads.taken threads.sender.session (first + threads.taken.length) []
  chunks : ∀ msgs, received = .Ok (.Send msgs) →
    ∀ chunk ∈ chunkMessages msgs maxPayload,
      live (threads.taken ++ msgs.map fun m => (threads.sender.session, m))
        threads.sender.session (first + threads.taken.length) chunk

section Steps

variable {live reply : Origin} {first : Nat} {threads : Threads}

theorem start_traced (session : Session) (first : Nat) :
    Traced live reply (start session first) where
  sending := by rintro _ _ ⟨⟩
  replying := by rintro _ _ ⟨⟩
  sent := by rintro _ ⟨⟩
  replied := by rintro _ ⟨⟩

/-- One more datagram of the sender. -/
theorem Traced.emit (traced : Traced live reply threads) (datagram : List UInt8)
    (issued : Issued live threads.taken datagram) :
    Traced live reply { threads with sent := threads.sent ++ [datagram] } :=
  { traced with
    sent := by
      intro other member
      rcases List.mem_append.mp member with old | new
      · exact traced.sent other old
      · rw [List.mem_singleton.mp new]
        exact issued }

theorem Traced.store (traced : Traced live reply threads) (stored : Stored first threads)
    (lasting : Lasting live) (lastingReply : Lasting reply) (profile : Profile)
    (msgs : List (List UInt8)) (onwards : SenderPhase)
    (chunks : ∀ pktSeq chunks, onwards = .sending pktSeq chunks → ∀ chunk ∈ chunks,
      live (threads.taken ++ msgs.map fun m => (threads.sender.session, m))
        threads.sender.session pktSeq chunk)
    (fits : first + (threads.store profile msgs onwards).taken.length < 2 ^ 64) :
    Traced live reply (threads.store profile msgs onwards) := by
  rw [threads.store_taken, List.length_append, List.length_map, ← length_kept] at fits
  obtain ⟨log, _, equal⟩ := stored.store profile msgs onwards (by omega)
  rw [equal]
  constructor
  case sending => exact chunks
  case replying =>
    exact fun startSeq chunks phase chunk member =>
      lastingReply _ _ _ _ _ (traced.replying startSeq chunks phase chunk member)
  case sent => exact fun datagram member => (traced.sent datagram member).mono lasting
  case replied => exact fun datagram member => (traced.replied datagram member).mono lastingReply

theorem Traced.receive (traced : Traced live reply threads) (stored : Stored first threads)
    (lasting : Lasting live) (lastingReply : Lasting reply) (profile : Profile) (maxPayload : Nat)
    (received : Received) (idle : threads.phase = .idle)
    (tracks : threads.Tracks live first maxPayload received)
    (fits : first + (threads.receive profile maxPayload received).taken.length < 2 ^ 64) :
    Traced live reply (threads.receive profile maxPayload received) := by
  have next : live threads.taken threads.sender.session threads.sender.nextSeq [] := by
    rw [stored.next, length_kept]
    exact tracks.nothing
  have periodic : Issued live threads.taken (sendPeriodic threads.sender) := by
    apply Issued.special next
    split
    · exact .inr rfl
    · exact .inl rfl
  cases received with
  | Timeout => exact traced.emit _ periodic
  | Ok command =>
    cases command with
    | Send msgs =>
      simp only [Threads.receive] at fits ⊢
      split
      next => exact traced
      next running =>
        split
        next => exact traced
        next nonempty =>
          rw [if_neg running, if_neg nonempty] at fits
          refine traced.store stored lasting lastingReply profile msgs _ ?_ fits
          rintro _ _ ⟨⟩ chunk member
          rw [stored.next, length_kept]
          exact tracks.chunks msgs rfl chunk member
    | SendDropped msgs =>
      simp only [Threads.receive] at fits ⊢
      split
      next => exact traced
      next running =>
        split
        next => exact traced
        next nonempty =>
          rw [if_neg running, if_neg nonempty] at fits
          exact traced.store stored lasting lastingReply profile msgs _ (by rintro _ _ ⟨⟩) fits
    | Heartbeat => exact traced.emit _ periodic
    | EndOfSession => exact traced.emit _ (Issued.special next (.inr rfl))
    | ChangeSession s =>
      simp only [Threads.receive]
      split
      next => exact traced
      next =>
        -- no chunk is on its way under the session that is left behind
        refine { traced with sending := ?_ }
        intro pktSeq chunks phase
        rw [idle] at phase
        cases phase
    | StopSession => exact { traced with }

/-- The chunks of an answer. -/
theorem Traced.request (traced : Traced live reply threads) (stored : Stored first threads)
    (profile : Profile) (maxPayload : Nat) (datagram : List UInt8)
    (answers : ∀ startSeq want msgs, first ≤ startSeq →
      msgs = ((threads.taken.drop (startSeq - first)).take want).map Prod.snd → msgs ≠ [] →
      ∀ chunk ∈ chunkMessages msgs maxPayload, reply threads.taken threads.session startSeq chunk)
    (fits : first + threads.taken.length < 2 ^ 64) :
    Traced live reply (threads.request profile maxPayload datagram) := by
  simp only [Threads.request, if_neg stored.unlocked]
  split
  next => exact traced
  next startSeq want read =>
    obtain ⟨seq, _, _⟩ := readRequest_some read
    rw [← length_kept] at fits
    by_cases below : startSeq < first
    · rw [stored.log.collect_below profile startSeq want below seq]
      exact { traced with replying := by rintro _ _ ⟨⟩ _ ⟨⟩ }
    · have above := Nat.le_of_not_lt below
      rw [stored.log.collect profile fits startSeq want 0 above seq (.inl rfl)]
      refine { traced with replying := ?_ }
      rintro _ _ ⟨⟩ chunk member
      rw [Nat.add_zero, kept, ← List.map_drop, ← List.map_take] at member
      refine answers startSeq want _ above rfl ?_ chunk member
      rintro empty
      rw [empty] at member
      cases member

theorem Traced.step (traced : Traced live reply threads) (stored : Stored first threads)
    (lasting : Lasting live) (lastingReply : Lasting reply) (profile : Profile) (maxPayload : Nat)
    (move : ThreadStep)
    (tracks : ∀ received, move = .receive received → threads.Tracks live first maxPayload received)
    (answers : ∀ startSeq want msgs, first ≤ startSeq →
      msgs = ((threads.taken.drop (startSeq - first)).take want).map Prod.snd → msgs ≠ [] →
      ∀ chunk ∈ chunkMessages msgs maxPayload, reply threads.taken threads.session startSeq chunk)
    (fits : first + (threads.step profile maxPayload move).taken.length < 2 ^ 64) :
    Traced live reply (threads.step profile maxPayload move) := by
  cases move with
  | receive received =>
    simp only [Threads.step] at fits ⊢
    cases phase : threads.phase with
    | idle =>
      rw [phase] at fits
      exact traced.receive stored lasting lastingReply profile maxPayload received phase
        (tracks received rfl) fits
    | sending => exact traced
    | dead => exact traced
  | send =>
    simp only [Threads.step]
    cases phase : threads.phase with
    | idle => exact traced
    | dead => exact traced
    | sending pktSeq chunks =>
      have from_there := traced.sending pktSeq chunks phase
      cases chunks with
      | nil => exact { traced with sending := by rintro _ _ ⟨⟩ }
      | cons chunk chunks =>
        simp only
        cases built : buildPacket threads.sender.session pktSeq chunk with
        | none => exact { traced with sending := by rintro _ _ ⟨⟩ }
        | some packet =>
          have issued := Issued.built (from_there chunk (by simp)) built
          refine { traced.emit packet issued with sending := ?_ }
          rintro _ _ ⟨⟩ other member
          exact from_there other (by simp [member])
  | request datagram =>
    simp only [Threads.step] at fits ⊢
    cases replies : threads.replies with
    | idle =>
      simp only [replies, request_taken] at fits
      exact traced.request stored profile maxPayload datagram answers fits
    | replying => exact traced
    | dead => exact traced
  | reply =>
    simp only [Threads.step]
    cases replies : threads.replies with
    | idle => exact traced
    | dead => exact traced
    | replying startSeq chunks =>
      have from_there := traced.replying startSeq chunks replies
      cases chunks with
      | nil => exact { traced with replying := by rintro _ _ ⟨⟩ }
      | cons chunk chunks =>
        simp only
        cases built : buildPacket threads.session startSeq chunk with
        | none => exact { traced with replying := by rintro _ _ ⟨⟩ }
        | some packet =>
          refine { traced with replying := ?_, replied := ?_ }
          · rintro _ _ ⟨⟩ other member
            exact from_there other (by simp [member])
          · intro other member
            rcases List.mem_append.mp member with old | new
            · exact traced.replied other old
            · rw [List.mem_singleton.mp new]
              exact Issued.built (from_there chunk (by simp)) built

end Steps

end Threads

/-! ### Messages in a row -/

/-- The entries stand in a row in the record, at the number or after it. -/
def Row (first : Nat) (taken : List (Session × List UInt8)) (seqNum : Nat)
    (entries : List (Session × List UInt8)) : Prop :=
  first ≤ seqNum ∧
    ∃ before after, taken = before ++ entries ++ after ∧ seqNum ≤ first + before.length

/-- The messages of a row. -/
def replyRow (first : Nat) : Origin := fun taken _ seqNum msgs =>
  ∃ entries, Row first taken seqNum entries ∧ entries.map Prod.snd = msgs

/-- The messages of a row that was taken under the session. -/
def liveRow (first : Nat) : Origin := fun taken session seqNum msgs =>
  ∃ entries, Row first taken seqNum entries ∧ entries.map Prod.snd = msgs ∧
    ∀ entry ∈ entries, entry.1 = session

section Rows

variable {first seqNum : Nat} {taken entries : List (Session × List UInt8)}

theorem Row.mono {more : List (Session × List UInt8)} (row : Row first taken seqNum entries) :
    Row first (taken ++ more) seqNum entries := by
  obtain ⟨above, before, after, rfl, bound⟩ := row
  exact ⟨above, before, after ++ more, by simp only [List.append_assoc], bound⟩

/-- A row within a row. -/
theorem Row.within {part : List (Session × List UInt8)} (row : Row first taken seqNum entries)
    (inside : part <:+: entries) : Row first taken seqNum part := by
  obtain ⟨above, before, after, rfl, bound⟩ := row
  obtain ⟨l, r, rfl⟩ := inside
  refine ⟨above, before ++ l, r ++ after, by simp only [List.append_assoc], ?_⟩
  rw [List.length_append]
  omega

theorem Row.last_le (row : Row first taken seqNum entries) :
    seqNum + entries.length ≤ first + taken.length := by
  obtain ⟨_, before, after, rfl, bound⟩ := row
  rw [List.length_append, List.length_append]
  omega

/-- The next number, before there are messages under it. -/
theorem Row.nothing (first : Nat) (taken : List (Session × List UInt8)) :
    Row first taken (first + taken.length) [] :=
  ⟨Nat.le_add_right _ _, taken, [], by simp, Nat.le_refl _⟩

theorem replyRow_lasting (first : Nat) : Lasting (replyRow first) := by
  rintro taken more session seqNum msgs ⟨entries, row, rfl⟩
  exact ⟨entries, row.mono, rfl⟩

theorem liveRow_lasting (first : Nat) : Lasting (liveRow first) := by
  rintro taken more session seqNum msgs ⟨entries, row, rfl, own⟩
  exact ⟨entries, row.mono, rfl, own⟩

/-- A chunk is a part of its messages, whatever goes with these. -/
theorem exists_infix_of_chunk {entries : List (Session × List UInt8)} {maxPayload : Nat}
    {chunk : List (List UInt8)} (member : chunk ∈ chunkMessages (entries.map Prod.snd) maxPayload) :
    ∃ part, part <:+: entries ∧ part.map Prod.snd = chunk := by
  have inside := List.infix_of_mem_flatten member
  rw [(chunkMessages_spec _ maxPayload).1] at inside
  obtain ⟨l, r, split⟩ := inside
  obtain ⟨front, back, rfl, first_part, _⟩ := List.map_eq_append_iff.mp split.symm
  obtain ⟨start, part, rfl, _, equal⟩ := List.map_eq_append_iff.mp first_part
  exact ⟨part, ⟨start, back, rfl⟩, equal⟩

/-- Whatever the sender receives, it sends rows. -/
theorem Threads.tracks_liveRow (threads : Threads) (first maxPayload : Nat) (received : Received) :
    threads.Tracks (liveRow first) first maxPayload received where
  nothing := ⟨[], Row.nothing first threads.taken, rfl, by simp⟩
  chunks := by
    rintro msgs rfl chunk member
    have labelled : (msgs.map fun m => (threads.sender.session, m)).map Prod.snd = msgs := by
      rw [List.map_map]
      exact List.map_id msgs
    rw [← labelled] at member
    obtain ⟨part, inside, rfl⟩ := exists_infix_of_chunk member
    have whole : Row first (threads.taken ++ msgs.map fun m => (threads.sender.session, m))
        (first + threads.taken.length) (msgs.map fun m => (threads.sender.session, m)) :=
      ⟨Nat.le_add_right _ _, threads.taken, [], by simp, Nat.le_refl _⟩
    refine ⟨part, whole.within inside, rfl, fun entry there => ?_⟩
    obtain ⟨m, _, rfl⟩ := List.mem_map.mp (inside.subset there)
    rfl

/-- Every answer is made of rows. -/
theorem Threads.answers_replyRow (threads : Threads) (first maxPayload startSeq want : Nat)
    (msgs : List (List UInt8)) (above : first ≤ startSeq)
    (equal : msgs = ((threads.taken.drop (startSeq - first)).take want).map Prod.snd)
    (nonempty : msgs ≠ []) (chunk : List (List UInt8))
    (member : chunk ∈ chunkMessages msgs maxPayload) :
    replyRow first threads.taken threads.session startSeq chunk := by
  subst equal
  have inside : startSeq - first ≤ threads.taken.length := by
    by_contra beyond
    rw [List.drop_eq_nil_of_le (by omega), List.take_nil] at nonempty
    exact nonempty rfl
  have whole : Row first threads.taken startSeq
      ((threads.taken.drop (startSeq - first)).take want) := by
    refine ⟨above, threads.taken.take (startSeq - first),
      (threads.taken.drop (startSeq - first)).drop want, ?_, ?_⟩
    · rw [List.append_assoc, List.take_append_drop, List.take_append_drop]
    · rw [List.length_take_of_le inside]
      omega
  obtain ⟨part, there, rfl⟩ := exists_infix_of_chunk member
  exact ⟨part, whole.within there, rfl⟩

end Rows

/-! ### What reaches the consumer -/

namespace Protocol

/-- The server's log is in order, and what it sent and what was forwarded has its origin. -/
structure Sound (live : Origin) (first : Nat) (protocol : Protocol) : Prop where
  stored : Threads.Stored first protocol.server
  traced : Threads.Traced live (replyRow first) protocol.server
  multicast : ∀ datagram, (.multicast, datagram) ∈ protocol.forwarded →
    Issued live protocol.server.taken datagram
  retx : ∀ datagram, (.retx, datagram) ∈ protocol.forwarded →
    Issued (replyRow first) protocol.server.taken datagram

theorem start_sound (live : Origin) (session : Session) (first : Nat) (client : Client) :
    (start session first client).Sound live first where
  stored := Threads.start_stored session first
  traced := Threads.start_traced session first
  multicast := by rintro _ ⟨⟩
  retx := by rintro _ ⟨⟩

theorem mem_offered {source other : Source} {taken : Bool} {effects : Effects}
    {datagram : List UInt8} :
    (other, datagram) ∈ offered source taken effects ↔
      taken = true ∧ other = source ∧ effects.forwarded = some datagram := by
  unfold offered
  cases taken with
  | false => simp
  | true => cases effects.forwarded <;> simp [eq_comm]

theorem processMulticastDatagram_forwarded {profile : Profile} {client client' : Client}
    {filled : Filled} {effects : Effects} {bytes : List UInt8}
    (processed : processMulticastDatagram profile client filled = some (effects, client'))
    (forwarded : effects.forwarded = some bytes) : bytes = filled.bytes := by
  cases parsed : Packet.parse filled.bytes with
  | none =>
    rw [processMulticastDatagram_short profile client parsed] at processed
    cases processed
    cases forwarded
  | some packet =>
    rw [processMulticastDatagram_eq profile client parsed] at processed
    obtain ⟨_, _, equal⟩ := Option.map_eq_some_iff.mp processed
    cases equal
    cases forwarded
    rfl

theorem processRereqDatagram_forwarded {filled : Filled} {bytes : List UInt8}
    (forwarded : (processRereqDatagram filled).forwarded = some bytes) : bytes = filled.bytes := by
  rw [processRereqDatagram_eq] at forwarded
  obtain ⟨_, _, equal⟩ := Option.map_eq_some_iff.mp forwarded
  exact equal.symm

/-- One move, by whoever makes it. -/
theorem Sound.after_move {live : Origin} {first : Nat} {protocol next : Protocol}
    (sound : protocol.Sound live first) (lasting : Lasting live) (profile : Profile)
    (maxPayload : Nat) (move : Move) (enabled : protocol.Enabled move)
    (tracks : ∀ received, move = .server (.receive received) →
      protocol.server.Tracks live first maxPayload received)
    {answer : Unit} (stepped : protocol.step profile maxPayload move = some (answer, next))
    (inRange : next.InRange first) : next.Sound live first := by
  cases move with
  | server move =>
    cases stepped
    have fits : first + protocol.server.taken.length < 2 ^ 64 :=
      inRange_earlier profile maxPayload first protocol (.server move) () _ rfl inRange
    have grown := protocol.server.step_taken profile maxPayload move
    constructor
    case stored => exact sound.stored.step profile maxPayload move inRange
    case traced =>
      exact sound.traced.step sound.stored lasting (replyRow_lasting first) profile maxPayload
        move (fun received equal => tracks received (by rw [equal]))
        (protocol.server.answers_replyRow first maxPayload) inRange
    case multicast =>
      intro datagram member
      rw [grown]
      exact (sound.multicast datagram member).mono lasting
    case retx =>
      intro datagram member
      rw [grown]
      exact (sound.retx datagram member).mono (replyRow_lasting first)
  | multicast filled queued taken =>
    obtain ⟨⟨effects, client⟩, processed, equal⟩ := Option.map_eq_some_iff.mp stepped
    cases equal
    refine { sound with multicast := ?_, retx := ?_ }
    · intro datagram member
      rcases List.mem_append.mp member with old | new
      · exact sound.multicast datagram old
      · obtain ⟨_, _, forwarded⟩ := mem_offered.mp new
        rw [processMulticastDatagram_forwarded processed forwarded]
        exact sound.traced.sent _ enabled
    · intro datagram member
      rcases List.mem_append.mp member with old | new
      · exact sound.retx datagram old
      · cases (mem_offered.mp new).2.1
  | retx filled taken =>
    cases stepped
    refine { sound with multicast := ?_, retx := ?_ }
    · intro datagram member
      rcases List.mem_append.mp member with old | new
      · exact sound.multicast datagram old
      · cases (mem_offered.mp new).2.1
    · intro datagram member
      rcases List.mem_append.mp member with old | new
      · exact sound.retx datagram old
      · obtain ⟨_, _, forwarded⟩ := mem_offered.mp new
        rw [processRereqDatagram_forwarded forwarded]
        exact sound.traced.replied _ enabled

theorem Sound.after_run {live : Origin} {first : Nat} {protocol last : Protocol}
    (sound : protocol.Sound live first) (lasting : Lasting live) (profile : Profile)
    (maxPayload : Nat) (moves : List Move)
    (along : Along (step profile maxPayload) (fun protocol move => protocol.Enabled move ∧
      ∀ received, move = .server (.receive received) →
        protocol.server.Tracks live first maxPayload received) protocol moves)
    {answers : List Unit} (returned : run (step profile maxPayload) protocol moves =
      some (answers, last))
    (inRange : last.InRange first) : last.Sound live first := by
  have throughout := Throughout.of_last (inRange_earlier profile maxPayload first) returned inRange
  refine (Along.keeps (I := Sound live first) ?_ sound along throughout).last returned
  intro protocol move answer next sound admitted inRange stepped
  exact sound.after_move lasting profile maxPayload move admitted.1 admitted.2 stepped inRange

/-- Whatever the two threads of the server do, whoever asks for retransmissions, and whatever the
network loses, repeats, delays and reorders: each datagram handed to the consumer holds messages
that the server took one after the other, none of them numbered below the packet, and announces
as many. In a live packet they were taken under its session. -/
theorem forwarded_genuine (profile : Profile) (maxPayload : Nat) (session : Session) (first : Nat)
    (client : Client) (moves : List Move) (answers : List Unit) (protocol : Protocol)
    (returned : run (step profile maxPayload) (start session first client) moves =
      some (answers, protocol))
    (delivered : Along (step profile maxPayload) Enabled (start session first client) moves)
    (inRange : protocol.InRange first) :
    ∀ source datagram, (source, datagram) ∈ protocol.forwarded →
      ∃ packet, Packet.parse datagram = some packet ∧
        (packet.packetKind = .EndOfSession ∨ packet.msgCount = packet.contents.length) ∧
        ∃ before entries after, protocol.server.taken = before ++ entries ++ after ∧
          packet.contents = entries.map Prod.snd ∧ packet.seqNum ≤ first + before.length ∧
          (source = .multicast → ∀ entry ∈ entries, entry.1 = packet.session) := by
  have along := delivered.imp (D := fun (protocol : Protocol) move => protocol.Enabled move ∧
      ∀ received, move = .server (.receive received) →
        protocol.server.Tracks (liveRow first) first maxPayload received)
    fun protocol move enabled => ⟨enabled, fun received _ =>
      protocol.server.tracks_liveRow first maxPayload received⟩
  have sound := (start_sound (liveRow first) session first client).after_run
    (liveRow_lasting first) profile maxPayload moves along returned inRange
  intro source datagram member
  cases source with
  | multicast =>
    obtain ⟨packet, parsed, ⟨entries, row, same, own⟩, counted⟩ :=
      (sound.multicast datagram member).read (by
        rintro _ seqNum _ ⟨entries, row, _, _⟩
        exact Nat.lt_of_le_of_lt (Nat.le_trans (Nat.le_add_right _ _) row.last_le) inRange)
    obtain ⟨_, before, after, whole, bound⟩ := row
    exact ⟨packet, parsed, counted, before, entries, after, whole, same.symm, bound, fun _ => own⟩
  | retx =>
    obtain ⟨packet, parsed, ⟨entries, row, same⟩, counted⟩ :=
      (sound.retx datagram member).read (by
        rintro _ seqNum _ ⟨entries, row, _⟩
        exact Nat.lt_of_le_of_lt (Nat.le_trans (Nat.le_add_right _ _) row.last_le) inRange)
    obtain ⟨_, before, after, whole, bound⟩ := row
    exact ⟨packet, parsed, counted, before, entries, after, whole, same.symm, bound, by rintro ⟨⟩⟩

/-- Two messages are staged, a third is broadcast; the client asks for the two and gets them in
one packet. -/
def stagedMoves : List Move :=
  [.server (.receive (.Ok (.SendDropped [[1], [2]]))), .server (.receive (.Ok (.Send [[3]]))),
    .server .send, .multicast (.exact (packetBytes (padSession [65]) 7 [[3]])) true true,
    .server (.request (Packet.header (padSession [65]) 5 2)), .server .reply,
    .retx (.exact (packetBytes (padSession [65]) 5 [[1], [2]])) true]

theorem forwarded_genuine_staged :
    ∃ answers protocol, run (step .debug 10)
        (start (padSession [65]) 5 ⟨some (padSession [65]), some 5⟩) stagedMoves =
          some (answers, protocol) ∧
      ∃ packet, Packet.parse (packetBytes (padSession [65]) 5 [[1], [2]]) = some packet ∧
        ∃ before entries after, protocol.server.taken = before ++ entries ++ after ∧
          packet.contents = entries.map Prod.snd ∧ packet.seqNum ≤ 5 + before.length := by
  obtain ⟨packet, parsed, _, before, entries, after, whole, same, bound, _⟩ :=
    forwarded_genuine .debug 10 (padSession [65]) 5 ⟨some (padSession [65]), some 5⟩ stagedMoves
      _ _ rfl (by decide +kernel) (by decide) .retx (packetBytes (padSession [65]) 5 [[1], [2]])
      (by decide)
  exact ⟨_, _, rfl, packet, parsed, before, entries, after, whole, same, bound⟩

end Protocol

end Hftrs.Moldudp
