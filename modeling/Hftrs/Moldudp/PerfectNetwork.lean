import Hftrs.Library.Runs
import Hftrs.Moldudp.Client
import Hftrs.Moldudp.Server

/-! The server and a client of its session over a network that loses nothing.

The packets of a split send all carry the sequence number of the first one, so the client and
the server stay in step exactly while every send is a single packet. -/
namespace Hftrs.Moldudp

open Hftrs.Library

/-- A send of non-empty messages within 16-bit lengths, a heartbeat, or an elapsed interval. -/
def Received.Regular : Received → Prop
  | .Ok (.Send msgs) => (∀ m ∈ msgs, m ≠ [] ∧ m.length < 2 ^ 16) ∧ msgs.length < 2 ^ 64
  | .Ok .Heartbeat | .Timeout => True
  | _ => False

/-- The send is one packet, and its numbers stay in range where leaving it panics. -/
def Whole (profile : Profile) (maxPayload : Nat) (server : Sender) : Received → Prop
  | .Ok (.Send msgs) =>
    Fits maxPayload msgs ∧ (profile = .debug → server.nextSeq + msgs.length < 2 ^ 64)
  | _ => True

instance (event : Received) : Decidable event.Regular := by
  unfold Received.Regular
  split <;> infer_instance

instance (profile : Profile) (maxPayload : Nat) (server : Sender) (event : Received) :
    Decidable (Whole profile maxPayload server event) := by
  unfold Whole Fits
  split <;> infer_instance

/-- A pinned client that receives what the server sends asks for nothing, and expects at the
end the number the server sends next. -/
def InStep (profile : Profile) (maxPayload : Nat) (server : Sender) (events : List Received) :
    Prop :=
  ∃ packets server', run (senderStep profile maxPayload) server events = some (packets, server') ∧
    ∀ datagrams : List Filled, datagrams.map Filled.bytes = packets.flatten →
      ∃ effects client', run (processMulticastDatagram profile)
          ⟨some server.session, some server.nextSeq⟩ datagrams = some (effects, client') ∧
        (∀ e ∈ effects, e.request = none) ∧ client'.expectedSeqNum = some server'.nextSeq

/-! ### Staying in step -/

/-- Receiving the packets takes a pinned client from one expectation to another without a
re-request. -/
def Synced (profile : Profile) (session : Session) (expected expected' : Nat)
    (packets : List (List UInt8)) : Prop :=
  ∀ datagrams : List Filled, datagrams.map Filled.bytes = packets →
    ∃ effects, run (processMulticastDatagram profile) ⟨some session, some expected⟩ datagrams =
        some (effects, ⟨some session, some expected'⟩) ∧ ∀ e ∈ effects, e.request = none

theorem synced_nil (profile : Profile) (session : Session) (expected : Nat) :
    Synced profile session expected expected [] := by
  intro datagrams none_received
  rw [List.map_eq_nil_iff.mp none_received]
  exact ⟨[], rfl, by simp⟩

theorem synced_packet (profile : Profile) (session : Session) (seqNum count expected : Nat)
    (messages : List UInt8) (seq : seqNum < 2 ^ 64) (small : count < 2 ^ 16)
    (added : profile.add 64 seqNum count = some expected) :
    Synced profile session seqNum expected [Packet.header session seqNum count ++ messages] := by
  intro datagrams received
  obtain ⟨d, rest, rfl, bytes, none_left⟩ := List.map_eq_cons_iff.mp received
  rw [List.map_eq_nil_iff.mp none_left]
  have parsed := Packet.parse_header session seqNum count messages seq small
  rw [← bytes] at parsed
  have stepped := processMulticastDatagram_eq profile ⟨some session, some seqNum⟩ parsed
  rw [added, Option.map_some] at stepped
  refine ⟨_, run_cons_of_step _ _ _ _ _ _ stepped, ?_⟩
  intro e member
  rw [List.mem_singleton.mp member]
  exact (rerequest_eq_none session seqNum _ rfl).mpr (Nat.le_refl _)

theorem Synced.append {profile : Profile} {session : Session} {first middle last : Nat}
    {packets packets' : List (List UInt8)} (before : Synced profile session first middle packets)
    (after : Synced profile session middle last packets') :
    Synced profile session first last (packets ++ packets') := by
  intro datagrams received
  obtain ⟨ds, ds', rfl, received, received'⟩ := List.map_eq_append_iff.mp received
  obtain ⟨effects, ran, quiet⟩ := before ds received
  obtain ⟨effects', ran', quiet'⟩ := after ds' received'
  refine ⟨effects ++ effects', ?_, ?_⟩
  · exact (run_append_iff _ _ _ _ _ _).mpr ⟨effects, effects', _, rfl, ran, ran'⟩
  · intro e member
    rcases List.mem_append.mp member with old | new
    · exact quiet e old
    · exact quiet' e new

/-- What a server keeps while it is only asked for sends and heartbeats. -/
structure Sender.Running (server : Sender) (session : Session) : Prop where
  session : server.session = session
  running : server.stopped = false
  inRange : server.nextSeq < 2 ^ 64

/-- A whole step keeps the client in step with the server. -/
private theorem step_synced (profile : Profile) (maxPayload : Nat) (limit : maxPayload < 65535)
    (session : Session) (server : Sender) (alive : server.Running session) (event : Received)
    (regular : event.Regular) (whole : Whole profile maxPayload server event) :
    ∃ packets server', senderStep profile maxPayload server event = some (packets, server') ∧
      server'.Running session ∧
      Synced profile session server.nextSeq server'.nextSeq packets := by
  obtain ⟨rfl, running, inRange⟩ := alive
  have heartbeat : Synced profile server.session server.nextSeq server.nextSeq
      [sendPeriodic server] := by
    have synced := synced_packet profile server.session server.nextSeq 0 server.nextSeq [] inRange
      (by decide) (profile.add_eq inRange)
    have sent : sendPeriodic server = Packet.header server.session server.nextSeq 0 := by
      rw [sendPeriodic, running]
      rfl
    rwa [List.append_nil, ← sent] at synced
  cases event with
  | Timeout => exact ⟨_, server, rfl, ⟨rfl, running, inRange⟩, heartbeat⟩
  | Ok command =>
    -- a heartbeat announces the expectation itself, and a single packet moves both numbers alike
    cases command with
    | Heartbeat => exact ⟨_, server, rfl, ⟨rfl, running, inRange⟩, heartbeat⟩
    | SendDropped | EndOfSession | StopSession | ChangeSession => exact regular.elim
    | Send msgs =>
      by_cases empty : msgs = []
      · subst empty
        exact ⟨[], server, by simp [senderStep, running], ⟨rfl, running, inRange⟩,
          synced_nil _ _ _⟩
      · obtain ⟨nextSeq, added⟩ := (profile.add_isSome_iff 64 _ _).mpr whole.2
        obtain ⟨log, sent⟩ := senderStep_send profile maxPayload limit server running msgs empty
          regular.1 nextSeq added
        have single := (chunkMessages_single msgs maxPayload empty).mpr whole.1
        obtain ⟨count, _⟩ := chunk_bounds maxPayload limit msgs regular.1 msgs (by simp [single])
        rw [single] at sent
        refine ⟨_, _, sent, ⟨rfl, running, Profile.add_lt added⟩, ?_⟩
        exact synced_packet profile server.session server.nextSeq msgs.length nextSeq _ inRange
          (by omega) added

private theorem run_synced (profile : Profile) (maxPayload : Nat) (limit : maxPayload < 65535)
    (session : Session) (server : Sender) (alive : server.Running session)
    (events : List Received) (regular : ∀ e ∈ events, e.Regular)
    (whole : Along (senderStep profile maxPayload) (Whole profile maxPayload) server events) :
    ∃ packets server', run (senderStep profile maxPayload) server events =
        some (packets, server') ∧
      Synced profile session server.nextSeq server'.nextSeq packets.flatten := by
  -- `Synced` composes, so the packets of the run are received one event at a time
  induction events generalizing server with
  | nil => exact ⟨[], server, rfl, synced_nil _ _ _⟩
  | cons event events ih =>
    obtain ⟨packets, server', stepped, alive', synced⟩ := step_synced profile maxPayload limit
      session server alive event (regular event (by simp)) whole.1
    obtain ⟨rest, last, returned, onwards⟩ := ih server' alive'
      (fun e member => regular e (by simp [member])) (whole.2 _ _ stepped)
    refine ⟨packets :: rest, last, ?_, synced.append onwards⟩
    rw [run_cons_of_step _ _ _ _ _ _ stepped, returned]
    rfl

/-! ### Falling out of step -/

/-- A buffer that holds a datagram and nothing else. -/
def Filled.exact (bytes : List UInt8) : Filled := ⟨bytes, bytes.length, Nat.le_refl _⟩

@[simp] theorem Filled.bytes_exact (bytes : List UInt8) : (Filled.exact bytes).bytes = bytes :=
  List.take_length

theorem Filled.map_bytes_exact (packets : List (List UInt8)) :
    (packets.map Filled.exact).map Filled.bytes = packets := by
  simp [List.map_map, Function.comp_def]

/-- After the last packet received, the client expects what follows the messages it announced. -/
private theorem expected_last (profile : Profile) (client client' : Client)
    (datagrams : List Filled) (last : Filled) (packet : Packet) (effects : List Effects)
    (parsed : Packet.parse last.bytes = some packet)
    (returned : run (processMulticastDatagram profile) client (datagrams ++ [last]) =
      some (effects, client')) :
    profile.add 64 packet.seqNum packet.msgCount = client'.expectedSeqNum := by
  obtain ⟨_, _, before, _, _, onLast⟩ := (run_append_iff _ _ _ _ _ _).mp returned
  obtain ⟨_, _, after, _, stepped, finished⟩ := (run_cons_iff _ _ _ _ _ _).mp onLast
  cases finished
  rw [processMulticastDatagram_eq profile before parsed, Option.map_eq_some_iff] at stepped
  obtain ⟨expected, added, equal⟩ := stepped
  cases equal
  exact added

/-- A client that is in step after a send has received it as one packet. -/
private theorem send_whole (profile : Profile) (maxPayload : Nat) (limit : maxPayload < 65535)
    (session : Session) (server : Sender) (alive : server.Running session)
    (msgs : List (List UInt8)) (regular : Received.Regular (.Ok (.Send msgs)))
    (inStep : InStep profile maxPayload server [.Ok (.Send msgs)]) :
    Whole profile maxPayload server (.Ok (.Send msgs)) := by
  by_cases empty : msgs = []
  · subst empty
    exact ⟨Or.inl (Nat.zero_le 1), fun _ => alive.inRange⟩
  obtain ⟨packets, server', ran, delivered⟩ := inStep
  obtain ⟨sent, others, _, rfl, stepped, finished⟩ := (run_cons_iff _ _ _ _ _ _).mp ran
  cases finished
  cases added : profile.add 64 server.nextSeq msgs.length with
  | none =>
    -- a server that panics keeps no client in step
    rw [senderStep_send_panics profile maxPayload server alive.running msgs empty added] at stepped
    cases stepped
  | some nextSeq =>
    refine ⟨?_, (profile.add_isSome_iff _ _ _).mp ⟨nextSeq, added⟩⟩
    obtain ⟨log, equal⟩ := senderStep_send profile maxPayload limit server alive.running msgs empty
      regular.1 nextSeq added
    rw [equal] at stepped
    cases stepped
    obtain ⟨all, full⟩ := chunkMessages_spec msgs maxPayload
    -- the client expects what follows the last chunk, counted from the first number of the send
    rcases List.eq_nil_or_concat (chunkMessages msgs maxPayload) with none | ⟨chunks, last, split⟩
    · rw [none] at all
      exact absurd all.symm empty
    rw [List.concat_eq_append] at split
    obtain ⟨count, _⟩ := chunk_bounds maxPayload limit msgs regular.1 last (by simp [split])
    obtain ⟨effects, client', returned, _, expects⟩ := delivered _ (by
      rw [Filled.map_bytes_exact, List.flatten_cons, List.flatten_nil, List.append_nil])
    rw [split, List.map_append, List.map_append] at returned
    have parsed :
        Packet.parse (Filled.exact (packetBytes server.session server.nextSeq last)).bytes =
          some ⟨server.session, server.nextSeq, last.length, blocks last⟩ := by
      rw [Filled.bytes_exact]
      exact Packet.parse_header server.session server.nextSeq last.length (blocks last)
        alive.inRange (by omega)
    have follows := expected_last profile _ _ _ _ _ _ parsed returned
    rw [expects] at follows
    have same : last.length = msgs.length :=
      Profile.add_left_cancel follows added (by omega) regular.2
    -- so the last chunk holds every message, and there is no other
    rw [split, List.flatten_append, List.flatten_singleton] at all
    have lengths := congrArg List.length all
    rw [List.length_append, same] at lengths
    have before : chunks.flatten = [] := List.length_eq_zero_iff.mp (by omega)
    have whole : last = msgs := by rw [← all, before, List.nil_append]
    subst whole
    exact (full last (by simp [split])).2

/-- After a whole step the rest of the run is in step as well. -/
private theorem tail_inStep (profile : Profile) (maxPayload : Nat) (session : Session)
    (server server' : Sender) (alive : server.Running session) (alive' : server'.Running session)
    (event : Received) (events : List Received) (packets : List (List UInt8))
    (stepped : senderStep profile maxPayload server event = some (packets, server'))
    (synced : Synced profile session server.nextSeq server'.nextSeq packets)
    (inStep : InStep profile maxPayload server (event :: events)) :
    InStep profile maxPayload server' events := by
  obtain ⟨all, last, ran, delivered⟩ := inStep
  obtain ⟨sent, rest, next, rfl, stepped', ran'⟩ := (run_cons_iff _ _ _ _ _ _).mp ran
  rw [stepped] at stepped'
  cases stepped'
  refine ⟨rest, last, ran', fun datagrams received => ?_⟩
  obtain ⟨effects, client', returned, quiet, expects⟩ := delivered
    (packets.map Filled.exact ++ datagrams) (by
      rw [List.map_append, Filled.map_bytes_exact, received, List.flatten_cons])
  obtain ⟨before, after, middle, rfl, first, second⟩ := (run_append_iff _ _ _ _ _ _).mp returned
  obtain ⟨_, first', _⟩ := synced _ (Filled.map_bytes_exact packets)
  rw [alive.session, first'] at first
  cases first
  rw [alive'.session]
  exact ⟨after, client', second, fun e member => quiet e (List.mem_append_right _ member), expects⟩

/-- The client is in step after every event exactly when every send is one packet and, where an
overflow panics, does not overflow. -/
theorem perfect_network_iff (profile : Profile) (maxPayload : Nat) (limit : maxPayload < 65535)
    (server : Sender) (running : server.stopped = false) (initial : server.nextSeq < 2 ^ 64)
    (events : List Received) (regular : ∀ e ∈ events, e.Regular) :
    (∀ first, first <+: events → InStep profile maxPayload server first) ↔
      Along (senderStep profile maxPayload) (Whole profile maxPayload) server events := by
  have alive : server.Running server.session := ⟨rfl, running, initial⟩
  generalize server.session = session at alive
  constructor
  · intro inStep
    -- on the events: the run so far was whole, so the client starts the next step in step
    induction events generalizing server with
    | nil => trivial
    | cons event events ih =>
      have whole : Whole profile maxPayload server event := by
        -- from the run that stops after this event
        have here := inStep [event] (by simp)
        cases event with
        | Timeout => trivial
        | Ok command =>
          cases command with
          | Send msgs =>
            exact send_whole profile maxPayload limit session server alive msgs
              (regular _ (by simp)) here
          | Heartbeat | SendDropped | EndOfSession | StopSession | ChangeSession => trivial
      obtain ⟨packets, server', stepped, alive', synced⟩ := step_synced profile maxPayload limit
        session server alive event (regular event (by simp)) whole
      refine ⟨whole, fun answer next stepped' => ?_⟩
      rw [stepped] at stepped'
      cases stepped'
      apply ih server' alive'.running alive'.inRange (fun e member => regular e (by simp [member]))
        alive'
      intro first initially
      exact tail_inStep profile maxPayload session server server' alive alive' event first packets
        stepped synced (inStep (event :: first) (List.cons_prefix_cons.mpr ⟨rfl, initially⟩))
  · intro whole first initially
    obtain ⟨packets, server', ran, synced⟩ := run_synced profile maxPayload limit session server
      alive first (fun e member => regular e (initially.subset member)) (whole.shorten initially)
    refine ⟨packets, server', ran, fun datagrams received => ?_⟩
    obtain ⟨effects, returned, quiet⟩ := synced datagrams received
    rw [alive.session]
    exact ⟨effects, _, returned, quiet, rfl⟩

/-- A server of the session "AB" that has sent nothing yet. -/
def freshServer : Sender := ⟨padSession [65, 66], ∅, 1, false⟩

/-- Two messages in one packet, then a heartbeat. -/
theorem perfect_network_sample :
    InStep .debug 1452 freshServer [.Ok (.Send [[1], [2]]), .Ok .Heartbeat] :=
  (perfect_network_iff .debug 1452 (by decide) freshServer rfl (by decide)
    [.Ok (.Send [[1], [2]]), .Ok .Heartbeat] (by decide)).mpr (by decide) _ List.prefix_rfl

/-- Two messages in two packets of the same number: the heartbeat that follows looks like the end
of a gap. -/
theorem split_send_rerequests :
    ¬InStep .debug 1 freshServer [.Ok (.Send [[1], [2]]), .Ok .Heartbeat] := by
  rintro ⟨packets, server', ran, delivered⟩
  have sent : (run (senderStep .debug 1) freshServer
      [.Ok (.Send [[1], [2]]), .Ok .Heartbeat]).map Prod.fst =
        some [[packetBytes (padSession [65, 66]) 1 [[1]],
            packetBytes (padSession [65, 66]) 1 [[2]]],
          [packetBytes (padSession [65, 66]) 3 []]] := by decide
  rw [ran, Option.map_some] at sent
  cases sent
  obtain ⟨effects, client', returned, quiet, _⟩ :=
    delivered _ (Filled.map_bytes_exact _)
  have requested : ((run (processMulticastDatagram .debug)
      ⟨some freshServer.session, some freshServer.nextSeq⟩
      ([[packetBytes (padSession [65, 66]) 1 [[1]], packetBytes (padSession [65, 66]) 1 [[2]]],
        [packetBytes (padSession [65, 66]) 3 []]].flatten.map Filled.exact)).map Prod.fst).map
          (List.map Effects.request) =
      some [none, none, some ⟨padSession [65, 66], 2, 1⟩] := by decide
  rw [returned, Option.map_some, Option.map_some] at requested
  have asked : some ⟨padSession [65, 66], 2, 1⟩ ∈ effects.map Effects.request := by
    rw [Option.some.inj requested]
    decide
  obtain ⟨e, member, equal⟩ := List.mem_map.mp asked
  rw [quiet e member] at equal
  cases equal

end Hftrs.Moldudp
