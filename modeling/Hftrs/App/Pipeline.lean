import Hftrs.App.Heard
import Hftrs.App.Transport
import Hftrs.Moldudp.PerfectNetwork

/-! The whole program on a network that loses nothing: from the file through the server, the client
and the receive loop to the books. -/
namespace Hftrs.App

open Hftrs.Itch5 Hftrs.Library Hftrs.Moldudp

/-- What the server thread sends to the server: the replay, and then the end of the session. -/
def serverThread {maxMsgs : Nat} (shutdown : Bool) (random : Nat → Fin maxMsgs)
    (file : List UInt8) : List ServerCommand :=
  replay shutdown random file ++ [.EndOfSession]

/-- The server's sender when it starts; the first number is 1 unless configured otherwise. -/
def startServer (session : List UInt8) : Sender := ⟨padSession session, ∅, 1, false⟩

/-- The client is pinned to the session, and takes any first number. -/
def startClient (session : List UInt8) : Client := ⟨some (padSession session), none⟩

/-! ### One event of the server -/

/-- A data packet or a heartbeat. -/
def Standing (datagram : List UInt8) : Prop :=
  ∃ packet, Packet.parse datagram = some packet ∧ packet.packetKind ≠ .EndOfSession

theorem standing_packetBytes (session : Session) {seqNum : Nat} (seq : seqNum < 2 ^ 64)
    {msgs : List (List UInt8)} (count : msgs.length < 65535) :
    Standing (packetBytes session seqNum msgs) := by
  refine ⟨_, Packet.parse_header session seqNum msgs.length _ seq (by omega), ?_⟩
  have finite : msgs.length ≠ endOfSessionIdent := Nat.ne_of_lt count
  simp only [Packet.packetKind, if_neg finite]
  split <;> rintro ⟨⟩

/-- The packets of a heartbeat, or of a send that is a single one. -/
structure Single (profile : Profile) (session : Session) (seqNum : Nat)
    (msgs : List (List UInt8)) (packets : List (List UInt8)) : Prop where
  synced : Synced profile session seqNum (seqNum + msgs.length) packets
  standing : ∀ datagram ∈ packets, Standing datagram
  data : packets.filterMap dataOf = if msgs = [] then [] else [blocks msgs]

/-- A tick or a send. -/
def Sends : Received → Prop
  | .Timeout | .Ok (.Send _) => True
  | _ => False

/-- The messages in what the server receives. -/
def messagesOf : Received → List (List UInt8)
  | .Ok (.Send msgs) => msgs
  | _ => []

theorem single_heartbeat (profile : Profile) (server : Sender) (running : server.stopped = false)
    (seq : server.nextSeq < 2 ^ 64) :
    Single profile server.session server.nextSeq [] [sendPeriodic server] := by
  have bytes : sendPeriodic server = packetBytes server.session server.nextSeq [] := by
    rw [sendPeriodic, running]
    exact (List.append_nil _).symm
  rw [bytes]
  constructor
  case synced =>
    exact synced_packet profile server.session server.nextSeq 0 _ [] seq (by decide)
      (profile.add_eq seq)
  case standing =>
    intro datagram member
    rw [List.mem_singleton.mp member]
    exact standing_packetBytes server.session seq (by decide)
  case data =>
    rw [← bytes, sendPeriodic, running]
    exact List.filterMap_cons_none (dataOf_heartbeat server.session server.nextSeq seq)

theorem senderStep_single (profile : Profile) (maxPayload : Nat) (limit : maxPayload < 65535)
    (server : Sender) (running : server.stopped = false) (event : Received)
    (sends : Sends event) (each : ∀ m ∈ messagesOf event, m ≠ [] ∧ m.length < 2 ^ 16)
    (fits : Fits maxPayload (messagesOf event))
    (room : server.nextSeq + (messagesOf event).length < 2 ^ 64) :
    ∃ packets server', senderStep profile maxPayload server event = some (packets, server') ∧
      server'.session = server.session ∧ server'.stopped = false ∧
      server'.nextSeq = server.nextSeq + (messagesOf event).length ∧
      Single profile server.session server.nextSeq (messagesOf event) packets := by
  cases event with
  | Timeout =>
    exact ⟨_, server, rfl, rfl, running, rfl, single_heartbeat profile server running room⟩
  | Ok c =>
    cases c with
    | Heartbeat | SendDropped | EndOfSession | StopSession | ChangeSession => exact sends.elim
    | Send msgs =>
      simp only [messagesOf] at each fits room ⊢
      by_cases empty : msgs = []
      · subst empty
        refine ⟨[], server, by simp [senderStep, running], rfl, running, rfl, ?_⟩
        exact ⟨synced_nil _ _ _, by simp, rfl⟩
      · have added := profile.add_eq room
        obtain ⟨log, sent⟩ := senderStep_send profile maxPayload limit server running msgs empty
          each _ added
        have single := (chunkMessages_single msgs maxPayload empty).mpr fits
        obtain ⟨count, _⟩ := chunk_bounds maxPayload limit msgs each msgs (by simp [single])
        have seq : server.nextSeq < 2 ^ 64 := by omega
        rw [single] at sent
        refine ⟨_, _, sent, rfl, running, rfl, ?_⟩
        constructor
        case synced =>
          exact synced_packet profile server.session server.nextSeq msgs.length _ _ seq
            (by omega) added
        case standing =>
          intro datagram member
          rw [List.mem_singleton.mp member]
          exact standing_packetBytes server.session seq count
        case data =>
          have data := dataOf_packetBytes server.session server.nextSeq msgs seq empty count
          rw [List.map_singleton, if_neg empty, List.filterMap_cons_some data,
            List.filterMap_nil]

/-! ### The server over a replay -/

/-- The packets of sends that are single ones, with heartbeats in between. -/
theorem run_single (profile : Profile) (maxPayload : Nat) (limit : maxPayload < 65535)
    (server : Sender) (running : server.stopped = false) (events : List Received)
    (each : ∀ e ∈ events, Sends e ∧ Fits maxPayload (messagesOf e) ∧
      ∀ m ∈ messagesOf e, m ≠ [] ∧ m.length < 2 ^ 16)
    (room : server.nextSeq + (events.flatMap messagesOf).length < 2 ^ 64) :
    ∃ packets server', run (senderStep profile maxPayload) server events = some (packets, server') ∧
      server'.session = server.session ∧
      server'.nextSeq = server.nextSeq + (events.flatMap messagesOf).length ∧
      Synced profile server.session server.nextSeq server'.nextSeq packets.flatten ∧
      (∀ datagram ∈ packets.flatten, Standing datagram) ∧
      packets.flatten.filterMap dataOf = ((events.map messagesOf).filter (· ≠ [])).map blocks := by
  induction events generalizing server with
  | nil => exact ⟨[], server, rfl, rfl, rfl, synced_nil _ _ _, by simp, rfl⟩
  | cons event events ih =>
    obtain ⟨sends, fits, lengths⟩ := each event (by simp)
    rw [List.flatMap_cons, List.length_append] at room
    obtain ⟨packets, middle, stepped, session, running', next, single⟩ :=
      senderStep_single profile maxPayload limit server running event sends lengths fits (by omega)
    obtain ⟨rest, last, returned, session', next', synced, standing, data⟩ := ih middle running'
      (fun e member => each e (by simp [member])) (by omega)
    have first := single.synced
    rw [← next] at first
    rw [session] at session' synced
    refine ⟨packets :: rest, last, ?_, session', ?_, first.append synced, ?_, ?_⟩
    · rw [run_cons_of_step _ _ _ _ _ _ stepped, returned]
      rfl
    · rw [next', next, List.flatMap_cons, List.length_append, Nat.add_assoc]
    · intro datagram member
      rcases List.mem_append.mp member with old | new
      · exact single.standing datagram old
      · exact standing datagram new
    · rw [List.flatten_cons, List.filterMap_append, single.data, data, List.map_cons]
      by_cases empty : messagesOf event = []
      · simp [empty]
      · simp [empty]

/-- The batches are the messages of the events that are commands. -/
theorem messagesOf_commands (events : List Received) (batches : List (List (List UInt8)))
    (commands : events.filterMap command = batches.map ServerCommand.Send) :
    (events.map messagesOf).filter (· ≠ []) = batches.filter (· ≠ []) ∧
      events.flatMap messagesOf = batches.flatten ∧
      ∀ e ∈ events, Sends e ∧ (messagesOf e = [] ∨ messagesOf e ∈ batches) := by
  induction events generalizing batches with
  | nil =>
    rw [List.map_eq_nil_iff.mp commands.symm]
    exact ⟨rfl, rfl, by simp⟩
  | cons event events ih =>
    cases event with
    | Timeout =>
      obtain ⟨same, all, members⟩ := ih batches commands
      exact ⟨same, all, List.forall_mem_cons.mpr ⟨⟨trivial, .inl rfl⟩, members⟩⟩
    | Ok c =>
      obtain ⟨msgs, rest, rfl, rfl, later⟩ := List.map_eq_cons_iff.mp commands.symm
      obtain ⟨same, all, members⟩ := ih rest later.symm
      refine ⟨?_, ?_, List.forall_mem_cons.mpr ⟨⟨trivial, .inr (by simp [messagesOf])⟩, ?_⟩⟩
      · rw [List.map_cons, List.filter_cons, same, List.filter_cons]
        rfl
      · rw [List.flatMap_cons, all, List.flatten_cons]
        rfl
      · intro e member
        obtain ⟨sends, known⟩ := members e member
        exact ⟨sends, known.imp_right fun inside => List.mem_cons_of_mem _ inside⟩

/-! ### The client -/

/-- A client that has no expectation yet asks for nothing more than one that has. -/
theorem run_unpinned (profile : Profile) (session : Session) (expected : Nat)
    (datagrams : List Filled)
    (all : ∀ d ∈ datagrams, ∃ packet, Packet.parse d.bytes = some packet)
    (effects : List Effects) (client : Client)
    (returned : run (processMulticastDatagram profile) ⟨some session, some expected⟩ datagrams =
      some (effects, client)) (quiet : ∀ e ∈ effects, e.request = none) :
    ∃ client', run (processMulticastDatagram profile) ⟨some session, none⟩ datagrams =
      some (effects, client') := by
  cases datagrams with
  | nil =>
    cases returned
    exact ⟨_, rfl⟩
  | cons d ds =>
    obtain ⟨packet, parsed⟩ := all d (by simp)
    obtain ⟨e, rest, middle, rfl, stepped, onwards⟩ := (run_cons_iff _ _ _ _ _ _).mp returned
    refine ⟨client, (run_cons_iff _ _ _ _ _ _).mpr ⟨e, rest, middle, rfl, ?_, onwards⟩⟩
    rw [processMulticastDatagram_eq profile _ parsed] at stepped ⊢
    obtain ⟨next, added, equal⟩ := Option.map_eq_some_iff.mp stepped
    cases equal
    have none : Client.rerequest ⟨some session, some expected⟩ packet = none :=
      quiet _ List.mem_cons_self
    rw [added, none]
    rfl

/-- A client forwards every datagram that has a header. -/
theorem run_forwards (profile : Profile) (client client' : Client) (datagrams : List Filled)
    (all : ∀ d ∈ datagrams, ∃ packet, Packet.parse d.bytes = some packet)
    (effects : List Effects)
    (returned : run (processMulticastDatagram profile) client datagrams = some (effects, client')) :
    effects.filterMap Effects.forwarded = datagrams.map Filled.bytes := by
  induction datagrams generalizing client effects with
  | nil => cases returned; rfl
  | cons d ds ih =>
    obtain ⟨packet, parsed⟩ := all d (by simp)
    obtain ⟨e, rest, middle, rfl, stepped, onwards⟩ := (run_cons_iff _ _ _ _ _ _).mp returned
    rw [processMulticastDatagram_eq profile client parsed] at stepped
    obtain ⟨_, _, equal⟩ := Option.map_eq_some_iff.mp stepped
    cases equal
    rw [List.filterMap_cons, List.map_cons, ih _ (fun d member => all d (by simp [member])) rest
      onwards]

/-! ### The receive loop -/

/-- What is heard is in the data of the packets, one after the other, up to the end of the
session. -/
theorem heard_data (datagrams : List (List UInt8))
    (standing : ∀ datagram ∈ datagrams, Standing datagram) (closing : List (List UInt8))
    (closed : ∀ d ∈ closing.head?, Receiving.EndsSession d) :
    heard (datagrams ++ closing) =
      (datagrams.filterMap dataOf).flatMap fun bytes => readPrefix (splitBlocks bytes) := by
  induction datagrams with
  | nil =>
    cases closing with
    | nil => rfl
    | cons d ds =>
      obtain ⟨packet, parsed, kind⟩ := closed d rfl
      simp only [List.nil_append, heard, parsed, kind]
      rfl
  | cons datagram datagrams ih =>
    obtain ⟨packet, parsed, lasts⟩ := standing datagram (by simp)
    have onwards := ih fun d member => standing d (by simp [member])
    rw [List.cons_append, heard, parsed]
    cases kind : packet.packetKind with
    | EndOfSession => exact absurd kind lasts
    | Heartbeat =>
      have skipped : dataOf datagram = none := by simp [dataOf, parsed, kind]
      simp only [kind]
      rw [onwards, List.filterMap_cons_none skipped]
    | Standard =>
      have data : dataOf datagram = some packet.messages := by simp [dataOf, parsed, kind]
      simp only [kind]
      rw [onwards, List.filterMap_cons_some data, List.flatMap_cons]

/-! ### Where the session ends -/

/-- The end of the session and the heartbeats around it, under one number. -/
def Special (session : Session) (seqNum : Nat) (datagram : List UInt8) : Prop :=
  ∃ count, (count = heartbeatIdent ∨ count = endOfSessionIdent) ∧
    datagram = buildSpecial session seqNum count

theorem Special.parse {session : Session} {seqNum : Nat} (seq : seqNum < 2 ^ 64)
    {datagram : List UInt8} (special : Special session seqNum datagram) :
    ∃ count, count ≤ 65535 ∧ Packet.parse datagram = some ⟨session, seqNum, count, []⟩ := by
  obtain ⟨count, kind, rfl⟩ := special
  have small : count ≤ 65535 := by
    rcases kind with rfl | rfl <;> decide
  have parsed := Packet.parse_header session seqNum count [] seq (by omega)
  rw [List.append_nil] at parsed
  exact ⟨count, small, parsed⟩

/-- A client that expects the number, or a later one, asks for nothing. -/
theorem run_specials (profile : Profile) (session : Session) (seqNum expected : Nat)
    (low : seqNum ≤ expected) (room : seqNum + 65535 < 2 ^ 64) (datagrams : List Filled)
    (specials : ∀ d ∈ datagrams, Special session seqNum d.bytes) :
    ∃ effects client, run (processMulticastDatagram profile) ⟨some session, some expected⟩
        datagrams = some (effects, client) ∧ ∀ e ∈ effects, e.request = none := by
  induction datagrams generalizing expected with
  | nil => exact ⟨[], _, rfl, by simp⟩
  | cons d ds ih =>
    obtain ⟨count, small, parsed⟩ := (specials d (by simp)).parse (by omega)
    have stepped := processMulticastDatagram_eq profile ⟨some session, some expected⟩ parsed
    rw [profile.add_eq (by simp only; omega), Option.map_some] at stepped
    obtain ⟨effects, client, returned, quiet⟩ := ih (seqNum + count) (Nat.le_add_right _ _)
      fun d' member => specials d' (by simp [member])
    refine ⟨_, client, by rw [run_cons_of_step _ _ _ _ _ _ stepped, returned]; rfl, ?_⟩
    intro e member
    rcases List.mem_cons.mp member with rfl | later
    · exact (rerequest_eq_none session expected _ rfl).mpr low
    · exact quiet e later

/-- Ticks send packets under the number that the server has reached. -/
theorem run_ticks (profile : Profile) (maxPayload : Nat) (server : Sender) (events : List Received)
    (ticks : ∀ e ∈ events, e = .Timeout) :
    ∃ packets, run (senderStep profile maxPayload) server events = some (packets, server) ∧
      ∀ datagram ∈ packets.flatten, Special server.session server.nextSeq datagram := by
  have periodic : Special server.session server.nextSeq (sendPeriodic server) := by
    refine ⟨_, ?_, rfl⟩
    split
    · exact .inr rfl
    · exact .inl rfl
  induction events with
  | nil => exact ⟨[], rfl, by simp⟩
  | cons event events ih =>
    obtain ⟨packets, returned, specials⟩ := ih fun e member => ticks e (by simp [member])
    have tick := ticks event (by simp)
    subst tick
    refine ⟨[sendPeriodic server] :: packets, ?_, ?_⟩
    · rw [run_cons_of_step _ server server .Timeout events [sendPeriodic server] rfl, returned]
      rfl
    · intro datagram member
      rw [List.flatten_cons, List.singleton_append] at member
      rcases List.mem_cons.mp member with rfl | later
      · exact periodic
      · exact specials datagram later

theorem command_none {event : Received} (tick : command event = none) : event = .Timeout := by
  cases event with
  | Timeout => rfl
  | Ok c => cases tick

/-- The commands up to the end of the session, that end, and ticks. -/
theorem exists_ending (events : List Received) (commands : List ServerCommand)
    (received : events.filterMap command = commands ++ [.EndOfSession]) :
    ∃ before after, events = before ++ .Ok .EndOfSession :: after ∧
      before.filterMap command = commands ∧ ∀ e ∈ after, e = .Timeout := by
  obtain ⟨front, back, rfl, first, second⟩ := List.filterMap_eq_append_iff.mp received
  obtain ⟨idle, event, after, rfl, ticks, ends, rest⟩ := List.filterMap_eq_cons_iff.mp second
  have last : event = .Ok .EndOfSession := by
    cases event with
    | Timeout => cases ends
    | Ok c => cases ends; rfl
  subst last
  refine ⟨front ++ idle, after, by simp, ?_, ?_⟩
  · rw [List.filterMap_append, first, List.filterMap_eq_nil_iff.mpr ticks, List.append_nil]
  · exact fun e member => command_none (List.filterMap_eq_nil_iff.mp rest e member)

/-! ### From the file to the books -/

/-- Behind the messages of a file there is nothing that `parse_one` takes for another one. -/
def Delimited (file : List UInt8) : Prop :=
  ∃ msgs r, file = framed msgs ++ r ∧ (∀ m ∈ msgs, Message.Tagged m) ∧
    (r = [] ∨ ∃ e, parseOne r = .error e)

theorem noFrame_of_stop {r : List UInt8} (stop : r = [] ∨ ∃ e, parseOne r = .error e) :
    NoFrame r := by
  rcases stop with rfl | ⟨e, failed⟩
  · exact noFrame_nil
  · rintro m tagged ⟨rest, rfl⟩
    have parsed : parseOne (block m.2.bytes ++ rest) = .ok (m.2.bytes, rest) :=
      (parseOne_iff _ _ _).mpr ⟨splitBlock_block _ _ m.2.fits, m.1.tag, tag_mem m.1, tagged⟩
    rw [parsed] at failed
    cases failed

theorem payload_le (msgs : List (List UInt8)) (longest : Nat)
    (each : ∀ m ∈ msgs, m.length ≤ longest) : payload msgs ≤ msgs.length * longest := by
  induction msgs with
  | nil => exact Nat.zero_le _
  | cons m msgs ih =>
    have first := each m (by simp)
    have others := ih fun n member => each n (by simp [member])
    rw [payload_cons, List.length_cons, Nat.succ_mul]
    omega

/-- What the server sends over a replay whose batches are single packets: the data, and then the
end of the session. -/
structure Streamed (profile : Profile) (session : Session) (first last : Nat)
    (batches : List (List (List UInt8))) (data closing : List (List UInt8)) : Prop where
  synced : Synced profile session first last data
  standing : ∀ datagram ∈ data, Standing datagram
  bytes : data.filterMap dataOf = (batches.filter (· ≠ [])).map blocks
  specials : ∀ datagram ∈ closing, Special session last datagram
  ends : closing.head? = some (buildSpecial session last endOfSessionIdent)

/-- The server's part. -/
theorem run_streamed (profile : Profile) (maxPayload : Nat) (limit : maxPayload < 65535)
    (server : Sender) (running : server.stopped = false) (events : List Received)
    (batches : List (List (List UInt8)))
    (commands : events.filterMap command = batches.map ServerCommand.Send ++ [.EndOfSession])
    (each : ∀ batch ∈ batches, Fits maxPayload batch ∧ ∀ m ∈ batch, m ≠ [] ∧ m.length < 2 ^ 16)
    (room : server.nextSeq + batches.flatten.length < 2 ^ 64) :
    ∃ packets server', run (senderStep profile maxPayload) server events = some (packets, server') ∧
      ∃ data closing, packets.flatten = data ++ closing ∧
        Streamed profile server.session server.nextSeq
          (server.nextSeq + batches.flatten.length) batches data closing := by
  obtain ⟨before, after, rfl, replayed, ticks⟩ := exists_ending events _ commands
  obtain ⟨filled, whole, shapes⟩ := messagesOf_commands before batches replayed
  have singles : ∀ e ∈ before, Sends e ∧ Fits maxPayload (messagesOf e) ∧
      ∀ m ∈ messagesOf e, m ≠ [] ∧ m.length < 2 ^ 16 := by
    intro e member
    obtain ⟨sending, none | batch⟩ := shapes e member
    · exact ⟨sending, .inl (by simp [none]), by simp [none]⟩
    · exact ⟨sending, each _ batch⟩
  rw [← whole] at room ⊢
  obtain ⟨packets, middle, returned, own, next, synced, standing, data⟩ :=
    run_single profile maxPayload limit server running before singles room
  obtain ⟨beats, finished, specials⟩ := run_ticks profile maxPayload middle after ticks
  have ending : run (senderStep profile maxPayload) middle (.Ok .EndOfSession :: after) =
      some ([buildSpecial middle.session middle.nextSeq endOfSessionIdent] :: beats, middle) := by
    rw [run_cons_of_step _ middle middle _ after
      [buildSpecial middle.session middle.nextSeq endOfSessionIdent] rfl, finished]
    rfl
  rw [own, next] at specials ending
  refine ⟨_, middle, (run_append_iff _ _ _ _ _ _).mpr ⟨_, _, _, rfl, returned, ending⟩,
    packets.flatten, _, List.flatten_append, ?_⟩
  constructor
  case synced => rwa [next] at synced
  case standing => exact standing
  case bytes => rw [data, filled]
  case ends => rfl
  case specials =>
    intro datagram member
    rcases List.mem_append.mp member with first | later
    · exact ⟨_, .inr rfl, List.mem_singleton.mp first⟩
    · exact specials datagram later

/-- The client's part: it asks for nothing and forwards everything. -/
theorem run_follows (profile : Profile) (session : Session) (first last : Nat)
    (batches : List (List (List UInt8))) (data closing : List (List UInt8))
    (streamed : Streamed profile session first last batches data closing)
    (room : last + 65535 < 2 ^ 64) (datagrams : List Filled)
    (received : datagrams.map Filled.bytes = data ++ closing) :
    ∃ effects client, run (processMulticastDatagram profile) ⟨some session, none⟩ datagrams =
        some (effects, client) ∧ (∀ e ∈ effects, e.request = none) ∧
      effects.filterMap Effects.forwarded = data ++ closing := by
  obtain ⟨front, back, rfl, live, special⟩ := List.map_eq_append_iff.mp received
  obtain ⟨effects, followed, quiet⟩ := streamed.synced front live
  have specials : ∀ d ∈ back, Special session last d.bytes := fun d member =>
    streamed.specials d.bytes (special ▸ List.mem_map_of_mem member)
  obtain ⟨rest, client, ended, silent⟩ := run_specials profile session last last (Nat.le_refl _)
    room back specials
  have parsed : ∀ d ∈ front ++ back, ∃ packet, Packet.parse d.bytes = some packet := by
    intro d member
    rcases List.mem_append.mp member with first | later
    · obtain ⟨packet, parsed, _⟩ := streamed.standing d.bytes (live ▸ List.mem_map_of_mem first)
      exact ⟨packet, parsed⟩
    · obtain ⟨count, _, parsed⟩ := (specials d later).parse (by omega)
      exact ⟨_, parsed⟩
  have all : ∀ e ∈ effects ++ rest, e.request = none :=
    fun e member => (List.mem_append.mp member).elim (quiet e) (silent e)
  obtain ⟨client', unpinned⟩ := run_unpinned profile session first (front ++ back) parsed
    (effects ++ rest) client ((run_append_iff _ _ _ _ _ _).mpr ⟨_, _, _, rfl, followed, ended⟩) all
  refine ⟨effects ++ rest, client', unpinned, all, ?_⟩
  rw [run_forwards profile _ _ _ parsed _ unpinned, received]

/-- The consumer's part: it hears the messages, packet by packet. -/
theorem Streamed.heard {profile : Profile} {session : Session} {first last : Nat}
    {batches : List (List (List UInt8))} {data closing : List (List UInt8)}
    (streamed : Streamed profile session first last batches data closing) (seq : last < 2 ^ 64)
    (msgs : List Message) (tagged : ∀ m ∈ msgs, m.Tagged)
    (bodies : batches.flatten = msgs.map fun m => m.2.bytes) :
    heard (data ++ closing) = msgs := by
  have ends : Receiving.EndsSession (buildSpecial session last endOfSessionIdent) := by
    have parsed := Packet.parse_header session last endOfSessionIdent [] seq (by decide)
    rw [List.append_nil] at parsed
    exact ⟨_, parsed, rfl⟩
  have closed : ∀ d ∈ closing.head?, Receiving.EndsSession d := by
    rw [streamed.ends]
    rintro d ⟨⟩
    exact ends
  have joined : (batches.filter (· ≠ [])).flatten = msgs.map fun m => m.2.bytes := by
    rw [← bodies]
    exact List.flatten_filter_ne_nil
  obtain ⟨parts, rfl, shape⟩ := exists_map_of_flatten (fun m : Message => m.2.bytes) _ msgs joined
  have packed : (batches.filter (· ≠ [])).map blocks = parts.map framed := by
    rw [shape, List.map_map]
    rfl
  have reads : ∀ part ∈ parts, readPrefix (splitBlocks (framed part)) = part := by
    intro part member
    have read := readPrefix_framed part
      (fun m inside => tagged m (List.mem_flatten.mpr ⟨part, member, inside⟩)) [] noFrame_nil
    rwa [List.append_nil] at read
  rw [heard_data data streamed.standing closing closed, streamed.bytes, packed, List.flatMap_map,
    List.flatMap_congr reads, List.flatMap_id']

theorem Streamed.headed {profile : Profile} {session : Session} {first last : Nat}
    {batches : List (List (List UInt8))} {data closing : List (List UInt8)}
    (streamed : Streamed profile session first last batches data closing) (seq : last < 2 ^ 64) :
    ∀ datagram ∈ data ++ closing, (Packet.parse datagram).isSome := by
  intro datagram member
  rcases List.mem_append.mp member with standing | special
  · obtain ⟨packet, parsed, _⟩ := streamed.standing datagram standing
    rw [parsed]
    rfl
  · obtain ⟨count, _, parsed⟩ := (streamed.specials datagram special).parse seq
    rw [parsed]
    rfl

/-- The server receives a send for each batch. -/
theorem send_mem_iff {events : List Received} {batches : List (List (List UInt8))}
    (commands : events.filterMap command = batches.map ServerCommand.Send ++ [.EndOfSession])
    (msgs : List (List UInt8)) : .Ok (.Send msgs) ∈ events ↔ msgs ∈ batches := by
  have sends : .Ok (.Send msgs) ∈ events ↔ ServerCommand.Send msgs ∈ events.filterMap command := by
    rw [List.mem_filterMap]
    constructor
    · intro member
      exact ⟨_, member, rfl⟩
    · rintro ⟨event, member, sent⟩
      cases event with
      | Timeout => cases sent
      | Ok c => cases sent; exact member
  rw [sends, commands]
  simp

/-- The messages of a replay are neither empty nor longer than the longest kind. -/
theorem replayed_bounds {msgs : List Message} {batches : List (List (List UInt8))}
    (bodies : batches.flatten = msgs.map fun m => m.2.bytes) {batch : List (List UInt8)}
    (member : batch ∈ batches) : ∀ m ∈ batch, m ≠ [] ∧ m.length ≤ 50 := by
  intro m inside
  have listed : m ∈ msgs.map fun m => m.2.bytes :=
    bodies ▸ List.mem_flatten.mpr ⟨batch, member, inside⟩
  obtain ⟨message, _, rfl⟩ := List.mem_map.mp listed
  have bounds := message.1.len_bounds
  rw [← message.2.length] at bounds
  exact ⟨List.ne_nil_of_length_pos (by omega), bounds.2⟩

/-- Each batch is one packet when there is room for as many messages of the longest kind. -/
theorem fits_of_few {maxPayload maxMsgs : Nat} (few : maxMsgs * 50 ≤ maxPayload)
    (random : Nat → Fin maxMsgs) (msgs : List Message) (tagged : ∀ m ∈ msgs, m.Tagged)
    (r : List UInt8) (stop : r = [] ∨ ∃ e, parseOne r = .error e) {events : List Received}
    (commands : events.filterMap command = serverThread false random (framed msgs ++ r)) :
    ∀ batch, .Ok (.Send batch) ∈ events → Fits maxPayload batch := by
  obtain ⟨batches, sends, bodies, small⟩ := replay_frames random msgs tagged r stop
  rw [serverThread, sends] at commands
  intro batch sent
  have member := (send_mem_iff commands batch).mp sent
  have bound := payload_le batch 50 fun m inside => (replayed_bounds bodies member m inside).2
  have least := Nat.mul_le_mul_right 50 (small batch member)
  exact .inr (by omega)

/-- What a replay of messages lets the consumer hear: all of them, in their order. -/
theorem replay_heard (profile : Profile) (maxPayload : Nat) (limit : maxPayload < 65535)
    (maxMsgs : Nat) (random : Nat → Fin maxMsgs)
    (session : List UInt8) (msgs : List Message) (tagged : ∀ m ∈ msgs, m.Tagged) (r : List UInt8)
    (stop : r = [] ∨ ∃ e, parseOne r = .error e) (room : msgs.length + 65536 < 2 ^ 64)
    (events : List Received)
    (commands : events.filterMap command = serverThread false random (framed msgs ++ r))
    (fits : ∀ batch, .Ok (.Send batch) ∈ events → Fits maxPayload batch) :
    ∃ packets server, run (senderStep profile maxPayload) (startServer session) events =
        some (packets, server) ∧
      ∀ datagrams : List Filled, datagrams.map Filled.bytes = packets.flatten →
        ∃ effects client, run (processMulticastDatagram profile) (startClient session)
            datagrams = some (effects, client) ∧ (∀ e ∈ effects, e.request = none) ∧
          (∀ d ∈ effects.filterMap Effects.forwarded, (Packet.parse d).isSome) ∧
          heard (effects.filterMap Effects.forwarded) = msgs := by
  obtain ⟨batches, sends, bodies, _⟩ := replay_frames random msgs tagged r stop
  rw [serverThread, sends] at commands
  have each : ∀ batch ∈ batches, Fits maxPayload batch ∧
      ∀ m ∈ batch, m ≠ [] ∧ m.length < 2 ^ 16 := by
    intro batch member
    refine ⟨fits batch ((send_mem_iff commands batch).mpr member), fun m inside => ?_⟩
    obtain ⟨filled, short⟩ := replayed_bounds bodies member m inside
    exact ⟨filled, Nat.lt_of_le_of_lt short (by decide)⟩
  have counted : batches.flatten.length = msgs.length := by rw [bodies, List.length_map]
  have last : (startServer session).nextSeq + batches.flatten.length + 65535 < 2 ^ 64 := by
    simp only [startServer]
    omega
  -- the server's side: a packet for each batch, heartbeats, and the end of the session
  obtain ⟨packets, server, returned, data, closing, all, streamed⟩ := run_streamed profile
    maxPayload limit (startServer session) rfl events batches commands each (by omega)
  refine ⟨packets, server, returned, fun datagrams received => ?_⟩
  -- the client's side: it forwards each of them
  rw [all] at received
  obtain ⟨effects, client, followed, quiet, forwarded⟩ := run_follows profile _ _ _ batches
    data closing streamed last datagrams received
  refine ⟨effects, client, followed, quiet, ?_, ?_⟩
  · rw [forwarded]
    exact streamed.headed (by omega)
  · rw [forwarded]
    exact streamed.heard (by omega) msgs tagged bodies

end Hftrs.App
