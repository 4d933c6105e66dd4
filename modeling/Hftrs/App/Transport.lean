import Hftrs.App.Handler
import Hftrs.App.Replay
import Hftrs.Library.Runs

/-! From a file through the server to the consumer: the packets of a replay hold the bytes of
the file, and the messages cross every batch and packet boundary whole. -/
namespace Hftrs.App

open Hftrs.Itch5 Hftrs.Library Hftrs.Moldudp

/-! ### What goes in and what comes out -/

/-- A handler that notes the messages it is given. -/
def record : Handler (List Message) := fun kind msg seen => some (.Continue, seen ++ [⟨kind, msg⟩])

/-- `parse_stream` accepts the file. -/
def Accepted (file : List UInt8) : Prop :=
  ∃ left seen, parseStream record file [] = some (.ok (), left, seen)

/-- The command in what the server's loop receives. -/
def command : Received → Option ServerCommand
  | .Ok command => some command
  | .Timeout => none

/-- The `messages` bytes of a data packet. -/
def dataOf (datagram : List UInt8) : Option (List UInt8) :=
  match Packet.parse datagram with
  | some packet => if packet.packetKind = .Standard then some packet.messages else none
  | none => none

/-- Run `parse_stream` on the bytes of each packet in turn, whatever it returns. -/
def parseEach {σ : Type} (on : Handler σ) : List (List UInt8) → σ → Option σ
  | [], s => some s
  | bytes :: rest, s =>
    match parseStream on bytes s with
    | none => none
    | some (_, _, s') => parseEach on rest s'

/-- An accepted file is frames and nothing else. -/
theorem accepted_framed (file : List UInt8) (accepted : Accepted file) :
    ∃ msgs, file = framed msgs ∧ ∀ m ∈ msgs, m.Tagged := by
  obtain ⟨msgs, r, rfl, tagged, invalid⟩ := exists_frames file
  obtain ⟨left, seen, parsed⟩ := accepted
  obtain ⟨left', streamed⟩ := parseStream_framed record (by simp [record]) msgs tagged r invalid []
  rw [streamed] at parsed
  obtain ⟨_, _, equal⟩ := Option.map_eq_some_iff.mp parsed
  have nothing : r = [] := (verdict_ok r).mp (congrArg Prod.fst equal)
  rw [nothing, List.append_nil]
  exact ⟨msgs, rfl, tagged⟩

/-- Packets of frames deliver what the frames in a row do. -/
theorem parseEach_framed {σ : Type} (on : Handler σ)
    (neverBreaks : ∀ kind msg s s', on kind msg s ≠ some (.Break, s'))
    (contents : List (List Message)) (tagged : ∀ m ∈ contents.flatten, m.Tagged) (s : σ) :
    parseEach on (contents.map framed) s = deliver on contents.flatten s := by
  -- packet by packet: each call of the parser uses its bytes up and leaves the handler to the next
  induction contents generalizing s with
  | nil => rfl
  | cons ms contents ih =>
    rw [List.flatten_cons] at tagged
    obtain ⟨left, streamed⟩ := parseStream_framed on neverBreaks ms
      (fun m member => tagged m (List.mem_append_left _ member)) [] noFrame_nil s
    rw [List.append_nil] at streamed
    rw [List.map_cons, List.flatten_cons, deliver_append, parseEach, streamed]
    cases deliver on ms s with
    | none => rfl
    | some s' => exact ih (fun m member => tagged m (List.mem_append_right _ member)) s'

/-- Lists that together are an image are images of lists. -/
theorem exists_map_of_flatten {α β : Type} (f : α → β) (chunks : List (List β)) (l : List α)
    (whole : chunks.flatten = l.map f) :
    ∃ parts : List (List α), parts.flatten = l ∧ chunks = parts.map (List.map f) := by
  induction chunks generalizing l with
  | nil =>
    rw [List.map_eq_nil_iff.mp whole.symm]
    exact ⟨[], rfl, rfl⟩
  | cons chunk chunks ih =>
    rw [List.flatten_cons] at whole
    obtain ⟨first, rest, rfl, rfl, onwards⟩ := List.map_eq_append_iff.mp whole.symm
    obtain ⟨parts, rfl, rfl⟩ := ih rest onwards.symm
    exact ⟨first :: parts, rfl, rfl⟩

/-! ### The sender -/

/-- The data bytes of a packet are the blocks of its messages. -/
theorem dataOf_packetBytes (session : Session) (seqNum : Nat) (msgs : List (List UInt8))
    (seq : seqNum < 2 ^ 64) (nonempty : msgs ≠ []) (count : msgs.length < 65535) :
    dataOf (packetBytes session seqNum msgs) = some (blocks msgs) := by
  have parsed := Packet.parse_header session seqNum msgs.length (blocks msgs) seq (by omega)
  have standard : Packet.packetKind ⟨session, seqNum, msgs.length, blocks msgs⟩ = .Standard := by
    have some_messages := List.length_pos_iff.mpr nonempty
    rw [Packet.packetKind_standard, heartbeatIdent, endOfSessionIdent]
    exact ⟨Nat.ne_of_gt some_messages, Nat.ne_of_lt count⟩
  simp only [dataOf, packetBytes, parsed, standard, if_true]

/-- A heartbeat carries no data. -/
theorem dataOf_heartbeat (session : Session) (seqNum : Nat) (seq : seqNum < 2 ^ 64) :
    dataOf (buildSpecial session seqNum heartbeatIdent) = none := by
  have parsed := Packet.parse_header session seqNum heartbeatIdent [] seq (by decide)
  rw [List.append_nil] at parsed
  simp only [dataOf, buildSpecial]
  rw [Packet.header] at parsed
  rw [parsed]
  rfl

/-- The data packets of one send hold its messages, in chunks. -/
private theorem send_data (profile : Profile) (maxPayload : Nat) (limit : maxPayload < 65535)
    (server : Sender) (running : server.stopped = false) (seq : server.nextSeq < 2 ^ 64)
    (msgs : List (List UInt8)) (each : ∀ m ∈ msgs, m ≠ [] ∧ m.length < 2 ^ 16)
    (room : profile = .debug → server.nextSeq + msgs.length < 2 ^ 64) :
    ∃ packets server', ∃ chunks : List (List (List UInt8)),
      senderStep profile maxPayload server (.Ok (.Send msgs)) = some (packets, server') ∧
      server'.stopped = false ∧
      profile.add 64 server.nextSeq msgs.length = some server'.nextSeq ∧
      packets.filterMap dataOf = chunks.map blocks ∧ chunks.flatten = msgs := by
  by_cases empty : msgs = []
  · subst empty
    refine ⟨[], server, [], ?_, running, profile.add_eq seq, rfl, rfl⟩
    simp only [senderStep, running, Bool.false_eq_true, if_false, if_true]
  · obtain ⟨nextSeq, added⟩ := (profile.add_isSome_iff 64 _ _).mpr room
    obtain ⟨log, stepped⟩ := senderStep_send profile maxPayload limit server running msgs empty
      each nextSeq added
    obtain ⟨all, full⟩ := chunkMessages_spec msgs maxPayload
    refine ⟨_, _, chunkMessages msgs maxPayload, stepped, running, added, ?_, all⟩
    rw [List.filterMap_map, List.filterMap_eq_map_iff_forall_eq_some]
    intro chunk member
    obtain ⟨count, _⟩ := chunk_bounds maxPayload limit msgs each chunk member
    exact dataOf_packetBytes server.session server.nextSeq chunk seq (full chunk member).1 count

/-- The data packets of a run of sends hold the messages of all of them, in order. -/
private theorem run_data (profile : Profile) (maxPayload : Nat) (limit : maxPayload < 65535)
    (server : Sender) (running : server.stopped = false) (seq : server.nextSeq < 2 ^ 64)
    (events : List Received) (batches : List (List (List UInt8)))
    (commands : events.filterMap command = batches.map ServerCommand.Send)
    (each : ∀ m ∈ batches.flatten, m ≠ [] ∧ m.length < 2 ^ 16)
    (room : profile = .debug → server.nextSeq + batches.flatten.length < 2 ^ 64) :
    ∃ packets server', ∃ chunks : List (List (List UInt8)),
      run (senderStep profile maxPayload) server events = some (packets, server') ∧
      packets.flatten.filterMap dataOf = chunks.map blocks ∧
      chunks.flatten = batches.flatten := by
  -- on what the loop receives: a tick sends no data, and a command is the next batch
  induction events generalizing server batches with
  | nil =>
    rw [List.map_eq_nil_iff.mp commands.symm]
    exact ⟨[], server, [], rfl, rfl, rfl⟩
  | cons event events ih =>
    cases event with
    | Timeout =>
      obtain ⟨packets, server', chunks, returned, data, all⟩ :=
        ih server running seq batches commands each room
      refine ⟨[sendPeriodic server] :: packets, server', chunks, ?_, ?_, all⟩
      · rw [run_cons_of_step (senderStep profile maxPayload) server server .Timeout events
          [sendPeriodic server] rfl, returned]
        rfl
      · have heartbeat : dataOf (sendPeriodic server) = none := by
          rw [sendPeriodic, running]
          exact dataOf_heartbeat server.session server.nextSeq seq
        rw [List.flatten_cons, List.singleton_append, List.filterMap_cons_none heartbeat, data]
    | Ok c =>
      obtain ⟨msgs, rest, rfl, rfl, later⟩ := List.map_eq_cons_iff.mp commands.symm
      rw [List.flatten_cons] at each room
      rw [List.length_append] at room
      obtain ⟨first, middle, firstChunks, stepped, running', added, firstData, firstAll⟩ :=
        send_data profile maxPayload limit server running seq msgs
          (fun m member => each m (List.mem_append_left _ member)) (fun debug => by
            have space := room debug
            omega)
      have space : profile = .debug → middle.nextSeq + rest.flatten.length < 2 ^ 64 := by
        intro debug
        have fits := room debug
        rw [profile.add_eq (by omega)] at added
        rw [← Option.some.inj added]
        omega
      obtain ⟨packets, server', chunks, returned, data, all⟩ :=
        ih middle running' (Profile.add_lt added) rest later.symm
          (fun m member => each m (List.mem_append_right _ member)) space
      refine ⟨first :: packets, server', firstChunks ++ chunks, ?_, ?_, ?_⟩
      · rw [run_cons_of_step _ _ _ _ _ _ stepped, returned]
        rfl
      · rw [List.flatten_cons, List.filterMap_append, firstData, data, List.map_append]
      · rw [List.flatten_append, firstAll, all, List.flatten_cons]

/-- Every frame takes bytes of the file. -/
theorem length_le_framed (msgs : List Message) : msgs.length ≤ (framed msgs).length := by
  induction msgs with
  | nil => exact Nat.le_refl 0
  | cons m ms ih =>
    rw [framed_cons, List.length_append, length_block, List.length_cons]
    omega

/-- Replaying an accepted file in batches of any sizes, through a server with any limit on its
packets and any heartbeats in between, sends data packets that together hold the bytes of the
file; parsing them one by one delivers what parsing the file does. -/
theorem transport_transparent (profile : Profile) (maxPayload : Nat) (limit : maxPayload < 65535)
    (server : Sender) (running : server.stopped = false) (seq : server.nextSeq < 2 ^ 64)
    (file : List UInt8) (accepted : Accepted file)
    (room : profile = .debug → server.nextSeq + file.length < 2 ^ 64)
    (maxMsgs : Nat) (random : Nat → Fin maxMsgs) (events : List Received)
    (commands : events.filterMap command = replay false random file) :
    ∃ packets server', run (senderStep profile maxPayload) server events =
        some (packets, server') ∧
      (packets.flatten.filterMap dataOf).flatten = file ∧
      ∀ (σ : Type) (on : Handler σ), (∀ kind msg s s', on kind msg s ≠ some (.Break, s')) →
        ∀ s, parseEach on (packets.flatten.filterMap dataOf) s =
          (parseStream on file s).map fun (_, _, s') => s' := by
  obtain ⟨msgs, rfl, tagged⟩ := accepted_framed file accepted
  obtain ⟨batches, sends, bodies⟩ := replay_framed random msgs tagged
  rw [sends] at commands
  have each : ∀ m ∈ batches.flatten, m ≠ [] ∧ m.length < 2 ^ 16 := by
    rw [bodies]
    intro bytes member
    obtain ⟨m, _, rfl⟩ := List.mem_map.mp member
    have bounds := m.1.len_bounds
    rw [← m.2.length] at bounds
    exact ⟨List.ne_nil_of_length_pos (by omega), m.2.fits⟩
  have counted : batches.flatten.length ≤ (framed msgs).length := by
    rw [bodies, List.length_map]
    exact length_le_framed msgs
  obtain ⟨packets, server', chunks, returned, data, all⟩ := run_data profile maxPayload limit
    server running seq events batches commands each (fun debug => by
      have space := room debug
      omega)
  rw [bodies] at all
  -- no chunk splits a message, so each packet holds the frames of a run of the messages
  obtain ⟨parts, whole, split⟩ := exists_map_of_flatten (fun m : Message => m.2.bytes) chunks msgs
    all
  have packed : packets.flatten.filterMap dataOf = parts.map framed := by
    rw [data, split, List.map_map]
    rfl
  refine ⟨packets, server', returned, ?_, ?_⟩
  · rw [data, ← blocks_flatten, all]
    rfl
  · intro σ on neverBreaks s
    obtain ⟨left, streamed⟩ := parseStream_framed on neverBreaks msgs tagged [] noFrame_nil s
    rw [List.append_nil] at streamed
    rw [packed, parseEach_framed on neverBreaks parts (by rwa [whole]), whole, streamed,
      Option.map_map]
    exact Option.map_id'.symm

/-- Three cancels, in a batch of two and a last one of one, each in a packet of its own. -/
theorem transport_transparent_sample :
    ∃ packets server', run (senderStep .debug 30) ⟨padSession [65, 66], ∅, 1, false⟩
        [.Ok (.Send [cancel10.2.bytes, cancel10.2.bytes]), .Timeout,
          .Ok (.Send [cancel10.2.bytes])] =
          some (packets, server') ∧
      (packets.flatten.filterMap dataOf).flatten = framed [cancel10, cancel10, cancel10] := by
  have accepted : Accepted (framed [cancel10, cancel10, cancel10]) := by
    obtain ⟨left, streamed⟩ := parseStream_framed record (by simp [record])
      [cancel10, cancel10, cancel10] (by decide) [] noFrame_nil []
    rw [List.append_nil] at streamed
    exact ⟨left, _, streamed⟩
  obtain ⟨packets, server', returned, whole, _⟩ := transport_transparent .debug 30 (by decide)
    ⟨padSession [65, 66], ∅, 1, false⟩ rfl (by decide) (framed [cancel10, cancel10, cancel10])
    accepted (by decide) 2 (fun _ => 1)
    [.Ok (.Send [cancel10.2.bytes, cancel10.2.bytes]), .Timeout, .Ok (.Send [cancel10.2.bytes])]
    (by decide +kernel)
  exact ⟨packets, server', returned, whole⟩

end Hftrs.App
