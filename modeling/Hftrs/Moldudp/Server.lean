import Std.Data.ExtTreeMap
import Hftrs.Library.Traverse
import Hftrs.Moldudp.Packet
import Hftrs.Profile

/-! The server's sender loop. A panic is `none`; the socket is the list of datagrams sent. -/
namespace Hftrs.Moldudp

open Hftrs.Library

/-- `u16::try_from(n).expect(..)` -/
def expectU16 (n : Nat) : Option Nat := if n < 2 ^ 16 then some n else none

def buildPacket (session : Session) (seqNum : Nat) (msgs : List (List UInt8)) :
    Option (List UInt8) := do
  let count ← expectU16 msgs.length
  let bodies ← msgs.mapM fun m => do
    let len ← expectU16 m.length
    return encode 2 len ++ m
  return session.bytes ++ encode 8 seqNum ++ encode 2 count ++ bodies.flatten

def buildSpecial (session : Session) (seqNum msgCount : Nat) : List UInt8 :=
  session.bytes ++ encode 8 seqNum ++ encode 2 msgCount

/-! ### Chunking -/

/-- The state of the loop of `chunk_messages`. -/
structure Chunking where
  chunks : List (List (List UInt8))
  current : List (List UInt8)
  currentSize : Nat

def Chunking.push (chunkSize : Nat) (state : Chunking) (msg : List UInt8) : Chunking :=
  -- flush the current chunk if adding would overflow; a message above the limit goes alone
  let state :=
    if state.current ≠ [] ∧ state.currentSize + msg.length > chunkSize then
      ⟨state.chunks ++ [state.current], [], 0⟩
    else state
  { state with
    current := state.current ++ [msg]
    currentSize := state.currentSize + msg.length }

def chunkMessages (msgs : List (List UInt8)) (chunkSize : Nat) : List (List (List UInt8)) :=
  let state := msgs.foldl (Chunking.push chunkSize) ⟨[], [], 0⟩
  if state.current ≠ [] then state.chunks ++ [state.current] else state.chunks

/-! ### The sender loop -/

/-- The largest payload of a packet, unless the builder is told otherwise. -/
def defaultMaxPayload : Nat := 1452

inductive ServerCommand where
  | Send (msgs : List (List UInt8))
  | SendDropped (msgs : List (List UInt8))
  | Heartbeat
  | EndOfSession
  | StopSession
  | ChangeSession (session : List UInt8)
  deriving DecidableEq, Repr

/-- What the loop receives: a command, or the tick of the heartbeat interval. -/
inductive Received where
  | Ok (command : ServerCommand)
  | Timeout
  deriving DecidableEq, Repr

structure Sender where
  session : Session
  log : Std.ExtTreeMap Nat (List UInt8) compare
  nextSeq : Nat
  stopped : Bool

def padSession (s : List UInt8) : Session where
  bytes := s.take 10 ++ List.replicate (10 - s.length) 32
  length := by rw [List.length_append, List.length_take, List.length_replicate]; omega

def storeMessages (profile : Profile) (log : Std.ExtTreeMap Nat (List UInt8) compare)
    (startSeq : Nat) (msgs : List (List UInt8)) :
    Option (Std.ExtTreeMap Nat (List UInt8) compare) :=
  msgs.zipIdx.foldlM (fun log (m, i) => do
    let key ← profile.add 64 startSeq i
    return log.insert key m) log

def sendPeriodic (sender : Sender) : List UInt8 :=
  buildSpecial sender.session sender.nextSeq
    (if sender.stopped then endOfSessionIdent else heartbeatIdent)

/-- One turn of the loop: the datagrams it sends and the state it leaves. -/
def senderStep (profile : Profile) (maxPayload : Nat) (sender : Sender) :
    Received → Option (List (List UInt8) × Sender)
  | .Ok (.Send msgs) =>
    if sender.stopped then some ([], sender)
    else if msgs = [] then some ([], sender)
    else do
      let pktSeq := sender.nextSeq
      -- logged message by message, from the number of the first one on
      let log ← storeMessages profile sender.log pktSeq msgs
      let nextSeq ← profile.add 64 sender.nextSeq msgs.length
      -- every chunk is sent under `pkt_seq`, which the loop over the chunks does not advance
      let packets ← (chunkMessages msgs maxPayload).mapM (buildPacket sender.session pktSeq)
      return (packets, { sender with log, nextSeq })
  | .Ok (.SendDropped msgs) =>
    if sender.stopped then some ([], sender)
    else if msgs = [] then some ([], sender)
    -- logged and numbered as sent, so that the messages can be asked for
    else do
      let log ← storeMessages profile sender.log sender.nextSeq msgs
      let nextSeq ← profile.add 64 sender.nextSeq msgs.length
      return ([], { sender with log, nextSeq })
  | .Ok .Heartbeat => some ([sendPeriodic sender], sender)
  | .Ok .EndOfSession =>
    some ([buildSpecial sender.session sender.nextSeq endOfSessionIdent], sender)
  | .Ok (.ChangeSession s) =>
    if sender.stopped then some ([], sender)
    else some ([], { sender with session := padSession s })
  | .Ok .StopSession => some ([], { sender with stopped := true })
  | .Timeout => some ([sendPeriodic sender], sender)

/-! ### Packets -/

/-- A packet within the 16-bit counts is its header and the blocks of its messages. -/
theorem buildPacket_eq (session : Session) (seqNum : Nat) (msgs : List (List UInt8))
    (count : msgs.length < 2 ^ 16) (lengths : ∀ m ∈ msgs, m.length < 2 ^ 16) :
    buildPacket session seqNum msgs =
      some (Packet.header session seqNum msgs.length ++ blocks msgs) := by
  have bodies : (msgs.mapM fun m => do
      let len ← expectU16 m.length
      return encode 2 len ++ m : Option (List (List UInt8))) = some (msgs.map block) := by
    apply mapM_eq_some_map
    intro m member
    have len : expectU16 m.length = some m.length := if_pos (lengths m member)
    rw [len]
    rfl
  have counted : expectU16 msgs.length = some msgs.length := if_pos count
  rw [buildPacket, bodies, counted]
  rfl

/-! ### Chunks -/

/-- The payload bytes of the messages. -/
def payload (msgs : List (List UInt8)) : Nat := (msgs.map List.length).sum

/-- One message, or messages within the limit. -/
def Fits (chunkSize : Nat) (msgs : List (List UInt8)) : Prop :=
  msgs.length ≤ 1 ∨ payload msgs ≤ chunkSize

@[simp] theorem payload_nil : payload [] = 0 := rfl

@[simp] theorem payload_cons (m : List UInt8) (ms : List (List UInt8)) :
    payload (m :: ms) = m.length + payload ms := by
  rw [payload, List.map_cons, List.sum_cons, payload]

@[simp] theorem payload_append (xs ys : List (List UInt8)) :
    payload (xs ++ ys) = payload xs + payload ys := by
  rw [payload, List.map_append, List.sum_append, payload, payload]

/-- What the loop of `chunk_messages` keeps: the messages so far in order, in chunks that fit. -/
structure Chunking.Inv (chunkSize : Nat) (state : Chunking) (msgs : List (List UInt8)) : Prop where
  all : state.chunks.flatten ++ state.current = msgs
  size : state.currentSize = payload state.current
  full : ∀ chunk ∈ state.chunks, chunk ≠ [] ∧ Fits chunkSize chunk
  last : Fits chunkSize state.current

private theorem push_inv (chunkSize : Nat) (state : Chunking) (msgs : List (List UInt8))
    (inv : state.Inv chunkSize msgs) (msg : List UInt8) :
    (state.push chunkSize msg).Inv chunkSize (msgs ++ [msg]) := by
  obtain ⟨all, size, full, last⟩ := inv
  unfold Chunking.push
  split
  next flush =>
    -- the chunk is complete, and the message starts the next one
    refine ⟨?_, by simp, ?_, Or.inl (Nat.le_refl 1)⟩
    · simp [← all]
    · intro chunk member
      rcases List.mem_append.mp member with old | new
      · exact full chunk old
      · rw [List.mem_singleton.mp new]
        exact ⟨flush.1, last⟩
  next stay =>
    refine ⟨?_, ?_, full, ?_⟩
    · simp [← all]
    · simp [size]
    · -- the message joins an empty chunk, or one with room for it
      by_cases empty : state.current = []
      · left; simp [empty]
      · right
        have room : ¬state.currentSize + msg.length > chunkSize :=
          fun excess => stay ⟨empty, excess⟩
        rw [size] at room
        simp only [payload_append, payload_cons, payload_nil]
        omega

private theorem foldl_inv (chunkSize : Nat) (msgs done : List (List UInt8)) (state : Chunking)
    (inv : state.Inv chunkSize done) :
    (msgs.foldl (Chunking.push chunkSize) state).Inv chunkSize (done ++ msgs) := by
  -- on the messages that are left, the invariant holding for those that are done
  induction msgs generalizing done state with
  | nil => rwa [List.append_nil]
  | cons msg msgs ih =>
    have next := ih (done ++ [msg]) (state.push chunkSize msg)
      (push_inv chunkSize state done inv msg)
    rwa [List.append_assoc] at next

/-- The chunks hold the messages in order; each is non-empty and fits. -/
theorem chunkMessages_spec (msgs : List (List UInt8)) (chunkSize : Nat) :
    (chunkMessages msgs chunkSize).flatten = msgs ∧
      ∀ chunk ∈ chunkMessages msgs chunkSize, chunk ≠ [] ∧ Fits chunkSize chunk := by
  have initial : Chunking.Inv chunkSize ⟨[], [], 0⟩ [] :=
    ⟨rfl, rfl, by simp, Or.inl (Nat.zero_le 1)⟩
  obtain ⟨all, _, full, last⟩ := foldl_inv chunkSize msgs [] ⟨[], [], 0⟩ initial
  rw [List.nil_append] at all
  simp only [chunkMessages]
  generalize msgs.foldl (Chunking.push chunkSize) ⟨[], [], 0⟩ = state at all full last
  split
  next nonempty =>
    constructor
    · rw [List.flatten_append]
      simpa using all
    · intro chunk member
      rcases List.mem_append.mp member with old | new
      · exact full chunk old
      · rw [List.mem_singleton.mp new]
        exact ⟨nonempty, last⟩
  next empty =>
    rw [not_not.mp empty, List.append_nil] at all
    exact ⟨all, full⟩

private theorem foldl_fits (chunkSize : Nat) (msgs : List (List UInt8)) (state : Chunking)
    (room : state.currentSize + payload msgs ≤ chunkSize) :
    msgs.foldl (Chunking.push chunkSize) state =
      ⟨state.chunks, state.current ++ msgs, state.currentSize + payload msgs⟩ := by
  -- no flush on the way: what is left still has room
  induction msgs generalizing state with
  | nil => simp
  | cons msg msgs ih =>
    rw [payload_cons] at room
    have stay : ¬(state.current ≠ [] ∧ state.currentSize + msg.length > chunkSize) := by omega
    have pushed : state.push chunkSize msg =
        ⟨state.chunks, state.current ++ [msg], state.currentSize + msg.length⟩ := by
      simp only [Chunking.push, if_neg stay]
    rw [List.foldl_cons, pushed, ih _ (by simp only; omega), payload_cons]
    simp [Nat.add_assoc]

/-- Messages stay in one chunk exactly when they fit. -/
theorem chunkMessages_single (msgs : List (List UInt8)) (chunkSize : Nat) (nonempty : msgs ≠ []) :
    chunkMessages msgs chunkSize = [msgs] ↔ Fits chunkSize msgs := by
  constructor
  · intro single
    exact ((chunkMessages_spec msgs chunkSize).2 msgs (by simp [single])).2
  · rintro (one | small)
    · obtain ⟨m, rfl⟩ := List.length_eq_one_iff.mp
        (Nat.le_antisymm one (List.length_pos_iff.mpr nonempty))
      simp [chunkMessages, Chunking.push]
    · rw [chunkMessages, foldl_fits chunkSize msgs _ (by simpa using small)]
      simp [nonempty]

/-! ### Sends -/

/-- The bytes of the packet with a sequence number and some messages. -/
def packetBytes (session : Session) (seqNum : Nat) (msgs : List (List UInt8)) : List UInt8 :=
  Packet.header session seqNum msgs.length ++ blocks msgs

theorem length_le_payload (msgs : List (List UInt8)) (nonempty : ∀ m ∈ msgs, m ≠ []) :
    msgs.length ≤ payload msgs := by
  induction msgs with
  | nil => exact Nat.le_refl 0
  | cons m ms ih =>
    have first : 0 < m.length := List.length_pos_iff.mpr (nonempty m (by simp))
    have others := ih fun n member => nonempty n (by simp [member])
    rw [List.length_cons, payload_cons]
    omega

/-- The chunks of a regular send are within the 16-bit counts of a packet. -/
theorem chunk_bounds (maxPayload : Nat) (limit : maxPayload < 65535) (msgs : List (List UInt8))
    (each : ∀ m ∈ msgs, m ≠ [] ∧ m.length < 2 ^ 16) (chunk : List (List UInt8))
    (member : chunk ∈ chunkMessages msgs maxPayload) :
    chunk.length < 65535 ∧ ∀ m ∈ chunk, m.length < 2 ^ 16 := by
  obtain ⟨all, full⟩ := chunkMessages_spec msgs maxPayload
  have inside : ∀ m ∈ chunk, m ∈ msgs := by
    intro m hm
    rw [← all]
    exact List.mem_flatten.mpr ⟨chunk, member, hm⟩
  constructor
  · rcases (full chunk member).2 with one | small
    · omega
    -- messages are not empty, so there are no more of them than payload bytes
    · have counted := length_le_payload chunk fun m hm => (each m (inside m hm)).1
      omega
  · exact fun m hm => (each m (inside m hm)).2

theorem storeMessages_isSome (profile : Profile) (startSeq : Nat) (msgs : List (List UInt8))
    (log : Std.ExtTreeMap Nat (List UInt8) compare)
    (room : profile = .debug → startSeq + msgs.length < 2 ^ 64) :
    ∃ log', storeMessages profile log startSeq msgs = some log' := by
  have bounded : ∀ p ∈ msgs.zipIdx, profile = .debug → startSeq + p.2 < 2 ^ 64 := by
    intro p member debug
    have index := List.snd_lt_of_mem_zipIdx member
    have space := room debug
    omega
  rw [storeMessages]
  generalize msgs.zipIdx = pairs at bounded ⊢
  induction pairs generalizing log with
  | nil => exact ⟨log, rfl⟩
  | cons p ps ih =>
    obtain ⟨key, added⟩ := (profile.add_isSome_iff 64 startSeq p.2).mpr (bounded p (by simp))
    obtain ⟨log', stored⟩ := ih (log.insert key p.1) fun q member => bounded q (by simp [member])
    refine ⟨log', ?_⟩
    simp only [List.foldlM_cons, added]
    exact stored

/-- A send that does not overflow logs the messages and sends each chunk under the number of
the first message of all. -/
theorem senderStep_send (profile : Profile) (maxPayload : Nat) (limit : maxPayload < 65535)
    (server : Sender) (running : server.stopped = false) (msgs : List (List UInt8))
    (some_msgs : msgs ≠ []) (each : ∀ m ∈ msgs, m ≠ [] ∧ m.length < 2 ^ 16) (nextSeq : Nat)
    (added : profile.add 64 server.nextSeq msgs.length = some nextSeq) :
    ∃ log, senderStep profile maxPayload server (.Ok (.Send msgs)) =
      some ((chunkMessages msgs maxPayload).map (packetBytes server.session server.nextSeq),
        { server with log, nextSeq }) := by
  have room := (profile.add_isSome_iff 64 server.nextSeq msgs.length).mp ⟨nextSeq, added⟩
  obtain ⟨log, stored⟩ := storeMessages_isSome profile server.nextSeq msgs server.log room
  have packets : (chunkMessages msgs maxPayload).mapM (buildPacket server.session server.nextSeq) =
      some ((chunkMessages msgs maxPayload).map (packetBytes server.session server.nextSeq)) := by
    apply mapM_eq_some_map
    intro chunk member
    obtain ⟨count, lengths⟩ := chunk_bounds maxPayload limit msgs each chunk member
    exact buildPacket_eq server.session server.nextSeq chunk (by omega) lengths
  refine ⟨log, ?_⟩
  simp only [senderStep, running, Bool.false_eq_true, if_false, some_msgs, stored, added, packets]
  rfl

/-- A send that overflows under the debug profile panics. -/
theorem senderStep_send_panics (profile : Profile) (maxPayload : Nat) (server : Sender)
    (running : server.stopped = false) (msgs : List (List UInt8)) (some_msgs : msgs ≠ [])
    (refused : profile.add 64 server.nextSeq msgs.length = none) :
    senderStep profile maxPayload server (.Ok (.Send msgs)) = none := by
  simp only [senderStep, running, Bool.false_eq_true, if_false, some_msgs, refused]
  cases storeMessages profile server.log server.nextSeq msgs <;> rfl

end Hftrs.Moldudp
