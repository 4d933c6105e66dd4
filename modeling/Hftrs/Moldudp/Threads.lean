import Hftrs.Moldudp.Responder

/-! The server's two threads, interleaved.

The sender loop and the re-request loop share the log behind a mutex. A step is what one thread
does between two points where the other can act: a critical section with the local work around it,
or the sending of one datagram. A step that its thread is not ready for changes nothing. -/
namespace Hftrs.Moldudp

open Hftrs.Library

/-- Where the sender loop is: waiting for a command, sending the chunks that are left of one, or
gone after a panic. -/
inductive SenderPhase where
  | idle
  | sending (pktSeq : Nat) (chunks : List (List (List UInt8)))
  | dead
  deriving DecidableEq

/-- Where the re-request loop is. -/
inductive ReplyPhase where
  | idle
  | replying (startSeq : Nat) (chunks : List (List (List UInt8)))
  | dead
  deriving DecidableEq

structure Threads where
  sender : Sender
  phase : SenderPhase
  -- the copy of the session that the re-request loop was started with
  session : Session
  replies : ReplyPhase
  -- a panic in a critical section poisons the mutex, and then locking it panics
  poisoned : Bool
  sent : List (List UInt8)
  replied : List (List UInt8)
  -- a record of the messages taken so far, each with the sender's session when it was taken
  taken : List (Session × List UInt8)

/-- What the two threads do next. -/
inductive ThreadStep where
  | receive (received : Received)
  | send
  | request (datagram : List UInt8)
  | reply
  deriving DecidableEq

/-- The messages that a command stores. -/
def Sender.accepts (sender : Sender) : Received → List (List UInt8)
  | .Ok (.Send msgs) => if sender.stopped then [] else msgs
  | .Ok (.SendDropped msgs) => if sender.stopped then [] else msgs
  | _ => []

namespace Threads

/-- The entries that a step adds to the record. -/
def takes (threads : Threads) : ThreadStep → List (Session × List UInt8)
  | .receive received =>
    if threads.phase = .idle then
      (threads.sender.accepts received).map fun m => (threads.sender.session, m)
    else []
  | _ => []

def start (session : Session) (seqNum : Nat) : Threads where
  sender := ⟨session, ∅, seqNum, false⟩
  phase := .idle
  session
  replies := .idle
  poisoned := false
  sent := []
  replied := []
  taken := []

/-- `store_messages` and the advance of `next_seq`, with the phase that follows. -/
def store (profile : Profile) (threads : Threads) (msgs : List (List UInt8))
    (onwards : SenderPhase) : Threads :=
  let taken := threads.taken ++ msgs.map fun m => (threads.sender.session, m)
  if threads.poisoned then { threads with phase := .dead, taken }
  else
    match storeMessages profile threads.sender.log threads.sender.nextSeq msgs with
    -- nobody reads what was stored before the panic
    | none => { threads with phase := .dead, poisoned := true, taken }
    | some log =>
      match profile.add 64 threads.sender.nextSeq msgs.length with
      | none => { threads with sender := { threads.sender with log }, phase := .dead, taken }
      | some nextSeq =>
        { threads with sender := { threads.sender with log, nextSeq }, phase := onwards, taken }

def receive (profile : Profile) (maxPayload : Nat) (threads : Threads) : Received → Threads
  | .Ok (.Send msgs) =>
    if threads.sender.stopped then threads
    else if msgs = [] then threads
    else
      threads.store profile msgs
        (.sending threads.sender.nextSeq (chunkMessages msgs maxPayload))
  | .Ok (.SendDropped msgs) =>
    if threads.sender.stopped then threads
    else if msgs = [] then threads
    else threads.store profile msgs .idle
  | .Ok .Heartbeat => { threads with sent := threads.sent ++ [sendPeriodic threads.sender] }
  | .Ok .EndOfSession =>
    { threads with sent := threads.sent ++
        [buildSpecial threads.sender.session threads.sender.nextSeq endOfSessionIdent] }
  | .Ok (.ChangeSession s) =>
    if threads.sender.stopped then threads
    else { threads with sender := { threads.sender with session := padSession s } }
  | .Ok .StopSession => { threads with sender := { threads.sender with stopped := true } }
  | .Timeout => { threads with sent := threads.sent ++ [sendPeriodic threads.sender] }

/-- The re-request loop reads the log, which it has locked. -/
def request (profile : Profile) (maxPayload : Nat) (threads : Threads)
    (datagram : List UInt8) : Threads :=
  match readRequest threads.session datagram with
  | none => threads
  | some (startSeq, want) =>
    if threads.poisoned then { threads with replies := .dead }
    else
      match collect profile threads.sender.log startSeq want 0 with
      | none => { threads with replies := .dead, poisoned := true }
      | some msgs =>
        { threads with replies := .replying startSeq (chunkMessages msgs maxPayload) }

def step (profile : Profile) (maxPayload : Nat) (threads : Threads) : ThreadStep → Threads
  | .receive received =>
    match threads.phase with
    | .idle => threads.receive profile maxPayload received
    | _ => threads
  | .send =>
    match threads.phase with
    | .sending _ [] => { threads with phase := .idle }
    | .sending pktSeq (chunk :: chunks) =>
      match buildPacket threads.sender.session pktSeq chunk with
      | none => { threads with phase := .dead }
      | some packet =>
        { threads with phase := .sending pktSeq chunks, sent := threads.sent ++ [packet] }
    | _ => threads
  | .request datagram =>
    match threads.replies with
    | .idle => threads.request profile maxPayload datagram
    | _ => threads
  | .reply =>
    match threads.replies with
    | .replying _ [] => { threads with replies := .idle }
    | .replying startSeq (chunk :: chunks) =>
      match buildPacket threads.session startSeq chunk with
      | none => { threads with replies := .dead }
      | some packet =>
        { threads with
          replies := .replying startSeq chunks
          replied := threads.replied ++ [packet] }
    | _ => threads

/-- The threads after an interleaving of their steps. -/
def run (profile : Profile) (maxPayload : Nat) (threads : Threads) (steps : List ThreadStep) :
    Threads :=
  steps.foldl (step profile maxPayload) threads

theorem run_append (profile : Profile) (maxPayload : Nat) (threads : Threads)
    (steps more : List ThreadStep) :
    threads.run profile maxPayload (steps ++ more) =
      (threads.run profile maxPayload steps).run profile maxPayload more :=
  List.foldl_append

/-! ### The record of what was taken -/

/-- The messages taken so far, in order. -/
def kept (threads : Threads) : List (List UInt8) := threads.taken.map Prod.snd

@[simp] theorem length_kept (threads : Threads) : threads.kept.length = threads.taken.length :=
  List.length_map _

theorem store_taken (profile : Profile) (threads : Threads) (msgs : List (List UInt8))
    (onwards : SenderPhase) :
    (threads.store profile msgs onwards).taken =
      threads.taken ++ msgs.map fun m => (threads.sender.session, m) := by
  simp only [Threads.store]
  repeat' split
  all_goals rfl

/-- The record holds what the sender accepts. -/
theorem receive_taken (profile : Profile) (maxPayload : Nat) (threads : Threads)
    (received : Received) :
    (threads.receive profile maxPayload received).taken =
      threads.taken ++ (threads.sender.accepts received).map
        fun m => (threads.sender.session, m) := by
  unfold Threads.receive Sender.accepts
  split
  next msgs =>
    split
    next => exact (List.append_nil _).symm
    next =>
      split
      next empty => rw [empty]; exact (List.append_nil _).symm
      next => exact threads.store_taken profile msgs _
  next msgs =>
    split
    next => exact (List.append_nil _).symm
    next =>
      split
      next empty => rw [empty]; exact (List.append_nil _).symm
      next => exact threads.store_taken profile msgs _
  next => exact (List.append_nil _).symm
  next => exact (List.append_nil _).symm
  next => split <;> exact (List.append_nil _).symm
  next => exact (List.append_nil _).symm
  next => exact (List.append_nil _).symm

theorem request_taken (profile : Profile) (maxPayload : Nat) (threads : Threads)
    (datagram : List UInt8) :
    (threads.request profile maxPayload datagram).taken = threads.taken := by
  simp only [Threads.request]
  repeat' split
  all_goals rfl

theorem step_taken (profile : Profile) (maxPayload : Nat) (threads : Threads)
    (move : ThreadStep) :
    (threads.step profile maxPayload move).taken = threads.taken ++ threads.takes move := by
  have same : threads.taken = threads.taken ++ [] := (List.append_nil _).symm
  cases move with
  | receive received =>
    simp only [Threads.step, takes]
    split
    next idle => rw [receive_taken, if_pos idle]
    next busy => rwa [if_neg busy]
  | request datagram =>
    simp only [Threads.step, takes]
    split
    next => rwa [request_taken]
    next => exact same
  | send =>
    simp only [Threads.step, takes]
    repeat' split
    all_goals exact same
  | reply =>
    simp only [Threads.step, takes]
    repeat' split
    all_goals exact same

/-- The entries that the steps of an interleaving add to the record, one after the other. -/
def allTakes (profile : Profile) (maxPayload : Nat) :
    Threads → List ThreadStep → List (Session × List UInt8)
  | _, [] => []
  | threads, move :: moves =>
    threads.takes move ++ allTakes profile maxPayload (threads.step profile maxPayload move) moves

/-- The record is what the steps took, each from where those before it left the threads. -/
theorem run_taken (profile : Profile) (maxPayload : Nat) (threads : Threads)
    (steps : List ThreadStep) :
    (threads.run profile maxPayload steps).taken =
      threads.taken ++ allTakes profile maxPayload threads steps := by
  induction steps generalizing threads with
  | nil => exact (List.append_nil _).symm
  | cons move steps ih =>
    rw [allTakes, ← List.append_assoc, ← threads.step_taken profile maxPayload move]
    exact ih _

/-- What is taken stays taken. -/
theorem taken_run (profile : Profile) (maxPayload : Nat) (threads : Threads)
    (steps : List ThreadStep) :
    threads.taken <+: (threads.run profile maxPayload steps).taken := by
  rw [run_taken]
  exact List.prefix_append _ _

theorem kept_run (profile : Profile) (maxPayload : Nat) (threads : Threads)
    (steps : List ThreadStep) : threads.kept <+: (threads.run profile maxPayload steps).kept :=
  (taken_run profile maxPayload threads steps).map Prod.snd

/-! ### Whole turns of the loops -/

/-- Storing that does not fail. -/
theorem store_eq (profile : Profile) (threads : Threads) (msgs : List (List UInt8))
    (onwards : SenderPhase) (unlocked : threads.poisoned = false) {log : Log} {nextSeq : Nat}
    (stored : storeMessages profile threads.sender.log threads.sender.nextSeq msgs = some log)
    (added : profile.add 64 threads.sender.nextSeq msgs.length = some nextSeq) :
    threads.store profile msgs onwards =
      { threads with
        sender := { threads.sender with log, nextSeq }
        phase := onwards
        taken := threads.taken ++ msgs.map fun m => (threads.sender.session, m) } := by
  simp only [Threads.store, unlocked, stored, added, Bool.false_eq_true, if_false]

/-- A loop over chunks that is not interrupted: one step for each, and one that ends it. -/
theorem run_chunks (profile : Profile) (maxPayload : Nat) {move : ThreadStep}
    {build : List (List UInt8) → Option (List UInt8)}
    (state : List (List (List UInt8)) → List (List UInt8) → Threads)
    (finish : List (List UInt8) → Threads)
    (last : ∀ out, (state [] out).step profile maxPayload move = finish out)
    (one : ∀ chunk chunks out packet, build chunk = some packet →
      (state (chunk :: chunks) out).step profile maxPayload move = state chunks (out ++ [packet]))
    (chunks : List (List (List UInt8))) (out packets : List (List UInt8))
    (built : chunks.mapM build = some packets) :
    (state chunks out).run profile maxPayload (List.replicate (chunks.length + 1) move) =
      finish (out ++ packets) := by
  have pairs := (mapM_some_iff chunks packets).mp built
  clear built
  -- on the chunks that are left
  induction pairs generalizing out with
  | nil =>
    rw [List.append_nil]
    exact last out
  | @cons chunk packet chunks packets first _ ih =>
    have onwards := ih (out ++ [packet])
    rw [List.append_assoc] at onwards
    rw [List.length_cons, List.replicate_succ, Threads.run, List.foldl_cons,
      one chunk chunks out packet first]
    exact onwards

theorem run_sends (profile : Profile) (maxPayload : Nat) (threads : Threads) (pktSeq : Nat)
    (chunks : List (List (List UInt8))) (packets : List (List UInt8))
    (built : chunks.mapM (buildPacket threads.sender.session pktSeq) = some packets) :
    { threads with phase := .sending pktSeq chunks }.run profile maxPayload
        (List.replicate (chunks.length + 1) .send) =
      { threads with phase := .idle, sent := threads.sent ++ packets } := by
  refine run_chunks profile maxPayload
    (fun chunks sent => { threads with phase := .sending pktSeq chunks, sent })
    (fun sent => { threads with phase := .idle, sent })
    (fun _ => rfl) ?_ chunks threads.sent packets built
  intro chunk chunks sent packet first
  simp only [Threads.step, first]

/-- A turn of the sender loop that the other thread does not interrupt is `senderStep`. -/
theorem run_receive (profile : Profile) (maxPayload : Nat) (threads : Threads)
    (received : Received) (packets : List (List UInt8)) (sender : Sender)
    (idle : threads.phase = .idle) (unlocked : threads.poisoned = false)
    (turned : senderStep profile maxPayload threads.sender received = some (packets, sender)) :
    ∃ sends, threads.run profile maxPayload (.receive received :: List.replicate sends .send) =
      { threads with
        sender
        sent := threads.sent ++ packets
        taken := threads.taken ++ (threads.sender.accepts received).map
          fun m => (threads.sender.session, m) } := by
  -- commands that store nothing are a single step
  have single : threads.receive profile maxPayload received =
      { threads with sender, sent := threads.sent ++ packets } →
      threads.sender.accepts received = [] →
      ∃ sends, threads.run profile maxPayload (.receive received :: List.replicate sends .send) =
        { threads with
          sender
          sent := threads.sent ++ packets
          taken := threads.taken ++ (threads.sender.accepts received).map
            fun m => (threads.sender.session, m) } := by
    intro done nothing
    refine ⟨0, ?_⟩
    simp only [List.replicate, Threads.run, List.foldl_cons, List.foldl_nil, Threads.step, idle,
      done, nothing, List.map_nil, List.append_nil]
  cases received with
  | Timeout => cases turned; exact single rfl rfl
  | Ok command =>
    cases command with
    | Heartbeat => cases turned; exact single rfl rfl
    | EndOfSession => cases turned; exact single rfl rfl
    | StopSession => cases turned; exact single (by simp [Threads.receive]) rfl
    | ChangeSession s =>
      simp only [senderStep] at turned
      split at turned
      next stopped => cases turned; exact single (by simp [Threads.receive, stopped]) rfl
      next running => cases turned; exact single (by simp [Threads.receive, running]) rfl
    | SendDropped msgs =>
      simp only [senderStep] at turned
      split at turned
      next stopped =>
        cases turned
        exact single (by simp [Threads.receive, stopped]) (by simp [Sender.accepts, stopped])
      next running =>
        split at turned
        next empty =>
          cases turned
          exact single (by simp [Threads.receive, empty]) (by simp [Sender.accepts, empty])
        next nonempty =>
          simp only [Option.bind_eq_bind, Option.bind_eq_some_iff] at turned
          obtain ⟨log, stored, nextSeq, added, equal⟩ := turned
          cases equal
          refine ⟨0, ?_⟩
          have kept := threads.store_eq profile msgs .idle unlocked stored added
          simp only [List.replicate, Threads.run, List.foldl_cons, List.foldl_nil, Threads.step,
            idle, Threads.receive, if_neg running, if_neg nonempty, kept, Sender.accepts,
            List.append_nil]
    | Send msgs =>
      simp only [senderStep] at turned
      split at turned
      next stopped =>
        cases turned
        exact single (by simp [Threads.receive, stopped]) (by simp [Sender.accepts, stopped])
      next running =>
        split at turned
        next empty =>
          cases turned
          exact single (by simp [Threads.receive, empty]) (by simp [Sender.accepts, empty])
        next nonempty =>
          simp only [Option.bind_eq_bind, Option.bind_eq_some_iff] at turned
          obtain ⟨log, stored, nextSeq, added, packets, built, equal⟩ := turned
          cases equal
          have kept := threads.store_eq profile msgs
            (.sending threads.sender.nextSeq (chunkMessages msgs maxPayload)) unlocked stored added
          -- storing, then one step for each chunk and one that ends the loop over them
          refine ⟨(chunkMessages msgs maxPayload).length + 1, ?_⟩
          have sends := run_sends profile maxPayload
            { threads with
              sender := { threads.sender with log, nextSeq }
              taken := threads.taken ++ msgs.map fun m => (threads.sender.session, m) }
            _ _ packets built
          rw [Threads.run, List.foldl_cons]
          simp only [Threads.step, idle, Threads.receive, if_neg running, if_neg nonempty, kept,
            Sender.accepts]
          exact sends

theorem run_replies (profile : Profile) (maxPayload : Nat) (threads : Threads) (startSeq : Nat)
    (chunks : List (List (List UInt8))) (packets : List (List UInt8))
    (built : chunks.mapM (buildPacket threads.session startSeq) = some packets) :
    { threads with replies := .replying startSeq chunks }.run profile maxPayload
        (List.replicate (chunks.length + 1) .reply) =
      { threads with replies := .idle, replied := threads.replied ++ packets } := by
  refine run_chunks profile maxPayload
    (fun chunks replied => { threads with replies := .replying startSeq chunks, replied })
    (fun replied => { threads with replies := .idle, replied })
    (fun _ => rfl) ?_ chunks threads.replied packets built
  intro chunk chunks replied packet first
  simp only [Threads.step, first]

/-- A turn of the re-request loop that the other thread does not interrupt is `serve`. -/
theorem run_request (profile : Profile) (maxPayload : Nat) (threads : Threads)
    (datagram : List UInt8) (packets : List (List UInt8)) (idle : threads.replies = .idle)
    (unlocked : threads.poisoned = false)
    (served : serve profile maxPayload threads.session threads.sender.log datagram =
      some packets) :
    ∃ replies, threads.run profile maxPayload
        (.request datagram :: List.replicate replies .reply) =
      { threads with replied := threads.replied ++ packets } := by
  have free : ¬threads.poisoned = true := by rw [unlocked]; exact Bool.false_ne_true
  cases read : readRequest threads.session datagram with
  | none =>
    simp only [serve, read] at served
    cases served
    have stepped : threads.step profile maxPayload (.request datagram) = threads := by
      simp only [Threads.step, idle, Threads.request, read]
    refine ⟨0, ?_⟩
    simp only [List.replicate, Threads.run, List.foldl_cons, List.foldl_nil, stepped,
      List.append_nil]
  | some range =>
    obtain ⟨startSeq, want⟩ := range
    simp only [serve, read, Option.bind_eq_bind, Option.bind_eq_some_iff] at served
    obtain ⟨msgs, found, built⟩ := served
    have replies := run_replies profile maxPayload threads _ _ packets built
    have stepped : threads.step profile maxPayload (.request datagram) =
        { threads with replies := .replying startSeq (chunkMessages msgs maxPayload) } := by
      simp only [Threads.step, idle, Threads.request, read, if_neg free, found]
    refine ⟨(chunkMessages msgs maxPayload).length + 1, ?_⟩
    rw [← idle] at replies
    rw [Threads.run, List.foldl_cons, stepped]
    exact replies

end Threads

end Hftrs.Moldudp
