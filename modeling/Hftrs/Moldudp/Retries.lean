import Mathlib.Data.List.Perm.Basic
import Hftrs.Library.Retry
import Hftrs.Moldudp.Client

/-! The threads that send re-requests, interleaved.

All of them take from one bounded channel, and put a request back whose sending failed. A step is
what one thread does between two points where another can act. Each request that the channel
accepts is numbered, for the record only. -/
namespace Hftrs.Moldudp

open Hftrs.Library

/-- A request with the number of its failed attempts. -/
structure RetransmissionRequest where
  ident : Nat
  req : RetransmissionPacket
  attempts : Nat
  deriving DecidableEq

/-- Where a sender thread is: waiting at the channel, about to send, about to requeue what it could
not send, or gone after a panic. -/
inductive SenderThread where
  | idle
  | holding (request : RetransmissionRequest)
  | failed (request : RetransmissionRequest)
  | dead
  deriving DecidableEq

/-- The request that a thread handles, with the number of times that sending it has failed. -/
def SenderThread.handled : SenderThread → Option (Nat × Nat)
  | .holding request => some (request.ident, request.attempts)
  | .failed request => some (request.ident, request.attempts + 1)
  | _ => none

theorem filterMap_handled_cons (thread : SenderThread) (threads : List SenderThread) :
    (thread :: threads).filterMap SenderThread.handled =
      thread.handled.toList ++ threads.filterMap SenderThread.handled := by
  cases handled : thread.handled <;> simp [handled]

/-- A thread is alive, and handles only what it has not given up on. -/
def SenderThread.Ready (maxRerequestRetries : UInt8) : SenderThread → Prop
  | .idle => True
  | .holding request => request.attempts < maxRerequestRetries.toNat
  | .failed request => request.attempts < maxRerequestRetries.toNat
  | .dead => False

/-- The threads and their channel. Each thread has a sender of its own, so that the channel never
closes on the receiving side; the receivers are those of the threads. -/
structure Senders where
  capacity : Nat
  queue : List RetransmissionRequest
  threads : List SenderThread
  -- the number of the next request, and a record of the calls of `send_to`
  fresh : Nat
  sends : List (Nat × Bool)

/-- What happens next. A step that its thread is not ready for changes nothing. -/
inductive SenderStep where
  -- `try_send` of a new request, by the multicast loop or by the consumer
  | enqueue (packet : RetransmissionPacket)
  | receive (thread : Nat)
  | send (thread : Nat) (succeeds : Bool)
  | requeue (thread : Nat)

namespace Senders

/-- When `start` has spawned the threads and dropped its own receiver. -/
def start (threads capacity : Nat) : Senders where
  capacity
  queue := []
  threads := List.replicate threads .idle
  fresh := 0
  sends := []

def Connected (senders : Senders) : Prop := ∃ thread ∈ senders.threads, thread ≠ .dead

instance (senders : Senders) : Decidable senders.Connected :=
  inferInstanceAs (Decidable (∃ thread ∈ senders.threads, thread ≠ .dead))

/-- The channel is full or disconnected. -/
def Refuses (senders : Senders) : Prop :=
  senders.capacity ≤ senders.queue.length ∨ ¬senders.Connected

instance (senders : Senders) : Decidable senders.Refuses :=
  inferInstanceAs (Decidable (_ ∨ _))

/-- `none` is the error. -/
def trySend (senders : Senders) (request : RetransmissionRequest) : Option Senders :=
  if senders.Refuses then none
  else some { senders with queue := senders.queue ++ [request] }

def set (senders : Senders) (w : Nat) (thread : SenderThread) : Senders :=
  { senders with threads := senders.threads.set w thread }

/-- A thread panics. The last receiver empties the channel as it goes. -/
def die (senders : Senders) (w : Nat) : Senders :=
  if (senders.set w .dead).Connected then senders.set w .dead
  else { senders.set w .dead with queue := [] }

def step (profile : Profile) (maxRerequestRetries : UInt8) (senders : Senders) :
    SenderStep → Senders
  | .enqueue packet =>
    match senders.trySend ⟨senders.fresh, packet, 0⟩ with
    | none => senders
    | some senders => { senders with fresh := senders.fresh + 1 }
  | .receive w =>
    match senders.threads[w]?, senders.queue with
    | some .idle, request :: queue =>
      -- abandoned
      if request.attempts ≥ maxRerequestRetries.toNat then { senders with queue }
      else { senders with queue }.set w (.holding request)
    | _, _ => senders
  | .send w succeeds =>
    match senders.threads[w]? with
    | some (.holding request) =>
      { senders with sends := senders.sends ++ [(request.ident, succeeds)] }.set w
        (if succeeds then .idle else .failed request)
    | _ => senders
  | .requeue w =>
    match senders.threads[w]? with
    | some (.failed request) =>
      match profile.add 8 request.attempts 1 with
      | none => senders.die w
      | some attempts =>
        -- a refused request is dropped
        ((senders.trySend { request with attempts }).getD senders).set w .idle
    | _ => senders

/-- The threads after an interleaving of their steps. -/
def run (profile : Profile) (maxRerequestRetries : UInt8) (senders : Senders)
    (steps : List SenderStep) : Senders :=
  steps.foldl (step profile maxRerequestRetries) senders

/-! ### The requests in the system -/

/-- A request waits in the channel or a thread handles it. -/
def retries (senders : Senders) : Retries where
  held := (senders.queue.map fun request => (request.ident, request.attempts)) ++
    senders.threads.filterMap SenderThread.handled
  tries := senders.sends
  entered := senders.fresh

/-- How a request with `n` failed attempts leaves the system: it is sent, abandoned, or dropped
because the channel is full or disconnected. -/
inductive Departs (maxRerequestRetries : UInt8) (senders : Senders) : SenderStep → Nat → Nat → Prop
  | sent {w : Nat} {request : RetransmissionRequest}
    (ready : senders.threads[w]? = some (.holding request)) :
    Departs maxRerequestRetries senders (.send w true) request.ident request.attempts
  | abandoned {w : Nat} {request : RetransmissionRequest} {queue : List RetransmissionRequest}
    (ready : senders.threads[w]? = some .idle) (first : senders.queue = request :: queue)
    (many : maxRerequestRetries.toNat ≤ request.attempts) :
    Departs maxRerequestRetries senders (.receive w) request.ident request.attempts
  | dropped {w : Nat} {request : RetransmissionRequest}
    (ready : senders.threads[w]? = some (.failed request)) (refused : senders.Refuses) :
    Departs maxRerequestRetries senders (.requeue w) request.ident (request.attempts + 1)

/-- Every thread is ready. -/
def Working (maxRerequestRetries : UInt8) (senders : Senders) : Prop :=
  ∀ thread ∈ senders.threads, thread.Ready maxRerequestRetries

section Steps

variable {profile : Profile} {maxRerequestRetries : UInt8} {senders : Senders}

theorem Working.set (working : senders.Working maxRerequestRetries) (w : Nat)
    {thread : SenderThread} (ready : thread.Ready maxRerequestRetries) :
    (senders.set w thread).Working maxRerequestRetries := by
  intro other member
  rcases List.mem_or_eq_of_mem_set member with old | rfl
  · exact working other old
  · exact ready

/-- The requests in the system, when one thread changes. -/
theorem held_set (senders : Senders) {w : Nat} {thread : SenderThread}
    (found : senders.threads[w]? = some thread) :
    ∃ rest, senders.retries.held.Perm (thread.handled.toList ++ rest) ∧
      ∀ changed, (senders.set w changed).retries.held.Perm (changed.handled.toList ++ rest) := by
  obtain ⟨inside, rfl⟩ := List.getElem?_eq_some_iff.mp found
  let queued := senders.queue.map fun request => (request.ident, request.attempts)
  let before := (senders.threads.take w).filterMap SenderThread.handled
  let after := (senders.threads.drop (w + 1)).filterMap SenderThread.handled
  have moved (thread : SenderThread) :
      (queued ++ (before ++ (thread.handled.toList ++ after))).Perm
        (thread.handled.toList ++ (queued ++ (before ++ after))) :=
    ((List.perm_append_comm_assoc _ _ _).append_left queued).trans
      (List.perm_append_comm_assoc _ _ _)
  refine ⟨queued ++ (before ++ after), ?_, fun changed => ?_⟩
  · have split : senders.threads.filterMap SenderThread.handled =
        before ++ (senders.threads[w].handled.toList ++ after) := by
      conv =>
        lhs
        rw [← List.take_append_drop w senders.threads, List.drop_eq_getElem_cons inside]
      rw [List.filterMap_append, filterMap_handled_cons]
    rw [retries, split]
    exact moved _
  · have split : (senders.threads.set w changed).filterMap SenderThread.handled =
        before ++ (changed.handled.toList ++ after) := by
      rw [List.set_eq_take_append_cons_drop, if_pos inside, List.filterMap_append,
        filterMap_handled_cons]
    simp only [retries, set, split]
    exact moved _

/-- What a step does to the requests in the system. -/
abbrev Moves (maxRerequestRetries : UInt8) (senders : Senders) (step : SenderStep)
    (next : Senders) : Prop :=
  Retries.Move maxRerequestRetries.toNat (Departs maxRerequestRetries senders step)
    senders.retries next.retries

theorem moves_self (step : SenderStep) : Moves maxRerequestRetries senders step senders :=
  .stay (List.Perm.refl _) rfl rfl

/-- A request behind the others of the channel. -/
theorem held_queued {request : RetransmissionRequest} {next : Senders}
    (sent : senders.trySend request = some next) :
    next.retries.held.Perm ((request.ident, request.attempts) :: senders.retries.held) ∧
      next.threads = senders.threads ∧ next.sends = senders.sends ∧
      next.fresh = senders.fresh := by
  unfold trySend at sent
  split at sent
  next => cases sent
  next =>
    cases sent
    refine ⟨?_, rfl, rfl, rfl⟩
    simp only [retries, List.map_append, List.map_cons, List.map_nil, List.append_assoc]
    exact List.perm_middle

theorem moves_enqueue (packet : RetransmissionPacket) :
    Moves maxRerequestRetries senders (.enqueue packet)
      (senders.step profile maxRerequestRetries (.enqueue packet)) := by
  simp only [step]
  cases sent : senders.trySend ⟨senders.fresh, packet, 0⟩ with
  | none => exact moves_self _
  | some next =>
    obtain ⟨held, _, sends, fresh⟩ := held_queued sent
    exact .enter held sends (congrArg (· + 1) fresh)

theorem moves_receive (w : Nat) :
    Moves maxRerequestRetries senders (.receive w)
      (senders.step profile maxRerequestRetries (.receive w)) := by
  simp only [step]
  split
  next request queue found pending =>
    have before : senders.retries.held =
        (request.ident, request.attempts) ::
          (Senders.retries { senders with queue }).held := by
      simp only [retries, pending, List.map_cons, List.cons_append]
    split
    next many =>
      exact .leave _ _ _ (.abandoned found pending many) (List.Perm.of_eq before)
        (List.Perm.refl _) rfl rfl
    next =>
      obtain ⟨rest, idle, set⟩ := held_set { senders with queue } found
      refine .stay ?_ rfl rfl
      rw [before]
      exact (set (.holding request)).trans (idle.symm.cons _)
  next => exact moves_self _

theorem moves_send (working : senders.Working maxRerequestRetries) (w : Nat) (succeeds : Bool) :
    Moves maxRerequestRetries senders (.send w succeeds)
      (senders.step profile maxRerequestRetries (.send w succeeds)) := by
  simp only [step]
  split
  next request found =>
    have below : request.attempts < maxRerequestRetries.toNat :=
      working _ (List.mem_of_getElem? found)
    obtain ⟨rest, held, set⟩ := senders.held_set found
    cases succeeds with
    | true => exact .succeed _ _ rest below (.sent found) held (set .idle) rfl rfl
    | false => exact .fail _ _ rest below held (set (.failed request)) rfl rfl
  next => exact moves_self _

/-- The attempts of a request whose sending has failed fit in their type. -/
theorem Working.attempts (working : senders.Working maxRerequestRetries) (profile : Profile)
    {w : Nat} {request : RetransmissionRequest}
    (found : senders.threads[w]? = some (.failed request)) :
    profile.add 8 request.attempts 1 = some (request.attempts + 1) := by
  have below : request.attempts < maxRerequestRetries.toNat :=
    working _ (List.mem_of_getElem? found)
  have bound := maxRerequestRetries.toNat_lt
  exact profile.add_eq (by omega)

theorem moves_requeue (working : senders.Working maxRerequestRetries) (w : Nat) :
    Moves maxRerequestRetries senders (.requeue w)
      (senders.step profile maxRerequestRetries (.requeue w)) := by
  simp only [step]
  split
  next request found =>
    obtain ⟨rest, held, set⟩ := senders.held_set found
    rw [working.attempts profile found]
    simp only
    cases sent : senders.trySend { request with attempts := request.attempts + 1 } with
    | none =>
      have refused : senders.Refuses := by
        by_contra accepts
        rw [trySend, if_neg accepts] at sent
        cases sent
      exact .leave _ _ rest (.dropped found refused) held (set .idle) rfl rfl
    | some next =>
      obtain ⟨queued, threads, sends, fresh⟩ := held_queued sent
      obtain ⟨others, here, set'⟩ := next.held_set (threads ▸ found)
      refine .stay ?_ sends fresh
      -- the request moves from the thread to the channel
      have moved : others.Perm ((request.ident, request.attempts + 1) :: rest) :=
        (here.symm.trans (queued.trans (held.cons _))).cons_inv
      exact (set' .idle).trans (moved.trans held.symm)
  next => exact moves_self _

/-- What one step does: a move of the requests, after which every thread is ready again. -/
theorem step_moves (profile : Profile) (working : senders.Working maxRerequestRetries)
    (step : SenderStep) :
    Moves maxRerequestRetries senders step (senders.step profile maxRerequestRetries step) ∧
      (senders.step profile maxRerequestRetries step).Working maxRerequestRetries := by
  cases step with
  | enqueue packet =>
    refine ⟨moves_enqueue packet, ?_⟩
    simp only [Senders.step]
    split
    next => exact working
    next sent => exact (held_queued sent).2.1 ▸ working
  | receive w =>
    refine ⟨moves_receive w, ?_⟩
    simp only [Senders.step]
    split
    next request queue _ _ =>
      split
      next => exact working
      next few =>
        have kept : Working maxRerequestRetries { senders with queue } := working
        exact kept.set w (Nat.lt_of_not_le few)
    next => exact working
  | send w succeeds =>
    refine ⟨moves_send working w succeeds, ?_⟩
    simp only [Senders.step]
    split
    next request found =>
      have below : request.attempts < maxRerequestRetries.toNat :=
        working _ (List.mem_of_getElem? found)
      refine Working.set working w ?_
      cases succeeds with
      | true => trivial
      | false => exact below
    next => exact working
  | requeue w =>
    refine ⟨moves_requeue working w, ?_⟩
    simp only [Senders.step]
    split
    next request found =>
      rw [working.attempts profile found]
      simp only
      cases sent : senders.trySend { request with attempts := request.attempts + 1 } with
      | none => exact Working.set working w trivial
      | some next =>
        have kept : next.Working maxRerequestRetries := by
          rw [Working, (held_queued sent).2.1]
          exact working
        exact kept.set w trivial
    next => exact working

end Steps

/-! ### Whole runs -/

/-- The retries of the requests are bounded. -/
structure BoundedRetry (profile : Profile) (maxRerequestRetries : UInt8) (senders : Senders) :
    Prop where
  limited : ∀ i, (senders.retries.outcomes i).length ≤ maxRerequestRetries.toNat
  once : ∀ i, (senders.retries.outcomes i).count true ≤ 1
  -- a request that the channel accepts is new, and goes behind the others with no attempts
  enters : ∀ packet, ¬senders.Refuses →
    senders.fresh ∉ senders.retries.items ∧ senders.retries.outcomes senders.fresh = [] ∧
      senders.step profile maxRerequestRetries (.enqueue packet) =
        { senders with
          queue := senders.queue ++ [⟨senders.fresh, packet, 0⟩]
          fresh := senders.fresh + 1 }
  -- a request waits in one place of the channel, or one thread handles it
  single : senders.retries.items.Nodup
  -- the counter of a request in the channel is the number of its failures, and none overflows
  counted : ∀ request ∈ senders.queue,
    senders.retries.outcomes request.ident = List.replicate request.attempts false
  alive : .dead ∉ senders.threads
  fits : ∀ request, .failed request ∈ senders.threads → request.attempts + 1 < 2 ^ 8
  -- a request leaves by one of the three ways, and is abandoned after exactly so many failures
  leaves : ∀ step, ∀ i ∈ senders.retries.items,
    i ∉ (senders.step profile maxRerequestRetries step).retries.items →
      ∃ n, Departs maxRerequestRetries senders step i n ∧
        senders.retries.outcomes i = List.replicate n false ∧
        ((∃ w, step = .receive w) → n = maxRerequestRetries.toNat)

theorem BoundedRetry.of_sound {profile : Profile} {maxRerequestRetries : UInt8} {senders : Senders}
    (working : senders.Working maxRerequestRetries)
    (sound : senders.retries.Sound maxRerequestRetries.toNat) :
    BoundedRetry profile maxRerequestRetries senders where
  limited := sound.limited
  once := sound.once
  enters packet accepts := by
    refine ⟨fun member => Nat.lt_irrefl _ (sound.numbered _ member),
      sound.untried _ (Nat.le_refl _), ?_⟩
    rw [step, trySend, if_neg accepts]
  single := sound.distinct
  counted request member := by
    refine (sound.failures request.ident request.attempts ?_).1
    exact List.mem_append_left _ (List.mem_map.mpr ⟨request, member, rfl⟩)
  alive dead := working _ dead
  fits request member := by
    have below : request.attempts < maxRerequestRetries.toNat := working _ member
    have bound := maxRerequestRetries.toNat_lt
    omega
  leaves step i inside gone := by
    obtain ⟨⟨i, n⟩, held, rfl⟩ := List.mem_map.mp inside
    have departs := (step_moves profile working step).1.departed held gone
    obtain ⟨failures, few⟩ := sound.failures i n held
    refine ⟨n, departs, failures, ?_⟩
    rintro ⟨w, rfl⟩
    cases departs with
    | abandoned _ _ many => exact Nat.le_antisymm few many

theorem run_sound (profile : Profile) (maxRerequestRetries : UInt8) (senders : Senders)
    (steps : List SenderStep) (working : senders.Working maxRerequestRetries)
    (sound : senders.retries.Sound maxRerequestRetries.toNat) :
    (senders.run profile maxRerequestRetries steps).Working maxRerequestRetries ∧
      (senders.run profile maxRerequestRetries steps).retries.Sound
        maxRerequestRetries.toNat := by
  induction steps generalizing senders with
  | nil => exact ⟨working, sound⟩
  | cons step steps ih =>
    obtain ⟨move, working'⟩ := step_moves profile working step
    exact ih _ working' (sound.move move)

/-- In every interleaving of any number of sender threads, with any outcomes of the sending and
any capacity of the channel, the retries of every request are bounded. -/
theorem run_bounded_retry (profile : Profile) (maxRerequestRetries : UInt8)
    (threads capacity : Nat) (steps : List SenderStep) :
    BoundedRetry profile maxRerequestRetries
      ((start threads capacity).run profile maxRerequestRetries steps) := by
  have idle : (start threads capacity).Working maxRerequestRetries := by
    intro thread member
    rw [List.eq_of_mem_replicate member]
    trivial
  have none : (start threads capacity).retries = ⟨[], [], 0⟩ := by
    have handled : (List.replicate threads SenderThread.idle).filterMap SenderThread.handled = [] :=
      List.filterMap_eq_nil_iff.mpr fun thread member => by
        rw [List.eq_of_mem_replicate member]
        rfl
    simp only [start, retries, handled, List.map_nil, List.nil_append]
  obtain ⟨working, sound⟩ := run_sound profile maxRerequestRetries _ steps idle
    (none ▸ Retries.Sound.empty _)
  exact .of_sound working sound

end Senders

end Hftrs.Moldudp
