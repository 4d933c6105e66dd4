import Hftrs.Library.Leases
import Hftrs.Library.Runs
import Hftrs.Moldudp.Client

/-! The client's buffers: the pool, the two receive loops, the data channel and the consumer,
interleaved.

A step is what one thread does between two operations on the pool, on the channel or on a socket.
A step that its thread is not ready for changes nothing. -/
namespace Hftrs.Moldudp

open Hftrs.Library

/-- `POOL_SIZE` -/
def poolSize : Nat := 1024

/-- A buffer that is not in the pool: its number, and that of the lease it is on. -/
abbrev Buffer := Nat × Nat

inductive Loop where
  | multicast
  | rerequest
  deriving DecidableEq

/-- Where a receive loop is: before its next buffer, receiving into one, about to forward it, about
to return it to the pool, or gone. -/
inductive LoopPhase where
  | idle
  | receiving (buf : Buffer)
  | forwarding (buf : Buffer)
  | returning (buf : Buffer) (onwards : LoopAction)
  | exited
  deriving DecidableEq

structure Buffers where
  pool : List Nat
  client : Client
  multicast : LoopPhase
  rerequest : LoopPhase
  -- the data channel, and whether the consumer still has its receiver
  capacity : Nat
  channel : List Buffer
  connected : Bool
  -- the datagrams that the consumer holds
  datagrams : List Buffer
  -- a record: heap allocations, leases granted and ended, buffers that a full pool refused
  heap : Nat
  granted : Nat
  returned : List Nat
  discarded : List Nat

/-- What happens next. -/
inductive BufferStep where
  | pop (loop : Loop)
  -- `socket.recv`; `none` is an error
  | recv (loop : Loop) (received : Option Filled)
  | trySend (loop : Loop)
  | push (loop : Loop)
  -- the consumer receives a datagram, drops one, or drops its receiver
  | consume
  | drop (datagram : Nat)
  | disconnect
  -- a datagram of a channel without a receiver is dropped
  | drain

/-- The buffer that a loop has. -/
def LoopPhase.buf : LoopPhase → Option Buffer
  | .receiving buf => some buf
  | .forwarding buf => some buf
  | .returning buf _ => some buf
  | _ => none

namespace Buffers

def start (client : Client) (capacity : Nat) : Buffers where
  pool := List.range poolSize
  client
  multicast := .idle
  rerequest := .idle
  capacity
  channel := []
  connected := true
  datagrams := []
  heap := 0
  granted := 0
  returned := []
  discarded := []

def phase (buffers : Buffers) : Loop → LoopPhase
  | .multicast => buffers.multicast
  | .rerequest => buffers.rerequest

def setPhase (buffers : Buffers) (loop : Loop) (phase : LoopPhase) : Buffers :=
  match loop with
  | .multicast => { buffers with multicast := phase }
  | .rerequest => { buffers with rerequest := phase }

/-- `pool.pop`, or else a new buffer. -/
def pop (buffers : Buffers) (loop : Loop) : Buffers :=
  match buffers.pool with
  | buf :: pool =>
    { buffers with pool, granted := buffers.granted + 1 }.setPhase loop
      (.receiving (buf, buffers.granted))
  | [] =>
    { buffers with heap := buffers.heap + 1, granted := buffers.granted + 1 }.setPhase loop
      (.receiving (poolSize + buffers.heap, buffers.granted))

/-- `pool.push`; a buffer that the pool refuses is freed. -/
def push (buffers : Buffers) (buf : Buffer) : Buffers :=
  if buffers.pool.length < poolSize then
    { buffers with
      pool := buffers.pool ++ [buf.1]
      returned := buffers.returned ++ [buf.2] }
  else
    { buffers with
      discarded := buffers.discarded ++ [buf.1]
      returned := buffers.returned ++ [buf.2] }

/-- A buffer is forwarded, or goes back to the pool. -/
def onwards (buf : Buffer) (effects : Effects) : LoopPhase :=
  match effects.forwarded with
  | some _ => .forwarding buf
  | none => .returning buf effects.action

def process (profile : Profile) (buffers : Buffers) (buf : Buffer) (filled : Filled) :
    Loop → Buffers
  | .multicast =>
    match processMulticastDatagram profile buffers.client filled with
    -- the panic frees the buffer as the stack unwinds
    | none => buffers.setPhase .multicast .exited
    | some (effects, client) =>
      { buffers with client }.setPhase .multicast (onwards buf effects)
  | .rerequest => buffers.setPhase .rerequest (onwards buf (processRereqDatagram filled))

def next (profile : Profile) (buffers : Buffers) : BufferStep → Buffers
  | .pop loop =>
    match buffers.phase loop with
    | .idle => buffers.pop loop
    | _ => buffers
  | .recv loop received =>
    match buffers.phase loop with
    | .receiving buf =>
      match received with
      | none => buffers.setPhase loop (.returning buf .Stop)
      | some filled => buffers.process profile buf filled loop
    | _ => buffers
  | .trySend loop =>
    match buffers.phase loop with
    | .forwarding buf =>
      if buffers.connected ∧ buffers.channel.length < buffers.capacity then
        { buffers with channel := buffers.channel ++ [buf] }.setPhase loop .idle
      -- the datagram is dropped, which returns its buffer
      else buffers.setPhase loop (.returning buf .Continue)
    | _ => buffers
  | .push loop =>
    match buffers.phase loop with
    | .returning buf .Continue => (buffers.push buf).setPhase loop .idle
    | .returning buf .Stop => (buffers.push buf).setPhase loop .exited
    | _ => buffers
  | .consume =>
    match buffers.connected, buffers.channel with
    | true, buf :: channel => { buffers with channel, datagrams := buffers.datagrams ++ [buf] }
    | _, _ => buffers
  | .drop datagram =>
    match buffers.datagrams[datagram]? with
    | some buf => { buffers with datagrams := buffers.datagrams.eraseIdx datagram }.push buf
    | none => buffers
  | .disconnect => { buffers with connected := false }
  | .drain =>
    match buffers.connected, buffers.channel with
    | false, buf :: channel => { buffers with channel }.push buf
    | _, _ => buffers

def step (profile : Profile) (buffers : Buffers) (what : BufferStep) : Option (Unit × Buffers) :=
  some ((), buffers.next profile what)

/-! ### Where the buffers are -/

/-- The buffers outside the pool: with the loops, in the channel, with the consumer. -/
def leased (buffers : Buffers) : List Buffer :=
  buffers.multicast.buf.toList ++ buffers.rerequest.buf.toList ++ buffers.channel ++
    buffers.datagrams

def leases (buffers : Buffers) : Leases where
  free := buffers.pool
  leased := buffers.leased
  discarded := buffers.discarded
  created := poolSize + buffers.heap
  granted := buffers.granted
  returned := buffers.returned

/-- The buffers outside the pool, when one loop changes. -/
theorem leased_setPhase (buffers : Buffers) (loop : Loop) :
    ∃ rest, buffers.leased.Perm ((buffers.phase loop).buf.toList ++ rest) ∧
      ∀ phase, (buffers.setPhase loop phase).leased.Perm (phase.buf.toList ++ rest) := by
  cases loop with
  | multicast =>
    refine ⟨buffers.rerequest.buf.toList ++ buffers.channel ++ buffers.datagrams, ?_,
      fun phase => ?_⟩
    all_goals simp only [leased, Buffers.phase, setPhase, List.append_assoc]
    all_goals exact List.Perm.refl _
  | rerequest =>
    refine ⟨buffers.multicast.buf.toList ++ (buffers.channel ++ buffers.datagrams), ?_,
      fun phase => ?_⟩
    all_goals simp only [leased, Buffers.phase, setPhase, List.append_assoc]
    all_goals exact List.perm_append_comm_assoc _ _ _

theorem leases_setPhase (buffers : Buffers) (loop : Loop) (phase : LoopPhase) :
    (buffers.setPhase loop phase).leases =
      { buffers.leases with leased := (buffers.setPhase loop phase).leased } := by
  cases loop <;> rfl

theorem push_setPhase (buffers : Buffers) (buf : Buffer) (loop : Loop) (phase : LoopPhase) :
    (buffers.push buf).setPhase loop phase = (buffers.setPhase loop phase).push buf := by
  by_cases room : buffers.pool.length < poolSize <;> cases loop <;> simp [push, setPhase, room]

section Moves

variable {profile : Profile} {buffers : Buffers} {loop : Loop}

/-- What a step does to the pool and the buffers outside it. -/
abbrev Moves (buffers after : Buffers) : Prop :=
  Leases.Move poolSize buffers.leases after.leases

theorem moves_self (buffers : Buffers) : Moves buffers buffers :=
  .stay rfl (List.Perm.refl _) rfl rfl rfl rfl

/-- The buffers outside the pool stay there. -/
theorem moves_leased {after : Buffers} (leased : after.leased.Perm buffers.leased)
    (others : after.leases = { buffers.leases with leased := after.leased }) :
    Moves buffers after := by
  rw [Moves, others]
  exact .stay rfl leased rfl rfl rfl rfl

/-- A loop goes on with the buffer it has. -/
theorem moves_setPhase {phase : LoopPhase} (same : phase.buf = (buffers.phase loop).buf) :
    Moves buffers (buffers.setPhase loop phase) := by
  obtain ⟨rest, before, set⟩ := buffers.leased_setPhase loop
  refine moves_leased ?_ (leases_setPhase _ _ _)
  exact (set phase).trans (same ▸ before.symm)

/-- Who has a buffer pushes it. -/
theorem moves_push {after : Buffers} {buf : Buffer}
    (leased : buffers.leased.Perm (buf :: after.leased))
    (others : after.leases = { buffers.leases with leased := after.leased }) :
    Moves buffers (after.push buf) := by
  obtain ⟨item, lease⟩ := buf
  have pool : after.pool = buffers.pool := congrArg Leases.free others
  have discarded : after.discarded = buffers.discarded := congrArg Leases.discarded others
  have returned : after.returned = buffers.returned := congrArg Leases.returned others
  have created : poolSize + after.heap = poolSize + buffers.heap := congrArg Leases.created others
  have granted : after.granted = buffers.granted := congrArg Leases.granted others
  by_cases room : after.pool.length < poolSize
  · have room' : buffers.pool.length < poolSize := pool ▸ room
    rw [push, if_pos room]
    exact .giveBack item lease room' (congrArg (· ++ [item]) pool) leased discarded created
      granted (congrArg (· ++ [lease]) returned)
  · have full : poolSize ≤ buffers.pool.length := pool ▸ Nat.le_of_not_lt room
    rw [push, if_neg room]
    exact .discard item lease full pool leased
      (congrArg (· ++ [item]) discarded) created granted (congrArg (· ++ [lease]) returned)

theorem moves_pop (idle : buffers.phase loop = .idle) : Moves buffers (buffers.pop loop) := by
  -- a loop without a buffer takes one
  have takes (buf : Buffer) :
      (buffers.setPhase loop (.receiving buf)).leased.Perm (buf :: buffers.leased) := by
    obtain ⟨rest, before, set⟩ := buffers.leased_setPhase loop
    rw [idle] at before
    exact (set _).trans (before.symm.cons _)
  unfold pop
  split
  next buf pool free =>
    refine .lend buf ?_ (List.Perm.trans ?_ (takes (buf, buffers.granted))) ?_ ?_ ?_ ?_
    all_goals cases loop
    all_goals first | exact free | rfl
  next free =>
    refine .create ?_ (List.Perm.trans ?_ (takes (poolSize + buffers.heap, buffers.granted)))
      ?_ ?_ ?_ ?_
    all_goals cases loop
    all_goals rfl

theorem moves_trySend {buf : Buffer} (forwarding : buffers.phase loop = .forwarding buf) :
    Moves buffers
      ({ buffers with channel := buffers.channel ++ [buf] }.setPhase loop .idle) := by
  obtain ⟨rest, before, set⟩ := buffers.leased_setPhase loop
  rw [forwarding] at before
  refine moves_leased ?_ ?_
  · -- the buffer moves from the loop to the channel
    have moved : ({ buffers with channel := buffers.channel ++ [buf] }.setPhase loop .idle).leased =
        (buffers.setPhase loop .idle).multicast.buf.toList ++
          (buffers.setPhase loop .idle).rerequest.buf.toList ++ (buffers.channel ++ [buf]) ++
          buffers.datagrams := by
      cases loop <;> rfl
    have old : (buffers.setPhase loop .idle).leased =
        (buffers.setPhase loop .idle).multicast.buf.toList ++
          (buffers.setPhase loop .idle).rerequest.buf.toList ++ buffers.channel ++
          buffers.datagrams := by
      cases loop <;> rfl
    have others := set .idle
    rw [old] at others
    rw [moved, ← List.append_assoc _ buffers.channel, List.append_assoc _ [buf]]
    exact List.perm_middle.trans ((others.cons buf).trans before.symm)
  · cases loop <;> rfl

theorem moves_return {buf : Buffer} {onwards : LoopAction} {phase : LoopPhase}
    (returning : buffers.phase loop = .returning buf onwards) (gone : phase.buf = none) :
    Moves buffers ((buffers.push buf).setPhase loop phase) := by
  obtain ⟨rest, before, set⟩ := buffers.leased_setPhase loop
  rw [returning] at before
  have others := set phase
  rw [gone] at others
  rw [push_setPhase]
  exact moves_push (before.trans (others.symm.cons buf)) (leases_setPhase _ _ _)

/-- The packet of a live datagram ends within the sequence numbers, where an overflow panics. -/
def Fits (profile : Profile) (buffers : Buffers) : BufferStep → Prop
  | .recv .multicast (some filled) =>
    ∀ buf, buffers.multicast = .receiving buf → Packet.minPacketLen ≤ filled.n →
      ∀ packet, Packet.parse filled.buf = some packet →
        profile = .debug → packet.seqNum + packet.msgCount < 2 ^ 64
  | _ => True

/-- A live datagram is processed exactly when its packet fits. -/
theorem process_isSome_iff (client : Client) (filled : Filled) :
    (∃ processed, processMulticastDatagram profile client filled = some processed) ↔
      (Packet.minPacketLen ≤ filled.n → ∀ packet, Packet.parse filled.buf = some packet →
        profile = .debug → packet.seqNum + packet.msgCount < 2 ^ 64) := by
  unfold processMulticastDatagram
  by_cases short : filled.n < Packet.minPacketLen
  · simp [short, Nat.not_le.mpr short]
  · rw [if_neg short]
    cases parsed : Packet.parse filled.buf with
    | none => simp
    | some packet =>
      simp only [Option.some.injEq, forall_eq', Nat.le_of_not_lt short, forall_const]
      rw [← Profile.add_isSome_iff]
      cases added : profile.add 64 packet.seqNum packet.msgCount <;> simp

theorem buf_onwards (buf : Buffer) (effects : Effects) : (onwards buf effects).buf = some buf := by
  unfold onwards
  split <;> rfl

theorem moves_recv (received : Option Filled) (fits : Fits profile buffers (.recv loop received)) :
    Moves buffers (buffers.next profile (.recv loop received)) := by
  simp only [next]
  split
  next buf receiving =>
    have here : (buffers.phase loop).buf = some buf := by rw [receiving]; rfl
    cases received with
    | none => exact moves_setPhase here.symm
    | some filled =>
      cases loop with
      | rerequest => exact moves_setPhase ((buf_onwards _ _).trans here.symm)
      | multicast =>
        obtain ⟨⟨effects, client⟩, processed⟩ :=
          (process_isSome_iff buffers.client filled).mpr (fits buf receiving)
        simp only [process, processed]
        have moves : Moves { buffers with client }
            ({ buffers with client }.setPhase .multicast (onwards buf effects)) :=
          moves_setPhase ((buf_onwards _ _).trans here.symm)
        exact moves
  next => exact moves_self _

/-- What one step does, when the packet it processes fits. -/
theorem next_moves (what : BufferStep) (fits : Fits profile buffers what) :
    Moves buffers (buffers.next profile what) := by
  cases what with
  | pop loop =>
    simp only [next]
    split
    next idle => exact moves_pop idle
    next => exact moves_self _
  | recv loop received => exact moves_recv received fits
  | trySend loop =>
    simp only [next]
    split
    next buf forwarding =>
      split
      next => exact moves_trySend forwarding
      next => exact moves_setPhase (by rw [forwarding]; rfl)
    next => exact moves_self _
  | push loop =>
    simp only [next]
    split
    next returning => exact moves_return returning rfl
    next returning => exact moves_return returning rfl
    next => exact moves_self _
  | consume =>
    simp only [next]
    split
    next buf channel _ pending =>
      refine moves_leased ?_ rfl
      simp only [leased, pending]
      rw [← List.append_assoc, List.append_assoc _ (buf :: channel), List.cons_append,
        List.append_assoc _ channel]
      exact (List.perm_append_singleton _ _).trans List.perm_middle.symm
    next => exact moves_self _
  | drop datagram =>
    simp only [next]
    split
    next buf found =>
      obtain ⟨inside, rfl⟩ := List.getElem?_eq_some_iff.mp found
      refine moves_push ?_ rfl
      have erased : buffers.datagrams.Perm
          (buffers.datagrams[datagram] :: buffers.datagrams.eraseIdx datagram) := by
        conv =>
          lhs
          rw [← List.take_append_drop datagram buffers.datagrams,
            List.drop_eq_getElem_cons inside]
        rw [List.eraseIdx_eq_take_drop_succ]
        exact List.perm_middle
      exact (erased.append_left _).trans List.perm_middle
    next => exact moves_self _
  | disconnect => exact moves_leased (List.Perm.refl _) rfl
  | drain =>
    simp only [next]
    split
    next buf channel _ pending =>
      refine moves_push ?_ rfl
      simp only [leased, pending]
      rw [List.append_assoc _ (buf :: channel), List.cons_append, List.append_assoc _ channel]
      exact List.perm_middle
    next => exact moves_self _

/-- A packet that does not fit takes its buffer with it. -/
theorem loses {what : BufferStep} (beyond : ¬Fits profile buffers what) :
    (buffers.next profile what).leases.total + 1 = buffers.leases.total ∧
      (buffers.next profile what).discarded = buffers.discarded ∧
      (buffers.next profile what).heap = buffers.heap := by
  unfold Fits at beyond
  split at beyond
  next filled =>
    push Not at beyond
    obtain ⟨buf, receiving, full, packet, parsed, debug, overflow⟩ := beyond
    have panics : processMulticastDatagram profile buffers.client filled = none := by
      by_contra processed
      have fits := (process_isSome_iff buffers.client filled).mp
        (Option.ne_none_iff_exists'.mp processed)
      exact absurd (fits full packet parsed debug) (Nat.not_lt.mpr overflow)
    have phase : buffers.phase .multicast = .receiving buf := receiving
    obtain ⟨rest, before, set⟩ := buffers.leased_setPhase .multicast
    rw [phase] at before
    simp only [next, phase, process, panics]
    refine ⟨?_, rfl, rfl⟩
    have after := (set .exited).length_eq
    rw [Leases.total, leases_setPhase, Leases.total]
    simp only [leases, after, before.length_eq, LoopPhase.buf, Option.toList_none,
      Option.toList_some, List.length_append, List.length_nil, List.length_singleton]
    omega
  next => exact absurd trivial beyond

end Moves

/-! ### Whole runs -/

/-- The buffers are conserved. -/
structure Conserved (buffers : Buffers) : Prop where
  -- every buffer is in the pool, with a loop, in the channel or with the consumer, once, unless a
  -- full pool refused it
  placed : (buffers.pool ++ buffers.leased.map Prod.fst ++ buffers.discarded).Perm
    (List.range (poolSize + buffers.heap))
  once : buffers.returned.Nodup
  bounded : buffers.pool.length ≤ poolSize
  total : buffers.pool.length + buffers.leased.length =
    poolSize + buffers.heap - buffers.discarded.length
  enough : poolSize ≤ buffers.pool.length + buffers.leased.length
  restored : buffers.multicast = .exited → buffers.rerequest = .exited → buffers.channel = [] →
    buffers.datagrams = [] → buffers.pool.length = poolSize

theorem Conserved.of_sound {buffers : Buffers} (sound : buffers.leases.Sound poolSize) :
    buffers.Conserved where
  placed := sound.placed
  once := sound.returned_nodup
  bounded := sound.bounded
  total := by
    have total := sound.total_add
    simp only [Leases.total, leases] at total
    omega
  enough := sound.enough
  restored multicast rerequest channel datagrams := by
    refine sound.full_of_leased ?_
    simp only [leases, leased, multicast, rerequest, channel, datagrams]
    rfl

theorem Conserved.enough_total {buffers : Buffers} (conserved : buffers.Conserved) :
    poolSize ≤ buffers.leases.total := conserved.enough

/-- The buffers are conserved in every state of an interleaving exactly as long as the packet of
each live datagram that is processed fits. -/
theorem throughout_conserved_iff (profile : Profile) (client : Client) (capacity : Nat)
    (steps : List BufferStep) :
    Throughout (step profile) Conserved (start client capacity) steps ↔
      Along (step profile) (Fits profile) (start client capacity) steps := by
  have full : (start client capacity).leases = ⟨List.range poolSize, [], [], poolSize, 0, []⟩ := by
    simp [start, leases, leased, LoopPhase.buf]
  have initial : (start client capacity).leases.Sound poolSize := full ▸ Leases.Sound.full poolSize
  rw [throughout_iff, and_iff_right (Conserved.of_sound initial)]
  refine Along.congr (I := fun buffers => buffers.leases.Sound poolSize) ?_ ?_ initial
  · intro buffers what sound
    constructor
    · intro conserved
      by_contra beyond
      obtain ⟨less, discarded, heap⟩ := loses beyond
      have total := (conserved () _ rfl).total
      have before := sound.total_add
      rw [discarded, heap] at total
      simp only [Leases.total, leases] at less before
      omega
    · intro fits b after stepped
      cases stepped
      exact .of_sound (sound.move (next_moves what fits))
  · intro buffers what b after sound fits stepped
    cases stepped
    exact sound.move (next_moves what fits)

/-- A live datagram with a message that ends behind the last sequence number. -/
def beyondLast : Filled where
  buf := [65, 66, 32, 32, 32, 32, 32, 32, 32, 32, 255, 255, 255, 255, 255, 255, 255, 255, 0, 1,
    0, 1, 7]
  n := 23
  within := by decide

/-- The re-request loop ends at an error of its socket. -/
def overflowSteps : List BufferStep :=
  [.pop .multicast, .recv .multicast (some beyondLast),
    .pop .rerequest, .recv .rerequest none, .push .rerequest]

/-- Where these steps end. -/
def overflowEnd : Buffers :=
  overflowSteps.foldl (next .debug) (start ⟨none, none⟩ poolSize)

/-- In the debug profile such a datagram takes a buffer out of the system: with both loops gone and
no datagram anywhere the pool has one less. -/
theorem overflow_loses_buffer :
    (overflowEnd.multicast = .exited ∧ overflowEnd.rerequest = .exited ∧
      overflowEnd.leased = [] ∧ overflowEnd.discarded = [] ∧ overflowEnd.pool.length = 1023) ∧
    ¬Throughout (step .debug) Conserved (start ⟨none, none⟩ poolSize) overflowSteps := by
  refine ⟨by decide +kernel, fun throughout => ?_⟩
  have second := ((throughout.2 () _ rfl).2 () _ rfl).head
  have lost : ¬poolSize ≤ (((start ⟨none, none⟩ poolSize).next .debug (.pop .multicast)).next .debug
      (.recv .multicast (some beyondLast))).leases.total := by decide +kernel
  exact lost second.enough_total

end Buffers

end Hftrs.Moldudp
