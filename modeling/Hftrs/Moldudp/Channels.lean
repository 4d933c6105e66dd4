import Hftrs.Library.Channel
import Hftrs.Moldudp.GapCover

/-! The client's two receive loops between the sockets and the two bounded channels. -/
namespace Hftrs.Moldudp

open Hftrs.Library

/-- The gap-detection state with the data channel and the re-request channel. -/
structure MoldUDP64 where
  client : Client
  data : Channel (List UInt8)
  requests : Channel RetransmissionPacket

/-- What happens next: a loop processes a datagram, the consumer or a re-request sender receives
from its channel, or somebody else puts a re-request into the channel (the consumer by hand, a
sender after a failed send). -/
inductive ClientEvent where
  | live (filled : Filled)
  | retx (filled : Filled)
  | consume
  | takeRequest
  | inject (request : RetransmissionPacket)

namespace MoldUDP64

def start (client : Client) (dataCapacity requestCapacity : Nat) : MoldUDP64 where
  client
  data := .empty dataCapacity
  requests := .empty requestCapacity

def step (profile : Profile) (system : MoldUDP64) : ClientEvent → Option (Unit × MoldUDP64)
  | .live filled => do
    let (effects, client) ← processMulticastDatagram profile system.client filled
    -- both are tried once, and the state has moved on whatever comes of it
    some ((),
      { client
        data := system.data.trySendOption effects.forwarded
        requests := system.requests.trySendOption effects.request })
  | .retx filled =>
    some ((),
      { system with data := system.data.trySendOption (processRereqDatagram filled).forwarded })
  | .consume => some ((), { system with data := system.data.recv })
  | .takeRequest => some ((), { system with requests := system.requests.recv })
  | .inject request => some ((), { system with requests := system.requests.trySend request })

/-- The packets in the datagrams that a channel has on record. -/
def packets (datagrams : List (List UInt8)) : List Packet := datagrams.filterMap Packet.parse

/-- Each number from the first expectation to the current one is in a datagram that the data
channel accepted, or in the range of a re-request that the other channel accepted. -/
def Kept (first : Nat) (system : MoldUDP64) : Prop :=
  ∃ expected, system.client.expectedSeqNum = some expected ∧ ∀ k, first ≤ k → k < expected →
    Covered (packets system.data.accepted) system.requests.accepted k

/-- The same, or it is in one that was refused. -/
def Noted (first : Nat) (system : MoldUDP64) : Prop :=
  ∃ expected, system.client.expectedSeqNum = some expected ∧ ∀ k, first ≤ k → k < expected →
    Covered (packets system.data.accepted) system.requests.accepted k ∨
      Covered (packets system.data.refused) system.requests.refused k

/-- A live datagram is near the expectation. -/
def Near (system : MoldUDP64) : ClientEvent → Prop
  | .live filled => NarrowGap system.client filled
  | _ => True

/-- A live datagram with messages finds room in the data channel, and the re-request it gives
rise to finds room in the other one. -/
def Room (system : MoldUDP64) : ClientEvent → Prop
  | .live filled =>
    ∀ packet ∈ Packet.parse filled.bytes,
      (packet.msgCount = 0 ∨ ¬system.data.Full) ∧
        (system.client.rerequest packet = none ∨ ¬system.requests.Full)
  | _ => True

instance (system : MoldUDP64) : ∀ event, Decidable (system.Near event)
  | .live filled => inferInstanceAs (Decidable (NarrowGap system.client filled))
  | .retx _ | .consume | .takeRequest | .inject _ => inferInstanceAs (Decidable True)

instance (system : MoldUDP64) : ∀ event, Decidable (system.Room event)
  | .live filled =>
    inferInstanceAs (Decidable (∀ packet ∈ Packet.parse filled.bytes,
      (packet.msgCount = 0 ∨ ¬system.data.Full) ∧
        (system.client.rerequest packet = none ∨ ¬system.requests.Full)))
  | .retx _ | .consume | .takeRequest | .inject _ => inferInstanceAs (Decidable True)

/-- A live datagram with a header. -/
theorem step_live (profile : Profile) (system : MoldUDP64) {filled : Filled} {packet : Packet}
    (parsed : Packet.parse filled.bytes = some packet) :
    system.step profile (.live filled) =
      (profile.add 64 packet.seqNum packet.msgCount).map fun expected => ((),
        { client := ⟨some packet.session, some expected⟩
          data := system.data.trySend filled.bytes
          requests := system.requests.trySendOption (system.client.rerequest packet) }) := by
  rw [step, processMulticastDatagram_eq profile system.client parsed]
  cases profile.add 64 packet.seqNum packet.msgCount <;> rfl

/-! ### What a step passes over -/

theorem mem_packets {datagrams : List (List UInt8)} {datagram : List UInt8} {packet : Packet}
    (member : datagram ∈ datagrams) (parsed : Packet.parse datagram = some packet) :
    packet ∈ packets datagrams := List.mem_filterMap.mpr ⟨datagram, member, parsed⟩

/-- A step of the pinned session: the channels keep their records, and what the expectation moves
past is in the datagram or in the re-request for the gap in front of it. -/
theorem step_passes (profile : Profile) (session : Session) (system : MoldUDP64)
    (event : ClientEvent) (expected : Nat)
    (pinned : system.client = ⟨some session, some expected⟩)
    (live : ∀ filled, event = .live filled → Live session filled) (near : system.Near event) :
    ∃ next final, system.step profile event = some ((), next) ∧
      next.client = ⟨some session, some final⟩ ∧
      (system.data.accepted ⊆ next.data.accepted ∧ system.data.refused ⊆ next.data.refused) ∧
      (system.requests.accepted ⊆ next.requests.accepted ∧
        system.requests.refused ⊆ next.requests.refused) ∧
      (∀ k, expected ≤ k → k < final →
        (Covered (packets next.data.accepted) next.requests.accepted k ∨
          Covered (packets next.data.refused) next.requests.refused k) ∧
        (system.Room event →
          Covered (packets next.data.accepted) next.requests.accepted k)) := by
  have still : ∀ k, expected ≤ k → k < expected → False := fun k low high => by omega
  cases event with
  | live filled =>
    obtain ⟨packet, parsed, own, _, fits⟩ := live filled rfl
    have stepped := system.step_live profile parsed
    rw [profile.add_eq fits, Option.map_some, own] at stepped
    have close : packet.seqNum ≤ expected + 65535 := by
      simpa only [Near, pinned, NarrowGap, parsed] using near
    refine ⟨_, _, stepped, rfl, system.data.subset_trySendOption (some filled.bytes),
      system.requests.subset_trySendOption _, fun k low high => ?_⟩
    rcases step_covers session expected packet own close k low high with
      ⟨carrier, member, lower, upper⟩ | ⟨request, member, range⟩
    · -- in the datagram, which then has messages
      rw [List.mem_singleton.mp member] at lower upper
      constructor
      · rcases system.data.mem_trySend filled.bytes with accepted | refused
        · exact .inl (.inl ⟨packet, mem_packets accepted parsed, lower, upper⟩)
        · exact .inr (.inl ⟨packet, mem_packets refused parsed, lower, upper⟩)
      · intro room
        have free : ¬system.data.Full := (room packet parsed).1.resolve_left (by omega)
        exact .inl ⟨packet, mem_packets (Channel.mem_accepted free _) parsed, lower, upper⟩
    · -- in the gap
      rw [← pinned, Option.mem_toList] at member
      rw [member]
      constructor
      · rcases system.requests.mem_trySend request with accepted | refused
        · exact .inl (.inr ⟨request, accepted, range⟩)
        · exact .inr (.inr ⟨request, refused, range⟩)
      · intro room
        have free : ¬system.requests.Full :=
          (room packet parsed).2.resolve_left (by rw [member]; exact Option.some_ne_none request)
        exact .inr ⟨request, Channel.mem_accepted free request, range⟩
  | retx filled =>
    exact ⟨_, expected, rfl, pinned, system.data.subset_trySendOption _,
      ⟨List.Subset.refl _, List.Subset.refl _⟩, fun k low high => (still k low high).elim⟩
  | consume =>
    refine ⟨_, expected, rfl, pinned, ?_, ⟨List.Subset.refl _, List.Subset.refl _⟩,
      fun k low high => (still k low high).elim⟩
    simp
  | takeRequest =>
    refine ⟨_, expected, rfl, pinned, ⟨List.Subset.refl _, List.Subset.refl _⟩, ?_,
      fun k low high => (still k low high).elim⟩
    simp
  | inject request =>
    exact ⟨_, expected, rfl, pinned, ⟨List.Subset.refl _, List.Subset.refl _⟩,
      system.requests.subset_trySendOption (some request),
      fun k low high => (still k low high).elim⟩

theorem packets_subset {datagrams more : List (List UInt8)} (subset : datagrams ⊆ more) :
    packets datagrams ⊆ packets more := List.filterMap_subset _ subset

/-- A client pinned to a session with its gap detection at a number. -/
def pinnedAt (session : Session) (first dataCapacity requestCapacity : Nat) : MoldUDP64 :=
  start ⟨some session, some first⟩ dataCapacity requestCapacity

/-- Coverage of the numbers below the expectation, when no step takes it from a number and each
step covers what the expectation moves past. -/
theorem throughout_covered {profile : Profile} {session : Session} {first : Nat}
    {system : MoldUDP64} {covered : MoldUDP64 → Nat → Prop}
    {condition : MoldUDP64 → ClientEvent → Prop} {events : List ClientEvent}
    (stepwise : ∀ system event expected, system.client = ⟨some session, some expected⟩ →
      condition system event → ∃ next final, system.step profile event = some ((), next) ∧
        next.client = ⟨some session, some final⟩ ∧ (∀ k, covered system k → covered next k) ∧
        ∀ k, expected ≤ k → k < final → covered next k)
    (pinned : system.client = ⟨some session, some first⟩)
    (along : Along (step profile) condition system events) :
    Throughout (step profile) (fun system => ∃ expected,
      system.client.expectedSeqNum = some expected ∧
        ∀ k, first ≤ k → k < expected → covered system k) system events := by
  -- with the session that the state stays pinned to
  have invariant : Throughout (step profile) (fun system => ∃ expected,
      system.client = ⟨some session, some expected⟩ ∧
        ∀ k, first ≤ k → k < expected → covered system k) system events := by
    refine (along.throughout ?_ ⟨first, pinned, fun k low high => by omega⟩).1
    rintro system event ⟨expected, here, before⟩ met
    obtain ⟨next, final, stepped, still, kept, passes⟩ := stepwise system event expected here met
    refine ⟨(), next, stepped, final, still, fun k low high => ?_⟩
    by_cases passed : expected ≤ k
    · exact passes k passed high
    · exact kept k (before k low (Nat.lt_of_not_le passed))
  exact invariant.imp fun system ⟨expected, here, all⟩ => ⟨expected, by rw [here], all⟩

/-- In every run of packets of the pinned session without a gap above 65535, each number that the
expectation has passed is in a datagram or a re-request that its channel accepted, or that it
refused because it was full. When no datagram with messages and no re-request that is due meets
a full channel, it is in an accepted one. -/
theorem lost_only_when_full (profile : Profile) (session : Session)
    (first dataCapacity requestCapacity : Nat) (events : List ClientEvent)
    (live : ∀ filled, .live filled ∈ events → Live session filled)
    (near : Along (step profile) Near (pinnedAt session first dataCapacity requestCapacity)
      events) :
    Throughout (step profile) (Noted first)
      (pinnedAt session first dataCapacity requestCapacity) events ∧
    (Along (step profile) Room (pinnedAt session first dataCapacity requestCapacity) events →
      Throughout (step profile) (Kept first)
        (pinnedAt session first dataCapacity requestCapacity) events) := by
  have inputs : ∀ event ∈ events, ∀ filled, event = .live filled → Live session filled :=
    fun event member filled equal => live filled (equal ▸ member)
  have admissible := near.and_inputs inputs
  constructor
  · refine throughout_covered ?_ rfl admissible
    rintro system event expected pinned ⟨close, own⟩
    obtain ⟨next, final, stepped, still, ⟨data, lostData⟩, ⟨requests, lostRequests⟩, passes⟩ :=
      step_passes profile session system event expected pinned own close
    refine ⟨next, final, stepped, still, fun k noted => ?_, fun k low high => (passes k low high).1⟩
    exact noted.imp (fun covered => covered.mono (packets_subset data) requests)
      fun covered => covered.mono (packets_subset lostData) lostRequests
  · intro room
    refine throughout_covered ?_ rfl (admissible.and room)
    rintro system event expected pinned ⟨⟨close, own⟩, free⟩
    obtain ⟨next, final, stepped, still, ⟨data, _⟩, ⟨requests, _⟩, passes⟩ :=
      step_passes profile session system event expected pinned own close
    exact ⟨next, final, stepped, still,
      fun k kept => kept.mono (packets_subset data) requests,
      fun k low high => (passes k low high).2 free⟩

/-- A buffer that a datagram with one message fills. -/
def oneMessageAt (seqNum : Nat) : Filled where
  buf := packetBytes (padSession [65, 66]) seqNum [[7]]
  n := 23
  within := by
    rw [packetBytes, List.length_append, Packet.length_header]
    decide

/-- Two messages and a gap, with room for them. -/
theorem lost_only_when_full_with_room :
    Throughout (step .debug) (Kept 1) (pinnedAt (padSession [65, 66]) 1 2 1)
      [.live (oneMessageAt 1), .live (oneMessageAt 4)] := by
  refine (lost_only_when_full .debug (padSession [65, 66]) 1 2 1
    [.live (oneMessageAt 1), .live (oneMessageAt 4)] ?_ (by decide)).2 (by decide)
  intro filled member
  simp only [List.mem_cons, List.not_mem_nil, or_false, ClientEvent.live.injEq] at member
  rcases member with rfl | rfl
  · exact ⟨⟨padSession [65, 66], 1, 1, block [7]⟩, by decide, rfl, by decide, by decide⟩
  · exact ⟨⟨padSession [65, 66], 4, 1, block [7]⟩, by decide, rfl, by decide, by decide⟩

/-- With a data channel for one datagram and a consumer that does not receive, the second message
is dropped; the expectation is past it, and nothing asks for it. -/
theorem full_channel_loses_message :
    (∀ filled, .live filled ∈ [ClientEvent.live (oneMessageAt 1), .live (oneMessageAt 2)] →
      Live (padSession [65, 66]) filled) ∧
    Along (step .debug) Near (pinnedAt (padSession [65, 66]) 1 1 1)
      [.live (oneMessageAt 1), .live (oneMessageAt 2)] ∧
    ¬Throughout (step .debug) (Kept 1) (pinnedAt (padSession [65, 66]) 1 1 1)
      [.live (oneMessageAt 1), .live (oneMessageAt 2)] := by
  refine ⟨?_, by decide, ?_⟩
  · intro filled member
    simp only [List.mem_cons, List.not_mem_nil, or_false, ClientEvent.live.injEq] at member
    rcases member with rfl | rfl
    · exact ⟨⟨padSession [65, 66], 1, 1, block [7]⟩, by decide, rfl, by decide, by decide⟩
    · exact ⟨⟨padSession [65, 66], 2, 1, block [7]⟩, by decide, rfl, by decide, by decide⟩
  · intro throughout
    obtain ⟨expected, number, kept⟩ := (throughout.2 () _ rfl).2 () _ rfl
    have last : some expected = some 3 := number.symm.trans (by decide)
    cases last
    rcases kept 2 (by decide) (by decide) with ⟨packet, member, range⟩ | ⟨request, member, range⟩
    · revert packet
      decide
    · revert request
      decide

end MoldUDP64

end Hftrs.Moldudp
