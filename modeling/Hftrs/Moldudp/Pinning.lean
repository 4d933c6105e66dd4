import Hftrs.Moldudp.Channels

/-! What a session that the client is configured with pins down. -/
namespace Hftrs.Moldudp

open Hftrs.Library

namespace MoldUDP64

/-- All the consumer is handed bears the session. -/
def Pure (session : Session) (system : MoldUDP64) : Prop :=
  ∀ datagram ∈ system.data.accepted, ∃ packet, Packet.parse datagram = some packet ∧
    packet.session = session

/-- The datagram that one of the loops processes. -/
def datagramOf : ClientEvent → Option Filled
  | .live filled => some filled
  | .retx filled => some filled
  | _ => none

/-- A datagram of another session leaves the gap detector as it is. -/
def Unmoved (profile : Profile) (session : Session) (system : MoldUDP64)
    (event : ClientEvent) : Prop :=
  ∀ filled ∈ datagramOf event, ∀ packet, Packet.parse filled.bytes = some packet →
    packet.session ≠ session →
      ∀ answer next, system.step profile event = some (answer, next) →
        next.client = system.client

/-- A datagram of the session, or one that does not get through: a live one whose numbers
overflow under the debug profile, a retransmitted one that meets a full channel. -/
def OwnSession (profile : Profile) (session : Session) (system : MoldUDP64) :
    ClientEvent → Prop
  | .live filled =>
    ∀ packet ∈ Packet.parse filled.bytes,
      packet.session = session ∨ profile.add 64 packet.seqNum packet.msgCount = none
  | .retx filled =>
    ∀ packet ∈ Packet.parse filled.bytes, packet.session = session ∨ system.data.Full
  | _ => True

instance (profile : Profile) (session : Session) (system : MoldUDP64) :
    ∀ event, Decidable (system.OwnSession profile session event)
  | .live filled =>
    inferInstanceAs (Decidable (∀ packet ∈ Packet.parse filled.bytes,
      packet.session = session ∨ profile.add 64 packet.seqNum packet.msgCount = none))
  | .retx filled =>
    inferInstanceAs (Decidable (∀ packet ∈ Packet.parse filled.bytes,
      packet.session = session ∨ system.data.Full))
  | .consume | .takeRequest | .inject _ => inferInstanceAs (Decidable True)

/-- One more datagram keeps the channel pure when it is of the session or refused. -/
theorem pure_trySend (session : Session) (data : Channel (List UInt8)) (datagram : List UInt8)
    (packet : Packet) (parsed : Packet.parse datagram = some packet)
    (before : ∀ d ∈ data.accepted, ∃ p, Packet.parse d = some p ∧ p.session = session) :
    (∀ d ∈ (data.trySend datagram).accepted, ∃ p, Packet.parse d = some p ∧
      p.session = session) ↔ packet.session = session ∨ data.Full := by
  rw [Channel.trySend_accepted]
  constructor
  · intro after
    by_cases full : data.Full
    · exact .inr full
    · rw [if_neg full] at after
      obtain ⟨view, viewed, own⟩ := after datagram (by simp)
      rw [parsed, Option.some.injEq] at viewed
      exact .inl (viewed ▸ own)
  · rintro (own | full)
    · split
      · exact before
      · intro d member
        rcases List.mem_append.mp member with old | new
        · exact before d old
        · rw [List.mem_singleton.mp new]
          exact ⟨packet, parsed, own⟩
    · rw [if_pos full]
      exact before

/-- A step keeps to the session: the channel stays pure, the gap detector unmoved. -/
def Keeps (profile : Profile) (session : Session) (system : MoldUDP64) (event : ClientEvent) :
    Prop :=
  (∀ answer next, system.step profile event = some (answer, next) → next.Pure session) ∧
    system.Unmoved profile session event

/-- Without a datagram that has a header there is nothing to keep out. -/
theorem keeps_iff_of_quiet (profile : Profile) (session : Session) (system : MoldUDP64)
    (event : ClientEvent) (before : system.Pure session)
    (quiet : ∀ filled ∈ datagramOf event, Packet.parse filled.bytes = none)
    (same : ∀ answer next, system.step profile event = some (answer, next) →
      next.data.accepted = system.data.accepted) :
    system.Keeps profile session event ↔ system.OwnSession profile session event := by
  constructor
  · intro _
    cases event with
    | live filled => rintro packet found; rw [quiet filled rfl] at found; cases found
    | retx filled => rintro packet found; rw [quiet filled rfl] at found; cases found
    | consume => exact trivial
    | takeRequest => exact trivial
    | inject request => exact trivial
  · intro _
    constructor
    · intro answer next returned
      rw [Pure, same answer next returned]
      exact before
    · intro filled carried packet found
      rw [quiet filled carried] at found
      cases found

/-- A live datagram is recorded and forwarded, whatever its session. -/
theorem keeps_live_iff (profile : Profile) (session : Session) (system : MoldUDP64)
    (filled : Filled) (packet : Packet) (parsed : Packet.parse filled.bytes = some packet)
    (pinned : system.client.expectedSessionIdent = some session)
    (before : system.Pure session) :
    system.Keeps profile session (.live filled) ↔
      system.OwnSession profile session (.live filled) := by
  have stepped := system.step_live profile parsed
  cases added : profile.add 64 packet.seqNum packet.msgCount with
  | none =>
    -- nothing is recorded and nothing happens any more
    rw [added, Option.map_none] at stepped
    constructor
    · rintro _ view viewed
      rw [parsed] at viewed
      cases viewed
      exact .inr added
    · intro _
      constructor
      · intro _ next returned
        rw [stepped] at returned
        cases returned
      · rintro _ ⟨⟩ view _ _ _ next returned
        rw [stepped] at returned
        cases returned
  | some expected =>
    rw [added, Option.map_some] at stepped
    constructor
    · rintro ⟨_, unmoved⟩ view viewed
      rw [parsed] at viewed
      cases viewed
      left
      by_contra foreign
      -- the session is recorded, so that the state has moved
      have same := congrArg Client.expectedSessionIdent
        (unmoved filled rfl packet parsed foreign () _ stepped)
      rw [pinned] at same
      exact foreign (Option.some.inj same)
    · intro ownSession
      have own : packet.session = session :=
        (ownSession packet parsed).resolve_right (by rw [added]; exact Option.some_ne_none _)
      constructor
      · intro _ next returned
        rw [stepped] at returned
        cases returned
        exact (pure_trySend session system.data _ packet parsed before).mpr (.inl own)
      · rintro _ ⟨⟩ view viewed foreign
        rw [parsed] at viewed
        cases viewed
        exact absurd own foreign

/-- A retransmitted one is forwarded, and does not touch the gap detector. -/
theorem keeps_retx_iff (profile : Profile) (session : Session) (system : MoldUDP64)
    (filled : Filled) (packet : Packet) (parsed : Packet.parse filled.bytes = some packet)
    (before : system.Pure session) :
    system.Keeps profile session (.retx filled) ↔
      system.OwnSession profile session (.retx filled) := by
  have stepped : system.step profile (.retx filled) =
      some ((), { system with data := system.data.trySend filled.bytes }) := by
    rw [step, processRereqDatagram_eq, parsed]
    rfl
  have sends := pure_trySend session system.data _ packet parsed before
  constructor
  · rintro ⟨pure', _⟩ view viewed
    rw [parsed] at viewed
    cases viewed
    exact sends.mp (pure' () _ stepped)
  · intro ownSession
    constructor
    · intro _ next returned
      rw [stepped] at returned
      cases returned
      exact sends.mpr (ownSession packet parsed)
    · rintro _ _ _ _ _ _ next returned
      rw [stepped] at returned
      cases returned
      rfl

/-- Where the state is pinned and the channel pure, a step keeps to the session exactly when its
datagram does. -/
theorem step_pinned_iff (profile : Profile) (session : Session) (system : MoldUDP64)
    (event : ClientEvent) (pinned : system.client.expectedSessionIdent = some session)
    (before : system.Pure session) :
    system.Keeps profile session event ↔ system.OwnSession profile session event := by
  have quiet := system.keeps_iff_of_quiet profile session event before
  cases event with
  | live filled =>
    cases parsed : Packet.parse filled.bytes with
    | none =>
      refine quiet (by rintro _ ⟨⟩; exact parsed) fun _ next returned => ?_
      rw [step, processMulticastDatagram_short profile system.client parsed] at returned
      cases returned
      rfl
    | some packet => exact system.keeps_live_iff profile session filled packet parsed pinned before
  | retx filled =>
    cases parsed : Packet.parse filled.bytes with
    | none =>
      refine quiet (by rintro _ ⟨⟩; exact parsed) fun _ next returned => ?_
      rw [step, processRereqDatagram_eq, parsed] at returned
      cases returned
      rfl
    | some packet => exact system.keeps_retx_iff profile session filled packet parsed before
  | consume =>
    refine quiet (by rintro _ ⟨⟩) fun _ next returned => ?_
    cases returned
    exact system.data.recv_accepted
  | takeRequest =>
    refine quiet (by rintro _ ⟨⟩) fun _ next returned => ?_
    cases returned
    rfl
  | inject request =>
    refine quiet (by rintro _ ⟨⟩) fun _ next returned => ?_
    cases returned
    rfl

theorem step_stays_pinned (profile : Profile) (session : Session) (system next : MoldUDP64)
    (event : ClientEvent) (pinned : system.client.expectedSessionIdent = some session)
    (own : system.OwnSession profile session event)
    (stepped : system.step profile event = some ((), next)) :
    next.client.expectedSessionIdent = some session := by
  cases event with
  | live filled =>
    cases parsed : Packet.parse filled.bytes with
    | none =>
      rw [step, processMulticastDatagram_short profile system.client parsed] at stepped
      cases stepped
      exact pinned
    | some packet =>
      rw [system.step_live profile parsed] at stepped
      obtain ⟨expected, added, equal⟩ := Option.map_eq_some_iff.mp stepped
      cases equal
      have same : packet.session = session :=
        (own packet parsed).resolve_right (by rw [added]; exact Option.some_ne_none _)
      exact congrArg some same
  | retx filled => cases stepped; exact pinned
  | consume => cases stepped; exact pinned
  | takeRequest => cases stepped; exact pinned
  | inject request => cases stepped; exact pinned

/-- In every run of a client that is configured with a session, the consumer is handed packets of
that session only and datagrams of others leave the gap detector alone, exactly when no datagram
of another session gets through. -/
theorem session_pinned_iff (profile : Profile) (session : Session) (number : Option Nat)
    (dataCapacity requestCapacity : Nat) (events : List ClientEvent) :
    (Throughout (step profile) (Pure session)
        (start ⟨some session, number⟩ dataCapacity requestCapacity) events ∧
      Along (step profile) (Unmoved profile session)
        (start ⟨some session, number⟩ dataCapacity requestCapacity) events) ↔
    Along (step profile) (OwnSession profile session)
      (start ⟨some session, number⟩ dataCapacity requestCapacity) events := by
  have initial : (start ⟨some session, number⟩ dataCapacity requestCapacity).Pure session := by
    intro datagram member
    cases member
  rw [throughout_iff, and_assoc, ← Along.and_iff, and_iff_right initial]
  -- the state stays pinned and the channel pure as long as the condition is met
  refine Along.congr (I := fun system =>
    system.client.expectedSessionIdent = some session ∧ system.Pure session) ?_ ?_ ⟨rfl, initial⟩
  · rintro system event ⟨pinned, before⟩
    exact step_pinned_iff profile session system event pinned before
  · rintro system event _ next ⟨pinned, before⟩ own stepped
    exact ⟨step_stays_pinned profile session system next event pinned own stepped,
      ((step_pinned_iff profile session system event pinned before).mpr own).1 () next stepped⟩

/-- One datagram of another session is handed to the consumer, and the gap detector follows it,
so that the gap in front of the next datagram of the pinned session is not noticed. -/
theorem stray_session_is_followed :
    ∃ stray next missed last,
      Packet.parse stray.bytes = some ⟨padSession [67, 68], 90, 0, []⟩ ∧
      (start ⟨some (padSession [65, 66]), some 1⟩ 4 4).step .debug (.live stray) =
        some ((), next) ∧
      next.data.accepted = [stray.bytes] ∧
      next.client = ⟨some (padSession [67, 68]), some 90⟩ ∧
      next.step .debug (.live missed) = some ((), last) ∧
      missed = heartbeatAt 5 ∧ last.requests.accepted = [] ∧
      ¬(Throughout (step .debug) (Pure (padSession [65, 66]))
        (start ⟨some (padSession [65, 66]), some 1⟩ 4 4) [.live stray]) := by
  refine ⟨⟨buildSpecial (padSession [67, 68]) 90 0, 20, by decide⟩, _, heartbeatAt 5, _,
    by decide, rfl, by decide, by decide, rfl, rfl, by decide, ?_⟩
  intro throughout
  obtain ⟨packet, parsed, own⟩ := throughout.2 () _ rfl (buildSpecial (padSession [67, 68]) 90 0)
    (by decide)
  have view : Packet.parse (buildSpecial (padSession [67, 68]) 90 0) =
      some ⟨padSession [67, 68], 90, 0, []⟩ := by decide
  rw [view] at parsed
  cases parsed
  revert own
  decide

end MoldUDP64

end Hftrs.Moldudp
