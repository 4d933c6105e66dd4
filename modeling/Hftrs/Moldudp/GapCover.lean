import Hftrs.Library.Runs
import Hftrs.Moldudp.Client
import Hftrs.Moldudp.Server

/-! Which sequence numbers the gap detector accounts for.

A gap is requested from its start, in a 16-bit count; the expectation then moves past the packet
whatever the width of the gap was. -/
namespace Hftrs.Moldudp

open Hftrs.Library

/-- A data or heartbeat packet of the session whose numbers stay below `2 ^ 64`. -/
def Live (session : Session) (filled : Filled) : Prop :=
  ∃ packet, Packet.parse filled.bytes = some packet ∧ packet.session = session ∧
    packet.packetKind ≠ .EndOfSession ∧ packet.seqNum + packet.msgCount < 2 ^ 64

/-- A sequence number was carried by a packet or asked for. -/
def Covered (packets : List Packet) (requests : List RetransmissionPacket) (k : Nat) : Prop :=
  (∃ p ∈ packets, p.seqNum ≤ k ∧ k < p.seqNum + p.msgCount) ∨
    ∃ r ∈ requests, r.seqNum ≤ k ∧ k < r.seqNum + r.msgCount

/-- The packet is at most 65535 sequence numbers ahead of the expectation. -/
def NarrowGap (client : Client) (filled : Filled) : Prop :=
  match client.expectedSeqNum, Packet.parse filled.bytes with
  | some expected, some packet => packet.seqNum ≤ expected + 65535
  | _, _ => True

instance (client : Client) (filled : Filled) : Decidable (NarrowGap client filled) := by
  unfold NarrowGap
  split <;> infer_instance

def packetsOf (datagrams : List Filled) : List Packet :=
  datagrams.filterMap fun filled => Packet.parse filled.bytes

def requestsOf (effects : List Effects) : List RetransmissionPacket :=
  effects.filterMap Effects.request

theorem Covered.mono {packets packets' : List Packet}
    {requests requests' : List RetransmissionPacket} {k : Nat}
    (covered : Covered packets requests k) (ps : packets ⊆ packets')
    (rs : requests ⊆ requests') : Covered packets' requests' k := by
  rcases covered with ⟨p, member, range⟩ | ⟨r, member, range⟩
  · exact Or.inl ⟨p, ps member, range⟩
  · exact Or.inr ⟨r, rs member, range⟩

/-- One step covers what it moves the expectation past. -/
theorem step_covers (session : Session) (expected : Nat) (packet : Packet)
    (pinned : packet.session = session) (narrow : packet.seqNum ≤ expected + 65535) (k : Nat)
    (lower : expected ≤ k) (upper : k < packet.seqNum + packet.msgCount) :
    Covered [packet] (Client.rerequest ⟨some session, some expected⟩ packet).toList k := by
  by_cases carried : packet.seqNum ≤ k
  · exact Or.inl ⟨packet, by simp, carried, upper⟩
  · -- below the packet and not below the expectation: inside the gap
    right
    have ahead : packet.seqNum > expected := by omega
    refine ⟨⟨session, expected, packet.seqNum - expected⟩, ?_, lower, by simp only; omega⟩
    have whole : min (packet.seqNum - expected) 65535 = packet.seqNum - expected := by omega
    simp [Client.rerequest, pinned, ahead, whole]

private theorem run_covers (profile : Profile) (session : Session) (expected : Nat)
    (received : List Filled) (live : ∀ d ∈ received, Live session d)
    (narrow : Along (processMulticastDatagram profile) NarrowGap ⟨some session, some expected⟩
      received) :
    ∃ effects final, run (processMulticastDatagram profile) ⟨some session, some expected⟩
        received = some (effects, ⟨some session, some final⟩) ∧
      ∀ k, expected ≤ k → k < final →
        Covered (packetsOf received) (requestsOf effects) k := by
  -- what lies below the expectation after the first packet is covered by its step, the rest by
  -- the run from there, whether the expectation moved forward or back
  induction received generalizing expected with
  | nil => exact ⟨[], expected, rfl, fun k lower upper => absurd lower (Nat.not_le.mpr upper)⟩
  | cons d ds ih =>
    obtain ⟨packet, parsed, pinned, _, fits⟩ := live d (by simp)
    have stepped := processMulticastDatagram_eq profile ⟨some session, some expected⟩ parsed
    rw [profile.add_eq fits, Option.map_some, pinned] at stepped
    have close : packet.seqNum ≤ expected + 65535 := by
      have here := narrow.1
      simpa only [NarrowGap, parsed] using here
    obtain ⟨effects, final, returned, covers⟩ := ih (packet.seqNum + packet.msgCount)
      (fun d' member => live d' (by simp [member])) (narrow.2 _ _ stepped)
    refine ⟨_, final, by rw [run_cons_of_step _ _ _ _ _ _ stepped, returned]; rfl, ?_⟩
    intro k lower upper
    have packets : packetsOf (d :: ds) = packet :: packetsOf ds := by simp [packetsOf, parsed]
    have requests (e : Effects) : requestsOf (e :: effects) =
        e.request.toList ++ requestsOf effects := by
      cases request : e.request <;> simp [requestsOf, request]
    rw [packets, requests]
    by_cases later : packet.seqNum + packet.msgCount ≤ k
    -- at or past the new expectation, or before it
    · exact (covers k later upper).mono (List.subset_cons_self _ _) (List.subset_append_right _ _)
    · apply (step_covers session expected packet pinned close k lower (by omega)).mono
      · simp
      · exact List.subset_append_left _ _

/-- While no packet is more than 65535 ahead of the expectation, everything from the first
expectation to the current one was carried by a packet or asked for. -/
theorem no_undetected_gap (profile : Profile) (session : Session) (expected : Nat)
    (datagrams : List Filled) (live : ∀ d ∈ datagrams, Live session d)
    (narrow : Along (processMulticastDatagram profile) NarrowGap ⟨some session, some expected⟩
      datagrams)
    (received : List Filled) (first : received <+: datagrams) :
    ∃ effects final, run (processMulticastDatagram profile) ⟨some session, some expected⟩
        received = some (effects, ⟨some session, some final⟩) ∧
      ∀ k, expected ≤ k → k < final →
        Covered (packetsOf received) (requestsOf effects) k :=
  run_covers profile session expected received (fun d member => live d (first.subset member))
    (narrow.shorten first)

/-- A heartbeat of the session "AB" at a sequence number. -/
def heartbeatAt (seqNum : Nat) : Filled where
  buf := buildSpecial (padSession [65, 66]) seqNum heartbeatIdent
  n := 20
  within := Nat.le_of_eq (Packet.length_header _ _ _).symm

theorem no_undetected_gap_heartbeat :
    ∃ effects final, run (processMulticastDatagram .debug)
        ⟨some (padSession [65, 66]), some 1⟩ [heartbeatAt 65536] =
          some (effects, ⟨some (padSession [65, 66]), some final⟩) ∧
      ∀ k, 1 ≤ k → k < final → Covered (packetsOf [heartbeatAt 65536]) (requestsOf effects) k := by
  apply no_undetected_gap .debug (padSession [65, 66]) 1 [heartbeatAt 65536]
  · intro d member
    rw [List.mem_singleton.mp member]
    exact ⟨⟨padSession [65, 66], 65536, 0, []⟩, by decide, rfl, by decide, by decide⟩
  · decide
  · exact List.prefix_rfl

/-- A heartbeat that is 65536 ahead: the last number of the gap is neither carried nor asked
for, and the expectation is past it. -/
theorem wide_gap_uncovered :
    Live (padSession [65, 66]) (heartbeatAt 65537) ∧ ∃ effects,
      run (processMulticastDatagram .debug) ⟨some (padSession [65, 66]), some 1⟩
        [heartbeatAt 65537] = some (effects, ⟨some (padSession [65, 66]), some 65537⟩) ∧
      ¬Covered (packetsOf [heartbeatAt 65537]) (requestsOf effects) 65536 := by
  refine ⟨⟨⟨padSession [65, 66], 65537, 0, []⟩, by decide, rfl, by decide, by decide⟩, ?_⟩
  refine ⟨[⟨some ⟨padSession [65, 66], 1, 65535⟩,
    some (buildSpecial (padSession [65, 66]) 65537 0), .Continue⟩], by decide, ?_⟩
  rintro (⟨p, member, lower, _⟩ | ⟨r, member, _, upper⟩)
  · have packets : packetsOf [heartbeatAt 65537] = [⟨padSession [65, 66], 65537, 0, []⟩] := by
      decide
    rw [packets, List.mem_singleton] at member
    subst member
    exact absurd lower (by decide)
  · have requests : r = ⟨padSession [65, 66], 1, 65535⟩ := by
      simpa [requestsOf] using member
    subst requests
    exact absurd upper (by decide)

end Hftrs.Moldudp
