import Hftrs.Moldudp.Channels

/-! How the expectation moves: what it makes of the count of a packet, and when it goes back. -/
namespace Hftrs.Moldudp

open Hftrs.Library

/-! ### The count of a packet -/

/-- The detector takes as many numbers off a packet as its iterator announces messages: the
expectation is behind them, and a later packet of the session that is beyond it gives rise to a
request from there on. -/
def Consumes (profile : Profile) (client : Client) (filled : Filled) : Prop :=
  ∀ packet ∈ Packet.parse filled.bytes, packet.seqNum + packet.msgCount < 2 ^ 64 →
    ∃ effects next, processMulticastDatagram profile client filled = some (effects, next) ∧
      next.expectedSeqNum = some (packet.seqNum + packet.iter.remaining) ∧
      ∀ later beyond, Packet.parse later.bytes = some beyond → beyond.session = packet.session →
        packet.seqNum + packet.iter.remaining < beyond.seqNum →
        ∀ effects' last, processMulticastDatagram profile next later = some (effects', last) →
          ∃ request, effects'.request = some request ∧ request.session = packet.session ∧
            request.seqNum = packet.seqNum + packet.iter.remaining

/-- A datagram whose numbers fit 64 bits does not end the session. -/
def GoesOn (filled : Filled) : Prop :=
  ∀ packet ∈ Packet.parse filled.bytes, packet.seqNum + packet.msgCount < 2 ^ 64 →
    packet.packetKind ≠ .EndOfSession

instance (filled : Filled) : Decidable (GoesOn filled) :=
  inferInstanceAs (Decidable (∀ packet ∈ Packet.parse filled.bytes, _))

/-- The iterator announces what the count says, except at the end of a session. -/
theorem Packet.remaining_iter (packet : Packet) :
    packet.iter.remaining = packet.msgCount ↔ packet.packetKind ≠ .EndOfSession := by
  by_cases ended : packet.msgCount = endOfSessionIdent
  · simp [iter, packetKind, ended, endOfSessionIdent, heartbeatIdent]
  · by_cases heartbeat : packet.msgCount = heartbeatIdent
    · simp [iter, packetKind, heartbeat, heartbeatIdent]
    · simp [iter, packetKind, ended, heartbeat]

/-- The request for a packet of the session that skips ahead. -/
theorem rerequest_ahead (session : Session) (expected : Nat) (packet : Packet)
    (own : packet.session = session) (ahead : expected < packet.seqNum) :
    Client.rerequest ⟨some session, some expected⟩ packet =
      some ⟨session, expected, min (packet.seqNum - expected) 65535⟩ := by
  simp only [Client.rerequest, own, gt_iff_lt, ahead, and_self, if_true]

theorem consumes_iff (profile : Profile) (client : Client) (filled : Filled) :
    Consumes profile client filled ↔ GoesOn filled := by
  constructor
  · intro consumes packet parsed fits
    obtain ⟨effects, next, stepped, expected, _⟩ := consumes packet parsed fits
    rw [processMulticastDatagram_eq profile client parsed, profile.add_eq fits,
      Option.map_some] at stepped
    cases stepped
    rw [← packet.remaining_iter]
    exact (Nat.add_left_cancel (Option.some.inj expected)).symm
  · intro goesOn packet parsed fits
    have whole := packet.remaining_iter.mpr (goesOn packet parsed fits)
    have stepped := processMulticastDatagram_eq profile client parsed
    rw [profile.add_eq fits, Option.map_some] at stepped
    refine ⟨_, _, stepped, by rw [whole], ?_⟩
    rw [whole]
    intro later beyond viewed own ahead effects' last again
    rw [processMulticastDatagram_eq profile _ viewed] at again
    obtain ⟨_, _, equal⟩ := Option.map_eq_some_iff.mp again
    cases equal
    exact ⟨_, rerequest_ahead packet.session _ beyond own ahead, rfl, rfl⟩

/-- In every run, each datagram is counted as its iterator counts it exactly when none of them
ends the session. -/
theorem along_consumes_iff (profile : Profile) (client : Client) (datagrams : List Filled) :
    Along (processMulticastDatagram profile) (Consumes profile) client datagrams ↔
      Along (processMulticastDatagram profile) (fun _ filled => GoesOn filled) client
        datagrams :=
  Along.congr (I := fun _ => True) (fun client filled _ => consumes_iff profile client filled)
    (fun _ _ _ _ _ _ _ => trivial) trivial

/-- An end of session of the session "AB" at a sequence number. -/
def endOfSessionAt (seqNum : Nat) : Filled where
  buf := buildSpecial (padSession [65, 66]) seqNum endOfSessionIdent
  n := 20
  within := Nat.le_of_eq (Packet.length_header _ _ _).symm

/-- An end of session at 5, where nothing is missing, moves the expectation to 65540, so that the
gap in front of 9 is not noticed. -/
theorem end_of_session_moves_expectation :
    ∃ effects effects' last,
      run (processMulticastDatagram .release) ⟨some (padSession [65, 66]), some 5⟩
        [endOfSessionAt 5] = some (effects, ⟨some (padSession [65, 66]), some 65540⟩) ∧
      processMulticastDatagram .release ⟨some (padSession [65, 66]), some 65540⟩
        (heartbeatAt 9) = some (effects', last) ∧ effects'.request = none ∧
      ¬Along (processMulticastDatagram .release) (Consumes .release)
        ⟨some (padSession [65, 66]), some 5⟩ [endOfSessionAt 5] := by
  refine ⟨_, _, _, rfl, rfl, by decide, ?_⟩
  rintro ⟨consumes, _⟩
  obtain ⟨effects, next, stepped, expected, _⟩ := consumes
    ⟨padSession [65, 66], 5, endOfSessionIdent, []⟩ (by decide) (by decide)
  cases stepped
  revert expected
  decide

/-! ### Packets out of order -/

/-- A data or heartbeat packet of the session, with any numbers. -/
def Ordinary (session : Session) (filled : Filled) : Prop :=
  ∃ packet, Packet.parse filled.bytes = some packet ∧ packet.session = session ∧
    packet.packetKind ≠ .EndOfSession

/-- The expectation moves to the exact end of the packet, and not back. -/
def MovesOn (profile : Profile) (client : Client) (filled : Filled) : Prop :=
  ∀ packet ∈ Packet.parse filled.bytes,
    ∃ effects next, processMulticastDatagram profile client filled = some (effects, next) ∧
      next.expectedSeqNum = some (packet.seqNum + packet.msgCount) ∧
      ∀ expected ∈ client.expectedSeqNum, expected ≤ packet.seqNum + packet.msgCount

/-- No request covers a number that an earlier packet carried. -/
def AsksForNew (profile : Profile) (client : Client) (datagrams : List Filled) : Prop :=
  ∀ before filled after, datagrams = before ++ filled :: after →
    ∀ answers reached, run (processMulticastDatagram profile) client before =
        some (answers, reached) →
      ∀ effects next, processMulticastDatagram profile reached filled = some (effects, next) →
        ∀ request ∈ effects.request, ∀ packet ∈ packetsOf before, ∀ k,
          packet.seqNum ≤ k → k < packet.seqNum + packet.msgCount →
          ¬(request.seqNum ≤ k ∧ k < request.seqNum + request.msgCount)

/-- Each packet ends within 64 bits and no earlier than the one before it, the first no earlier
than the initial expectation. -/
def InOrder : Option Nat → List Packet → Prop
  | _, [] => True
  | expected, packet :: packets =>
    (∀ e ∈ expected, e ≤ packet.seqNum + packet.msgCount) ∧
      packet.seqNum + packet.msgCount < 2 ^ 64 ∧
      InOrder (some (packet.seqNum + packet.msgCount)) packets

instance InOrder.decidable : ∀ expected packets, Decidable (InOrder expected packets)
  | _, [] => inferInstanceAs (Decidable True)
  | expected, packet :: packets =>
    have := InOrder.decidable (some (packet.seqNum + packet.msgCount)) packets
    inferInstanceAs (Decidable ((∀ e ∈ expected, e ≤ packet.seqNum + packet.msgCount) ∧
      packet.seqNum + packet.msgCount < 2 ^ 64 ∧
      InOrder (some (packet.seqNum + packet.msgCount)) packets))

theorem packetsOf_cons {filled : Filled} {packet : Packet} (datagrams : List Filled)
    (parsed : Packet.parse filled.bytes = some packet) :
    packetsOf (filled :: datagrams) = packet :: packetsOf datagrams := by
  simp only [packetsOf, List.filterMap_cons, parsed]

theorem packetsOf_append (xs ys : List Filled) :
    packetsOf (xs ++ ys) = packetsOf xs ++ packetsOf ys := List.filterMap_append

theorem InOrder.initial {expected : Option Nat} {packets more : List Packet}
    (inOrder : InOrder expected (packets ++ more)) : InOrder expected packets := by
  induction packets generalizing expected with
  | nil => trivial
  | cons packet packets ih => exact ⟨inOrder.1, inOrder.2.1, ih inOrder.2.2⟩

/-- A step moves on exactly when the packet is in order. -/
theorem movesOn_iff (profile : Profile) (client : Client) {filled : Filled} {packet : Packet}
    (parsed : Packet.parse filled.bytes = some packet) :
    MovesOn profile client filled ↔
      (∀ e ∈ client.expectedSeqNum, e ≤ packet.seqNum + packet.msgCount) ∧
        packet.seqNum + packet.msgCount < 2 ^ 64 := by
  have stepped := processMulticastDatagram_eq profile client parsed
  constructor
  · intro movesOn
    obtain ⟨effects, next, taken, exact, forward⟩ := movesOn packet parsed
    refine ⟨forward, ?_⟩
    -- the sum that is stored is in range, and it is the exact one
    rw [stepped] at taken
    obtain ⟨sum, added, equal⟩ := Option.map_eq_some_iff.mp taken
    cases equal
    cases exact
    exact Profile.add_lt added
  · rintro ⟨forward, fits⟩ view viewed
    rw [parsed, Option.mem_some_iff] at viewed
    subst viewed
    rw [profile.add_eq fits, Option.map_some] at stepped
    exact ⟨_, _, stepped, rfl, forward⟩

theorem along_movesOn_iff (profile : Profile) (session : Session) (client : Client)
    (datagrams : List Filled) (ordinary : ∀ d ∈ datagrams, Ordinary session d) :
    Along (processMulticastDatagram profile) (MovesOn profile) client datagrams ↔
      InOrder client.expectedSeqNum (packetsOf datagrams) := by
  induction datagrams generalizing client with
  | nil => exact Iff.rfl
  | cons d ds ih =>
    obtain ⟨packet, parsed, _⟩ := ordinary d (by simp)
    have stepped := processMulticastDatagram_eq profile client parsed
    have others := fun client => ih client fun d member => ordinary d (by simp [member])
    rw [packetsOf_cons ds parsed, InOrder, Along, movesOn_iff profile client parsed, and_assoc]
    refine and_congr_right fun _ => and_congr_right fun fits => ?_
    rw [profile.add_eq fits, Option.map_some] at stepped
    rw [stepped, ← others ⟨some packet.session, some (packet.seqNum + packet.msgCount)⟩]
    constructor
    · exact fun onwards => onwards _ _ rfl
    · rintro onwards _ _ ⟨⟩
      exact onwards

/-- After packets in order the expectation is past all of them. -/
theorem InOrder.ends_le {profile : Profile} {session : Session} {client reached : Client}
    {datagrams : List Filled} {answers : List Effects}
    (ordinary : ∀ d ∈ datagrams, Ordinary session d)
    (inOrder : InOrder client.expectedSeqNum (packetsOf datagrams))
    (returned : run (processMulticastDatagram profile) client datagrams =
      some (answers, reached)) :
    ∀ expected ∈ reached.expectedSeqNum, (∀ e ∈ client.expectedSeqNum, e ≤ expected) ∧
      ∀ packet ∈ packetsOf datagrams, packet.seqNum + packet.msgCount ≤ expected := by
  -- on the datagrams: the rest of the run starts from the end of the first packet
  induction datagrams generalizing client answers with
  | nil =>
    cases returned
    intro expected final
    refine ⟨fun e initial => ?_, by simp [packetsOf]⟩
    rw [Option.mem_def] at initial final
    rw [initial] at final
    cases final
    exact Nat.le_refl _
  | cons d ds ih =>
    obtain ⟨packet, parsed, _⟩ := ordinary d (by simp)
    rw [packetsOf_cons ds parsed] at inOrder ⊢
    obtain ⟨forward, fits, rest⟩ := inOrder
    obtain ⟨effects, others, next, rfl, stepped, onwards⟩ := (run_cons_iff _ _ _ _ _ _).mp returned
    rw [processMulticastDatagram_eq profile client parsed, profile.add_eq fits,
      Option.map_some] at stepped
    cases stepped
    intro expected final
    obtain ⟨past, ends⟩ := ih (fun d member => ordinary d (by simp [member])) rest onwards
      expected final
    have here := past _ rfl
    refine ⟨fun e initial => Nat.le_trans (forward e initial) here, fun view member => ?_⟩
    rcases List.mem_cons.mp member with rfl | later
    · exact here
    · exact ends view later

/-- A request starts at the expectation. -/
theorem rerequest_some {client : Client} {packet : Packet} {request : RetransmissionPacket}
    (asked : client.rerequest packet = some request) :
    client.expectedSeqNum = some request.seqNum := by
  unfold Client.rerequest at asked
  split at asked
  next expected found =>
    split at asked
    next => cases asked; exact found
    next => cases asked
  next => cases asked

theorem asksForNew_of_inOrder (profile : Profile) (session : Session) (client : Client)
    (datagrams : List Filled) (ordinary : ∀ d ∈ datagrams, Ordinary session d)
    (inOrder : InOrder client.expectedSeqNum (packetsOf datagrams)) :
    AsksForNew profile client datagrams := by
  rintro before filled after rfl answers reached returned effects next stepped request asked
    packet member k _ upper ⟨lower, _⟩
  rw [packetsOf_append] at inOrder
  obtain ⟨view, parsed, _⟩ := ordinary filled (by simp)
  rw [processMulticastDatagram_eq profile reached parsed] at stepped
  obtain ⟨_, _, equal⟩ := Option.map_eq_some_iff.mp stepped
  cases equal
  -- the request starts at the expectation, which is past the packets before
  have ends := (inOrder.initial.ends_le (fun d inside => ordinary d (by simp [inside]))
    returned request.seqNum (rerequest_some asked)).2 packet member
  omega

/-- Over every sequence of ordinary packets of a session, the expectation never goes back or
wraps and nothing is asked for that an earlier packet carried, exactly when the packets end in
order. -/
theorem forward_iff (profile : Profile) (session : Session) (client : Client)
    (datagrams : List Filled) (ordinary : ∀ d ∈ datagrams, Ordinary session d) :
    (Along (processMulticastDatagram profile) (MovesOn profile) client datagrams ∧
      AsksForNew profile client datagrams) ↔
      InOrder client.expectedSeqNum (packetsOf datagrams) := by
  rw [along_movesOn_iff profile session client datagrams ordinary]
  exact and_iff_left_of_imp
    (asksForNew_of_inOrder profile session client datagrams ordinary)

theorem ordinary_oneMessageAt (seqNum : Nat) (small : seqNum < 2 ^ 64) :
    Ordinary (padSession [65, 66]) (MoldUDP64.oneMessageAt seqNum) := by
  have length : (packetBytes (padSession [65, 66]) seqNum [[7]]).length = 23 := by
    rw [packetBytes, List.length_append, Packet.length_header]
    rfl
  have bytes : (MoldUDP64.oneMessageAt seqNum).bytes =
      packetBytes (padSession [65, 66]) seqNum [[7]] :=
    List.take_of_length_le (Nat.le_of_eq length)
  have parsed := Packet.parse_header (padSession [65, 66]) seqNum 1 (blocks [[7]]) small (by decide)
  refine ⟨⟨padSession [65, 66], seqNum, 1, blocks [[7]]⟩, by rw [bytes]; exact parsed, rfl, ?_⟩
  simp [Packet.packetKind, heartbeatIdent, endOfSessionIdent]

/-- A packet, a gap and a heartbeat. -/
theorem forward_iff_gap :
    Along (processMulticastDatagram .debug) (MovesOn .debug) ⟨some (padSession [65, 66]), some 1⟩
        [MoldUDP64.oneMessageAt 1, MoldUDP64.oneMessageAt 4, heartbeatAt 5] ∧
      AsksForNew .debug ⟨some (padSession [65, 66]), some 1⟩
        [MoldUDP64.oneMessageAt 1, MoldUDP64.oneMessageAt 4, heartbeatAt 5] := by
  refine (forward_iff .debug (padSession [65, 66]) ⟨some (padSession [65, 66]), some 1⟩ _ ?_).mpr
    (by decide)
  simp only [List.forall_mem_cons, List.not_mem_nil, false_implies, implies_true, and_true]
  refine ⟨ordinary_oneMessageAt 1 (by decide), ordinary_oneMessageAt 4 (by decide), ?_⟩
  exact ⟨⟨padSession [65, 66], 5, 0, []⟩, by decide, rfl, by decide⟩

/-- The second copy of the first packet moves the expectation back to 2, and the third packet then
has message 2 asked for again. -/
theorem late_packet_moves_back :
    (∀ d ∈ [MoldUDP64.oneMessageAt 1, MoldUDP64.oneMessageAt 2, MoldUDP64.oneMessageAt 1,
      MoldUDP64.oneMessageAt 3], Ordinary (padSession [65, 66]) d) ∧
    (∃ effects, run (processMulticastDatagram .release) ⟨some (padSession [65, 66]), some 1⟩
      [MoldUDP64.oneMessageAt 1, MoldUDP64.oneMessageAt 2] =
        some (effects, ⟨some (padSession [65, 66]), some 3⟩)) ∧
    (∃ effects, run (processMulticastDatagram .release) ⟨some (padSession [65, 66]), some 3⟩
      [MoldUDP64.oneMessageAt 1, MoldUDP64.oneMessageAt 3] =
        some (effects, ⟨some (padSession [65, 66]), some 4⟩) ∧
      requestsOf effects = [⟨padSession [65, 66], 2, 1⟩]) ∧
    ¬Along (processMulticastDatagram .release) (MovesOn .release)
      ⟨some (padSession [65, 66]), some 1⟩
      [MoldUDP64.oneMessageAt 1, MoldUDP64.oneMessageAt 2, MoldUDP64.oneMessageAt 1,
        MoldUDP64.oneMessageAt 3] := by
  refine ⟨?_, ⟨_, rfl⟩, ⟨_, rfl, by decide⟩, ?_⟩
  · simp only [List.forall_mem_cons, List.not_mem_nil, false_implies, implies_true, and_true]
    exact ⟨ordinary_oneMessageAt 1 (by decide), ordinary_oneMessageAt 2 (by decide),
      ordinary_oneMessageAt 1 (by decide), ordinary_oneMessageAt 3 (by decide)⟩
  · intro along
    obtain ⟨effects, next, _, _, forward⟩ := ((along.2 _ _ rfl).2 _ _ rfl).1
      ⟨padSession [65, 66], 1, 1, block [7]⟩ (by decide)
    exact absurd (forward 3 (by decide)) (by decide)

end Hftrs.Moldudp
