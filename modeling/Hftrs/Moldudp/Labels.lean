import Hftrs.Moldudp.Responder

/-! The sequence numbers under which the answer to a re-request is read: that of the header of a
packet for its first message, and one more for each further block. -/
namespace Hftrs.Moldudp

open Hftrs.Library

/-- The messages that a datagram puts at a sequence number. -/
def messagesAt (datagram : List UInt8) (k : Nat) : List (List UInt8) :=
  match Packet.parse datagram with
  | none => []
  | some packet =>
    ((packet.iter.drain.1.zipIdx packet.seqNum).filter fun labelled => labelled.2 = k).map (·.1)

/-- The messages that all the datagrams put at a sequence number. -/
def assigned (datagrams : List (List UInt8)) (k : Nat) : List (List UInt8) :=
  datagrams.flatMap fun datagram => messagesAt datagram k

/-- What stands at a sequence number when the messages are numbered from the first one on. -/
def numbered (first : Nat) (msgs : List (List UInt8)) (k : Nat) : List (List UInt8) :=
  if first ≤ k then msgs[k - first]?.toList else []

/-- The messages of the log with the numbers of a range, as far as they are there. -/
def stored (log : Log) (startSeq count : Nat) : List (List UInt8) :=
  (List.range' startSeq count).filterMap fun k => log[k]?

/-! ### Reading one packet -/

theorem filter_zipIdx (msgs : List (List UInt8)) (first k : Nat) :
    ((msgs.zipIdx first).filter fun labelled => labelled.2 = k).map (·.1) =
      numbered first msgs k := by
  induction msgs generalizing first with
  | nil => simp [numbered]
  | cons m msgs ih =>
    rw [List.zipIdx_cons, List.filter_cons]
    by_cases here : first = k
    · -- the labels behind are larger
      have behind : ¬first + 1 ≤ k := by omega
      rw [if_pos (by simpa using here), List.map_cons, ih, numbered, if_neg behind, numbered,
        if_pos (Nat.le_of_eq here), here, Nat.sub_self]
      rfl
    · rw [if_neg (by simpa using here), ih, numbered, numbered]
      by_cases above : first + 1 ≤ k
      · have index : k - first = k - (first + 1) + 1 := by omega
        rw [if_pos above, if_pos (by omega), index, List.getElem?_cons_succ]
      · rw [if_neg above, if_neg (by omega)]

/-- A packet of fewer messages than the count of an end of session numbers them all. -/
theorem messagesAt_packetBytes (session : Session) {seqNum : Nat} (small : seqNum < 2 ^ 64)
    {msgs : List (List UInt8)} (count : msgs.length < 65535)
    (lengths : ∀ m ∈ msgs, m.length < 2 ^ 16) (k : Nat) :
    messagesAt (packetBytes session seqNum msgs) k = numbered seqNum msgs k := by
  rw [messagesAt, packetBytes, Packet.parse_header session seqNum _ _ small (by omega)]
  simp only [Packet.drain_iter session seqNum count lengths]
  exact filter_zipIdx msgs seqNum k

/-- With that count it announces none of them. -/
theorem messagesAt_full (session : Session) {seqNum : Nat} (small : seqNum < 2 ^ 64)
    {msgs : List (List UInt8)} (count : msgs.length = 65535) (k : Nat) :
    messagesAt (packetBytes session seqNum msgs) k = [] := by
  rw [messagesAt, packetBytes, Packet.parse_header session seqNum _ _ small (by omega)]
  simp only [Packet.drain_iter_full session seqNum count]
  rfl

theorem mapM_buildPacket_some {session : Session} {seqNum : Nat}
    {chunks : List (List (List UInt8))} {packets : List (List UInt8)}
    (built : chunks.mapM (buildPacket session seqNum) = some packets) :
    packets = chunks.map (packetBytes session seqNum) ∧
      ∀ chunk ∈ chunks, chunk.length < 2 ^ 16 ∧ ∀ m ∈ chunk, m.length < 2 ^ 16 := by
  have each := mapM_some_each _ chunks packets built
  have same : chunks.mapM (buildPacket session seqNum) =
      some (chunks.map (packetBytes session seqNum)) := by
    apply mapM_eq_some_map
    intro chunk member
    obtain ⟨bytes, done⟩ := each chunk member
    rw [done, (buildPacket_some done).2.2]
  constructor
  · rw [built, Option.some.injEq] at same
    exact same
  · intro chunk member
    obtain ⟨bytes, done⟩ := each chunk member
    exact ⟨(buildPacket_some done).1, (buildPacket_some done).2.1⟩

/-- Every chunk puts a message at the sequence number that they share. -/
theorem length_assigned (session : Session) {seqNum : Nat} (small : seqNum < 2 ^ 64)
    (chunks : List (List (List UInt8)))
    (each : ∀ chunk ∈ chunks, chunk ≠ [] ∧ chunk.length < 65535 ∧ ∀ m ∈ chunk, m.length < 2 ^ 16) :
    (assigned (chunks.map (packetBytes session seqNum)) seqNum).length = chunks.length := by
  induction chunks with
  | nil => rfl
  | cons chunk chunks ih =>
    obtain ⟨nonempty, count, lengths⟩ := each chunk (by simp)
    have others := ih fun c member => each c (by simp [member])
    obtain ⟨m, ms, rfl⟩ := List.exists_cons_of_ne_nil nonempty
    simp only [assigned, List.map_cons, List.flatMap_cons, List.length_append,
      List.length_cons] at others ⊢
    rw [messagesAt_packetBytes session small count lengths, others, numbered,
      if_pos (Nat.le_refl _), Nat.sub_self, Nat.add_comm]
    rfl

theorem length_lt_flatten {chunks : List (List (List UInt8))} (several : 2 ≤ chunks.length)
    (nonempty : ∀ chunk ∈ chunks, chunk ≠ []) (chunk : List (List UInt8))
    (member : chunk ∈ chunks) : chunk.length < chunks.flatten.length := by
  obtain ⟨before, after, rfl⟩ := List.append_of_mem member
  -- there is another chunk before it or after it
  have other : ∃ c ∈ before ++ after, c ≠ [] := by
    have some_other : before ++ after ≠ [] := by
      intro none
      have length := congrArg List.length none
      simp only [List.length_append, List.length_cons, List.length_nil] at length several
      omega
    obtain ⟨c, cs, equal⟩ := List.exists_cons_of_ne_nil some_other
    have inside : c ∈ before ++ after := by simp [equal]
    refine ⟨c, inside, nonempty c ?_⟩
    rcases List.mem_append.mp inside with front | back
    · simp [front]
    · simp [back]
  obtain ⟨c, inside, filled⟩ := other
  have part := (List.sublist_flatten_of_mem inside).length_le
  have positive := List.length_pos_iff.mpr filled
  simp only [List.flatten_append, List.flatten_cons, List.length_append] at part ⊢
  omega

theorem length_chunk_le {msgs : List (List UInt8)} {maxPayload : Nat}
    {chunk : List (List UInt8)} (member : chunk ∈ chunkMessages msgs maxPayload) :
    chunk.length ≤ msgs.length := by
  conv => rhs; rw [← (chunkMessages_spec msgs maxPayload).1]
  exact (List.sublist_flatten_of_mem member).length_le

theorem single_or_several {msgs : List (List UInt8)} (maxPayload : Nat) (nonempty : msgs ≠ []) :
    chunkMessages msgs maxPayload = [msgs] ∨ 2 ≤ (chunkMessages msgs maxPayload).length := by
  have whole := (chunkMessages_spec msgs maxPayload).1
  match chunks : chunkMessages msgs maxPayload with
  | [] =>
    rw [chunks] at whole
    exact absurd whole.symm nonempty
  | [chunk] =>
    rw [chunks, List.flatten_singleton] at whole
    exact .inl (by rw [whole])
  | _ :: _ :: _ => exact .inr (by simp)

/-! ### Reading the packets of an answer -/

/-- The packets with the messages do not announce them as the end of a session. -/
def Legible (maxPayload : Nat) (msgs : List (List UInt8)) : Prop :=
  msgs.length = endOfSessionIdent → ¬Fits maxPayload msgs

instance (maxPayload : Nat) (msgs : List (List UInt8)) : Decidable (Legible maxPayload msgs) :=
  inferInstanceAs (Decidable (_ → ¬(_ ∨ _)))

theorem legible_of_short {maxPayload : Nat} {msgs : List (List UInt8)}
    (short : msgs.length < endOfSessionIdent) : Legible maxPayload msgs :=
  fun full => absurd full (Nat.ne_of_lt short)

theorem flatMap_readBlocks (session : Session) {seqNum : Nat} (small : seqNum < 2 ^ 64)
    (chunks : List (List (List UInt8)))
    (each : ∀ chunk ∈ chunks, chunk.length < endOfSessionIdent ∧ ∀ m ∈ chunk, m.length < 2 ^ 16) :
    (chunks.map (packetBytes session seqNum)).flatMap readBlocks = chunks.flatten := by
  induction chunks with
  | nil => rfl
  | cons chunk chunks ih =>
    obtain ⟨count, lengths⟩ := each chunk (by simp)
    rw [List.map_cons, List.flatMap_cons, readBlocks_packetBytes session small count lengths,
      ih fun c member => each c (by simp [member]), List.flatten_cons]

/-- The packets with the messages are read as these exactly when the messages are legible. -/
theorem reading_iff (session : Session) {seqNum : Nat} (small : seqNum < 2 ^ 64)
    {msgs : List (List UInt8)} (maxPayload : Nat) (count : msgs.length < 2 ^ 16)
    (lengths : ∀ m ∈ msgs, m.length < 2 ^ 16) :
    ((chunkMessages msgs maxPayload).map (packetBytes session seqNum)).flatMap readBlocks = msgs ↔
      Legible maxPayload msgs := by
  obtain ⟨whole, nonempty⟩ := chunkMessages_spec msgs maxPayload
  constructor
  · intro same full fits
    -- the one packet there is has the count of an end of session
    have filled : msgs ≠ [] := List.ne_nil_of_length_pos (by rw [full]; decide)
    rw [(chunkMessages_single msgs maxPayload filled).mpr fits, List.map_singleton,
      List.flatMap_singleton, readBlocks_full session small full] at same
    exact filled same.symm
  · intro legible
    rw [flatMap_readBlocks session small, whole]
    intro chunk member
    constructor
    · -- a chunk with that count would be all there is
      have part := length_chunk_le member
      by_contra many
      have full : msgs.length = endOfSessionIdent := by
        rw [endOfSessionIdent] at many ⊢
        omega
      have filled : msgs ≠ [] := List.ne_nil_of_length_pos (by rw [full]; decide)
      rcases single_or_several maxPayload filled with single | several
      · exact legible full ((chunkMessages_single msgs maxPayload filled).mp single)
      · have less := length_lt_flatten several (fun c inside => (nonempty c inside).1) chunk member
        rw [whole] at less
        omega
    · intro m inside
      apply lengths m
      rw [← whole]
      exact List.mem_flatten.mpr ⟨chunk, member, inside⟩

/-! ### Collecting from any log -/

section Collecting

variable {log : Log} {startSeq want count : Nat}

theorem stored_spec (present : ∀ i < count, startSeq + i ∈ log) :
    (stored log startSeq count).length = count ∧
      ∀ i < count, (stored log startSeq count)[i]? = log[startSeq + i]? := by
  induction count generalizing startSeq with
  | zero => exact ⟨rfl, fun i none => absurd none (Nat.not_lt_zero i)⟩
  | succ count ih =>
    have later : ∀ i < count, startSeq + 1 + i ∈ log := by
      intro i inside
      have next := present (i + 1) (by omega)
      rwa [← Nat.add_assoc, Nat.add_right_comm] at next
    obtain ⟨length, each⟩ := ih later
    have first := present 0 (Nat.succ_pos count)
    rw [Nat.add_zero, Std.ExtTreeMap.mem_iff_isSome_getElem?, Option.isSome_iff_exists] at first
    obtain ⟨m, found⟩ := first
    have split : stored log startSeq (count + 1) = m :: stored log (startSeq + 1) count := by
      rw [stored, List.range'_succ, List.filterMap_cons, found, stored]
    rw [split]
    refine ⟨by rw [List.length_cons, length], fun i inside => ?_⟩
    cases i with
    | zero => rw [List.getElem?_cons_zero, Nat.add_zero, found]
    | succ i =>
      rw [List.getElem?_cons_succ, each i (by omega), Nat.add_assoc, Nat.add_comm 1 i]

theorem numbered_stored (present : ∀ i < count, startSeq + i ∈ log) (k : Nat) :
    numbered startSeq (stored log startSeq count) k =
      if startSeq ≤ k ∧ k < startSeq + count then log[k]?.toList else [] := by
  obtain ⟨length, each⟩ := stored_spec present
  rw [numbered]
  by_cases above : startSeq ≤ k
  · by_cases below : k < startSeq + count
    · rw [if_pos above, if_pos ⟨above, below⟩, each _ (by omega), Nat.add_sub_cancel' above]
    · rw [if_pos above, if_neg fun inside => below inside.2, List.getElem?_eq_none (by omega)]
      rfl
  · rw [if_neg above, if_neg fun inside => above inside.1]

/-- The keys that are there are collected first. -/
theorem collect_stored (profile : Profile) (keys : ∀ k ∈ log, k < 2 ^ 64) (rest i : Nat)
    (present : ∀ j < count, startSeq + i + j ∈ log) :
    collect profile log startSeq (count + rest) i =
      (collect profile log startSeq rest (i + count)).map fun later =>
        stored log (startSeq + i) count ++ later := by
  induction count generalizing i with
  | zero =>
    rw [Nat.zero_add, Nat.add_zero]
    exact Option.map_id'.symm
  | succ count ih =>
    have first := present 0 (Nat.succ_pos count)
    rw [Nat.add_zero] at first
    have key : profile.add 64 startSeq i = some (startSeq + i) := profile.add_eq (keys _ first)
    rw [Std.ExtTreeMap.mem_iff_isSome_getElem?, Option.isSome_iff_exists] at first
    obtain ⟨m, found⟩ := first
    have later := ih (i + 1) fun j inside => by
      have next := present (j + 1) (by omega)
      rwa [Nat.add_comm j 1, ← Nat.add_assoc, Nat.add_assoc startSeq i 1] at next
    rw [Nat.add_right_comm count 1 rest, collect, key]
    simp only [found, later, Option.map_map, stored, List.range'_succ, List.filterMap_cons]
    rw [Nat.add_assoc i 1 count, Nat.add_comm 1 count, ← Nat.add_assoc startSeq i 1]
    rfl

theorem length_collect {profile : Profile} {i : Nat} {msgs : List (List UInt8)}
    (found : collect profile log startSeq want i = some msgs) : msgs.length ≤ want := by
  induction want generalizing i msgs with
  | zero =>
    cases found
    exact Nat.le_refl 0
  | succ want ih =>
    rw [collect] at found
    split at found
    next => cases found
    next =>
      split at found
      next =>
        cases found
        exact Nat.zero_le _
      next =>
        obtain ⟨rest, others, rfl⟩ := Option.map_eq_some_iff.mp found
        exact Nat.succ_le_succ (ih others)

/-- The keys from the request on do not run over the end of their type. -/
def Bounded (profile : Profile) (log : Log) (startSeq want count : Nat) : Prop :=
  count = want ∨ startSeq + count < 2 ^ 64 ∨ profile = .release ∧ 0 ∉ log

/-- Collecting ends with the longest run of keys that are there, when no key wraps around to one
that is in the log as well. -/
theorem collect_eq_iff (profile : Profile) (keys : ∀ k ∈ log, k < 2 ^ 64)
    (small : startSeq < 2 ^ 64) (within : count ≤ want)
    (present : ∀ i < count, startSeq + i ∈ log)
    (longest : count < want → startSeq + count ∉ log) :
    collect profile log startSeq want 0 = some (stored log startSeq count) ↔
      Bounded profile log startSeq want count := by
  obtain ⟨rest, rfl⟩ := Nat.exists_eq_add_of_le within
  have collected := collect_stored profile keys rest 0 (by simpa using present)
  rw [Nat.zero_add, Nat.add_zero] at collected
  have ended : collect profile log startSeq (count + rest) 0 = some (stored log startSeq count) ↔
      collect profile log startSeq rest count = some [] := by
    rw [collected]
    simp [Option.map_eq_some_iff]
  rw [ended, Bounded]
  cases rest with
  | zero => simp [collect]
  | succ rest =>
    have missing := longest (by omega)
    rw [collect]
    by_cases fits : startSeq + count < 2 ^ 64
    · rw [profile.add_eq fits]
      exact iff_of_true (by simp [Std.ExtTreeMap.getElem?_eq_none missing]) (.inr (.inl fits))
    · -- the first key past the run is one past the last key of the type
      have edge : startSeq + count = 2 ^ 64 := by
        cases count with
        | zero => exact absurd small fits
        | succ count =>
          have last := keys _ (present count (Nat.lt_succ_self count))
          omega
      cases profile with
      | debug => simp [Profile.add, edge]
      | release =>
        have wrapped : Profile.add .release 64 startSeq count = some 0 := by
          rw [Profile.add, edge]
          rfl
        rw [wrapped]
        cases found : log[0]? with
        | none =>
          have absent : 0 ∉ log := by
            rw [Std.ExtTreeMap.mem_iff_isSome_getElem?, found]
            exact Bool.false_ne_true
          simp [absent]
        | some m =>
          have there : 0 ∈ log := by
            rw [Std.ExtTreeMap.mem_iff_isSome_getElem?, found]
            rfl
          simp [there, edge]

end Collecting

/-! ### Answers -/

/-- One chunk of messages in range, fewer than an end of session announces. -/
structure Readable (profile : Profile) (maxPayload : Nat) (log : Log) (startSeq want count : Nat) :
    Prop where
  single : Fits maxPayload (stored log startSeq count)
  lengths : ∀ m ∈ stored log startSeq count, m.length < 2 ^ 16
  announced : count ≠ 65535
  bounded : Bounded profile log startSeq want count

/-- Packets under one number that put at most one message at it are a single packet. -/
private theorem single_chunk (session : Session) {startSeq maxPayload : Nat}
    (small : startSeq < 2 ^ 64) {msgs : List (List UInt8)} (nonempty : msgs ≠ [])
    (count : msgs.length < 2 ^ 16) {packets : List (List UInt8)}
    (built : (chunkMessages msgs maxPayload).mapM (buildPacket session startSeq) = some packets)
    (once : (assigned packets startSeq).length ≤ 1) : chunkMessages msgs maxPayload = [msgs] := by
  obtain ⟨whole, each⟩ := chunkMessages_spec msgs maxPayload
  obtain ⟨rfl, widths⟩ := mapM_buildPacket_some built
  refine (single_or_several maxPayload nonempty).resolve_right fun two => ?_
  have shared := length_assigned session small _ fun chunk member => by
    have part := length_lt_flatten two (fun c inside => (each c inside).1) chunk member
    rw [whole] at part
    exact ⟨(each chunk member).1, by omega, (widths chunk member).2⟩
  omega

theorem numbered_inj {first : Nat} {xs ys : List (List UInt8)}
    (same : ∀ k, numbered first xs k = numbered first ys k) : xs = ys := by
  apply List.ext_getElem?
  intro i
  have here := same (first + i)
  rw [numbered, numbered, if_pos (Nat.le_add_right _ _), if_pos (Nat.le_add_right _ _),
    Nat.add_sub_cancel_left] at here
  exact Option.ext fun m => by rw [← Option.mem_toList, here, Option.mem_toList]

/-- The answer to a request puts each message of the longest run in the log at its number, once,
and nothing anywhere else, exactly when that run is readable. -/
theorem served_labels_iff (profile : Profile) (maxPayload : Nat) (session : Session) (log : Log)
    (datagram : List UInt8) (startSeq want count : Nat) (keys : ∀ k ∈ log, k < 2 ^ 64)
    (read : readRequest session datagram = some (startSeq, want)) (within : count ≤ want)
    (present : ∀ i < count, startSeq + i ∈ log)
    (longest : count < want → startSeq + count ∉ log) :
    (∃ packets, serve profile maxPayload session log datagram = some packets ∧
      ∀ k, assigned packets k =
        if startSeq ≤ k ∧ k < startSeq + count then log[k]?.toList else []) ↔
      Readable profile maxPayload log startSeq want count := by
  obtain ⟨small, _, narrow⟩ := readRequest_some read
  obtain ⟨length, _⟩ := stored_spec present
  have ended := collect_eq_iff profile keys small within present longest
  simp only [← numbered_stored present, serve, read]
  constructor
  · rintro ⟨packets, answered, labels⟩
    obtain ⟨msgs, collected, built⟩ := Option.bind_eq_some_iff.mp answered
    have few := length_collect collected
    by_cases none : count = 0
    · subst none
      exact ⟨.inl (Nat.zero_le 1), fun m member => absurd member List.not_mem_nil,
        by decide, .inr (.inl small)⟩
    · have positive := Nat.pos_of_ne_zero none
      -- the first message of the run is read at its number, and nothing else is
      have first : (assigned packets startSeq).length = 1 := by
        rw [labels, numbered, if_pos (Nat.le_refl _), Nat.sub_self,
          List.getElem?_eq_getElem (by omega)]
        rfl
      have nonempty : msgs ≠ [] := by
        rintro rfl
        cases built
        cases first
      have single := single_chunk session small nonempty (by omega) built (Nat.le_of_eq first)
      rw [single] at built
      obtain ⟨rfl, widths⟩ := mapM_buildPacket_some built
      obtain ⟨_, lengths⟩ := widths msgs (by simp)
      have announced : msgs.length ≠ 65535 := by
        intro full
        rw [List.map_singleton, assigned, List.flatMap_singleton,
          messagesAt_full session small full] at first
        cases first
      have same : msgs = stored log startSeq count := by
        apply numbered_inj
        intro k
        rw [← labels, List.map_singleton, assigned, List.flatMap_singleton,
          messagesAt_packetBytes session small (by omega) lengths]
      rw [same] at collected nonempty single lengths announced
      exact ⟨(chunkMessages_single _ maxPayload nonempty).mp single, lengths, length ▸ announced,
        ended.mp collected⟩
  · rintro ⟨single, lengths, announced, bounded⟩
    simp only [ended.mpr bounded, Option.bind_eq_bind, Option.bind_some]
    by_cases empty : stored log startSeq count = []
    · rw [empty]
      exact ⟨[], rfl, fun k => by simp [assigned, numbered]⟩
    · have chunks := (chunkMessages_single _ maxPayload empty).mpr single
      have built := buildPacket_eq session startSeq _ (by omega) lengths
      refine ⟨[packetBytes session startSeq (stored log startSeq count)], ?_, fun k => ?_⟩
      · rw [chunks, List.mapM_cons, built, List.mapM_nil]
        rfl
      · rw [assigned, List.flatMap_singleton,
          messagesAt_packetBytes session small (by omega) lengths]

/-- Two messages that fit in one packet are each read at their own number. -/
theorem served_labels_iff_pair :
    ∃ packets, serve .debug 2 (padSession [65, 66]) (((∅ : Log).insert 1 [7]).insert 2 [8])
        (Packet.header (padSession [65, 66]) 1 2) = some packets ∧
      assigned packets 1 = [[7]] ∧ assigned packets 2 = [[8]] := by
  have keys : ∀ k ∈ ((∅ : Log).insert 1 [7]).insert 2 [8], k < 2 ^ 64 := by
    intro k member
    simp only [Std.ExtTreeMap.mem_insert, Std.LawfulEqCmp.compare_eq_iff_eq,
      Std.ExtTreeMap.not_mem_empty, or_false] at member
    omega
  have read : readRequest (padSession [65, 66]) (Packet.header (padSession [65, 66]) 1 2) =
      some (1, 2) := by
    rw [readRequest_header _ _ _ _ (by decide) (by decide) (by decide), if_pos rfl]
  obtain ⟨packets, answered, labels⟩ := (served_labels_iff .debug 2 (padSession [65, 66])
    (((∅ : Log).insert 1 [7]).insert 2 [8]) _ 1 2 2 keys read (Nat.le_refl 2) (by decide)
    (fun more => absurd more (Nat.lt_irrefl 2))).mpr
    ⟨.inr (by decide), by decide, by decide, .inl rfl⟩
  exact ⟨packets, answered, labels 1, labels 2⟩

/-- Two messages that do not fit in one packet are both read at the number of the first. -/
theorem answer_repeats_number :
    ∃ packets, serve .debug 1 (padSession [65, 66]) (((∅ : Log).insert 1 [7]).insert 2 [8])
        (Packet.header (padSession [65, 66]) 1 2) = some packets ∧
      assigned packets 1 = [[7], [8]] ∧ assigned packets 2 = [] := by
  refine ⟨[packetBytes (padSession [65, 66]) 1 [[7]], packetBytes (padSession [65, 66]) 1 [[8]]],
    by decide +kernel, by decide +kernel, by decide +kernel⟩

end Hftrs.Moldudp
