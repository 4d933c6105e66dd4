import Hftrs.Moldudp.Codec

/-! The server's re-request loop: what one request is answered with. -/
namespace Hftrs.Moldudp

open Hftrs.Library

abbrev Log := Std.ExtTreeMap Nat (List UInt8) compare

/-- The range a datagram asks for: its first number and its count. The buffer holds a header, so
that a longer datagram is cut; a short one, one of another session and a count of zero are
passed over. -/
def readRequest (session : Session) (datagram : List UInt8) : Option (Nat × Nat) :=
  let buf := datagram.take 20
  if buf.length < 20 then none
  else if buf.take 10 ≠ session.bytes then none
  else
    let startSeq := decode ((buf.drop 10).take 8)
    let want := decode ((buf.drop 18).take 2)
    if want = 0 then none else some (startSeq, want)

/-- `(i..i + want).map_while(|i| log.get(&(start_seq + i)))`, where `none` is the overflow of a
key. -/
def collect (profile : Profile) (log : Log) (startSeq : Nat) :
    Nat → Nat → Option (List (List UInt8))
  | 0, _ => some []
  | want + 1, i =>
    match profile.add 64 startSeq i with
    | none => none
    | some key =>
      match log[key]? with
      | none => some []
      | some msg => (collect profile log startSeq want (i + 1)).map (msg :: ·)

/-- The packets one datagram is answered with. -/
def serve (profile : Profile) (maxPayload : Nat) (session : Session) (log : Log)
    (datagram : List UInt8) : Option (List (List UInt8)) :=
  match readRequest session datagram with
  | none => some []
  | some (startSeq, want) => do
    let msgs ← collect profile log startSeq want 0
    -- every chunk is sent under `start_seq`
    (chunkMessages msgs maxPayload).mapM (buildPacket session startSeq)

/-- A request for a range, in the session of the loop or in another. -/
theorem readRequest_header (session own : Session) (startSeq want : Nat) (seq : startSeq < 2 ^ 64)
    (positive : 0 < want) (count : want < 2 ^ 16) :
    readRequest own (Packet.header session startSeq want) =
      if session = own then some (startSeq, want) else none := by
  have parsed := Packet.parse_header session startSeq want [] seq count
  rw [List.append_nil] at parsed
  have length := Packet.length_header session startSeq want
  have whole : (Packet.header session startSeq want).take 20 =
      Packet.header session startSeq want := List.take_of_length_le (Nat.le_of_eq length)
  have long : Packet.minPacketLen ≤ (Packet.header session startSeq want).length :=
    Nat.le_of_eq length.symm
  -- the loop reads the three fields where the view does
  rw [Packet.parse, dif_pos long, Option.some.injEq, Packet.mk.injEq] at parsed
  obtain ⟨ident, number, counter, _⟩ := parsed
  have bytes : (Packet.header session startSeq want).take 10 = session.bytes :=
    congrArg Session.bytes ident
  have notShort : ¬(Packet.header session startSeq want).length < 20 := by
    rw [length, Packet.minPacketLen]
    exact Nat.lt_irrefl 20
  have notZero : want ≠ 0 := Nat.ne_of_gt positive
  simp only [readRequest, whole, if_neg notShort, bytes, number, counter, if_neg notZero]
  by_cases same : session = own
  · simp [same]
  · have other : session.bytes ≠ own.bytes := by
      intro equal
      cases session
      cases own
      cases equal
      exact same rfl
    simp [same, other]

/-- What a request in range asks for is in the bytes of a header of the loop's session. -/
theorem readRequest_some {session : Session} {datagram : List UInt8} {startSeq want : Nat}
    (read : readRequest session datagram = some (startSeq, want)) :
    startSeq < 2 ^ 64 ∧ 0 < want ∧ want < 2 ^ 16 := by
  simp only [readRequest] at read
  split at read
  next => cases read
  next =>
    split at read
    next => cases read
    next =>
      split at read
      next => cases read
      next positive =>
        cases read
        have seq := decode_lt (((datagram.take 20).drop 10).take 8)
        have count := decode_lt (((datagram.take 20).drop 18).take 2)
        have eight : (((datagram.take 20).drop 10).take 8).length ≤ 8 := List.length_take_le _ _
        have two : (((datagram.take 20).drop 18).take 2).length ≤ 2 := List.length_take_le _ _
        have seqBound := Nat.pow_le_pow_right (by decide : 0 < 256) eight
        have countBound := Nat.pow_le_pow_right (by decide : 0 < 256) two
        exact ⟨Nat.lt_of_lt_of_le seq seqBound, Nat.pos_of_ne_zero positive,
          Nat.lt_of_lt_of_le count countBound⟩

/-! ### Collecting from a contiguous log -/

/-- The log holds the messages with numbers from `first` on. -/
def Holds (log : Log) (first : Nat) (msgs : List (List UInt8)) : Prop :=
  ∀ k, log[k]? = if first ≤ k then msgs[k - first]? else none

theorem Holds.insert {log : Log} {first : Nat} {msgs : List (List UInt8)}
    (holds : Holds log first msgs) (msg : List UInt8) :
    Holds (Std.ExtTreeMap.insert log (first + msgs.length) msg) first (msgs ++ [msg]) := by
  intro k
  rw [Std.ExtTreeMap.getElem?_insert]
  split
  next same =>
    have equal := Std.LawfulEqCmp.eq_of_compare same
    rw [← equal, if_pos (Nat.le_add_right _ _), Nat.add_sub_cancel_left,
      List.getElem?_concat_length]
  next other =>
    have differs : k ≠ first + msgs.length := fun equal => other (equal ▸ Std.ReflCmp.compare_self)
    rw [holds]
    split
    next above =>
      by_cases inside : k - first < msgs.length
      · rw [List.getElem?_append_left inside]
      · rw [List.getElem?_eq_none (Nat.le_of_not_lt inside), List.getElem?_eq_none]
        rw [List.length_append, List.length_singleton]
        omega
    next => rfl

theorem Holds.mem_iff {log : Log} {first : Nat} {msgs : List (List UInt8)}
    (holds : Holds log first msgs) (k : Nat) :
    k ∈ log ↔ first ≤ k ∧ k < first + msgs.length := by
  rw [Std.ExtTreeMap.mem_iff_isSome_getElem?, holds]
  split
  next below =>
    rw [Option.isSome_iff_ne_none, ne_eq, List.getElem?_eq_none_iff]
    omega
  next above => simp [above]

/-- `store_messages` stores the last message after all others. -/
theorem storeMessages_concat (profile : Profile) (log : Log) (startSeq : Nat)
    (msgs : List (List UInt8)) (msg : List UInt8) :
    storeMessages profile log startSeq (msgs ++ [msg]) =
      (storeMessages profile log startSeq msgs).bind fun log =>
        (profile.add 64 startSeq msgs.length).map fun key => log.insert key msg := by
  rw [storeMessages, List.zipIdx_append, List.foldlM_append, storeMessages, Nat.zero_add]
  generalize List.foldlM (m := Option) _ log msgs.zipIdx = stored
  cases stored with
  | none => rfl
  | some log' =>
    simp only [Option.bind_eq_bind, Option.bind_some, List.zipIdx_singleton, List.foldlM_cons,
      List.foldlM_nil]
    cases profile.add 64 startSeq msgs.length <;> rfl

/-- It numbers the messages after those of the log. -/
theorem Holds.store {log : Log} {first : Nat} {msgs : List (List UInt8)}
    (holds : Holds log first msgs) (profile : Profile) (new : List (List UInt8))
    (fits : first + msgs.length + new.length < 2 ^ 64) :
    ∃ log', storeMessages profile log (first + msgs.length) new = some log' ∧
      Holds log' first (msgs ++ new) := by
  induction new using List.reverseRecOn with
  | nil => exact ⟨log, rfl, by rwa [List.append_nil]⟩
  | append_singleton new m ih =>
    rw [List.length_append, List.length_singleton] at fits
    obtain ⟨log', stored, held⟩ := ih (by omega)
    have key : profile.add 64 (first + msgs.length) new.length =
        some (first + msgs.length + new.length) := profile.add_eq (by omega)
    have inserted := held.insert m
    rw [List.length_append, ← Nat.add_assoc, List.append_assoc] at inserted
    refine ⟨_, ?_, inserted⟩
    rw [storeMessages_concat, stored, Option.bind_some, key, Option.map_some]

/-- Collecting stops at the end of the log or of the range, whichever is first. -/
theorem Holds.collect {log : Log} {first : Nat} {msgs : List (List UInt8)}
    (holds : Holds log first msgs) (profile : Profile) (fits : first + msgs.length < 2 ^ 64)
    (startSeq want i : Nat) (range : first ≤ startSeq) (wide : startSeq < 2 ^ 64)
    (within : i = 0 ∨ startSeq + i ≤ first + msgs.length) :
    collect profile log startSeq want i =
      some ((msgs.drop (startSeq + i - first)).take want) := by
  -- on the range: the keys that are looked up are those of the log and one more
  induction want generalizing i with
  | zero => rw [Moldudp.collect, List.take_zero]
  | succ want ih =>
    have key : profile.add 64 startSeq i = some (startSeq + i) := profile.add_eq (by omega)
    have found := holds (startSeq + i)
    rw [if_pos (by omega)] at found
    simp only [Moldudp.collect, key, found]
    by_cases inside : startSeq + i - first < msgs.length
    · have next : startSeq + (i + 1) - first = startSeq + i - first + 1 := by omega
      rw [List.getElem?_eq_getElem inside]
      simp only [ih (i + 1) (.inr (by omega)), Option.map_some, next]
      rw [List.drop_eq_getElem_cons inside, List.take_succ_cons]
    · rw [List.getElem?_eq_none (Nat.le_of_not_lt inside),
        List.drop_eq_nil_of_le (Nat.le_of_not_lt inside), List.take_nil]

/-- A range outside the log on the low side is met with nothing. -/
theorem Holds.collect_below {log : Log} {first : Nat} {msgs : List (List UInt8)}
    (holds : Holds log first msgs) (profile : Profile) (startSeq want : Nat)
    (below : startSeq < first) (wide : startSeq < 2 ^ 64) :
    Moldudp.collect profile log startSeq want 0 = some [] := by
  cases want with
  | zero => rfl
  | succ want =>
    have key : profile.add 64 startSeq 0 = some startSeq := profile.add_eq wide
    have missing := holds startSeq
    rw [if_neg (Nat.not_le.mpr below)] at missing
    simp only [Moldudp.collect, key, missing]

end Hftrs.Moldudp
