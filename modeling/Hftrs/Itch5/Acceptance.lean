import Hftrs.Itch5.Parse

/-! What the streaming parser accepts, and the error for everything else. -/
namespace Hftrs.Itch5

open Hftrs.Library

/-! ### The two tag lists -/

theorem arm_tag (kind : MsgKind) : arm kind.tag = some kind := by cases kind <;> decide

/-- The tags that `parse_one` lets through are those that `parse_stream` dispatches. -/
theorem known_iff (tag : UInt8) : tag ∈ parseOneTags ↔ tag ∈ MsgKind.all.map MsgKind.tag := by
  have same : parseOneTags = MsgKind.all.map MsgKind.tag := by decide
  rw [same]

theorem tag_mem (kind : MsgKind) : kind.tag ∈ parseOneTags :=
  (known_iff kind.tag).mpr (List.mem_map_of_mem (MsgKind.mem_all kind))

/-- A body that `parse_one` returns has an arm in `parse_stream`. -/
theorem parseOne_arm {buf body rest : List UInt8} (parsed : parseOne buf = .ok (body, rest)) :
    ∃ tag tail kind, body = tag :: tail ∧ arm tag = some kind ∧ kind.tag = tag := by
  obtain ⟨_, tag, known, tagged⟩ := (parseOne_iff buf body rest).mp parsed
  obtain ⟨kind, _, rfl⟩ := List.mem_map.mp ((known_iff tag).mp known)
  cases body with
  | nil => cases tagged
  | cons first tail =>
    cases tagged
    exact ⟨kind.tag, tail, kind, rfl, arm_tag kind, rfl⟩

/-! ### Frames -/

/-- The frames of the messages, one after the other. -/
def framed (msgs : List Message) : List UInt8 := blocks (msgs.map fun m => m.2.bytes)

/-- The verdict on bytes that do not begin with a valid frame. -/
def verdict : List UInt8 → Except ParseError Unit
  | [] => .ok ()
  | [_] => .error .EmptyBuffer
  | high :: low :: rest =>
    if rest.length < decode [high, low] ∨ decode [high, low] = 0 then .error .MalformedData
    else match rest with
      | [] => .error .MalformedData
      | tag :: _ =>
        if tag ∈ MsgKind.all.map MsgKind.tag then .error .MalformedData
        else .error (.UnknownMessageType tag)

/-- The bytes do not begin with a valid frame. -/
def NoFrame (r : List UInt8) : Prop := ∀ m : Message, m.Tagged → ¬block m.2.bytes <+: r

/-- Hand the messages to the handler's methods in order, whatever control flow they return. -/
def deliver {σ : Type} (on : Handler σ) : List Message → σ → Option σ
  | [], s => some s
  | m :: ms, s => (on m.1 m.2 s).bind fun (_, s') => deliver on ms s'

theorem Msg.fits {kind : MsgKind} (msg : Msg kind) : msg.bytes.length < 2 ^ 16 := by
  have bounds := kind.len_bounds
  rw [msg.length]
  omega

@[simp] theorem framed_nil : framed [] = [] := rfl

@[simp] theorem framed_cons (m : Message) (ms : List Message) :
    framed (m :: ms) = block m.2.bytes ++ framed ms := rfl

variable {σ : Type}

theorem deliver_append (on : Handler σ) (ms ns : List Message) (s : σ) :
    deliver on (ms ++ ns) s = (deliver on ms s).bind (deliver on ns) := by
  induction ms generalizing s with
  | nil => rfl
  | cons m ms ih =>
    rw [List.cons_append, deliver, deliver]
    cases on m.1 m.2 s with
    | none => rfl
    | some result => exact ih result.2

/-- No bytes are no frame. -/
theorem noFrame_nil : NoFrame [] := by
  intro m _ front
  have length := length_block m.2.bytes
  rw [List.prefix_nil.mp front] at length
  simp at length

/-- The error of `parse_one` is the verdict. -/
theorem parseOne_error {buf : List UInt8} {e : ParseError} (nonempty : buf ≠ [])
    (failed : parseOne buf = .error e) : verdict buf = .error e := by
  match buf with
  | [] => exact absurd rfl nonempty
  | [_] => cases failed; rfl
  | high :: low :: tail =>
    have first : splitAtChecked (high :: low :: tail) 2 = some ([high, low], tail) :=
      splitAtChecked_append [high, low] tail
    simp only [parseOne, first] at failed
    simp only [verdict]
    cases second : splitAtChecked tail (decode [high, low]) with
    | none =>
      rw [second] at failed
      -- fewer bytes follow than the length announces
      cases failed
      rw [if_pos (Or.inl ((splitAtChecked_none _ _).mp second))]
    | some split =>
      obtain ⟨body, rest⟩ := split
      obtain ⟨rfl, length⟩ := splitAtChecked_some second
      rw [second] at failed
      cases body with
      | nil =>
        -- an empty body: the length is zero
        cases failed
        exact if_pos (Or.inr length.symm)
      | cons tag tail =>
        simp only [List.head?_cons] at failed
        split at failed
        next => cases failed
        next unknown =>
          -- a body whose tag no arm knows
          cases failed
          rw [known_iff] at unknown
          rw [List.length_cons] at length
          rw [if_neg (by simp only [List.length_append, List.length_cons]; omega)]
          exact if_neg unknown

private theorem verdict_tagged (kind : MsgKind) (tail rest : List UInt8)
    (small : (kind.tag :: tail).length < 2 ^ 16) :
    verdict (block (kind.tag :: tail) ++ rest) = .error .MalformedData := by
  have length := decode_encode 2 (kind.tag :: tail).length small
  have known : kind.tag ∈ MsgKind.all.map MsgKind.tag := (known_iff _).mp (tag_mem kind)
  change verdict (_ :: _ :: (kind.tag :: tail ++ rest)) = _
  simp only [verdict]
  split
  next => rfl
  next => exact if_pos known

/-- One turn of the loop on a valid frame. -/
theorem parseStream_frame (on : Handler σ) (m : Message) (tagged : m.Tagged) (rest : List UInt8)
    (s : σ) :
    parseStream on (block m.2.bytes ++ rest) s =
      match on m.1 m.2 s with
      | none => none
      | some (.Break, s') => some (.ok (), rest, s')
      | some (.Continue, s') => parseStream on rest s' := by
  obtain ⟨kind, msg⟩ := m
  have parsed : parseOne (block msg.bytes ++ rest) = .ok (msg.bytes, rest) :=
    (parseOne_iff _ _ _).mpr ⟨splitBlock_block _ _ msg.fits, kind.tag, tag_mem kind, tagged⟩
  have dispatched : dispatch on msg.bytes s =
      (on kind msg s).map fun (cf, s) => (.ok cf, s) := by
    obtain ⟨bytes, length⟩ := msg
    obtain ⟨tail, shape⟩ := List.head?_eq_some_iff.mp tagged
    change bytes = kind.tag :: tail at shape
    subst shape
    simp only [dispatch, arm_tag, cast, dif_pos length]
  rw [parseStream_ok on _ _ rest s parsed, dispatched]
  cases on kind msg s with
  | none => rfl
  | some result => obtain ⟨_ | _, s'⟩ := result <;> rfl

/-- The loop stops on bytes that do not begin with a valid frame. -/
theorem parseStream_stop (on : Handler σ) (buf : List UInt8) (s : σ)
    (invalid : NoFrame buf) : ∃ left, parseStream on buf s = some (verdict buf, left, s) := by
  by_cases empty : buf = []
  · rw [empty, parseStream_nil]
    exact ⟨[], rfl⟩
  cases parsed : parseOne buf with
  | error e =>
    rw [parseStream_error on buf s e empty parsed, parseOne_error empty parsed]
    exact ⟨buf, rfl⟩
  | ok first =>
    obtain ⟨body, rest⟩ := first
    -- the frame has a known tag, so its length is not that of the struct
    obtain ⟨tag, tail, kind, rfl, dispatched, rfl⟩ := parseOne_arm parsed
    obtain ⟨split, _⟩ := (parseOne_iff _ _ _).mp parsed
    obtain ⟨rfl, small⟩ := splitBlock_some split
    have wrong : (kind.tag :: tail).length ≠ kind.len := by
      intro length
      exact invalid ⟨kind, ⟨kind.tag :: tail, length⟩⟩ rfl (List.prefix_append _ _)
    rw [parseStream_ok on _ _ rest s parsed]
    simp only [dispatch, dispatched, cast, dif_neg wrong]
    exact ⟨rest, by rw [verdict_tagged kind tail rest small]⟩

/-- The loop over valid frames hands each message to its method, in order. -/
theorem parseStream_framed (on : Handler σ)
    (neverBreaks : ∀ kind msg s s', on kind msg s ≠ some (.Break, s')) (msgs : List Message)
    (tagged : ∀ m ∈ msgs, m.Tagged) (r : List UInt8) (invalid : NoFrame r) (s : σ) :
    ∃ left, parseStream on (framed msgs ++ r) s =
      (deliver on msgs s).map fun s' => (verdict r, left, s') := by
  -- on the messages: each takes one turn of the loop, and the bytes behind the last one stop it
  induction msgs generalizing s with
  | nil => exact parseStream_stop on r s invalid
  | cons m ms ih =>
    have head : m.Tagged := tagged m (by simp)
    have tail : ∀ n ∈ ms, n.Tagged := fun n member => tagged n (by simp [member])
    rw [framed_cons, List.append_assoc, parseStream_frame on m head, deliver]
    cases called : on m.1 m.2 s with
    | none => exact ⟨[], rfl⟩
    | some result =>
      obtain ⟨cf, s'⟩ := result
      cases cf with
      | Break => exact absurd called (neverBreaks m.1 m.2 s s')
      | Continue => exact ih tail s'

/-! ### The longest prefix of valid frames -/

private theorem message_ext (m n : Message) (left : m.Tagged) (right : n.Tagged)
    (same : m.2.bytes = n.2.bytes) : m = n := by
  obtain ⟨kind, ⟨bytes, length⟩⟩ := m
  obtain ⟨kind', ⟨bytes', length'⟩⟩ := n
  change bytes = bytes' at same
  subst same
  have tags : some kind.tag = some kind'.tag := left.symm.trans right
  have kinds := arm_tag kind
  rw [Option.some.inj tags, arm_tag] at kinds
  cases kinds
  rfl

theorem exists_frames (buf : List UInt8) :
    ∃ msgs r, buf = framed msgs ++ r ∧ (∀ m ∈ msgs, m.Tagged) ∧ NoFrame r := by
  -- on the length of the buffer: each frame takes bytes off it
  induction size : buf.length using Nat.strongRecOn generalizing buf with
  | ind n ih =>
    by_cases invalid : NoFrame buf
    · exact ⟨[], buf, rfl, by simp, invalid⟩
    · simp only [NoFrame, not_forall, not_not] at invalid
      obtain ⟨m, tagged, rest, rfl⟩ := invalid
      rw [List.length_append, length_block] at size
      obtain ⟨ms, r, rfl, all, stop⟩ := ih rest.length (by omega) rest rfl
      refine ⟨m :: ms, r, by rw [framed_cons, List.append_assoc], ?_, stop⟩
      intro n member
      rcases List.mem_cons.mp member with rfl | inside
      · exact tagged
      · exact all n inside

/-- Valid frames at the front of a buffer are the first of its frames. -/
theorem framed_isPrefix (ns msgs : List Message) (r : List UInt8)
    (tagged : ∀ m ∈ msgs, m.Tagged) (others : ∀ n ∈ ns, n.Tagged) (invalid : NoFrame r)
    (front : framed ns <+: framed msgs ++ r) : ns <+: msgs := by
  induction ns generalizing msgs with
  | nil => exact List.nil_prefix
  | cons n ns ih =>
    have first : n.Tagged := others n (by simp)
    cases msgs with
    | nil => exact absurd ((List.prefix_append _ _).trans front) (invalid n first)
    | cons m ms =>
      obtain ⟨rest, same⟩ := front
      rw [framed_cons, framed_cons, List.append_assoc, List.append_assoc] at same
      -- splitting the first block off either side shows that it is the same message
      have left := splitBlock_block n.2.bytes (framed ns ++ rest) n.2.fits
      rw [same, splitBlock_block _ _ m.2.fits] at left
      obtain ⟨bytes, tails⟩ := Prod.mk.inj (Option.some.inj left)
      have heads := message_ext m n (tagged m (by simp)) first bytes
      subst heads
      have inner := ih ms (fun m member => tagged m (by simp [member]))
        (fun n member => others n (by simp [member])) ⟨rest, tails.symm⟩
      exact List.cons_prefix_cons.mpr ⟨rfl, inner⟩

theorem verdict_ok (r : List UInt8) : verdict r = .ok () ↔ r = [] := by
  constructor
  · intro accepted
    match r with
    | [] => rfl
    | [_] => cases accepted
    | high :: low :: rest =>
      simp only [verdict] at accepted
      split at accepted
      next => cases accepted
      next =>
        split at accepted
        next => cases accepted
        next => split at accepted <;> cases accepted
  · rintro rfl
    rfl

/-- With a handler that never breaks, `parse_stream` hands over exactly the messages of the
longest prefix of valid frames, in order, and its result is the verdict on the bytes behind it.
The arm for unknown tags is never reached. -/
theorem parseStream_correct (on : Handler σ)
    (neverBreaks : ∀ kind msg s s', on kind msg s ≠ some (.Break, s')) (buf : List UInt8) :
    (∃ msgs r, buf = framed msgs ++ r ∧ (∀ m ∈ msgs, m.Tagged) ∧
      (∀ ns, (∀ n ∈ ns, Message.Tagged n) → framed ns <+: buf → ns <+: msgs) ∧
      (∀ s, ∃ left, parseStream on buf s =
        (deliver on msgs s).map fun s' => (verdict r, left, s')) ∧
      (verdict r = .ok () ↔ r = [])) ∧
    ∀ buf body rest, parseOne buf = .ok (body, rest) → ∃ tag tail kind,
      body = tag :: tail ∧ arm tag = some kind := by
  constructor
  · obtain ⟨msgs, r, rfl, tagged, invalid⟩ := exists_frames buf
    refine ⟨msgs, r, rfl, tagged, ?_, ?_, verdict_ok r⟩
    · intro ns others front
      exact framed_isPrefix ns msgs r tagged others invalid front
    · exact parseStream_framed on neverBreaks msgs tagged r invalid
  · intro buf body rest parsed
    obtain ⟨tag, tail, kind, shape, dispatched, _⟩ := parseOne_arm parsed
    exact ⟨tag, tail, kind, shape, dispatched⟩

/-- A handler that counts its messages, on an order delete and a frame of an unknown tag. -/
theorem parseStream_correct_counting :
    ∃ msgs r, block (68 :: List.replicate 18 0) ++ [0, 1, 90] = framed msgs ++ r ∧
      ∀ n : Nat, ∃ left, parseStream (fun _ _ n => some (.Continue, n + 1))
          (block (68 :: List.replicate 18 0) ++ [0, 1, 90]) n =
        (deliver (fun _ _ n => some (.Continue, n + 1)) msgs n).map fun n' =>
          (verdict r, left, n') := by
  obtain ⟨⟨msgs, r, frames, _, _, parsed, _⟩, _⟩ := parseStream_correct
    (fun _ _ n => some (.Continue, n + 1)) (by simp)
    (block (68 :: List.replicate 18 0) ++ [0, 1, 90])
  exact ⟨msgs, r, frames, parsed⟩

end Hftrs.Itch5
