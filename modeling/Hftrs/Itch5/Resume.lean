import Hftrs.Itch5.Acceptance

/-! Calling `parse_stream` again where a handler has stopped it. -/
namespace Hftrs.Itch5

open Hftrs.Library

variable {σ : Type}

/-- A call that returns without an error has consumed a frame, or the buffer was empty. -/
theorem parseStream_shorter (on : Handler σ) (buf left : List UInt8) (s s' : σ)
    (nonempty : buf ≠ []) (called : parseStream on buf s = some (.ok (), left, s')) :
    left.length < buf.length := by
  -- on the length of the buffer: a frame that the handler lets pass leaves a shorter one
  induction size : buf.length using Nat.strong_induction_on generalizing buf s with
  | _ n ih =>
    subst size
    cases parsed : parseOne buf with
    | error e =>
      rw [parseStream_error on buf s e nonempty parsed] at called
      cases called
    | ok first =>
      obtain ⟨body, rest⟩ := first
      have shorter := parseOne_length parsed
      rw [parseStream_ok on buf body rest s parsed] at called
      split at called
      next => cases called
      next => cases called
      next =>
        cases called
        exact shorter
      next s₁ _ =>
        by_cases empty : rest = []
        · rw [empty, parseStream_nil] at called
          cases called
          exact List.length_pos_iff.mpr nonempty
        · exact Nat.lt_trans (ih rest.length shorter rest s₁ empty called rfl) shorter

/-- Calls of `parse_stream` on one parser, until its buffer is empty or a call fails. -/
def resumeStream (on : Handler σ) (buf : List UInt8) (s : σ) :
    Option (Except ParseError Unit × List UInt8 × σ) :=
  if _nonempty : buf = [] then some (.ok (), [], s)
  else
    match _called : parseStream on buf s with
    | none => none
    | some (.error e, left, s) => some (.error e, left, s)
    | some (.ok (), left, s) => resumeStream on left s
  termination_by buf.length
  decreasing_by exact parseStream_shorter on buf left _ _ _nonempty _called

/-- The handler when it never asks the parser to stop. -/
def steady (on : Handler σ) : Handler σ := fun kind msg s =>
  (on kind msg s).map fun (_, s') => (.Continue, s')

/-- The handler with a list of the messages that it was handed. -/
def logged (on : Handler σ) : Handler (List Message × σ) := fun kind msg (log, s) =>
  (on kind msg s).map fun (cf, s') => (cf, log ++ [⟨kind, msg⟩], s')

@[simp] theorem resumeStream_nil (on : Handler σ) (s : σ) :
    resumeStream on [] s = some (.ok (), [], s) := by
  rw [resumeStream, dif_pos rfl]

theorem resumeStream_eq (on : Handler σ) (buf : List UInt8) (s : σ) :
    resumeStream on buf s =
      match parseStream on buf s with
      | none => none
      | some (.error e, left, s) => some (.error e, left, s)
      | some (.ok (), left, s) => resumeStream on left s := by
  by_cases empty : buf = []
  · subst empty
    simp only [parseStream_nil, resumeStream_nil]
  · rw [resumeStream, dif_neg empty]
    split
    next none => rw [none]
    next failed => rw [failed]
    next returned => rw [returned]

theorem dispatch_steady (on : Handler σ) (body : List UInt8) (s : σ) :
    dispatch (steady on) body s =
      (dispatch on body s).map fun (returned, s') => (returned.map fun _ => .Continue, s') := by
  unfold dispatch
  split
  next => rfl
  next =>
    split
    next => rfl
    next =>
      split
      next => rfl
      next =>
        rw [steady, Option.map_map, Option.map_map]
        rfl

/-- Resuming after every break is one call in which the handler does not break. -/
theorem resumeStream_steady (on : Handler σ) (buf : List UInt8) (s : σ) :
    resumeStream on buf s = parseStream (steady on) buf s := by
  -- on the length of the buffer: one turn of the loop on either side
  induction size : buf.length using Nat.strong_induction_on generalizing buf s with
  | _ n ih =>
    subst size
    by_cases empty : buf = []
    · rw [empty, resumeStream_nil, parseStream_nil]
    cases parsed : parseOne buf with
    | error e =>
      rw [resumeStream_eq, parseStream_error on buf s e empty parsed,
        parseStream_error (steady on) buf s e empty parsed]
    | ok first =>
      obtain ⟨body, rest⟩ := first
      have onwards := fun s' => ih rest.length (parseOne_length parsed) rest s' rfl
      rw [resumeStream_eq, parseStream_ok on buf body rest s parsed,
        parseStream_ok (steady on) buf body rest s parsed, dispatch_steady]
      cases dispatch on body s with
      | none => rfl
      | some result =>
        obtain ⟨returned, s'⟩ := result
        rcases returned with e | _ | _
        · rfl
        -- after `Continue` the same call goes on, after `Break` the next one does
        · exact (resumeStream_eq on rest s').symm.trans (onwards s')
        · exact onwards s'

theorem deliver_steady (on : Handler σ) (msgs : List Message) (s : σ) :
    deliver (steady on) msgs s = deliver on msgs s := by
  induction msgs generalizing s with
  | nil => rfl
  | cons m ms ih =>
    rw [deliver, deliver, steady]
    cases on m.1 m.2 s with
    | none => rfl
    | some result => exact ih result.2

/-- The log holds what is delivered. -/
theorem deliver_logged (on : Handler σ) (msgs log : List Message) (s : σ) :
    deliver (logged on) msgs (log, s) =
      (deliver on msgs s).map fun s' => (log ++ msgs, s') := by
  induction msgs generalizing log s with
  | nil => rw [deliver, deliver, Option.map_some, List.append_nil]
  | cons m ms ih =>
    rw [deliver, deliver, logged]
    cases on m.1 m.2 s with
    | none => rfl
    | some result =>
      have onwards := ih (log ++ [m]) result.2
      rw [List.append_assoc, List.singleton_append] at onwards
      exact onwards

theorem logged_steady (on : Handler σ) : logged (steady on) = steady (logged on) := by
  funext kind msg ⟨log, s⟩
  rw [logged, steady, steady, logged, Option.map_map, Option.map_map]
  rfl

theorem steady_ne_break (on : Handler σ) (kind : MsgKind) (msg : Msg kind) (s s' : σ) :
    steady on kind msg s ≠ some (.Break, s') := by
  rw [steady]
  cases on kind msg s <;> simp

/-- Whatever messages a handler breaks at, the calls in a row return what a single call with the
handler that does not break returns, leave the same buffer and the same state, and hand over the
same messages: those of the frames at the front, each once and in order. -/
theorem resumed_same (on : Handler σ) (buf : List UInt8) :
    (∀ s, resumeStream on buf s = parseStream (steady on) buf s) ∧
    ∃ msgs r, buf = framed msgs ++ r ∧ (∀ m ∈ msgs, m.Tagged) ∧ NoFrame r ∧ ∀ s, ∃ left,
      resumeStream (logged on) buf ([], s) =
        (deliver on msgs s).map (fun s' => (verdict r, left, msgs, s')) ∧
      parseStream (logged (steady on)) buf ([], s) =
        (deliver on msgs s).map fun s' => (verdict r, left, msgs, s') := by
  refine ⟨resumeStream_steady on buf, ?_⟩
  obtain ⟨msgs, r, rfl, tagged, invalid⟩ := exists_frames buf
  refine ⟨msgs, r, rfl, tagged, invalid, fun s => ?_⟩
  obtain ⟨left, single⟩ := parseStream_framed (steady (logged on)) (steady_ne_break (logged on))
    msgs tagged r invalid ([], s)
  rw [deliver_steady, deliver_logged, List.nil_append, Option.map_map] at single
  refine ⟨left, ?_, ?_⟩
  · rw [resumeStream_steady, single]
    rfl
  · rw [logged_steady, single]
    rfl

end Hftrs.Itch5
