import Hftrs.Itch5.Messages
import Hftrs.Library.Framing

/-! The streaming parser. A handler that panics is `none`. -/
namespace Hftrs.Itch5

open Hftrs.Library

inductive ParseError where
  | EmptyBuffer
  | UnknownMessageType (tag : UInt8)
  | MalformedData
  deriving DecidableEq, Repr

inductive ControlFlow where
  | Continue
  | Break
  deriving DecidableEq, Repr

/-- The 23 methods of a `MessageHandler`, as one method of the message kind. -/
abbrev Handler (σ : Type) := (kind : MsgKind) → Msg kind → σ → Option (ControlFlow × σ)

/-- The tags that `parse_one` lets through. -/
def parseOneTags : List UInt8 :=
  ['S', 'R', 'H', 'Y', 'L', 'V', 'W', 'K', 'J', 'h', 'A', 'F', 'E', 'C', 'X', 'D', 'U', 'P', 'Q',
    'B', 'I', 'N', 'O'].map Char.toUInt8

/-- The arms of the dispatch in `parse_stream`, each with the struct whose method it calls. -/
def arms : List (UInt8 × MsgKind) :=
  [('S'.toUInt8, .systemEvent), ('R'.toUInt8, .stockDirectory),
    ('H'.toUInt8, .stockTradingAction), ('Y'.toUInt8, .regSHORestriction),
    ('L'.toUInt8, .marketParticipantPosition), ('V'.toUInt8, .mwcbDeclineLevel),
    ('W'.toUInt8, .mwcbStatus), ('K'.toUInt8, .quotingPeriodUpdate),
    ('J'.toUInt8, .luldAuctionCollar), ('h'.toUInt8, .operationalHalt),
    ('A'.toUInt8, .addOrderNoMPIDAttribution), ('F'.toUInt8, .addOrderWithMPIDAttribution),
    ('E'.toUInt8, .orderExecuted), ('C'.toUInt8, .orderExecutedWithPrice),
    ('X'.toUInt8, .orderCancel), ('D'.toUInt8, .orderDelete), ('U'.toUInt8, .orderReplace),
    ('P'.toUInt8, .trade), ('Q'.toUInt8, .crossTrade), ('B'.toUInt8, .brokenTrade),
    ('I'.toUInt8, .netOrderImbalanceIndicator), ('N'.toUInt8, .retailPriceImprovementIndicator),
    ('O'.toUInt8, .directListingwithCapitalRaisePriceDiscovery)]

def arm (tag : UInt8) : Option MsgKind := (arms.find? fun arm => arm.1 = tag).map Prod.snd

/-- Parse a single framed message: its body and the remainder of the buffer. -/
def parseOne (buf : List UInt8) : Except ParseError (List UInt8 × List UInt8) :=
  match splitAtChecked buf 2 with
  | none => .error .EmptyBuffer
  | some (lenBytes, rest) =>
    match splitAtChecked rest (decode lenBytes) with
    | none => .error .MalformedData
    | some (body, rest) =>
      match body.head? with
      | some tag =>
        if tag ∈ parseOneTags then .ok (body, rest) else .error (.UnknownMessageType tag)
      | none => .error .MalformedData

/-- `ref_from_bytes` on an unaligned struct of a fixed size. -/
def cast (kind : MsgKind) (body : List UInt8) : Except ParseError (Msg kind) :=
  if length : body.length = kind.len then .ok ⟨body, length⟩ else .error .MalformedData

/-- `parse_one` accepts the first block when its body begins with a known tag. -/
theorem parseOne_iff (buf body rest : List UInt8) :
    parseOne buf = .ok (body, rest) ↔
      splitBlock buf = some (body, rest) ∧ ∃ tag ∈ parseOneTags, body.head? = some tag := by
  constructor
  · intro parsed
    unfold parseOne at parsed
    split at parsed
    next => cases parsed
    next lenBytes tail first =>
      split at parsed
      next => cases parsed
      next body' rest' second =>
        split at parsed
        next tag tagged =>
          split at parsed
          next known =>
            cases parsed
            refine ⟨?_, tag, known, tagged⟩
            simp only [splitBlock, first, Option.bind_some, second]
          next => cases parsed
        next => cases parsed
  · rintro ⟨split, tag, known, tagged⟩
    obtain ⟨⟨lenBytes, tail⟩, first, second⟩ := Option.bind_eq_some_iff.mp split
    simp only [parseOne, first, second, tagged, known, if_true]

theorem parseOne_length {buf body rest : List UInt8} (parsed : parseOne buf = .ok (body, rest)) :
    rest.length < buf.length :=
  splitBlock_length ((parseOne_iff buf body rest).mp parsed).1

/-- The match on `body[0]`: indexing an empty body panics, and a known tag calls the method of its
struct. -/
def dispatch {σ : Type} (on : Handler σ) (body : List UInt8) (s : σ) :
    Option (Except ParseError ControlFlow × σ) :=
  match body with
  -- `body[0]`; no body that `parse_one` returns is empty
  | [] => none
  | tag :: _ =>
    match arm tag with
    | none => some (.error (.UnknownMessageType tag), s)
    | some kind =>
      match cast kind body with
      | .error e => some (.error e, s)
      | .ok msg => (on kind msg s).map fun (cf, s) => (.ok cf, s)

/-- Iterate over every framed message in the buffer. The result is what the call returns, the
parser's buffer when it does, and the handler's state. -/
def parseStream {σ : Type} (on : Handler σ) (buf : List UInt8) (s : σ) :
    Option (Except ParseError Unit × List UInt8 × σ) :=
  if buf = [] then some (.ok (), [], s)
  else
    match _parsed : parseOne buf with
    | .error e => some (.error e, buf, s)
    | .ok (body, rest) =>
      match dispatch on body s with
      | none => none
      | some (.error e, s) => some (.error e, rest, s)
      | some (.ok .Break, s) => some (.ok (), rest, s)
      | some (.ok .Continue, s) => parseStream on rest s
  termination_by buf.length
  decreasing_by exact parseOne_length _parsed

@[simp] theorem parseStream_nil {σ : Type} (on : Handler σ) (s : σ) :
    parseStream on [] s = some (.ok (), [], s) := by
  rw [parseStream, if_pos rfl]

theorem parseStream_error {σ : Type} (on : Handler σ) (buf : List UInt8) (s : σ) (e : ParseError)
    (nonempty : buf ≠ []) (failed : parseOne buf = .error e) :
    parseStream on buf s = some (.error e, buf, s) := by
  rw [parseStream, if_neg nonempty]
  split
  next e' same => rw [failed] at same; cases same; rfl
  next body rest parsed => rw [failed] at parsed; cases parsed

theorem parseStream_ok {σ : Type} (on : Handler σ) (buf body rest : List UInt8) (s : σ)
    (parsed : parseOne buf = .ok (body, rest)) :
    parseStream on buf s =
      match dispatch on body s with
      | none => none
      | some (.error e, s) => some (.error e, rest, s)
      | some (.ok .Break, s) => some (.ok (), rest, s)
      | some (.ok .Continue, s) => parseStream on rest s := by
  have nonempty : buf ≠ [] := by
    rintro rfl
    cases parsed
  rw [parseStream, if_neg nonempty]
  split
  next e failed => rw [parsed] at failed; cases failed
  next body' rest' same => rw [parsed] at same; cases same; rfl

end Hftrs.Itch5
