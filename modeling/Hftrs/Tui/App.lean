import Mathlib.Data.List.Sort
import Hftrs.Itch5.Symbol
import Hftrs.Orderbook.Queries
import Hftrs.Orderbook.Walks
import Hftrs.App.Handler

/-! State of the terminal user interface. A panic is `none`. -/
namespace Hftrs.Tui

open Hftrs.Itch5 Hftrs.Orderbook Hftrs.App

/-- The scroll state of a list: a selection and an offset. -/
class ListState (L : Type) where
  default : L
  selected : L → Option Nat
  select : L → Option Nat → L
  offset : L → Nat
  /-- The write through the reference that `offset_mut` returns. -/
  setOffset : L → Nat → L
  selected_default : selected default = none
  selected_select (state : L) (row : Option Nat) : selected (select state row) = row
  selected_setOffset (state : L) (row : Nat) : selected (setOffset state row) = selected state
  offset_setOffset (state : L) (row : Nat) : offset (setOffset state row) = row

/-- The state as its two fields; selecting nothing resets the offset. -/
structure Fields where
  offset : Nat
  selected : Option Nat
  deriving DecidableEq

instance : ListState Fields where
  default := ⟨0, none⟩
  selected := Fields.selected
  select := fun state row =>
    { state with selected := row, offset := if row.isNone then 0 else state.offset }
  offset := Fields.offset
  setOffset := fun state offset => { state with offset }
  selected_default := rfl
  selected_select := fun _ _ => rfl
  selected_setOffset := fun _ _ => rfl
  offset_setOffset := fun _ _ => rfl

structure DepthLadder where
  bids : List (Int × Nat)
  asks : List (Int × Nat)
  deriving DecidableEq

/-- Row counts of the next render, of type `usize`. -/
structure Viewport where
  listHeight : Nat
  ladderRows : Nat
  small : listHeight < 2 ^ 64 ∧ ladderRows < 2 ^ 64

/-- A row of the symbol list. -/
structure VisibleRow where
  symbol : Nat
  bestBid : Option (Int × Nat)
  bestAsk : Option (Int × Nat)
  orders : Nat
  deriving DecidableEq

inductive Mode where
  | Normal
  | Filter
  deriving DecidableEq, Repr

inductive KeyEventKind where
  | Press
  | Repeat
  | Release
  deriving DecidableEq, Repr

inductive KeyCode where
  | Char (char : Char)
  | Esc
  | Enter
  | Backspace
  | Down
  | Up
  | PageDown
  | PageUp
  | Home
  | End
  | other
  deriving DecidableEq, Repr

structure KeyEvent where
  code : KeyCode
  /-- Whether the modifiers contain `CONTROL`. -/
  control : Bool
  kind : KeyEventKind
  deriving DecidableEq, Repr

/-- The caches and the state of the interface. -/
structure App (L : Type) where
  /-- `(locate, symbol)` of every registered symbol, in the order of the symbols. -/
  symbols : List (Nat × Nat)
  /-- Indices into `symbols`. -/
  filtered : List Nat
  stats : HandlerStats
  depth : DepthLadder
  listState : L
  filter : List Char
  mode : Mode
  selectedLocate : Option Nat
  viewport : Viewport
  visibleRows : List VisibleRow
  lastDirectoryMsgs : Nat
  lastFilter : Option (List Char)

/-- `as i32`, of a `usize`. -/
def asI32 (n : Nat) : Int := (n : Int).bmod (2 ^ 32)

/-- `as usize`, of an `i32`. -/
def asUsize (x : Int) : Nat := (x % 2 ^ 64).toNat

/-- `clamp` panics when its bounds cross. -/
def clamp (x low high : Int) : Option Int :=
  if low ≤ high then some (max low (min x high)) else none

/-- The text of a symbol starts with the filter. -/
def shows (filter : List Char) (symbol : Nat) : Bool :=
  filter.isEmpty || filter.isPrefixOf (trimEnd (Symbol.asStr symbol))

namespace App

variable {L R : Type} [ListState L]

def new : App L where
  symbols := []
  filtered := []
  stats := .default
  depth := ⟨[], []⟩
  listState := ListState.default
  filter := []
  mode := .Normal
  selectedLocate := none
  viewport := ⟨0, 0, by decide⟩
  visibleRows := []
  lastDirectoryMsgs := 0
  lastFilter := none

omit [ListState L] in
/-- `set_viewport` -/
def setViewport (app : App L) (viewport : Viewport) : App L := { app with viewport }

/-! ### The refresh -/

omit [ListState L] in
/-- The symbols of the registry, sorted stably, when there are new directory messages; and whether
they were rebuilt. -/
def rebuildSymbols [IterRegistry R] (profile : Profile) (order : IterRegistry.Order R)
    (registry : R) (app : App L) : Option (Bool × App L) :=
  if app.stats.stockDirectoryMsgs ≠ app.lastDirectoryMsgs then do
    let items ← IterRegistry.iter profile order registry
    let symbols := items.map fun (locate, symbol, _) => (locate, symbol)
    return (true, { app with
      symbols := symbols.insertionSort fun a b => a.2 ≤ b.2
      lastDirectoryMsgs := app.stats.stockDirectoryMsgs })
  else some (false, app)

omit [ListState L] in
def rebuildFiltered (app : App L) : App L :=
  { app with
    filtered := app.symbols.zipIdx.filterMap fun ((_, symbol), i) =>
      if shows app.filter symbol then some i else none
    lastFilter := some app.filter }

/-- The first row whose symbol has the locate. -/
def position (symbols : List (Nat × Nat)) (locate : Nat) : List Nat → Option (Option Nat)
  | [] => some none
  | i :: rows => do
    let (l, _) ← symbols[i]?
    if l = locate then return some 0
    else return (← position symbols locate rows).map (· + 1)

omit [ListState L] in
/-- The row of the selected locate. -/
def selectedRow (app : App L) : Option (Option Nat) :=
  match app.selectedLocate with
  | none => some none
  | some locate => position app.symbols locate app.filtered

omit [ListState L] in
/-- The locate of a row of the list, if there is one. -/
def locateAt (app : App L) (row : Nat) : Option (Option Nat) :=
  match app.filtered[row]? with
  | none => some none
  | some i => (app.symbols[i]?).map fun (locate, _) => some locate

/-- Select the row of the selected locate, or else the first one. -/
def reconcile (app : App L) : Option (App L) := do
  let found ← app.selectedRow
  let selected := found.or (if app.filtered.isEmpty then none else some 0)
  let selectedLocate ← (match selected with
    | none => some none
    | some row => app.locateAt row)
  return { app with listState := ListState.select app.listState selected, selectedLocate }

/-- The offset that brings the selection into view. -/
def scroll (profile : Profile) (height total : Nat) (selected : Option Nat) (offset : Nat) :
    Option Nat := do
  let offset ← (match selected with
    | none => some offset
    | some sel =>
      if sel < offset then some sel
      else if height > 0 then do
        let bottom ← profile.add 64 offset height
        if sel ≥ bottom then do
          let next ← profile.add 64 sel 1
          profile.sub 64 next height
        else some offset
      else some offset)
  return min offset (total - height)

/-- The row of a symbol, without prices and orders when the registry has no book for it. -/
def visibleRow [Registry R] (registry : R) (locate symbol : Nat) : VisibleRow :=
  match Registry.get registry locate with
  | some book => ⟨symbol, book.bestBid, book.bestAsk, book.len⟩
  | none => ⟨symbol, none, none, 0⟩

/-- The slice from `start` up to `stop`. -/
def slice {α : Type} (l : List α) (start stop : Nat) : Option (List α) :=
  if start ≤ stop ∧ stop ≤ l.length then some ((l.drop start).take (stop - start)) else none

/-- Clip the list to the viewport and resolve its rows. -/
def clip [Registry R] (profile : Profile) (registry : R) (app : App L) : Option (App L) := do
  let height := app.viewport.listHeight
  let total := app.filtered.length
  let offset ← scroll profile height total (ListState.selected app.listState)
    (ListState.offset app.listState)
  let visibleCount := min (total - offset) height
  let stop ← profile.add 64 offset visibleCount
  let rows ← slice app.filtered offset stop
  let visibleRows ← rows.mapM fun i =>
    (app.symbols[i]?).map fun (locate, symbol) => visibleRow registry locate symbol
  return { app with listState := ListState.setOffset app.listState offset, visibleRows }

omit [ListState L] in
/-- The depth of the selected symbol, each side half of the rows of the ladder. -/
def fetchDepth [Registry R] (registry : R) (app : App L) : App L :=
  let perSide := (app.viewport.ladderRows + 1) / 2
  { app with
    depth :=
      match app.selectedLocate.bind (Registry.get registry) with
      | some book =>
        if perSide > 0 then
          let (bids, asks) := book.depth perSide
          { bids, asks }
        else ⟨[], []⟩
      | none => ⟨[], []⟩ }

def refresh [IterRegistry R] (profile : Profile) (order : IterRegistry.Order R)
    (handler : MessageHandler R) (app : App L) : Option (App L) := do
  let app := { app with stats := handler.stats }
  let (symbolsChanged, app) ← app.rebuildSymbols profile order handler.registry
  let app := if symbolsChanged ∨ app.lastFilter ≠ some app.filter then app.rebuildFiltered else app
  let app ← app.reconcile
  let app ← app.clip profile handler.registry
  return app.fetchDepth handler.registry

/-- The selection of the list that `draw_symbol_list` draws from the offset on. -/
def drawnSelection (app : App L) : Option Nat :=
  (ListState.selected app.listState).bind fun s =>
    -- `checked_sub`
    if ListState.offset app.listState ≤ s then some (s - ListState.offset app.listState) else none

/-! ### Keys -/

def moveTo (app : App L) (idx : Nat) : Option (App L) :=
  match app.filtered[idx]? with
  | none => some app
  | some i => do
    let (locate, _) ← app.symbols[i]?
    return { app with
      listState := ListState.select app.listState (some idx)
      selectedLocate := some locate }

def moveSelection (profile : Profile) (delta : Int) (app : App L) : Option (App L) :=
  if app.filtered.isEmpty then some app
  else do
    let cur := asI32 ((ListState.selected app.listState).getD 0)
    let max ← profile.signed 32 (asI32 app.filtered.length - 1)
    let moved ← profile.signed 32 (cur + delta)
    let new ← clamp moved 0 max
    app.moveTo (asUsize new)

/-- Whether the user wants to quit, and the state after the key. -/
def handleKeyNormal (profile : Profile) (key : KeyEvent) (app : App L) :
    Option (Bool × App L) :=
  let goes (moved : Option (App L)) : Option (Bool × App L) := moved.map fun app => (false, app)
  if key.control ∧ key.code = .Char 'c' then some (true, app)
  else
    match key.code with
    | .Char 'q' | .Esc => some (true, app)
    | .Char '/' => some (false, { app with mode := .Filter })
    | .Char 'j' | .Down => goes (app.moveSelection profile 1)
    | .Char 'k' | .Up => goes (app.moveSelection profile (-1))
    | .PageDown => goes (app.moveSelection profile 10)
    | .PageUp => goes (app.moveSelection profile (-10))
    | .Home | .Char 'g' => goes (app.moveTo 0)
    | .End | .Char 'G' =>
      if app.filtered.isEmpty then some (false, app)
      else goes (app.moveTo (app.filtered.length - 1))
    | _ => some (false, app)

omit [ListState L] in
/-- `toUppercase` gives the characters of `char::to_uppercase`. -/
def handleKeyFilter (toUppercase : Char → List Char) (key : KeyEvent) (app : App L) : App L :=
  match key.code with
  | .Esc => { app with filter := [], mode := .Normal }
  | .Enter => { app with mode := .Normal }
  | .Backspace => { app with filter := app.filter.dropLast }
  | .Char char => { app with filter := app.filter ++ toUppercase char }
  | _ => app

def handleKey (profile : Profile) (toUppercase : Char → List Char) (key : KeyEvent) (app : App L) :
    Option (Bool × App L) :=
  if key.kind = .Release then some (false, app)
  else
    match app.mode with
    | .Normal => app.handleKeyNormal profile key
    | .Filter => some (false, app.handleKeyFilter toUppercase key)

end App

end Hftrs.Tui
