import Hftrs.Library.Runs
import Hftrs.Tui.App

/-! The symbol cache of the interface stays coherent with the registry. -/
namespace Hftrs.Tui

open Hftrs.Library Hftrs.Itch5 Hftrs.Orderbook Hftrs.App

/-- A handler and the interface that shows its registry. -/
structure System (R L : Type) where
  handler : MessageHandler R
  app : App L

/-- What happens to them. A message comes with the surroundings it is processed in, such as the
shutdown flag. -/
inductive Event (R : Type) [IterRegistry R] where
  | message (env : Env) (msg : Message)
  | key (key : KeyEvent)
  | setViewport (viewport : Viewport)
  | refresh (order : IterRegistry.Order R)

/-- The symbols are those of the registry, each locate once. -/
structure Current {R : Type} [Registry R] (registry : R) (symbols : List (Nat × Nat)) : Prop where
  once : (symbols.map Prod.fst).Nodup
  members : ∀ locate symbol,
    (locate, symbol) ∈ symbols ↔ Registry.getSymbol registry locate = some symbol

/-- The indices of the symbols whose text starts with the filter, in ascending order. -/
structure Matching (filter : List Char) (symbols : List (Nat × Nat)) (filtered : List Nat) :
    Prop where
  ascending : filtered.Pairwise (· < ·)
  members : ∀ i, i ∈ filtered ↔ ∃ locate symbol, symbols[i]? = some (locate, symbol) ∧
    filter <+: trimEnd (Symbol.asStr symbol)

namespace System

variable {R L : Type} [IterRegistry R] [ListState L]

def start (symbolsToWatch : Option (List Nat)) : System R L where
  handler := MessageHandler.new symbolsToWatch
  app := App.new

def step (profile : Profile) (toUppercase : Char → List Char) (system : System R L) :
    Event R → Option (Unit × System R L)
  | .message env msg =>
    (MessageHandler.on env msg.1 msg.2 system.handler).map fun (_, handler) =>
      ((), { system with handler })
  | .key key =>
    (system.app.handleKey profile toUppercase key).map fun (_, app) => ((), { system with app })
  | .setViewport viewport =>
    some ((), { system with app := system.app.setViewport viewport })
  | .refresh order =>
    (system.app.refresh profile order system.handler).map fun app => ((), { system with app })

/-- What a refresh establishes. -/
structure Coherent (system : System R L) : Prop where
  current : Current system.handler.registry system.app.symbols
  sorted : system.app.symbols.Pairwise fun a b => a.2 ≤ b.2
  filtered : Matching system.app.filter system.app.symbols system.app.filtered

/-- Between refreshes the caches are those of the remembered counter and filter. -/
structure Cached (system : System R L) : Prop where
  valid : IterRegistry.Valid system.handler.registry
  counted : system.app.lastDirectoryMsgs ≤ system.handler.stats.stockDirectoryMsgs
  current : system.app.lastDirectoryMsgs = system.handler.stats.stockDirectoryMsgs →
    Current system.handler.registry system.app.symbols
  once : (system.app.symbols.map Prod.fst).Nodup
  small : ∀ entry ∈ system.app.symbols, entry.1 < 2 ^ 16
  sorted : system.app.symbols.Pairwise fun a b => a.2 ≤ b.2
  below : ∀ i ∈ system.app.filtered, i < system.app.symbols.length
  filtered : ∀ filter, system.app.lastFilter = some filter →
    Matching filter system.app.symbols system.app.filtered

end System

/-! ### Messages -/

section Messages

variable {R : Type} [IterRegistry R]

/-- A method counts a directory message, or leaves the symbols. -/
structure Counted (handler handler' : MessageHandler R) : Prop where
  valid : IterRegistry.Valid handler'.registry
  counted : (handler'.stats.stockDirectoryMsgs = handler.stats.stockDirectoryMsgs + 1) ∨
    (handler'.stats.stockDirectoryMsgs = handler.stats.stockDirectoryMsgs ∧
      Registry.getSymbol handler'.registry = Registry.getSymbol handler.registry)

theorem stockDirectoryMsgs_bump (stats : HandlerStats) (counter : OrderCounter) :
    (stats.bump counter).stockDirectoryMsgs = stats.stockDirectoryMsgs := by
  cases counter <;> rfl

variable {env : Env} {handler handler' : MessageHandler R}

/-- The tick does not matter. -/
theorem counted_polled {flow : ControlFlow}
    {body : MessageHandler R → Option (MessageHandler R)}
    (valid : IterRegistry.Valid handler.registry)
    (does : ∀ tick handler', body { handler with tick } = some handler' →
      Counted handler handler')
    (polled : handler.polled env body = some (flow, handler')) : Counted handler handler' := by
  unfold MessageHandler.polled at polled
  split at polled
  next stopped =>
    cases polled
    obtain ⟨_, rfl⟩ := Prod.mk.inj stopped
    exact ⟨valid, .inr ⟨rfl, rfl⟩⟩
  next continued =>
    obtain ⟨_, rfl⟩ := Prod.mk.inj continued
    obtain ⟨after, done, equal⟩ := Option.map_eq_some_iff.mp polled
    cases equal
    exact does _ _ done

theorem counted_applyOrder {tick locate : Nat} {call : Option OrderBook.Call}
    {logged : Option Nat} {counter : OrderCounter} (valid : IterRegistry.Valid handler.registry)
    (applied : { handler with tick }.applyOrder env locate call logged counter =
      some handler') : Counted handler handler' := by
  unfold MessageHandler.applyOrder at applied
  split at applied
  next =>
    cases applied
    exact ⟨valid, .inr ⟨rfl, rfl⟩⟩
  next book put found =>
    split at applied
    next =>
      cases applied
      exact ⟨valid, .inr ⟨rfl, rfl⟩⟩
    next call =>
      obtain ⟨_, _, applied⟩ := Option.bind_eq_some_iff.mp applied
      obtain ⟨⟨reply, book'⟩, _, applied⟩ := Option.bind_eq_some_iff.mp applied
      cases applied
      obtain ⟨valid', symbols⟩ := IterRegistry.valid_put valid found book'
      refine ⟨valid', .inr ⟨?_, symbols⟩⟩
      simp only
      split
      · rfl
      · exact stockDirectoryMsgs_bump _ _

theorem on_counted (valid : IterRegistry.Valid handler.registry) (kind : MsgKind) (msg : Msg kind)
    {flow : ControlFlow}
    (processed : MessageHandler.on env kind msg handler = some (flow, handler')) :
    Counted handler handler' := by
  cases kind with
  | stockDirectory =>
    refine counted_polled valid (fun tick after done => ?_) processed
    dsimp only at done
    split at done
    next =>
      obtain ⟨_, _, done⟩ := Option.bind_eq_some_iff.mp done
      obtain ⟨registry, registered, done⟩ := Option.bind_eq_some_iff.mp done
      cases done
      exact ⟨IterRegistry.valid_register valid msg.stockLocate_lt registered, .inl rfl⟩
    next =>
      cases done
      exact ⟨valid, .inl rfl⟩
  | addOrderNoMPIDAttribution | addOrderWithMPIDAttribution | orderExecuted
  | orderExecutedWithPrice | orderCancel | orderDelete | orderReplace =>
    exact counted_polled valid (fun tick after done => counted_applyOrder valid done) processed
  | _ =>
    cases processed
    exact ⟨valid, .inr ⟨rfl, rfl⟩⟩

end Messages

/-! ### Keys -/

section Keys

variable {L : Type} [ListState L] {profile : Profile} {app app' : App L}

omit [ListState L] in
/-- The caches are left alone. -/
structure Keeps (app app' : App L) : Prop where
  symbols : app'.symbols = app.symbols
  filtered : app'.filtered = app.filtered
  lastDirectoryMsgs : app'.lastDirectoryMsgs = app.lastDirectoryMsgs
  lastFilter : app'.lastFilter = app.lastFilter

omit [ListState L] in
theorem Keeps.refl (app : App L) : Keeps app app := ⟨rfl, rfl, rfl, rfl⟩

theorem keeps_moveTo {idx : Nat} (moved : app.moveTo idx = some app') : Keeps app app' := by
  unfold App.moveTo at moved
  split at moved
  next =>
    cases moved
    exact .refl _
  next =>
    obtain ⟨⟨locate, symbol⟩, _, moved⟩ := Option.bind_eq_some_iff.mp moved
    cases moved
    exact ⟨rfl, rfl, rfl, rfl⟩

/-- What a key does: change the mode or the filter, or move to a row. -/
inductive Handled (app app' : App L) : Prop
  | edited (mode : Mode) (filter : List Char) (edited : app' = { app with mode, filter })
  | moved (idx : Nat) (moved : app.moveTo idx = some app')

theorem handled_moveSelection {delta : Int}
    (moved : app.moveSelection profile delta = some app') : Handled app app' := by
  unfold App.moveSelection at moved
  split at moved
  next =>
    cases moved
    exact .edited app.mode app.filter rfl
  next =>
    obtain ⟨_, _, moved⟩ := Option.bind_eq_some_iff.mp moved
    obtain ⟨_, _, moved⟩ := Option.bind_eq_some_iff.mp moved
    obtain ⟨_, _, moved⟩ := Option.bind_eq_some_iff.mp moved
    exact .moved _ moved

theorem handled_normal {key : KeyEvent} {quits : Bool}
    (handled : app.handleKeyNormal profile key = some (quits, app')) : Handled app app' := by
  have still : Handled app app := .edited app.mode app.filter rfl
  have goes {moved : Option (App L)} (does : ∀ a, moved = some a → Handled app a)
      (went : (moved.map fun app => (false, app)) = some (quits, app')) : Handled app app' := by
    obtain ⟨after, found, equal⟩ := Option.map_eq_some_iff.mp went
    cases equal
    exact does _ found
  unfold App.handleKeyNormal at handled
  dsimp only at handled
  split at handled
  next =>
    cases handled
    exact still
  next =>
    split at handled
    case h_3 =>
      cases handled
      exact .edited .Filter app.filter rfl
    -- the moves
    case h_4 | h_5 | h_6 | h_7 | h_8 | h_9 => exact goes (fun _ => handled_moveSelection) handled
    case h_10 | h_11 => exact goes (fun _ => .moved _) handled
    case h_12 | h_13 =>
      split at handled
      next =>
        cases handled
        exact still
      next => exact goes (fun _ => .moved _) handled
    all_goals
      cases handled
      exact still

theorem handled_filter (toUppercase : Char → List Char) (key : KeyEvent)
    (app : App L) : Handled app (app.handleKeyFilter toUppercase key) := by
  unfold App.handleKeyFilter
  split
  all_goals exact .edited _ _ rfl

theorem handled_handleKey {toUppercase : Char → List Char} {key : KeyEvent} {quits : Bool}
    (handled : app.handleKey profile toUppercase key = some (quits, app')) : Handled app app' := by
  unfold App.handleKey at handled
  split at handled
  next =>
    cases handled
    exact .edited app.mode app.filter rfl
  next =>
    split at handled
    next => exact handled_normal handled
    next =>
      cases handled
      exact handled_filter toUppercase key app

theorem Handled.keeps (handled : Handled app app') : Keeps app app' := by
  cases handled with
  | edited mode filter edited => exact edited ▸ ⟨rfl, rfl, rfl, rfl⟩
  | moved idx moved => exact keeps_moveTo moved

end Keys

/-! ### Refreshes -/

section Refreshes

variable {R L : Type} [IterRegistry R] [ListState L] {profile : Profile} {app app' : App L}

theorem shows_iff (filter : List Char) (symbol : Nat) :
    shows filter symbol ↔ filter <+: trimEnd (Symbol.asStr symbol) := by
  rw [shows, Bool.or_eq_true, List.isPrefixOf_iff_prefix, List.isEmpty_iff]
  exact or_iff_right_of_imp fun empty => empty ▸ List.nil_prefix

omit [ListState L] in
theorem matching_rebuildFiltered (app : App L) :
    Matching app.filter app.symbols app.rebuildFiltered.filtered := by
  constructor
  · have indices : app.symbols.zipIdx.Pairwise fun a b => a.2 < b.2 := by
      have range : (app.symbols.zipIdx.map Prod.snd).Pairwise (· < ·) := by
        rw [List.zipIdx_map_snd]
        exact List.pairwise_lt_range'
      exact List.pairwise_map.mp range
    refine List.Pairwise.filterMap _ (fun a b below i here j there => ?_) indices
    rw [Option.ite_none_right_eq_some, Option.some.injEq] at here there
    obtain ⟨_, rfl⟩ := here
    obtain ⟨_, rfl⟩ := there
    exact below
  · intro i
    rw [App.rebuildFiltered, List.mem_filterMap]
    constructor
    · rintro ⟨⟨⟨locate, symbol⟩, j⟩, member, shown⟩
      rw [Option.ite_none_right_eq_some, Option.some.injEq] at shown
      obtain ⟨shown, rfl⟩ := shown
      exact ⟨locate, symbol, List.mem_zipIdx_iff_getElem?.mp member, (shows_iff _ _).mp shown⟩
    · rintro ⟨locate, symbol, found, starts⟩
      exact ⟨((locate, symbol), i), List.mem_zipIdx_iff_getElem?.mpr found,
        if_pos ((shows_iff _ _).mpr starts)⟩

theorem Matching.below {filter : List Char} {symbols : List (Nat × Nat)} {filtered : List Nat}
    (matching : Matching filter symbols filtered) : ∀ i ∈ filtered, i < symbols.length := by
  intro i member
  obtain ⟨_, _, found, _⟩ := (matching.members i).mp member
  exact (List.getElem?_eq_some_iff.mp found).1

/-- The symbols of an iteration are current, in whatever order they come. -/
theorem current_iter {registry : R} {order : IterRegistry.Order R}
    {items : List VecRegistry.Item} (valid : IterRegistry.Valid registry)
    (collected : IterRegistry.iter profile order registry = some items)
    {symbols : List (Nat × Nat)}
    (perm : symbols.Perm (items.map fun (locate, symbol, _) => (locate, symbol))) :
    Current registry symbols := by
  obtain ⟨_, again, once, members⟩ := IterRegistry.iter_spec profile order valid
  rw [collected, Option.some.injEq] at again
  subst again
  constructor
  · rw [(perm.map Prod.fst).nodup_iff, List.map_map]
    exact once
  · intro locate symbol
    rw [perm.mem_iff, ← members, List.mem_map]
    constructor
    · rintro ⟨⟨l, s, book⟩, member, equal⟩
      cases equal
      exact ⟨book, member⟩
    · rintro ⟨book, member⟩
      exact ⟨_, member, rfl⟩

omit [ListState L] in
/-- After the first part of a refresh the symbols are current. -/
theorem rebuildSymbols_spec (profile : Profile) (app : App L) {registry : R}
    (valid : IterRegistry.Valid registry) (order : IterRegistry.Order R)
    (current : app.lastDirectoryMsgs = app.stats.stockDirectoryMsgs →
      Current registry app.symbols)
    (sorted : app.symbols.Pairwise fun a b => a.2 ≤ b.2) :
    ∃ changed symbols, app.rebuildSymbols profile order registry =
        some (changed, { app with symbols, lastDirectoryMsgs := app.stats.stockDirectoryMsgs }) ∧
      Current registry symbols ∧ symbols.Pairwise (fun a b => a.2 ≤ b.2) ∧
      (changed = false → symbols = app.symbols) := by
  unfold App.rebuildSymbols
  by_cases same : app.stats.stockDirectoryMsgs = app.lastDirectoryMsgs
  · refine ⟨false, app.symbols, ?_, current same.symm, sorted, fun _ => rfl⟩
    rw [if_neg (not_not.mpr same), same]
  · obtain ⟨items, collected, _⟩ := IterRegistry.iter_spec profile order valid
    rw [if_pos same, collected]
    refine ⟨true, _, rfl, current_iter valid collected (List.perm_insertionSort _ _), ?_,
      fun changed => by cases changed⟩
    have ordered := List.pairwise_insertionSort (fun a b : Nat × Nat => a.2 ≤ b.2)
      (items.map fun (locate, symbol, _) => (locate, symbol))
    exact ordered

/-- The later parts of a refresh leave the caches and the filter. -/
theorem keeps_reconcile (done : app.reconcile = some app') :
    Keeps app app' ∧ app'.filter = app.filter := by
  unfold App.reconcile at done
  obtain ⟨_, _, done⟩ := Option.bind_eq_some_iff.mp done
  obtain ⟨_, _, done⟩ := Option.bind_eq_some_iff.mp done
  cases done
  exact ⟨⟨rfl, rfl, rfl, rfl⟩, rfl⟩

theorem keeps_clip {registry : R} (done : app.clip profile registry = some app') :
    Keeps app app' ∧ app'.filter = app.filter := by
  unfold App.clip at done
  obtain ⟨_, _, done⟩ := Option.bind_eq_some_iff.mp done
  obtain ⟨_, _, done⟩ := Option.bind_eq_some_iff.mp done
  obtain ⟨_, _, done⟩ := Option.bind_eq_some_iff.mp done
  obtain ⟨_, _, done⟩ := Option.bind_eq_some_iff.mp done
  cases done
  exact ⟨⟨rfl, rfl, rfl, rfl⟩, rfl⟩

end Refreshes

namespace System

variable {R L : Type} [IterRegistry R] [ListState L] {profile : Profile}
  {toUppercase : Char → List Char} {system next : System R L}

/-- The caches of a refresh, before it looks at the selection. -/
structure Rebuilt (system : System R L) (app : App L) : Prop where
  current : Current system.handler.registry app.symbols
  sorted : app.symbols.Pairwise fun a b => a.2 ≤ b.2
  filtered : Matching app.filter app.symbols app.filtered
  counted : app.lastDirectoryMsgs = system.handler.stats.stockDirectoryMsgs
  remembered : app.lastFilter = some app.filter

/-- The first half of a refresh rebuilds the caches, and leaves the rest. -/
theorem Cached.rebuilt (cached : system.Cached) (profile : Profile)
    (order : IterRegistry.Order R) :
    ∃ app, system.Rebuilt app ∧ app.filter = system.app.filter ∧
      app.selectedLocate = system.app.selectedLocate ∧ app.listState = system.app.listState ∧
      app.viewport = system.app.viewport ∧
      system.app.refresh profile order system.handler =
        (app.reconcile.bind fun app => app.clip profile system.handler.registry).map
          fun app => app.fetchDepth system.handler.registry := by
  obtain ⟨changed, symbols, built, current, sorted, unchanged⟩ := rebuildSymbols_spec profile
    { system.app with stats := system.handler.stats } cached.valid order cached.current
    cached.sorted
  let app : App L := { system.app with
    stats := system.handler.stats, symbols
    lastDirectoryMsgs := system.handler.stats.stockDirectoryMsgs }
  have split (refreshed : App L) (same : (if changed ∨ app.lastFilter ≠ some app.filter then
      app.rebuildFiltered else app) = refreshed) :
      system.app.refresh profile order system.handler =
        (refreshed.reconcile.bind fun app => app.clip profile system.handler.registry).map
          fun app => app.fetchDepth system.handler.registry := by
    subst same
    simp only [App.refresh, built, Option.bind_eq_bind, Option.bind_some, Option.map_bind]
    refine Option.bind_congr fun reconciled _ => ?_
    exact Option.map_eq_bind.symm
  by_cases rebuild : changed ∨ app.lastFilter ≠ some app.filter
  · refine ⟨app.rebuildFiltered, ⟨current, sorted, matching_rebuildFiltered app, rfl, rfl⟩, rfl,
      rfl, rfl, rfl, split _ (if_pos rebuild)⟩
  · rw [not_or, not_not, Bool.not_eq_true] at rebuild
    obtain ⟨same, remembered⟩ := rebuild
    refine ⟨app, ⟨current, sorted, ?_, rfl, remembered⟩, rfl, rfl, rfl, rfl,
      split _ (if_neg ?_)⟩
    · have old : app.symbols = system.app.symbols := unchanged same
      rw [old]
      exact cached.filtered _ remembered
    · rw [not_or, not_not, Bool.not_eq_true]
      exact ⟨same, remembered⟩

omit [ListState L] in
/-- Changes that leave the handler and the caches keep them. -/
theorem Cached.keeps {app : App L} (cached : system.Cached) (keeps : Keeps system.app app) :
    Cached { system with app } where
  valid := cached.valid
  counted := keeps.lastDirectoryMsgs ▸ cached.counted
  current := by
    simp only [keeps.lastDirectoryMsgs, keeps.symbols]
    exact cached.current
  once := keeps.symbols ▸ cached.once
  small := keeps.symbols ▸ cached.small
  sorted := keeps.symbols ▸ cached.sorted
  below := by
    simp only [keeps.filtered, keeps.symbols]
    exact cached.below
  filtered := by
    simp only [keeps.lastFilter, keeps.filtered, keeps.symbols]
    exact cached.filtered

omit [ListState L] in
/-- A directory message is counted, and every other message leaves the symbols. -/
theorem Cached.counts {handler : MessageHandler R} (cached : system.Cached)
    (counted : Counted system.handler handler) : Cached { system with handler } := by
  refine ⟨counted.valid, ?_, ?_, cached.once, cached.small, cached.sorted, cached.below,
    cached.filtered⟩
  · have before := cached.counted
    simp only
    rcases counted.counted with more | ⟨same, _⟩
    · rw [more]
      exact Nat.le_succ_of_le before
    · rw [same]
      exact before
  · intro equal
    have before := cached.counted
    simp only at equal ⊢
    rcases counted.counted with more | ⟨same, symbols⟩
    · -- a counted message makes the counters differ
      rw [more] at equal
      omega
    · rw [same] at equal
      obtain ⟨once, members⟩ := cached.current equal
      exact ⟨once, fun locate symbol => symbols ▸ members locate symbol⟩

omit [ListState L] in
/-- Rebuilt caches are those of the counter and the filter. -/
theorem Rebuilt.cached {app : App L} (rebuilt : system.Rebuilt app) (cached : system.Cached) :
    Cached { system with app } where
  valid := cached.valid
  counted := Nat.le_of_eq rebuilt.counted
  current := fun _ => rebuilt.current
  once := rebuilt.current.once
  small := fun entry member =>
    IterRegistry.small cached.valid ((rebuilt.current.members entry.1 entry.2).mp member)
  sorted := rebuilt.sorted
  below := rebuilt.filtered.below
  filtered := by
    intro filter remembered
    have same : app.lastFilter = some filter := remembered
    rw [rebuilt.remembered, Option.some.injEq] at same
    exact same ▸ rebuilt.filtered

/-- A refresh leaves the caches it rebuilds. -/
theorem Cached.refreshed (cached : system.Cached) {order : IterRegistry.Order R}
    {app' : App L} (refreshed : system.app.refresh profile order system.handler = some app') :
    ∃ app, system.Rebuilt app ∧ Keeps app app' ∧ app'.filter = app.filter := by
  obtain ⟨app, rebuilt, _, _, _, _, equal⟩ := cached.rebuilt profile order
  rw [equal] at refreshed
  obtain ⟨clipped, done, rfl⟩ := Option.map_eq_some_iff.mp refreshed
  obtain ⟨reconciled, first, second⟩ := Option.bind_eq_some_iff.mp done
  obtain ⟨keeps, filter⟩ := keeps_reconcile first
  obtain ⟨keeps', filter'⟩ := keeps_clip second
  refine ⟨app, rebuilt, ⟨?_, ?_, ?_, ?_⟩, filter'.trans filter⟩
  · exact keeps'.symbols.trans keeps.symbols
  · exact keeps'.filtered.trans keeps.filtered
  · exact keeps'.lastDirectoryMsgs.trans keeps.lastDirectoryMsgs
  · exact keeps'.lastFilter.trans keeps.lastFilter

theorem Cached.step (cached : system.Cached) {event : Event R}
    (stepped : system.step profile toUppercase event = some ((), next)) : next.Cached := by
  cases event with
  | message env msg =>
    obtain ⟨⟨flow, handler⟩, processed, equal⟩ := Option.map_eq_some_iff.mp stepped
    cases equal
    exact cached.counts (on_counted cached.valid msg.1 msg.2 processed)
  | key key =>
    obtain ⟨⟨quits, app⟩, handled, equal⟩ := Option.map_eq_some_iff.mp stepped
    cases equal
    exact cached.keeps (handled_handleKey handled).keeps
  | setViewport viewport =>
    cases stepped
    exact cached.keeps ⟨rfl, rfl, rfl, rfl⟩
  | refresh order =>
    obtain ⟨app, refreshed, equal⟩ := Option.map_eq_some_iff.mp stepped
    cases equal
    obtain ⟨_, rebuilt, keeps, _⟩ := cached.refreshed refreshed
    exact (rebuilt.cached cached).keeps keeps

theorem cached_start (symbolsToWatch : Option (List Nat)) :
    (start symbolsToWatch : System R L).Cached where
  valid := IterRegistry.valid_new
  counted := Nat.le_refl _
  current := by
    refine fun _ => ⟨List.nodup_nil, fun locate symbol => ?_⟩
    have none : Registry.getSymbol (start symbolsToWatch : System R L).handler.registry locate =
        none := IterRegistry.getSymbol_new locate
    rw [none]
    simp [start, App.new]
  once := List.nodup_nil
  small := by simp [start, App.new]
  sorted := List.Pairwise.nil
  below := by simp [start, App.new]
  filtered := by simp [start, App.new]

/-- After every refresh the symbols are those of the registry in order of symbol, and the filtered
indices those that match the filter; in every state the indices are within the symbols. -/
theorem run_coherent (profile : Profile) (toUppercase : Char → List Char)
    (symbolsToWatch : Option (List Nat)) (events : List (Event R)) (system : System R L)
    (answers : List Unit)
    (reached : run (step profile toUppercase) (start symbolsToWatch) events =
      some (answers, system)) :
    (∀ i ∈ system.app.filtered, i < system.app.symbols.length) ∧
    ∀ order next, system.step profile toUppercase (.refresh order) = some ((), next) →
      next.Coherent := by
  have cached : system.Cached := run_invariant (P := Cached)
    (fun _ _ _ _ cached stepped => cached.step stepped) (cached_start symbolsToWatch) reached
  refine ⟨cached.below, fun order next stepped => ?_⟩
  obtain ⟨app', refreshed, equal⟩ := Option.map_eq_some_iff.mp stepped
  cases equal
  obtain ⟨app, rebuilt, keeps, filter⟩ := cached.refreshed refreshed
  refine ⟨?_, ?_, ?_⟩
  · exact keeps.symbols ▸ rebuilt.current
  · exact keeps.symbols ▸ rebuilt.sorted
  · simp only [filter, keeps.symbols, keeps.filtered]
    exact rebuilt.filtered

/-- A stock directory message of a locate, whose symbol begins with a letter. -/
def listed (locate letter : UInt8) : Message :=
  ⟨.stockDirectory, ⟨[82, 0, locate] ++ List.replicate 8 0 ++ [letter] ++ List.replicate 7 32 ++
    List.replicate 20 0, rfl⟩⟩

/-- A filter that matches the symbol that is registered later. -/
def filterEvents : List (Event HashMapRegistry) :=
  [.message quietEnv (listed 1 66), .refresh asStored, .message quietEnv (listed 2 65),
    .key ⟨.Char '/', false, .Press⟩, .key ⟨.Char 'A', false, .Press⟩]

theorem run_coherent_filter :
    ∃ system : System HashMapRegistry Fields,
      run (step .debug fun c => [c]) (start none) filterEvents =
        some ([(), (), (), (), ()], system) ∧
      ∃ next, system.step .debug (fun c => [c]) (.refresh asStored) = some ((), next) ∧
        next.app.symbols.map Prod.fst = [2, 1] ∧ next.app.filtered = [0] ∧ next.Coherent := by
  refine ⟨_, rfl, _, rfl, rfl, rfl, ?_⟩
  exact (run_coherent .debug (fun c => [c]) none filterEvents _ [(), (), (), (), ()] rfl).2
    asStored _ rfl

end System

end Hftrs.Tui
