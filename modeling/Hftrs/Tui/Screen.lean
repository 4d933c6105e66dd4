import Hftrs.App.Shutdown
import Hftrs.App.Volume
import Hftrs.Tui.Ladder
import Hftrs.Tui.Window

/-! The interface beside the receive loop: what its frames show while messages arrive. -/
namespace Hftrs.Tui

open Hftrs.Library Hftrs.Itch5 Hftrs.Orderbook Hftrs.Moldudp Hftrs.App

/-- The size of a terminal, of type `u16`. -/
structure Size where
  width : Nat
  height : Nat
  small : width < 2 ^ 16 ∧ height < 2 ^ 16

/-- The rows that the layout leaves to the list and to the ladder. -/
def viewportFor (size : Size) : Viewport :=
  let bodyHeight := size.height - 6
  { listHeight := bodyHeight - 2
    ladderRows := bodyHeight - 4
    small := by have := size.small; omega }

/-- `symbol_at` -/
def App.symbolAt {L : Type} (app : App L) (filteredIdx : Nat) : Option (Nat × Nat) :=
  (app.filtered[filteredIdx]?).bind fun i => app.symbols[i]?

/-- What is drawn, without the styles and the shares. -/
structure Picture where
  stats : HandlerStats
  /-- The registered symbols. -/
  symbols : Nat
  /-- The symbols that match the filter. -/
  matching : Nat
  filter : List Char
  mode : Mode
  rows : List VisibleRow
  selection : Option Nat
  /-- The symbol over the ladder. -/
  title : Option Nat
  ladder : List LadderRow
  bids : LadderStats
  asks : LadderStats
  deriving DecidableEq

/-- The symbol over the ladder. -/
def App.title {L : Type} [ListState L] (app : App L) : Option Nat :=
  ((ListState.selected app.listState).bind app.symbolAt).map Prod.snd

def App.picture {L : Type} [ListState L] (app : App L) (ladder : List LadderRow)
    (bids asks : LadderStats) : Picture where
  stats := app.stats
  symbols := app.symbols.length
  matching := app.filtered.length
  filter := app.filter
  mode := app.mode
  rows := app.visibleRows
  selection := app.drawnSelection
  title := app.title
  ladder
  bids
  asks

/-- `ui::draw` -/
def draw {L : Type} [ListState L] (profile : Profile) (app : App L) : Option Picture := do
  let ladder := buildLadder app.depth app.viewport.ladderRows
  let bids ← LadderStats.collect profile ladder .bid
  let asks ← LadderStats.collect profile ladder .ask
  return app.picture ladder bids asks

/-! ### Two threads -/

/-- Where the event loop of the interface is: it loads the flag, draws when a frame is due, and
waits for a key. -/
inductive Phase where
  | check
  | frame
  | poll
  | closed
  deriving DecidableEq

/-- The receive loop and the interface, with the moment at which the flag goes up. -/
structure Session (R L : Type) where
  raised : Nat
  clock : Clock
  client : Receiving R
  listening : Bool
  phase : Phase
  app : App L

/-- A turn of the receive loop, or the next part of the event loop with what it comes upon: the flag
as the load finds it, the terminal and the walk of the registry when a frame is due, and a key. -/
inductive Move (R : Type) [IterRegistry R] where
  | receive (datagram : List UInt8)
  | interface (up : Bool) (due : Option (Size × IterRegistry.Order R)) (key : Option KeyEvent)

/-- The datagrams of moves. -/
def datagramsOf {R : Type} [IterRegistry R] (moves : List (Move R)) : List (List UInt8) :=
  moves.filterMap fun
    | .receive datagram => some datagram
    | .interface .. => none

namespace Session

variable {R L : Type} [IterRegistry R] [ListState L]

def start (raised : Nat) (watch : Option (List Nat)) : Session R L where
  raised
  clock := .start
  client := ⟨.new watch, .default, []⟩
  listening := true
  phase := .check
  app := App.new

/-- The messages that the methods have worked on. -/
def seen (session : Session R L) : List Message := session.clock.handled.map Prod.snd

omit [ListState L] in
/-- A turn of `handler::run`, until it returns. -/
def receive (env : Env) (trySend : RetransmissionPacket → Bool) (datagram : List UInt8)
    (session : Session R L) : Option (Session R L) :=
  if session.listening then
    (Receiving.turnAsOf env session.raised trySend datagram session.clock session.client).map
      fun (cf, clock, client) => { session with clock, client, listening := cf = .Continue }
  else some session

/-- A frame of the event loop: the refresh has the lock. -/
def frame (profile : Profile) (size : Size) (order : IterRegistry.Order R)
    (session : Session R L) : Option (Picture × Session R L) := do
  let app := session.app.setViewport (viewportFor size)
  let app ← app.refresh profile order session.client.handler
  let picture ← draw profile app
  return (picture, { session with app, phase := .poll })

/-- A key that quits raises the flag. -/
def press (profile : Profile) (toUppercase : Char → List Char) (key : KeyEvent)
    (session : Session R L) : Option (Session R L) :=
  (session.app.handleKey profile toUppercase key).map fun (quits, app) =>
    if quits then
      { session with app, phase := .closed, raised := min session.raised session.clock.now }
    else { session with app, phase := .check }

/-- The answer is the picture that was drawn, if one was. -/
def step (env : Env) (trySend : RetransmissionPacket → Bool) (toUppercase : Char → List Char)
    (session : Session R L) : Move R → Option (Option Picture × Session R L)
  | .receive datagram => (session.receive env trySend datagram).map fun next => (none, next)
  | .interface up due key =>
    match session.phase with
    | .check => some (none, { session with phase := if up then .closed else .frame })
    | .frame =>
      match due with
      | none => some (none, { session with phase := .poll })
      | some (size, order) => (session.frame env.profile size order).map fun (picture, next) =>
        (some picture, next)
    | .poll =>
      match key with
      | none => some (none, { session with phase := .check })
      | some key => (session.press env.profile toUppercase key).map fun next => (none, next)
    | .closed => some (none, session)

end Session

/-! ### What a refresh leaves -/

section Refresh

variable {R L : Type} [IterRegistry R] [LawfulRegistry R] [ListState L] {profile : Profile}
  {app app' : App L}

omit [ListState L] in
/-- The counters, and what the user and the terminal set, are left alone. -/
structure Leaves (app app' : App L) : Prop where
  stats : app'.stats = app.stats
  viewport : app'.viewport = app.viewport
  filter : app'.filter = app.filter
  mode : app'.mode = app.mode

omit [ListState L] in
theorem Leaves.trans {app'' : App L} (first : Leaves app app') (second : Leaves app' app'') :
    Leaves app app'' :=
  ⟨second.stats.trans first.stats, second.viewport.trans first.viewport,
    second.filter.trans first.filter, second.mode.trans first.mode⟩

omit [LawfulRegistry R] in
/-- A refresh takes the counters of the handler and the depth of the selected symbol. -/
theorem refresh_leaves {order : IterRegistry.Order R} {handler : MessageHandler R}
    (refreshed : app.refresh profile order handler = some app') :
    Leaves { app with stats := handler.stats } app' ∧
      app'.fetchDepth handler.registry = app' ∧
      (ListState.selected app'.listState = none → app'.selectedLocate = none) := by
  unfold App.refresh at refreshed
  obtain ⟨⟨changed, rebuilt⟩, built, refreshed⟩ := Option.bind_eq_some_iff.mp refreshed
  obtain ⟨reconciled, chosen, refreshed⟩ := Option.bind_eq_some_iff.mp refreshed
  obtain ⟨clipped, shown, equal⟩ := Option.bind_eq_some_iff.mp refreshed
  cases equal
  have first : Leaves { app with stats := handler.stats } rebuilt := by
    unfold App.rebuildSymbols at built
    split at built
    next =>
      obtain ⟨_, _, built⟩ := Option.bind_eq_some_iff.mp built
      cases built
      exact ⟨rfl, rfl, rfl, rfl⟩
    next => cases built; exact ⟨rfl, rfl, rfl, rfl⟩
  generalize refiltered : (if changed = true ∨ rebuilt.lastFilter ≠ some rebuilt.filter then
    rebuilt.rebuildFiltered else rebuilt) = filtered at chosen
  have second : Leaves rebuilt filtered := by
    subst refiltered
    split <;> exact ⟨rfl, rfl, rfl, rfl⟩
  have third : Leaves filtered reconciled ∧
      (ListState.selected reconciled.listState = none → reconciled.selectedLocate = none) := by
    unfold App.reconcile at chosen
    obtain ⟨found, _, chosen⟩ := Option.bind_eq_some_iff.mp chosen
    obtain ⟨locate, located, chosen⟩ := Option.bind_eq_some_iff.mp chosen
    cases chosen
    refine ⟨⟨rfl, rfl, rfl, rfl⟩, fun none => ?_⟩
    rw [ListState.selected_select] at none
    rw [none] at located
    exact (Option.some.inj located).symm
  have fourth : Leaves reconciled clipped ∧ clipped.selectedLocate = reconciled.selectedLocate ∧
      ListState.selected clipped.listState = ListState.selected reconciled.listState := by
    unfold App.clip at shown
    obtain ⟨_, _, shown⟩ := Option.bind_eq_some_iff.mp shown
    obtain ⟨_, _, shown⟩ := Option.bind_eq_some_iff.mp shown
    obtain ⟨_, _, shown⟩ := Option.bind_eq_some_iff.mp shown
    obtain ⟨_, _, shown⟩ := Option.bind_eq_some_iff.mp shown
    cases shown
    exact ⟨⟨rfl, rfl, rfl, rfl⟩, rfl, ListState.selected_setOffset _ _⟩
  obtain ⟨leaves, blank⟩ := third
  obtain ⟨leaves', locate, selected⟩ := fourth
  have all := ((first.trans second).trans leaves).trans leaves'
  exact ⟨⟨all.stats, all.viewport, all.filter, all.mode⟩, rfl,
    fun none => locate.trans (blank (selected.symm.trans none))⟩

end Refresh

/-! ### The picture of a market -/

/-- The row of a listing. -/
def rowOf (listing : Listing) : VisibleRow :=
  ⟨listing.symbol, listing.orders.bestBid, listing.orders.bestAsk, listing.orders.size⟩

/-- The text of a symbol starts with the filter. -/
def Starts (filter : List Char) (listing : Listing) : Prop :=
  filter <+: trimEnd (Symbol.asStr listing.symbol)

/-- The totals of a side of the ladder, with an exact sum. -/
def totals (ladder : List LadderRow) (side : Side) : LadderStats :=
  ⟨(ladder.filterMap (qtyOf side)).sum, (ladder.filterMap (qtyOf side)).foldl max 0,
    (ladder.filterMap (qtyOf side)).length⟩

/-- As many as there are locates of a kind. -/
def Counts (P : Nat → Prop) (n : Nat) : Prop :=
  ∃ locates : List Nat, locates.Nodup ∧ (∀ l, l ∈ locates ↔ P l) ∧ n = locates.length

/-- One listing has the title, the highlighted row and the ladder. -/
structure Focus (listing : Listing) (viewport : Viewport) (picture : Picture) : Prop where
  title : picture.title = some listing.symbol
  highlighted : 0 < viewport.listHeight →
    ∃ k, picture.selection = some k ∧ picture.rows[k]? = some (rowOf listing)
  ladder : Ladders listing.orders viewport.ladderRows picture.ladder
  -- no two of its rows read alike
  printed : (picture.ladder.map fun row => price row.price).Nodup

/-- The picture has the counters of the market, rows of its listings, and the ladder of one of them;
no row is missing that there is room for. -/
structure Depicts (market : Market) (filter : List Char) (viewport : Viewport) (picture : Picture) :
    Prop where
  stats : picture.stats = market.stats
  symbols : Counts (fun l => (market.listings l).isSome) picture.symbols
  matching : Counts (fun l => ∃ listing ∈ market.listings l, Starts filter listing) picture.matching
  filtered : picture.filter = filter
  rows : ∀ row ∈ picture.rows, ∃ l, ∃ listing ∈ market.listings l,
    Starts filter listing ∧ row = rowOf listing
  room : picture.rows.length = min viewport.listHeight picture.matching
  focus : picture.matching ≠ 0 → ∃ l, ∃ listing ∈ market.listings l,
    Starts filter listing ∧ Focus listing viewport picture
  blank : picture.matching = 0 → picture.title = none ∧ picture.ladder = []
  bids : picture.bids = totals picture.ladder .bid
  asks : picture.asks = totals picture.ladder .ask

section Pictures

variable {R L : Type} [IterRegistry R] [LawfulRegistry R] [ListState L] {profile : Profile}
  {watch : Option (List Nat)} {system : System R L} {app' : App L}

/-- Messages that the interface did not look at leave its window. -/
theorem System.Windowed.advance (windowed : system.Windowed profile)
    {before part : List Message}
    (shows : Shows watch system.handler (Market.after watch before)) {handler : MessageHandler R}
    (shows' : Shows watch handler (Market.after watch (before ++ part))) :
    System.Windowed profile { system with handler } := by
  obtain ⟨cached, few, inside, fits⟩ := windowed
  obtain ⟨fewer, kept⟩ := Market.after_directory watch before part
  rw [← shows.stats, ← shows'.stats] at fewer kept
  refine ⟨⟨shows'.valid, cached.counted.trans fewer, fun equal => ?_, cached.once, cached.small,
    cached.sorted, cached.below, cached.filtered⟩, few, inside, fits⟩
  simp only at equal ⊢
  have counted := cached.counted
  obtain ⟨once, members⟩ := cached.current (by omega)
  refine ⟨once, fun locate symbol => ?_⟩
  rw [shows'.symbols, kept (by omega), ← shows.symbols]
  exact members locate symbol

/-- A registered symbol is that of a listing, whose row the interface resolves. -/
theorem visibleRow_eq {handler : MessageHandler R} {market : Market}
    (shows : Shows watch handler market) {locate symbol : Nat}
    (registered : Registry.getSymbol handler.registry locate = some symbol) :
    ∃ listing ∈ market.listings locate, listing.symbol = symbol ∧
      App.visibleRow handler.registry locate symbol = rowOf listing ∧
      ∃ book q, Registry.get handler.registry locate = some book ∧
        book.Represents q listing.orders := by
  rw [shows.symbols] at registered
  obtain ⟨listing, listed, rfl⟩ := Option.map_eq_some_iff.mp registered
  have rel := shows.books locate
  rw [listed] at rel
  obtain ⟨book, found, q, rep⟩ : ∃ book, Registry.get handler.registry locate = some book ∧
      ∃ q, book.Represents q listing.orders := by
    cases found : Registry.get handler.registry locate with
    | none => rw [found] at rel; cases rel
    | some book =>
      rw [found] at rel
      cases rel with
      | some rep => exact ⟨book, rfl, rep⟩
  refine ⟨listing, listed, rfl, ?_, book, q, found, rep⟩
  simp only [App.visibleRow, found, rowOf, rep.bestBid, rep.bestAsk, rep.len]

omit [LawfulRegistry R] [ListState L] in
/-- The depth of a listing, half of the rows for each side. -/
theorem fetchDepth_eq {handler : MessageHandler R} {app : App L} {orders : RefBook} {locate : Nat}
    {book : OrderBook} {q : Side → Int → List Nat} (selected : app.selectedLocate = some locate)
    (found : Registry.get handler.registry locate = some book) (rep : book.Represents q orders) :
    (app.fetchDepth handler.registry).depth =
      ⟨(orders.depth ((app.viewport.ladderRows + 1) / 2)).1,
        (orders.depth ((app.viewport.ladderRows + 1) / 2)).2⟩ := by
  simp only [App.fetchDepth, selected, Option.bind_some, found, rep.depth]
  split
  next => rfl
  next none =>
    have zero : (app.viewport.ladderRows + 1) / 2 = 0 := Nat.eq_zero_of_not_pos none
    simp only [zero, RefBook.depth, List.take_zero]

omit [ListState L] in
/-- The rows of a coherent cache count the listings that match. -/
theorem System.Coherent.counts {system : System R L} (coherent : system.Coherent) {market : Market}
    (shows : Shows watch system.handler market) :
    Counts (fun l => (market.listings l).isSome) system.app.symbols.length ∧
      Counts (fun l => ∃ listing ∈ market.listings l, Starts system.app.filter listing)
        system.app.filtered.length := by
  obtain ⟨once, members⟩ := coherent.current
  have listed (l symbol : Nat) : (l, symbol) ∈ system.app.symbols ↔
      ∃ listing ∈ market.listings l, listing.symbol = symbol := by
    rw [members, shows.symbols, Option.map_eq_some_iff]
    rfl
  constructor
  · refine ⟨_, once, fun l => ?_, (List.length_map ..).symm⟩
    dsimp only
    rw [List.mem_map, Option.isSome_iff_exists]
    constructor
    · rintro ⟨⟨_, symbol⟩, member, rfl⟩
      obtain ⟨listing, here, _⟩ := (listed _ symbol).mp member
      exact ⟨listing, here⟩
    · rintro ⟨listing, here⟩
      exact ⟨_, (listed l listing.symbol).mpr ⟨listing, here, rfl⟩, rfl⟩
  · let locate (i : Nat) : Option Nat := (system.app.symbols[i]?).map Prod.fst
    have each (i : Nat) (member : i ∈ system.app.filtered) : (locate i).isSome := by
      rw [Option.isSome_map, List.getElem?_eq_getElem (coherent.filtered.below i member)]
      rfl
    refine ⟨system.app.filtered.filterMap locate, ?_, fun l => ?_,
      (List.filterMap_length_eq_length.mpr each).symm⟩
    · -- places in the list of symbols differ in their locate
      have places := coherent.filtered.ascending.imp_of_mem
        fun {i j} (here : i ∈ system.app.filtered) _ (before : i < j) =>
          And.intro (coherent.filtered.below i here) before
      refine List.Pairwise.filterMap locate ?_ places
      rintro i j ⟨below, before⟩ l first l' second rfl
      simp only [locate, ← List.getElem?_map] at first second
      have same := (List.getElem?_inj (by rwa [List.length_map]) once).mp (first.trans second.symm)
      exact Nat.ne_of_lt before same
    · rw [List.mem_filterMap]
      constructor
      · rintro ⟨i, member, found⟩
        obtain ⟨_, symbol, stored, starts⟩ := (coherent.filtered.members i).mp member
        obtain ⟨_, here, rfl⟩ := Option.map_eq_some_iff.mp found
        rw [here] at stored
        cases stored
        obtain ⟨listing, lists, rfl⟩ := (listed _ symbol).mp (List.mem_of_getElem? here)
        exact ⟨listing, lists, starts⟩
      · rintro ⟨listing, lists, starts⟩
        obtain ⟨i, stored⟩ :=
          List.getElem?_of_mem ((listed l listing.symbol).mpr ⟨listing, lists, rfl⟩)
        exact ⟨i, (coherent.filtered.members i).mpr ⟨l, _, stored, starts⟩,
          by simp only [locate, stored, Option.map_some]⟩

omit [IterRegistry R] [LawfulRegistry R] in
/-- A drawing of quantities whose sums are in range. -/
theorem draw_eq (profile : Profile) (app : App L) {ladder : List LadderRow}
    (built : buildLadder app.depth app.viewport.ladderRows = ladder)
    (fits : ∀ side, (ladder.filterMap (qtyOf side)).sum < 2 ^ 64) :
    draw profile app = some (app.picture ladder (totals ladder .bid) (totals ladder .ask)) := by
  rw [draw, built, collect_eq profile _ .bid (fits .bid), Option.bind_eq_bind, Option.bind_some,
    collect_eq profile _ .ask (fits .ask)]
  rfl

/-- The quantities of every side of every listing add up within 64 bits. -/
def Summable (market : Market) : Prop :=
  ∀ l, ∀ listing ∈ market.listings l,
    ∀ side, ((listing.orders.ladder side).map Prod.snd).sum < 2 ^ 64

omit [ListState L] in
/-- A filtered row is that of a listing. -/
theorem System.Coherent.row {system : System R L} (coherent : system.Coherent) {market : Market}
    (shows : Shows watch system.handler market) {i : Nat} (member : i ∈ system.app.filtered) :
    ∃ l symbol, system.app.symbols[i]? = some (l, symbol) ∧ ∃ listing ∈ market.listings l,
      listing.symbol = symbol ∧ Starts system.app.filter listing ∧
      system.app.rowAt system.handler.registry i = some (rowOf listing) ∧
      ∃ book q, Registry.get system.handler.registry l = some book ∧
        book.Represents q listing.orders := by
  obtain ⟨l, symbol, stored, starts⟩ := (coherent.filtered.members i).mp member
  obtain ⟨listing, listed, rfl, visible, found⟩ := visibleRow_eq shows
    ((coherent.current.members l symbol).mp (List.mem_of_getElem? stored))
  refine ⟨l, _, stored, listing, listed, rfl, starts, ?_, found⟩
  rw [App.rowAt, stored, Option.map_some]
  exact congrArg some visible

/-- After a refresh one listing has the title, the highlighted row and the ladder. -/
theorem System.Coherent.focus {system : System R L} (coherent : system.Coherent) {market : Market}
    (shows : Shows watch system.handler market) (formed : market.WellFormed) {before : App L}
    (window : Window system.handler.registry before system.app)
    (fetched : system.app.fetchDepth system.handler.registry = system.app)
    (some : system.app.filtered ≠ []) (bids asks : LadderStats) :
    ∃ l, ∃ listing ∈ market.listings l, Starts system.app.filter listing ∧
      Focus listing system.app.viewport (system.app.picture
        (buildLadder system.app.depth system.app.viewport.ladderRows) bids asks) := by
  obtain ⟨s, i, l, symbol, selected, shown, stored, locate, _⟩ := window.selected some
  obtain ⟨_, _, stored', listing, listed, rfl, starts, row, book, q, found, rep⟩ :=
    coherent.row shows (List.mem_of_getElem? shown)
  rw [stored] at stored'
  cases stored'
  have depth := fetchDepth_eq locate found rep
  rw [fetched] at depth
  have ladders := buildLadder_ladders listing.orders system.app.viewport.ladderRows
  rw [← depth] at ladders
  -- the prices of the wire are not negative
  have nonneg {row : LadderRow} (member : row ∈ buildLadder system.app.depth
      system.app.viewport.ladderRows) : 0 ≤ row.price := by
    obtain ⟨side, some⟩ := ladders.merges.occupied row member
    obtain ⟨q, here⟩ := Option.isSome_iff_exists.mp some
    have level := mem_ladder_of_nearest ((ladders.merges.quantities row member side q).mp here)
    rw [← rep.ladder] at level
    exact ((formed l listing listed).2 side row.price (rep.mem_ladder level)).1
  refine ⟨l, listing, listed, starts, ?_, fun positive => ?_, ladders, ?_⟩
  · simp only [App.picture, App.title, selected, Option.bind_some, App.symbolAt, shown, stored,
      Option.map_some]
  · obtain ⟨k, drawn, here⟩ := window.drawn s selected positive
    rw [shown, Option.bind_some, row] at here
    exact ⟨k, drawn, here⟩
  · refine List.pairwise_map.mpr (ladders.merges.falling.imp_of_mem fun here there below same => ?_)
    exact Int.ne_of_gt below (price_injective (nonneg here) (nonneg there) same)

/-- A refresh and a drawing do not panic, and show the market. -/
theorem System.Windowed.depicts (windowed : system.Windowed profile) {market : Market}
    (shows : Shows watch system.handler market) (formed : market.WellFormed)
    (summable : Summable market) (order : IterRegistry.Order R) :
    ∃ app picture, system.app.refresh profile order system.handler = some app ∧
      draw profile app = some picture ∧
      Depicts market system.app.filter system.app.viewport picture ∧
      System.Windowed profile { system with app } := by
  obtain ⟨app, refreshed, window, windowed'⟩ := windowed.refresh order
  obtain ⟨leaves, fetched, blank⟩ := refresh_leaves refreshed
  have coherent : System.Coherent { system with app } := by
    obtain ⟨rebuilt, built, keeps, filter⟩ := windowed.cached.refreshed refreshed
    refine ⟨keeps.symbols ▸ built.current, keeps.symbols ▸ built.sorted, ?_⟩
    simp only [filter, keeps.symbols, keeps.filtered]
    exact built.filtered
  have focus := fun filled bids asks => coherent.focus shows formed window fetched filled bids asks
  have empty (bare : app.filtered = []) :
      app.title = none ∧ buildLadder app.depth app.viewport.ladderRows = [] := by
    have unselected : ListState.selected app.listState = none := by
      refine Option.eq_none_iff_forall_not_mem.mpr fun s selected => ?_
      have inside := windowed'.inside s selected
      rw [bare] at inside
      exact Nat.not_lt_zero _ inside
    have depth : app.depth = ⟨[], []⟩ := by
      rw [← fetched]
      simp only [App.fetchDepth, blank unselected, Option.bind_none]
    exact ⟨by simp only [App.title, unselected, Option.bind_none, Option.map_none],
      by rw [depth, buildLadder_nil]⟩
  have fits (side : Side) : ((buildLadder app.depth app.viewport.ladderRows).filterMap
      (qtyOf side)).sum < 2 ^ 64 := by
    by_cases bare : app.filtered = []
    · rw [(empty bare).2]
      exact Nat.two_pow_pos 64
    · obtain ⟨l, listing, listed, _, shown⟩ := focus bare ⟨0, 0, 0⟩ ⟨0, 0, 0⟩
      exact (shown.ladder.merges.sum_le fun _ => mem_ladder_of_nearest).trans_lt
        (summable l listing listed side)
  have counted (n : app.filtered.length = 0) : app.filtered = [] := List.eq_nil_of_length_eq_zero n
  obtain ⟨symbols, matching⟩ := coherent.counts shows
  refine ⟨app, _, refreshed, draw_eq profile app rfl fits, ?_, windowed'⟩
  rw [← leaves.viewport, ← leaves.filter]
  refine ⟨leaves.stats.trans shows.stats, symbols, matching, rfl, fun r member => ?_, window.length,
    fun filled => focus (mt List.length_eq_zero_iff.mpr filled) _ _,
    fun bare => empty (counted bare), rfl, rfl⟩
  -- a row that is drawn is that of a filtered index
  have listed : some r ∈ app.visibleRows.map some := List.mem_map_of_mem member
  rw [window.rows] at listed
  obtain ⟨i, shown, row⟩ := List.mem_map.mp listed
  have filtered := List.mem_of_mem_drop (List.mem_of_mem_take shown)
  obtain ⟨l, symbol, _, listing, here, _, starts, equal, _⟩ := coherent.row shows filtered
  rw [row, Option.some.injEq] at equal
  exact ⟨l, listing, here, starts, equal⟩

end Pictures

/-! ### Whole runs -/

namespace Session

variable {R L : Type} [IterRegistry R] [LawfulRegistry R] [ListState L] {env : Env}
  {trySend : RetransmissionPacket → Bool} {toUppercase : Char → List Char}
  {watch : Option (List Nat)} {datagrams : List (List UInt8)} {session : Session R L}

/-- The client works through what it hears, has found the flag up, or has returned at the end of the
session. -/
inductive Progress (watch : Option (List Nat)) (datagrams : List (List UInt8))
    (session : Session R L) : Prop
  | working (listening : session.listening = true)
    (stopping : Stopping watch session.raised session.clock session.client.handler)
    (whole : session.seen = heard datagrams) (further : datagrams.all continues = true)
  | stopped (late : session.raised < session.clock.now) (part : session.seen <+: heard datagrams)
  | ended (returned : session.listening = false) (whole : session.seen = heard datagrams)
    (last : datagrams.all continues = false)

/-- The handler shows the messages that were handled, and the interface has its window. -/
structure Live (profile : Profile) (watch : Option (List Nat)) (datagrams : List (List UInt8))
    (session : Session R L) : Prop where
  shows : Shows watch session.client.handler (Market.after watch session.seen)
  windowed : System.Windowed profile ⟨session.client.handler, session.app⟩
  progress : Progress watch datagrams session

omit [ListState L] in
theorem Progress.part (progress : Progress watch datagrams session) :
    session.seen <+: heard datagrams := by
  cases progress with
  | working _ _ whole | ended _ whole => exact whole ▸ List.prefix_refl _
  | stopped _ part => exact part

omit [ListState L] in
theorem Progress.whole (progress : Progress watch datagrams session)
    (down : session.clock.now ≤ session.raised) : session.seen = heard datagrams := by
  cases progress with
  | working _ _ whole | ended _ whole => exact whole
  | stopped late => exact absurd down (Nat.not_le.mpr late)

omit [ListState L] in
/-- The event loop of the interface does not hold up the client. -/
theorem Progress.beside (progress : Progress watch datagrams session) (phase : Phase)
    (app : App L) : Progress watch datagrams { session with phase, app } := by
  cases progress with
  | working listening stopping whole further => exact .working listening stopping whole further
  | stopped late part => exact .stopped late part
  | ended returned whole last => exact .ended returned whole last

/-- A turn of the receive loop. -/
theorem Live.receive (live : Live env.profile watch datagrams session)
    (trySend : RetransmissionPacket → Bool) {datagram : List UInt8}
    (headed : (Packet.parse datagram).isSome)
    (smooth : Smooth R env watch (heard (datagrams ++ [datagram]))) :
    ∃ next, session.receive env trySend datagram = some next ∧
      Live env.profile watch (datagrams ++ [datagram]) next := by
  obtain ⟨shows, windowed, progress⟩ := live
  rw [heard_append] at smooth
  unfold Session.receive
  cases progress with
  | working listening stopping whole further =>
    rw [further, if_pos rfl, ← whole] at smooth
    obtain ⟨cf, clock, client, part, turned, handled, outcome⟩ :=
      stopping.turn trySend headed smooth
    rw [if_pos listening, turned]
    refine ⟨_, rfl, ?_⟩
    have shown : Shows watch client.handler (Market.after watch (clock.handled.map Prod.snd)) := by
      rcases outcome with ⟨further, _⟩ | ⟨halted, _⟩
      · exact further.shows
      · exact halted.shows
    have advanced := windowed.advance shows (by rwa [handled] at shown)
    refine ⟨shown, advanced, ?_⟩
    rcases outcome with ⟨onwards, rfl, goes⟩ | ⟨_, late, front⟩
    · have all : clock.handled.map Prod.snd = heard (datagrams ++ [datagram]) := by
        rw [handled, heard_append, further, if_pos rfl, ← whole]
        rfl
      by_cases more : continues datagram = true
      · exact .working (decide_eq_true (goes.mpr more)) onwards all (by simp [further, more])
      · exact .ended (decide_eq_false (mt goes.mp more)) all (by simp [more])
    · refine .stopped late ?_
      change clock.handled.map Prod.snd <+: _
      rw [handled, heard_append, further, if_pos rfl, ← whole]
      exact (List.prefix_append_right_inj _).mpr front
  | stopped late part =>
    have here : session.seen <+: heard (datagrams ++ [datagram]) := by
      rw [heard_append]
      exact part.trans (List.prefix_append _ _)
    split
    next =>
      have stops : (env.asOf session.raised session.clock.now).shutdown = true :=
        decide_eq_true (Nat.le_of_lt late)
      rw [Receiving.turnAsOf, if_pos stops]
      exact ⟨_, rfl, shows, windowed, .stopped (Nat.lt_succ_of_lt late) here⟩
    next => exact ⟨session, rfl, shows, windowed, .stopped late here⟩
  | ended returned whole last =>
    refine ⟨session, if_neg (by simp [returned]), shows, windowed, .ended returned ?_ ?_⟩
    · rw [heard_append, last, if_neg Bool.false_ne_true, List.append_nil, whole]
    · rw [List.all_append, last, Bool.false_and]

/-- A frame of the interface. -/
theorem Live.frame (live : Live env.profile watch datagrams session)
    (smooth : Smooth R env watch (heard datagrams)) (size : Size) (order : IterRegistry.Order R) :
    ∃ picture next, session.frame env.profile size order = some (picture, next) ∧
      Depicts (Market.after watch session.seen) session.app.filter (viewportFor size) picture ∧
      Live env.profile watch datagrams next := by
  have summable : Summable (Market.after watch session.seen) := fun l listing listed =>
    Market.volume_lt watch _ (smooth.few _ live.progress.part) listed
  -- the height of a terminal leaves room for any offset
  have sized : System.Windowed env.profile
      (⟨session.client.handler, session.app.setViewport (viewportFor size)⟩ : System R L) :=
    ⟨live.windowed.cached.keeps ⟨rfl, rfl, rfl, rfl⟩, live.windowed.few, live.windowed.inside,
      fun _ => by
        have small := size.small
        simp only [App.setViewport, viewportFor]
        omega⟩
  obtain ⟨app, picture, refreshed, drawn, depicts, windowed⟩ :=
    sized.depicts live.shows (Market.wellFormed_after watch _) summable order
  refine ⟨picture, { session with app, phase := .poll }, ?_, depicts, live.shows, windowed,
    live.progress.beside .poll app⟩
  simp only at refreshed
  simp only [Session.frame, refreshed, drawn, Option.bind_eq_bind, Option.bind_some,
    Option.pure_def]

/-- A key, which may raise the flag. -/
theorem Live.press (live : Live env.profile watch datagrams session)
    (toUppercase : Char → List Char) (key : KeyEvent) :
    ∃ next, session.press env.profile toUppercase key = some next ∧
      Live env.profile watch datagrams next := by
  obtain ⟨shows, windowed, progress⟩ := live
  obtain ⟨⟨quits, app⟩, handled⟩ := Option.isSome_iff_exists.mp (handleKey_isSome env.profile
    toUppercase key windowed.cached.below windowed.few windowed.inside)
  have after := windowed.handled (handled_handleKey handled)
  simp only at handled
  rw [Session.press, handled]
  refine ⟨_, rfl, ?_⟩
  cases quits with
  | true =>
    refine ⟨shows, after, ?_⟩
    cases progress with
    | working listening stopping whole further =>
      exact .working listening stopping.raise whole further
    | stopped late part => exact .stopped ((Nat.min_le_left _ _).trans_lt late) part
    | ended returned whole last => exact .ended returned whole last
  | false => exact ⟨shows, after, progress.beside .check app⟩

/-- What is drawn is the market after the messages that were handled before. -/
theorem Live.step (live : Live env.profile watch datagrams session)
    (trySend : RetransmissionPacket → Bool) (toUppercase : Char → List Char) (move : Move R)
    (headed : ∀ d ∈ datagramsOf [move], (Packet.parse d).isSome)
    (smooth : Smooth R env watch (heard (datagrams ++ datagramsOf [move]))) :
    ∃ drawn next, session.step env trySend toUppercase move = some (drawn, next) ∧
      Live env.profile watch (datagrams ++ datagramsOf [move]) next ∧
      ∀ picture ∈ drawn, ∃ filter size,
        Depicts (Market.after watch session.seen) filter (viewportFor size) picture := by
  cases move with
  | receive datagram =>
    obtain ⟨next, received, live'⟩ := live.receive trySend (headed datagram (by simp [datagramsOf]))
      smooth
    exact ⟨none, next, by rw [Session.step, received]; rfl, live', by simp⟩
  | interface up due key =>
    have none : datagramsOf [Move.interface up due key] = [] := rfl
    rw [none, List.append_nil] at smooth ⊢
    -- a part of the event loop that leaves the app
    have stays (phase : Phase) : Live env.profile watch datagrams { session with phase } :=
      ⟨live.shows, live.windowed, live.progress.beside phase session.app⟩
    unfold Session.step
    cases session.phase with
    | check => exact ⟨_, _, rfl, stays _, by simp⟩
    | closed => exact ⟨_, _, rfl, live, by simp⟩
    | frame =>
      cases due with
      | none => exact ⟨_, _, rfl, stays _, by simp⟩
      | some due =>
        obtain ⟨picture, next, drawn, depicts, live'⟩ := live.frame smooth due.1 due.2
        refine ⟨some picture, next, by simp only [drawn, Option.map_some], live', ?_⟩
        rintro _ ⟨⟩
        exact ⟨_, _, depicts⟩
    | poll =>
      cases key with
      | none => exact ⟨_, _, rfl, stays _, by simp⟩
      | some key =>
        obtain ⟨next, pressed, live'⟩ := live.press toUppercase key
        exact ⟨Option.none, next, by simp only [pressed, Option.map_some], live', by simp⟩

omit [LawfulRegistry R] in
theorem datagramsOf_cons (move : Move R) (moves : List (Move R)) :
    datagramsOf (move :: moves) = datagramsOf [move] ++ datagramsOf moves := by
  cases move <;> rfl

theorem Live.run (live : Live env.profile watch datagrams session)
    (trySend : RetransmissionPacket → Bool) (toUppercase : Char → List Char)
    (moves : List (Move R)) (headed : ∀ d ∈ datagramsOf moves, (Packet.parse d).isSome)
    (smooth : Smooth R env watch (heard (datagrams ++ datagramsOf moves))) :
    ∃ drawn next,
      Library.run (Session.step env trySend toUppercase) session moves = some (drawn, next) ∧
      Live env.profile watch (datagrams ++ datagramsOf moves) next ∧
      ∀ picture, some picture ∈ drawn → ∃ before filter size,
        before <+: heard (datagrams ++ datagramsOf moves) ∧
        Depicts (Market.after watch before) filter (viewportFor size) picture := by
  induction moves generalizing session datagrams with
  | nil =>
    have none : datagramsOf ([] : List (Move R)) = [] := rfl
    rw [none, List.append_nil]
    exact ⟨[], session, rfl, live, by simp⟩
  | cons move moves ih =>
    rw [datagramsOf_cons] at headed smooth ⊢
    rw [← List.append_assoc] at smooth ⊢
    have front : heard datagrams <+: heard (datagrams ++ datagramsOf [move] ++ datagramsOf moves) :=
      by
        rw [List.append_assoc, heard_append datagrams]
        exact List.prefix_append _ _
    obtain ⟨drawn, middle, stepped, live', first⟩ := live.step trySend toUppercase move
      (fun d member => headed d (List.mem_append_left _ member))
      (smooth.front (by rw [heard_append _ (datagramsOf moves)]; exact List.prefix_append _ _))
    obtain ⟨others, last, ran, final, later⟩ := ih live'
      (fun d member => headed d (List.mem_append_right _ member)) smooth
    refine ⟨drawn :: others, last,
      by rw [run_cons_of_step _ _ _ _ _ _ stepped, ran, Option.map_some], final, ?_⟩
    intro picture member
    rcases List.mem_cons.mp member with here | there
    · obtain ⟨filter, size, depicts⟩ := first picture (Option.mem_def.mpr here.symm)
      exact ⟨session.seen, filter, size, live.progress.part.trans front, depicts⟩
    · exact later picture there

theorem live_start (profile : Profile) (raised : Nat) (watch : Option (List Nat)) :
    Live profile watch [] (start raised watch : Session R L) :=
  ⟨shows_new watch, System.windowed_start watch,
    .working rfl (stopping_start watch raised) rfl rfl⟩

/-- Two frames, and a message between them that only the second one shows. -/
def framesAround : List (Move HashMapRegistry) :=
  let due := some (⟨80, 24, by decide⟩, asStored)
  [.receive (Receiving.datagramOf 7 [directoryOf1]), .interface false none none,
    .interface false due none, .receive (Receiving.datagramOf 8 [buy100 1]),
    .interface false none none, .interface false none none, .interface false due none]

end Session

end Hftrs.Tui
