import Hftrs.App.Interrupt
import Hftrs.App.Table
import Hftrs.App.Watch

/-! The whole program, with the dense registry it runs on: what it writes of a file. The payload
limit is left open; the program never sets it, and runs with the default. -/
namespace Hftrs.App

open Hftrs.Itch5 Hftrs.Library Hftrs.Orderbook Hftrs.Moldudp

/-! ### The report -/

/-- Formats that the command line selects. -/
inductive ReportFormat where
  | Tsv
  | Json
  deriving DecidableEq, Repr

def ReportFormat.write : ReportFormat → Snapshot → ByteArray
  | Tsv, snapshot => TsvFormatter.write snapshot
  | Json, snapshot => JsonFormatter.write snapshot

/-- The bytes that go to the writer; `none` is an overflow in the snapshot. -/
def Report.write {R : Type} [IterRegistry R] (profile : Profile) (order : IterRegistry.Order R)
    (handler : MessageHandler R) (format : ReportFormat) (depth : Nat) : Option ByteArray :=
  (Snapshot.capture profile order handler depth).map format.write

/-- The options that a run and its report depend on. -/
structure Config where
  outputFilePath : Option (List Char)
  symbolStrs : Option (List (List Char))
  reportFormat : ReportFormat
  reportDepth : Nat
  session : List UInt8
  maxMsgs : Nat
  interactive : Bool

def Config.shouldMakeReport (config : Config) : Bool :=
  config.outputFilePath.isSome || !config.interactive

/-- What is written; without a path it goes to the standard output. -/
structure Output where
  path : Option (List Char)
  bytes : ByteArray

def writeReport (profile : Profile) (handler : MessageHandler VecRegistry) (config : Config) :
    Option Output :=
  (Report.write profile () handler config.reportFormat config.reportDepth).map
    (⟨config.outputFilePath, ·⟩)

/-- The end of `run`, after its threads have been joined. The outer `none` is a panic. -/
def conclude (profile : Profile) (config : Config) (handler : MessageHandler VecRegistry) :
    Option (Option Output) :=
  if config.shouldMakeReport then (writeReport profile handler config).map some else some none

/-! ### The market in the order of its locates -/

namespace Market

def books (market : Market) (levels : Nat) : List BookSummary :=
  (List.range (2 ^ 16)).filterMap fun l =>
    (market.listings l).map fun listing => listing.summary levels l

def snapshot (market : Market) (levels : Nat) : Snapshot :=
  ⟨market.stats, levels, market.books levels⟩

/-- What the program says of a market. -/
def output (market : Market) (config : Config) : Option Output :=
  if config.shouldMakeReport then
    some ⟨config.outputFilePath, config.reportFormat.write (market.snapshot config.reportDepth)⟩
  else none

/-- Only locates of the wire are listed. -/
theorem listings_after (watch : Option (List Nat)) (ms : List Message) {l : Nat}
    {listing : Listing} (listed : (after watch ms).listings l = some listing) : l < 2 ^ 16 := by
  have symbol := symbol_after watch ms l
  rw [listed, Option.map_some] at symbol
  obtain ⟨m, found, _⟩ := Option.map_eq_some_iff.mp symbol.symm
  have located := locate_of_registers (List.find?_some found)
  rw [← located]
  exact m.2.stockLocate_lt

theorem books_ascending (market : Market) (levels : Nat) :
    (market.books levels).Pairwise fun a b => a.locate < b.locate := by
  refine List.Pairwise.filterMap _ (fun l l' below a here b there => ?_)
    (List.pairwise_lt_range (n := 2 ^ 16))
  obtain ⟨_, _, rfl⟩ := Option.map_eq_some_iff.mp here
  obtain ⟨_, _, rfl⟩ := Option.map_eq_some_iff.mp there
  exact below

theorem mem_books {market : Market}
    (wire : ∀ l listing, market.listings l = some listing → l < 2 ^ 16) (levels : Nat)
    (book : BookSummary) : book ∈ market.books levels ↔
      ∃ listing, market.listings book.locate = some listing ∧
        book = listing.summary levels book.locate := by
  rw [books, List.mem_filterMap]
  constructor
  · rintro ⟨l, _, here⟩
    obtain ⟨listing, listed, rfl⟩ := Option.map_eq_some_iff.mp here
    exact ⟨listing, listed, rfl⟩
  · rintro ⟨listing, listed, equal⟩
    exact ⟨book.locate, List.mem_range.mpr (wire _ _ listed), by
      rw [listed, Option.map_some, ← equal]⟩

end Market

/-- Lists that ascend in a key and have the same members are the same. -/
theorem eq_of_ascending {α : Type} {key : α → Nat} {l₁ l₂ : List α}
    (ascending₁ : l₁.Pairwise fun a b => key a < key b)
    (ascending₂ : l₂.Pairwise fun a b => key a < key b) (same : ∀ a, a ∈ l₁ ↔ a ∈ l₂) :
    l₁ = l₂ := by
  have once {l : List α} (ascending : l.Pairwise fun a b => key a < key b) : l.Nodup :=
    ascending.imp fun below equal => Nat.ne_of_lt below (congrArg key equal)
  refine List.Perm.eq_of_pairwise (fun a b _ _ below above => ?_) ascending₁ ascending₂
    ((List.perm_ext_iff_of_nodup (once ascending₁) (once ascending₂)).mpr same)
  exact absurd above (Nat.lt_asymm below)

/-- The dense registry is walked in the order of its locates. -/
theorem Snapshot.capture_ascending {profile : Profile} {handler : MessageHandler VecRegistry}
    {levels : Nat} {snapshot : Snapshot} (valid : IterRegistry.Valid handler.registry)
    (captured : capture profile () handler levels = some snapshot) :
    snapshot.books.Pairwise fun a b => a.locate < b.locate := by
  have walked := VecRegistry.iter_slots profile () valid
  simp only [capture, walked, Option.bind_eq_bind, Option.bind_some,
    Option.bind_eq_some_iff] at captured
  obtain ⟨books, each, equal⟩ := captured
  cases equal
  have entries := congrArg (List.map Prod.fst)
    (BookSummary.capture_all profile levels _ books each)
  rw [List.map_map, List.map_map] at entries
  have ascending := VecRegistry.slots_ascending handler.registry.books handler.registry.symbols 0
  have locates : (books.map BookSummary.locate).Pairwise (· < ·) := by
    have slots : (List.map Prod.fst (VecRegistry.slots handler.registry.books
        handler.registry.symbols 0)).Pairwise (· < ·) := List.pairwise_map.mpr ascending
    exact (show books.map BookSummary.locate = _ from entries) ▸ slots
  exact List.pairwise_map.mp locates

/-- A handler that shows the market writes what the market says. -/
theorem Shows.concludes {watch : Option (List Nat)} {ms : List Message}
    {handler : MessageHandler VecRegistry} (shows : Shows watch handler (Market.after watch ms))
    (profile : Profile) (config : Config) :
    conclude profile config handler = some ((Market.after watch ms).output config) := by
  obtain ⟨snapshot, captured, reports⟩ :=
    shows.reports (Market.wellFormed_after watch ms) profile () config.reportDepth
  have books : snapshot.books = (Market.after watch ms).books config.reportDepth :=
    eq_of_ascending (Snapshot.capture_ascending shows.valid captured)
      (Market.books_ascending _ _) fun book => (reports.books book).trans
        (Market.mem_books (fun _ _ => Market.listings_after watch ms) _ book).symm
  have equal : snapshot = (Market.after watch ms).snapshot config.reportDepth := by
    rw [Market.snapshot, ← books, ← reports.stats, ← reports.depthLevels]
  rw [conclude, Market.output, writeReport, Report.write, captured, equal]
  split <;> rfl

/-! ### From the file to the report -/

/-- The handler that the threads share; `none` is a symbol that cannot be watched. -/
def startHandler (toUppercase : Char → List Char) (config : Config) :
    Option (MessageHandler VecRegistry) :=
  (parseSymbols toUppercase config.symbolStrs).map .new

end Hftrs.App
