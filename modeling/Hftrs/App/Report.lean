import Hftrs.App.Handler
import Hftrs.Itch5.Symbol
import Hftrs.Library.Json
import Hftrs.Library.Traverse
import Hftrs.Orderbook.Queries
import Hftrs.Orderbook.Walks

/-! The report in JSON: what the formatter writes of a snapshot, and what a reader of the document
finds there. -/
namespace Hftrs.App

open Hftrs.Itch5 Hftrs.Library Hftrs.Orderbook

/-- One side of a depth ladder: price levels in best-first order. -/
abbrev Levels := List (Int × Nat)

/-- Per-book metrics captured at snapshot time. -/
structure BookSummary where
  locate : Nat
  symbol : Nat
  bestBid : Option (Int × Nat)
  bestAsk : Option (Int × Nat)
  spread : Option Int
  mid : Option Int
  /-- `(bids, asks)` -/
  depth : Levels × Levels
  deriving DecidableEq, Repr

/-- Complete report payload: per-run counters and per-book summaries. -/
structure Snapshot where
  stats : HandlerStats
  depthLevels : Nat
  books : List BookSummary
  deriving DecidableEq, Repr

namespace BookSummary

/-- The book of an item; `none` is an overflow of its spread or its mid. -/
def capture (profile : Profile) (depthLevels : Nat) (item : VecRegistry.Item) :
    Option BookSummary := do
  let (locate, symbol, book) := item
  let spread ← book.spread profile
  let mid ← book.mid profile
  some ⟨locate, symbol, book.bestBid, book.bestAsk, spread, mid, book.depth depthLevels⟩

/-- What the formatter shows of a symbol. -/
def text (book : BookSummary) : List Char := trimEnd (Symbol.asStr book.symbol)

/-- Every character of the symbol stands for itself between the quotes. -/
def Plain (book : BookSummary) : Prop := ∀ c ∈ book.text, Json.Plain c

end BookSummary

/-- Capture the registry into a pure `Snapshot`. -/
def Snapshot.capture {R : Type} [IterRegistry R] (profile : Profile) (order : IterRegistry.Order R)
    (handler : MessageHandler R) (depthLevels : Nat) : Option Snapshot := do
  let items ← IterRegistry.iter profile order handler.registry
  let books ← items.mapM (BookSummary.capture profile depthLevels)
  some ⟨handler.stats, depthLevels, books⟩

/-- The books of a snapshot are those of the iteration, in its order. -/
theorem BookSummary.capture_all (profile : Profile) (depthLevels : Nat)
    (items : List VecRegistry.Item) (books : List BookSummary)
    (captured : items.mapM (capture profile depthLevels) = some books) :
    books.map (fun book => (book.locate, book.symbol)) =
      items.map fun item => (item.1, item.2.1) := by
  have pairs := (mapM_some_iff items books).mp captured
  rw [← List.forall₂_eq_eq_eq, List.forall₂_map_left_iff, List.forall₂_map_right_iff]
  refine pairs.flip.imp fun book item one => ?_
  simp only [capture, Option.bind_eq_bind, Option.bind_eq_some_iff] at one
  obtain ⟨spread, _, mid, _, equal⟩ := one
  cases equal
  rfl

/-- Every registered symbol has its one book in the report. -/
theorem Snapshot.capture_registered {R : Type} [IterRegistry R] {profile : Profile}
    {order : IterRegistry.Order R} {handler : MessageHandler R} {depthLevels : Nat}
    {snapshot : Snapshot} (valid : IterRegistry.Valid handler.registry)
    (captured : capture profile order handler depthLevels = some snapshot) :
    (snapshot.books.map BookSummary.locate).Nodup ∧ ∀ locate symbol,
      (∃ book ∈ snapshot.books, book.locate = locate ∧ book.symbol = symbol) ↔
        Registry.getSymbol handler.registry locate = some symbol := by
  obtain ⟨items, iterated, once, listed⟩ := IterRegistry.iter_spec profile order valid
  simp only [capture, iterated, Option.bind_eq_bind, Option.bind_some,
    Option.bind_eq_some_iff] at captured
  obtain ⟨books, each, equal⟩ := captured
  cases equal
  have entries := BookSummary.capture_all profile depthLevels items books each
  constructor
  · have locates := congrArg (List.map Prod.fst) entries
    rw [List.map_map, List.map_map] at locates
    exact locates ▸ once
  · intro locate symbol
    rw [← listed]
    have member := congrArg ((locate, symbol) ∈ ·) entries
    simpa using member

/-! ### The formatter -/

namespace JsonFormatter

open Json (natural integer)

def writeStatsJson (stats : HandlerStats) : List Char :=
  "\x7b\"orders_added\":".toList ++ natural stats.ordersAdded ++
  ",\"orders_executed\":".toList ++ natural stats.ordersExecuted ++
  ",\"orders_cancelled\":".toList ++ natural stats.ordersCancelled ++
  ",\"orders_deleted\":".toList ++ natural stats.ordersDeleted ++
  ",\"orders_replaced\":".toList ++ natural stats.ordersReplaced ++
  ",\"stock_directory_msgs\":".toList ++ natural stats.stockDirectoryMsgs ++
  ",\"skipped_locate\":".toList ++ natural stats.skippedLocate ++ "\x7d".toList

/-- One level, as `write_level_json` and `write_levels_json` write it. -/
def writeLevel (level : Int × Nat) : List Char :=
  "\x7b\"price\":".toList ++ integer level.1 ++ ",\"qty\":".toList ++ natural level.2 ++
  "\x7d".toList

def writeLevelJson : Option (Int × Nat) → List Char
  | none => "null".toList
  | some level => writeLevel level

/-- What a loop writes that puts a comma before each item but the first. -/
def separated {α : Type} (write : α → List Char) : List α → List Char
  | [] => []
  | item :: items => write item ++ items.flatMap fun item => ',' :: write item

def writeLevelsJson (levels : Levels) : List Char :=
  "[".toList ++ separated writeLevel levels ++ "]".toList

def jsonOpt : Option Int → List Char
  | none => "null".toList
  | some n => integer n

def writeBookJson (b : BookSummary) : List Char :=
  "\x7b\"locate\":".toList ++ natural b.locate ++ ",\"symbol\":\"".toList ++ b.text ++
  "\",\"best_bid\":".toList ++ writeLevelJson b.bestBid ++
  ",\"best_ask\":".toList ++ writeLevelJson b.bestAsk ++
  ",\"spread\":".toList ++ jsonOpt b.spread ++ ",\"mid\":".toList ++ jsonOpt b.mid ++
  ",\"depth\":\x7b\"bids\":".toList ++ writeLevelsJson b.depth.1 ++
  ",\"asks\":".toList ++ writeLevelsJson b.depth.2 ++ "\x7d\x7d".toList

/-- The characters written; there is no error from the writer. -/
def document (snapshot : Snapshot) : List Char :=
  "\x7b\"stats\":".toList ++ writeStatsJson snapshot.stats ++
  ",\"depth_levels\":".toList ++ natural snapshot.depthLevels ++ ",\"books\":[".toList ++
  separated writeBookJson snapshot.books ++ "]\x7d\n".toList

def write (snapshot : Snapshot) : ByteArray := (String.ofList (document snapshot)).toByteArray

end JsonFormatter

/-! ### A reader -/

/-- What the report says of a book, the symbol as its text. -/
structure BookReport where
  locate : Nat
  symbol : List Char
  bestBid : Option (Int × Nat)
  bestAsk : Option (Int × Nat)
  spread : Option Int
  mid : Option Int
  depth : Levels × Levels
  deriving DecidableEq, Repr

structure Report where
  stats : HandlerStats
  depthLevels : Nat
  books : List BookReport
  deriving DecidableEq, Repr

def BookSummary.report (book : BookSummary) : BookReport :=
  ⟨book.locate, book.text, book.bestBid, book.bestAsk, book.spread, book.mid, book.depth⟩

def Snapshot.report (snapshot : Snapshot) : Report :=
  ⟨snapshot.stats, snapshot.depthLevels, snapshot.books.map BookSummary.report⟩

namespace Report

open Json (field getNat getInt getStr getItems getOpt)

def readStats (json : Json) : Option HandlerStats := do
  some {
    ordersAdded := ← field "orders_added".toList getNat json
    ordersExecuted := ← field "orders_executed".toList getNat json
    ordersCancelled := ← field "orders_cancelled".toList getNat json
    ordersDeleted := ← field "orders_deleted".toList getNat json
    ordersReplaced := ← field "orders_replaced".toList getNat json
    stockDirectoryMsgs := ← field "stock_directory_msgs".toList getNat json
    skippedLocate := ← field "skipped_locate".toList getNat json }

def readLevel (json : Json) : Option (Int × Nat) := do
  some (← field "price".toList getInt json, ← field "qty".toList getNat json)

def readLevels (json : Json) : Option Levels := do
  (← getItems json).mapM readLevel

def readDepth (json : Json) : Option (Levels × Levels) := do
  some (← field "bids".toList readLevels json, ← field "asks".toList readLevels json)

def readBook (json : Json) : Option BookReport := do
  some {
    locate := ← field "locate".toList getNat json
    symbol := ← field "symbol".toList getStr json
    bestBid := ← field "best_bid".toList (getOpt readLevel) json
    bestAsk := ← field "best_ask".toList (getOpt readLevel) json
    spread := ← field "spread".toList (getOpt getInt) json
    mid := ← field "mid".toList (getOpt getInt) json
    depth := ← field "depth".toList readDepth json }

def readBooks (json : Json) : Option (List BookReport) := do
  (← getItems json).mapM readBook

/-- The report in a parsed document. -/
def read (json : Json) : Option Report := do
  some {
    stats := ← field "stats".toList readStats json
    depthLevels := ← field "depth_levels".toList getNat json
    books := ← field "books".toList readBooks json }

end Report

/-! ### The document of a snapshot -/

def levelJson (level : Int × Nat) : Json :=
  .obj [("price".toList, .num level.1 0), ("qty".toList, .num level.2 0)]

def optJson {α : Type} (json : α → Json) : Option α → Json
  | none => .null
  | some a => json a

def statsJson (stats : HandlerStats) : Json :=
  .obj [("orders_added".toList, .num stats.ordersAdded 0),
    ("orders_executed".toList, .num stats.ordersExecuted 0),
    ("orders_cancelled".toList, .num stats.ordersCancelled 0),
    ("orders_deleted".toList, .num stats.ordersDeleted 0),
    ("orders_replaced".toList, .num stats.ordersReplaced 0),
    ("stock_directory_msgs".toList, .num stats.stockDirectoryMsgs 0),
    ("skipped_locate".toList, .num stats.skippedLocate 0)]

def depthJson (depth : Levels × Levels) : Json :=
  .obj [("bids".toList, .arr (depth.1.map levelJson)),
    ("asks".toList, .arr (depth.2.map levelJson))]

def BookSummary.json (book : BookSummary) : Json :=
  .obj [("locate".toList, .num book.locate 0), ("symbol".toList, .str book.text),
    ("best_bid".toList, optJson levelJson book.bestBid),
    ("best_ask".toList, optJson levelJson book.bestAsk),
    ("spread".toList, optJson (.num · 0) book.spread), ("mid".toList, optJson (.num · 0) book.mid),
    ("depth".toList, depthJson book.depth)]

def Snapshot.json (snapshot : Snapshot) : Json :=
  .obj [("stats".toList, statsJson snapshot.stats),
    ("depth_levels".toList, .num snapshot.depthLevels 0),
    ("books".toList, .arr (snapshot.books.map BookSummary.json))]

/-! What a reader finds there. -/

theorem readStats_json (stats : HandlerStats) :
    Report.readStats (statsJson stats) = some stats := by
  rfl

theorem readLevel_json (level : Int × Nat) : Report.readLevel (levelJson level) = some level := by
  rfl

theorem mapM_map {α β : Type} (read : Json → Option β) (json : α → Json) (report : α → β)
    (items : List α) (found : ∀ item, read (json item) = some (report item)) :
    (items.map json).mapM read = some (items.map report) := by
  rw [List.mapM_map]
  exact mapM_eq_some_map _ report items fun item _ => found item

theorem readLevels_json (levels : Levels) :
    Report.readLevels (.arr (levels.map levelJson)) = some levels := by
  have found := mapM_map Report.readLevel levelJson id levels readLevel_json
  rw [List.map_id] at found
  exact found

theorem readDepth_json (depth : Levels × Levels) :
    Report.readDepth (depthJson depth) = some depth := by
  have bids : Json.get "bids".toList (depthJson depth) =
    some (.arr (depth.1.map levelJson)) := by rfl
  have asks : Json.get "asks".toList (depthJson depth) =
    some (.arr (depth.2.map levelJson)) := by rfl
  simp only [Report.readDepth, Json.field, bids, asks, readLevels_json, Option.bind_eq_bind,
    Option.bind_some]

theorem getOpt_json {α : Type} (read : Json → Option α) (json : α → Json)
    (found : ∀ a, json a ≠ .null ∧ read (json a) = some a) (a : Option α) :
    Json.getOpt read (optJson json a) = some a := by
  cases a with
  | none => rfl
  | some a =>
    obtain ⟨value, found⟩ := found a
    have present : Json.getOpt read (json a) = (read (json a)).map some := by
      unfold Json.getOpt
      split
      next equal => exact absurd equal value
      next => rfl
    exact present.trans (by rw [found]; rfl)

theorem readBook_json (book : BookSummary) : Report.readBook book.json = some book.report := by
  have levels := getOpt_json Report.readLevel levelJson fun level =>
    ⟨by simp [levelJson], readLevel_json level⟩
  have prices := getOpt_json Json.getInt (.num · 0) fun n => ⟨by simp, rfl⟩
  have locate : Json.get "locate".toList book.json = some (.num book.locate 0) := by rfl
  have symbol : Json.get "symbol".toList book.json = some (.str book.text) := by rfl
  have bestBid : Json.get "best_bid".toList book.json =
    some (optJson levelJson book.bestBid) := by rfl
  have bestAsk : Json.get "best_ask".toList book.json =
    some (optJson levelJson book.bestAsk) := by rfl
  have spread : Json.get "spread".toList book.json =
    some (optJson (.num · 0) book.spread) := by rfl
  have mid : Json.get "mid".toList book.json = some (optJson (.num · 0) book.mid) := by rfl
  have depth : Json.get "depth".toList book.json = some (depthJson book.depth) := by rfl
  simp only [Report.readBook, Json.field, locate, symbol, bestBid, bestAsk, spread, mid, depth,
    Option.bind_eq_bind, Option.bind_some, levels, prices, readDepth_json]
  rfl

theorem read_json (snapshot : Snapshot) : Report.read snapshot.json = some snapshot.report := by
  have books : Report.readBooks (.arr (snapshot.books.map BookSummary.json)) =
      some (snapshot.books.map BookSummary.report) :=
    mapM_map Report.readBook BookSummary.json BookSummary.report snapshot.books readBook_json
  have stats : Json.get "stats".toList snapshot.json = some (statsJson snapshot.stats) := by rfl
  have levels : Json.get "depth_levels".toList snapshot.json =
    some (.num snapshot.depthLevels 0) := by rfl
  have listed : Json.get "books".toList snapshot.json =
    some (.arr (snapshot.books.map BookSummary.json)) := by rfl
  simp only [Report.read, Json.field, stats, levels, listed, readStats_json, books,
    Option.bind_eq_bind, Option.bind_some]
  rfl

/-! What the formatter writes, as written values. -/

namespace JsonFormatter

open Json (natural integer render renderItems renderFields renderStr renderChar)

theorem writeStatsJson_eq (stats : HandlerStats) :
    writeStatsJson stats = render (statsJson stats) := by
  unfold writeStatsJson statsJson
  simp [Json.render_obj, Json.renderFields_cons, Json.renderFields_one, Json.render_num,
    Json.integer_natCast, renderStr, renderChar]

theorem writeLevel_eq (level : Int × Nat) : writeLevel level = render (levelJson level) := by
  unfold writeLevel levelJson
  simp [Json.render_obj, Json.renderFields_cons, Json.renderFields_one, Json.render_num,
    Json.integer_natCast, renderStr, renderChar]

theorem writeLevelJson_eq (level : Option (Int × Nat)) :
    writeLevelJson level = render (optJson levelJson level) := by
  cases level with
  | none => rfl
  | some level => exact writeLevel_eq level

theorem jsonOpt_eq (n : Option Int) : jsonOpt n = render (optJson (.num · 0) n) := by
  cases n with
  | none => rfl
  | some n => exact (Json.render_num n).symm

theorem separated_cons {α : Type} (write : α → List Char) (item next : α) (items : List α) :
    separated write (item :: next :: items) =
      write item ++ ',' :: separated write (next :: items) := by
  simp [separated]

theorem separated_eq {α : Type} (write : α → List Char) (json : α → Json) (items : List α)
    (written : ∀ item ∈ items, write item = render (json item)) :
    separated write items = renderItems (items.map json) := by
  induction items with
  | nil => rfl
  | cons item items ih =>
    have rest := ih fun other member => written other (by simp [member])
    have first := written item (by simp)
    cases items with
    | nil => simp [separated, first, renderItems]
    | cons next items =>
      rw [separated_cons, rest, first]
      rfl

theorem writeLevelsJson_eq (levels : Levels) :
    writeLevelsJson levels = render (.arr (levels.map levelJson)) := by
  rw [writeLevelsJson, separated_eq writeLevel levelJson levels fun level _ => writeLevel_eq level]
  rfl

/-- The text of a book up to its symbol, and how it goes on after it. -/
theorem writeBookJson_split (b : BookSummary) :
    ∃ tail, writeBookJson b =
      '{' :: (renderStr "locate".toList ++ ':' :: (render (.num b.locate 0) ++ ',' ::
        (renderStr "symbol".toList ++ ':' :: ('"' :: b.text ++ '"' :: ',' :: '"' :: tail)))) := by
  refine ⟨"best_bid\":".toList ++ writeLevelJson b.bestBid ++
    ",\"best_ask\":".toList ++ writeLevelJson b.bestAsk ++
    ",\"spread\":".toList ++ jsonOpt b.spread ++ ",\"mid\":".toList ++ jsonOpt b.mid ++
    ",\"depth\":\x7b\"bids\":".toList ++ writeLevelsJson b.depth.1 ++
    ",\"asks\":".toList ++ writeLevelsJson b.depth.2 ++ "\x7d\x7d".toList, ?_⟩
  unfold writeBookJson
  simp [Json.render_num, Json.integer_natCast, renderStr, renderChar]

theorem writeBookJson_eq (b : BookSummary) (plain : b.Plain) :
    writeBookJson b = render b.json := by
  have symbol : render (.str b.text) = '"' :: b.text ++ ['"'] := by
    rw [render, Json.renderStr_plain _ plain]
  unfold writeBookJson BookSummary.json depthJson
  simp only [Json.render_obj, Json.renderFields_cons, Json.renderFields_one, symbol,
    ← writeLevelsJson_eq, ← writeLevelJson_eq, ← jsonOpt_eq, Json.render_num, Json.integer_natCast]
  simp [renderStr, renderChar]

theorem document_split (snapshot : Snapshot) :
    document snapshot =
      '{' :: (renderStr "stats".toList ++ ':' :: (render (statsJson snapshot.stats) ++ ',' ::
        (renderStr "depth_levels".toList ++ ':' :: (render (.num snapshot.depthLevels 0) ++ ',' ::
          (renderStr "books".toList ++ ':' ::
            ('[' :: separated writeBookJson snapshot.books ++ ']' :: ['}', '\n'])))))) := by
  unfold document
  simp [← writeStatsJson_eq, Json.render_num, Json.integer_natCast, renderStr, renderChar]

theorem document_eq (snapshot : Snapshot)
    (plain : ∀ book ∈ snapshot.books, book.Plain) :
    document snapshot = render snapshot.json ++ ['\n'] := by
  have books := separated_eq writeBookJson BookSummary.json snapshot.books fun book member =>
    writeBookJson_eq book (plain book member)
  rw [document_split, books]
  simp [Snapshot.json, Json.render_obj, Json.renderFields_cons, Json.renderFields_one,
    Json.render_arr]

/-! What a reader can have found. -/

theorem field_of_readBook {json : Json} {report : BookReport}
    (found : Report.readBook json = some report) :
    Json.field "symbol".toList Json.getStr json = some report.symbol := by
  simp only [Report.readBook, Option.bind_eq_bind, Option.bind_eq_some_iff] at found
  obtain ⟨_, _, symbol, read, _, _, _, _, _, _, _, _, _, _, equal⟩ := found
  cases equal
  exact read

/-- A book is read with its symbol only if the symbol is plain. -/
theorem plain_of_readBook {fuel : Nat} {book : BookSummary} {rest after : List Char} {json : Json}
    (read : Json.value fuel (writeBookJson book ++ rest) = some (json, after))
    (found : Report.readBook json = some book.report) : book.Plain := by
  obtain ⟨tail, shape⟩ := writeBookJson_split book
  simp only [shape, List.cons_append, List.append_assoc] at read
  obtain ⟨_, fields, located, rfl⟩ := Json.obj_read read
  obtain ⟨_, _, symbol, rfl⟩ := Json.members_written located
  obtain ⟨_, item, _, others, first, rfl, _⟩ := Json.members_read symbol
  obtain ⟨text, quoted, rfl⟩ := Json.str_read first
  have symbol : Json.get "symbol".toList (.obj (("locate".toList, .num book.locate 0) ::
    ("symbol".toList, .str text) :: others)) = some (.str text) := by rfl
  have same := field_of_readBook found
  simp only [Json.field, symbol, Option.bind_some, Json.getStr, BookSummary.report,
    Option.some.injEq] at same
  rw [same] at quoted
  exact Json.plain_of_quoted (by simpa using quoted)

/-- By induction on the books: a plain book is read in full, so that the next one is read where it
was written. -/
theorem plain_of_readBooks {books : List BookSummary} {fuel : Nat} {rest after : List Char}
    {items : List Json}
    (read : Json.elements fuel (separated writeBookJson books ++ ']' :: rest) =
      some (items, after))
    (found : items.mapM Report.readBook = some (books.map BookSummary.report)) :
    ∀ book ∈ books, book.Plain := by
  induction books generalizing fuel items with
  | nil => simp
  | cons book books ih =>
    obtain ⟨fuel, item, middle, others, first, rfl, next⟩ := Json.elements_read read
    obtain ⟨head, found⟩ := (mapM_cons_iff _ _ _ _).mp found
    cases books with
    | nil =>
      simp only [separated, List.flatMap_nil, List.append_nil] at first
      simpa using plain_of_readBook first head
    | cons other books =>
      rw [separated_cons, List.append_assoc, List.cons_append] at first
      have plain := plain_of_readBook first head
      rw [writeBookJson_eq book plain] at first
      have behind := next _ (Json.value_exact (Json.stops_comma _) first).2
      intro entry member
      rcases List.mem_cons.mp member with rfl | member
      · exact plain
      · exact ih behind found entry member

/-- The first book opens the text of the books. -/
theorem books_open (book : BookSummary) (books : List BookSummary) :
    ∃ text, separated writeBookJson (book :: books) = '{' :: text := by
  obtain ⟨tail, start⟩ := writeBookJson_split book
  rw [separated, start, List.cons_append]
  exact ⟨_, rfl⟩

theorem field_of_read {json : Json} {report : Report} (found : Report.read json = some report) :
    Json.field "books".toList Report.readBooks json = some report.books := by
  simp only [Report.read, Option.bind_eq_bind, Option.bind_eq_some_iff] at found
  obtain ⟨_, _, _, _, books, read, equal⟩ := found
  cases equal
  exact read

theorem plain_of_read {snapshot : Snapshot} {fuel : Nat} {after : List Char} {json : Json}
    (read : Json.value fuel (document snapshot) = some (json, after))
    (found : Report.read json = some snapshot.report) :
    ∀ book ∈ snapshot.books, book.Plain := by
  rw [document_split] at read
  obtain ⟨_, fields, counters, rfl⟩ := Json.obj_read read
  obtain ⟨_, others, levels, rfl⟩ := Json.members_written counters
  obtain ⟨_, others, books, rfl⟩ := Json.members_written levels
  obtain ⟨_, item, _, others, first, rfl, _⟩ := Json.members_read books
  have listed : Json.get "books".toList (.obj (("stats".toList, statsJson snapshot.stats) ::
    ("depth_levels".toList, .num snapshot.depthLevels 0) :: ("books".toList, item) :: others)) =
      some item := by rfl
  have same := field_of_read found
  rw [Json.field, listed, Option.bind_some] at same
  cases shape : snapshot.books with
  | nil => simp
  | cons book books =>
    rw [shape] at first
    rw [Snapshot.report, shape] at same
    obtain ⟨text, opens⟩ := books_open book books
    obtain ⟨_, items, array, rfl⟩ :=
      Json.arr_read (congrArg (· ++ [']', '}', '\n']) opens) rfl (by decide) first
    exact plain_of_readBooks array same

/-- The report of a snapshot is read back from what was written exactly if every symbol stands for
itself between the quotes. -/
theorem write_read_iff (snapshot : Snapshot) :
    (Json.parseBytes (write snapshot)).bind Report.read = some snapshot.report ↔
      ∀ book ∈ snapshot.books, book.Plain := by
  rw [write, Json.parseBytes_ofList]
  constructor
  · intro found
    obtain ⟨json, parsed, found⟩ := Option.bind_eq_some_iff.mp found
    simp only [Json.parse, Option.bind_eq_bind, Option.bind_eq_some_iff,
      Option.ite_none_right_eq_some] at parsed
    obtain ⟨⟨_, after⟩, read, _, equal⟩ := parsed
    cases equal
    exact plain_of_read read found
  · intro plain
    have parsed := Json.parse_render snapshot.json ['\n'] (by rintro c ⟨⟩; decide) rfl
    rw [document_eq snapshot plain, parsed, Option.bind_some, read_json]

/-- A quote in a symbol, the bytes `A"B` and five blanks, ends the string early: no document. -/
theorem quote_breaks_document :
    (Json.parseBytes (write ⟨HandlerStats.default, 0,
        [⟨7, 0x4122422020202020, none, none, none, none, ([], [])⟩]⟩)).isNone ∧
      (Json.parseBytes (write ⟨HandlerStats.default, 0,
        [⟨7, 0x4122422020202020, none, none, none, none, ([], [])⟩]⟩)).bind Report.read ≠
        some (Snapshot.report ⟨HandlerStats.default, 0,
          [⟨7, 0x4122422020202020, none, none, none, none, ([], [])⟩]⟩) := by
  rw [write, Json.parseBytes_ofList]
  have refused : (Json.parse (document ⟨HandlerStats.default, 0,
      [⟨7, 0x4122422020202020, none, none, none, none, ([], [])⟩]⟩)).isNone := by
    decide +kernel
  rw [Option.isNone_iff_eq_none.mp refused]
  exact ⟨rfl, nofun⟩

end JsonFormatter
end Hftrs.App
