import Hftrs.App.Report
import Hftrs.Library.Cells

/-! The report as a table: what the tab-separated formatter writes of a snapshot, and what a reader
of the table finds there. The table has neither the counters nor the locates. -/
namespace Hftrs.App

open Hftrs.Itch5 Hftrs.Library Hftrs.Orderbook

namespace TsvFormatter

open Json (natural integer)

def fmtOpt : Option Int → List Char
  | none => ['-']
  | some n => integer n

/-- One level, as `fmt_level` and `fmt_depth` write it. -/
def fmtPair (level : Int × Nat) : List Char := integer level.1 ++ '@' :: natural level.2

def fmtLevel : Option (Int × Nat) → List Char
  | none => ['-']
  | some level => fmtPair level

/-- `join(",")` of the levels. -/
def join (levels : Levels) : List Char := [','].intercalate (levels.map fmtPair)

def fmtDepth (depth : Levels × Levels) : List Char :=
  "bids=[".toList ++ join depth.1 ++ "];asks=[".toList ++ join depth.2 ++ "]".toList

def headerLine (depthLevels : Nat) : List Char :=
  "symb\tbest_ask\tbest_bid\tspread\tmid\tdepth(".toList ++ natural depthLevels ++ ")".toList

def bookLine (b : BookSummary) : List Char :=
  b.text ++ "\t".toList ++ fmtLevel b.bestAsk ++ "\t".toList ++ fmtLevel b.bestBid ++
  "\t".toList ++ fmtOpt b.spread ++ "\t".toList ++ fmtOpt b.mid ++ "\t".toList ++
  fmtDepth b.depth

/-- The characters written; there is no error from the writer. -/
def document (snapshot : Snapshot) : List Char :=
  headerLine snapshot.depthLevels ++ ['\n'] ++
  snapshot.books.flatMap fun b => bookLine b ++ ['\n']

def write (snapshot : Snapshot) : ByteArray := (String.ofList (document snapshot)).toByteArray

end TsvFormatter

/-! ### A reader -/

/-- What the table says of a book. -/
structure BookRow where
  symbol : List Char
  bestAsk : Option (Int × Nat)
  bestBid : Option (Int × Nat)
  spread : Option Int
  mid : Option Int
  depth : Levels × Levels
  deriving DecidableEq, Repr

structure Table where
  depthLevels : Nat
  rows : List BookRow
  deriving DecidableEq, Repr

def BookSummary.row (book : BookSummary) : BookRow :=
  ⟨book.text, book.bestAsk, book.bestBid, book.spread, book.mid, book.depth⟩

def Snapshot.table (snapshot : Snapshot) : Table :=
  ⟨snapshot.depthLevels, snapshot.books.map BookSummary.row⟩

namespace Table

def readNat (cell : List Char) : Option Nat :=
  if cell ≠ [] ∧ cell.all Char.isDigit then some (Nat.ofDigitChars 10 cell 0) else none

def readInt (cell : List Char) : Option Int :=
  let (negative, digits) := Json.minus cell
  (readNat digits).map (Json.negateIf negative)

/-- A dash for what is not there. -/
def readOpt {α : Type} (read : List Char → Option α) (cell : List Char) : Option (Option α) :=
  if cell = ['-'] then some none else (read cell).map some

def readPair (cell : List Char) : Option (Int × Nat) :=
  match cell.splitOn '@' with
  | [price, qty] => do some (← readInt price, ← readNat qty)
  | _ => none

def readLevels (cell : List Char) : Option Levels :=
  if cell = [] then some [] else (cell.splitOn ',').mapM readPair

def readDepth (cell : List Char) : Option (Levels × Levels) :=
  match cell.splitOnP fun c => c = '[' ∨ c = ']' with
  | [_, bids, _, asks, _] => do some (← readLevels bids, ← readLevels asks)
  | _ => none

def readRow (line : List Char) : Option BookRow :=
  match line.splitOn '\t' with
  | [symbol, ask, bid, spread, mid, depth] => do
    some {
      symbol
      bestAsk := ← readOpt readPair ask
      bestBid := ← readOpt readPair bid
      spread := ← readOpt readInt spread
      mid := ← readOpt readInt mid
      depth := ← readDepth depth }
  | _ => none

def readHeader (line : List Char) : Option Nat :=
  match line.splitOnP fun c => c = '(' ∨ c = ')' with
  | [_, depthLevels, _] => readNat depthLevels
  | _ => none

/-- The lines, of which the last is behind the end of the table. -/
def read (text : List Char) : Option Table :=
  match text.splitOn '\n' with
  | header :: lines => do some ⟨← readHeader header, ← lines.dropLast.mapM readRow⟩
  | [] => none

def readBytes (bytes : ByteArray) : Option Table := do
  let text ← bytes.utf8Decode?
  read text.toList

end Table

/-! ### Cells read back -/

namespace Table

open Json (natural integer)
open TsvFormatter

/-- A text that is fixed is searched by evaluation. -/
private theorem none_of_any {p : Char → Bool} {text : List Char} (found : text.any p = false) :
    ∀ c ∈ text, p c = false :=
  fun c member => Bool.eq_false_iff.mpr (List.any_eq_false.mp found c member)

theorem readNat_natural (n : Nat) : readNat (natural n) = some n := by
  have digits : (natural n).all Char.isDigit = true := List.all_eq_true.mpr fun c member =>
    Nat.isDigit_of_mem_toDigits (by decide) (by decide) member
  rw [readNat, if_pos ⟨Nat.toDigits_ne_nil, digits⟩, Json.ofDigitChars_natural]

theorem readInt_integer (n : Int) : readInt (integer n) = some n := by
  have signed := Json.minus_integer n []
  rw [List.append_nil, List.append_nil] at signed
  simp only [readInt, signed, readNat_natural, Option.map_some, Json.negateIf_natAbs]

/-- A numeral has digits and a sign. -/
theorem mem_integer {n : Int} {c : Char} (member : c ∈ integer n) : c.isDigit ∨ c = '-' := by
  have digit : ∀ c ∈ natural n.natAbs, c.isDigit = true := fun c member =>
    Nat.isDigit_of_mem_toDigits (by decide) (by decide) member
  unfold integer at member
  split at member
  · rcases List.mem_cons.mp member with rfl | inside
    · exact .inr rfl
    · exact .inl (digit c inside)
  · exact .inl (digit c member)

theorem mem_fmtPair {level : Int × Nat} {c : Char} (member : c ∈ fmtPair level) :
    c.isDigit ∨ c = '-' ∨ c = '@' := by
  rcases List.mem_append.mp member with price | rest
  · exact (mem_integer price).imp_right .inl
  · rcases List.mem_cons.mp rest with rfl | qty
    · exact .inr (.inr rfl)
    · exact .inl (Nat.isDigit_of_mem_toDigits (by decide) (by decide) qty)

theorem readPair_fmtPair (level : Int × Nat) : readPair (fmtPair level) = some level := by
  have price : '@' ∉ integer level.1 := fun member => by
    rcases mem_integer member with digit | sign
    · exact absurd digit (by decide)
    · exact absurd sign (by decide)
  have qty : '@' ∉ natural level.2 := fun member =>
    absurd (Nat.isDigit_of_mem_toDigits (b := 10) (by decide) (by decide) member) (by decide)
  have cells : (fmtPair level).splitOn '@' = [integer level.1, natural level.2] := by
    rw [fmtPair, List.splitOn_append_cons_self_of_not_mem price, List.splitOn_eq_singleton qty]
  simp only [readPair, cells, readInt_integer, readNat_natural, Option.bind_eq_bind,
    Option.bind_some]

theorem mem_join {levels : Levels} {c : Char} (member : c ∈ join levels) :
    c.isDigit ∨ c = '-' ∨ c = '@' ∨ c = ',' := by
  unfold join at member
  induction levels with
  | nil => cases member
  | cons level levels ih =>
    have here {c : Char} (inside : c ∈ fmtPair level) : c.isDigit ∨ c = '-' ∨ c = '@' ∨ c = ',' :=
      (mem_fmtPair inside).imp_right fun other => other.imp_right .inl
    cases levels with
    | nil => exact here (by simpa using member)
    | cons next levels =>
      rw [List.map_cons, List.map_cons, List.intercalate_cons_cons, List.append_assoc,
        List.mem_append, List.mem_append, List.mem_singleton] at member
      rcases member with inside | rfl | later
      · exact here inside
      · exact .inr (.inr (.inr rfl))
      · exact ih later

theorem readLevels_join (levels : Levels) : readLevels (join levels) = some levels := by
  cases levels with
  | nil => rfl
  | cons level levels =>
    have free : ∀ cell ∈ (level :: levels).map fmtPair, ',' ∉ cell := by
      intro cell member comma
      obtain ⟨other, _, rfl⟩ := List.mem_map.mp member
      rcases mem_fmtPair comma with digit | sign | at'
      · exact absurd digit (by decide)
      · exact absurd sign (by decide)
      · exact absurd at' (by decide)
    have cells : (join (level :: levels)).splitOn ',' = (level :: levels).map fmtPair :=
      List.splitOn_intercalate ',' free (List.cons_ne_nil _ _)
    have some : join (level :: levels) ≠ [] := by
      intro empty
      rw [empty, List.splitOn_nil] at cells
      have first := List.head_eq_of_cons_eq cells
      exact List.append_ne_nil_of_right_ne_nil _ (List.cons_ne_nil _ _) first.symm
    have each := mapM_map_some (f := readPair) (h := fmtPair) (g := id) (l := level :: levels)
      fun other _ => readPair_fmtPair other
    rw [readLevels, if_neg some, cells, each, List.map_id]

theorem readDepth_fmtDepth (depth : Levels × Levels) : readDepth (fmtDepth depth) = some depth := by
  have shape : fmtDepth depth = "bids=".toList ++ '[' :: (join depth.1 ++
      ']' :: (";asks=".toList ++ '[' :: (join depth.2 ++ ']' :: []))) := by
    have opening : "bids=[".toList = "bids=".toList ++ ['['] := by decide +kernel
    have middle : "];asks=[".toList = ']' :: (";asks=".toList ++ ['[']) := by decide +kernel
    have closing : "]".toList = [']'] := by decide +kernel
    unfold fmtDepth
    rw [opening, middle, closing]
    simp only [List.append_assoc, List.cons_append, List.nil_append]
  have inner (levels : Levels) : ∀ c ∈ join levels, decide (c = '[' ∨ c = ']') = false := by
    intro c member
    rcases mem_join member with digit | rfl | rfl | rfl
    · rw [decide_eq_false_iff_not]
      rintro (rfl | rfl) <;> exact absurd digit (by decide)
    all_goals decide
  have cells : (fmtDepth depth).splitOnP (fun c => c = '[' ∨ c = ']') =
      ["bids=".toList, join depth.1, ";asks=".toList, join depth.2, []] := by
    rw [shape,
      List.splitOnP_append_cons_of_forall_mem (none_of_any (by decide +kernel)) _ (by decide),
      List.splitOnP_append_cons_of_forall_mem (inner _) _ (by decide),
      List.splitOnP_append_cons_of_forall_mem (none_of_any (by decide +kernel)) _ (by decide),
      List.splitOnP_append_cons_of_forall_mem (inner _) _ (by decide), List.splitOnP_nil]
  simp only [readDepth, cells, readLevels_join, Option.bind_eq_bind, Option.bind_some]

theorem readOpt_fmtOpt (n : Option Int) : readOpt readInt (fmtOpt n) = some n := by
  cases n with
  | none => rfl
  | some n =>
    have figure : integer n ≠ ['-'] := by
      intro dash
      have read := readInt_integer n
      rw [dash] at read
      cases read
    rw [fmtOpt, readOpt, if_neg figure, readInt_integer]
    rfl

theorem readOpt_fmtLevel (level : Option (Int × Nat)) :
    readOpt readPair (fmtLevel level) = some level := by
  cases level with
  | none => rfl
  | some level =>
    have figure : fmtPair level ≠ ['-'] := by
      intro dash
      have read := readPair_fmtPair level
      rw [dash] at read
      cases read
    rw [fmtLevel, readOpt, if_neg figure, readPair_fmtPair]
    rfl

/-! ### Lines read back -/

/-- No figure is a tab or ends the line. -/
theorem not_mem_cells {c : Char} (blank : c = '\t' ∨ c = '\n') (b : BookSummary) :
    ∀ cell ∈ [fmtLevel b.bestAsk, fmtLevel b.bestBid, fmtOpt b.spread, fmtOpt b.mid,
      fmtDepth b.depth], c ∉ cell := by
  have other : ¬c.isDigit = true ∧ c ≠ '-' ∧ c ≠ '@' ∧ c ≠ ',' := by
    rcases blank with rfl | rfl <;> decide
  obtain ⟨digit, dash, at', comma⟩ := other
  have level (level : Option (Int × Nat)) : c ∉ fmtLevel level := by
    cases level with
    | none => exact fun member => dash (List.mem_singleton.mp member)
    | some level =>
      intro member
      rcases mem_fmtPair member with here | here | here
      · exact digit here
      · exact dash here
      · exact at' here
  have opt (n : Option Int) : c ∉ fmtOpt n := by
    cases n with
    | none => exact fun member => dash (List.mem_singleton.mp member)
    | some n => exact fun member => (mem_integer member).elim digit dash
  have levels (levels : Levels) : c ∉ join levels := by
    intro member
    rcases mem_join member with here | here | here | here
    · exact digit here
    · exact dash here
    · exact at' here
    · exact comma here
  have depth : c ∉ fmtDepth b.depth := by
    have around : c ∉ "bids=[".toList ∧ c ∉ "];asks=[".toList ∧ c ∉ "]".toList := by
      rcases blank with rfl | rfl <;> decide +kernel
    unfold fmtDepth
    rw [List.mem_append, List.mem_append, List.mem_append, List.mem_append]
    rintro ((((opening | bids) | middle) | asks) | closing)
    · exact around.1 opening
    · exact levels _ bids
    · exact around.2.1 middle
    · exact levels _ asks
    · exact around.2.2 closing
  intro cell member
  simp only [List.mem_cons, List.not_mem_nil, or_false] at member
  rcases member with rfl | rfl | rfl | rfl | rfl
  · exact level _
  · exact level _
  · exact opt _
  · exact opt _
  · exact depth

/-- The line of a book is its cells, with tabs between them. -/
theorem bookLine_eq (b : BookSummary) :
    bookLine b = b.text ++ '\t' :: (['\t'].intercalate [fmtLevel b.bestAsk, fmtLevel b.bestBid,
      fmtOpt b.spread, fmtOpt b.mid, fmtDepth b.depth]) := by
  have tab : "\t".toList = ['\t'] := by decide +kernel
  simp only [bookLine, tab, List.intercalate_cons_cons, List.intercalate_singleton,
    List.append_assoc, List.cons_append, List.nil_append]

theorem splitOn_bookLine (b : BookSummary) (plain : '\t' ∉ b.text) :
    (bookLine b).splitOn '\t' = [b.text, fmtLevel b.bestAsk, fmtLevel b.bestBid, fmtOpt b.spread,
      fmtOpt b.mid, fmtDepth b.depth] := by
  rw [bookLine_eq, List.splitOn_append_cons_self_of_not_mem plain,
    List.splitOn_intercalate '\t' (not_mem_cells (.inl rfl) b) (List.cons_ne_nil _ _)]

theorem readRow_bookLine (b : BookSummary) (plain : '\t' ∉ b.text) :
    readRow (bookLine b) = some b.row := by
  simp only [readRow, splitOn_bookLine b plain, readOpt_fmtLevel, readOpt_fmtOpt,
    readDepth_fmtDepth, Option.bind_eq_bind, Option.bind_some]
  rfl

theorem readHeader_headerLine (depthLevels : Nat) :
    readHeader (headerLine depthLevels) = some depthLevels := by
  have opening : "symb\tbest_ask\tbest_bid\tspread\tmid\tdepth(".toList =
    "symb\tbest_ask\tbest_bid\tspread\tmid\tdepth".toList ++ ['('] := by decide +kernel
  have closing : ")".toList = [')'] := by decide +kernel
  have inner : ∀ c ∈ natural depthLevels, decide (c = '(' ∨ c = ')') = false := by
    intro c member
    have digit := Nat.isDigit_of_mem_toDigits (b := 10) (by decide) (by decide) member
    rw [decide_eq_false_iff_not]
    rintro (rfl | rfl) <;> exact absurd digit (by decide)
  have cells : (headerLine depthLevels).splitOnP (fun c => c = '(' ∨ c = ')') =
      ["symb\tbest_ask\tbest_bid\tspread\tmid\tdepth".toList, natural depthLevels, []] := by
    unfold headerLine
    rw [opening, closing, List.append_assoc, List.append_assoc, List.singleton_append,
      List.splitOnP_append_cons_of_forall_mem (none_of_any (by decide +kernel)) _ (by decide),
      List.splitOnP_append_cons_of_forall_mem inner _ (by decide), List.splitOnP_nil]
  simp only [readHeader, cells, readNat_natural]

theorem newline_headerLine (depthLevels : Nat) : '\n' ∉ headerLine depthLevels := by
  have around : '\n' ∉ "symb\tbest_ask\tbest_bid\tspread\tmid\tdepth(".toList ∧
    '\n' ∉ ")".toList := by decide +kernel
  have inner : '\n' ∉ natural depthLevels := fun member =>
    absurd (Nat.isDigit_of_mem_toDigits (b := 10) (by decide) (by decide) member) (by decide)
  unfold headerLine
  rw [List.mem_append, List.mem_append]
  rintro ((opening | middle) | closing)
  · exact around.1 opening
  · exact inner middle
  · exact around.2 closing

theorem newline_bookLine (b : BookSummary) (plain : '\n' ∉ b.text) : '\n' ∉ bookLine b := by
  have cells := not_mem_cells (.inr rfl) b
  rw [bookLine_eq, List.mem_append, List.mem_cons]
  rintro (text | tab | rest)
  · exact plain text
  · exact absurd tab (by decide)
  · simp only [List.intercalate_cons_cons, List.intercalate_singleton, List.mem_append,
      List.mem_singleton] at rest
    simp only [List.mem_cons, List.not_mem_nil, or_false, forall_eq_or_imp, forall_eq] at cells
    grind

theorem read_lines {text header : List Char} {lines : List (List Char)} {depthLevels : Nat}
    {rows : List BookRow} (shape : text.splitOn '\n' = header :: (lines ++ [[]]))
    (levels : readHeader header = some depthLevels) (each : lines.mapM readRow = some rows) :
    read text = some ⟨depthLevels, rows⟩ := by
  simp only [read, shape, List.dropLast_concat, levels, each, Option.bind_eq_bind,
    Option.bind_some]

theorem read_document (snapshot : Snapshot)
    (plain : ∀ book ∈ snapshot.books, '\t' ∉ book.text ∧ '\n' ∉ book.text) :
    read (document snapshot) = some snapshot.table := by
  have lines : (document snapshot).splitOn '\n' =
      headerLine snapshot.depthLevels :: (snapshot.books.map bookLine ++ [[]]) := by
    have ends := splitOn_lines '\n' (snapshot.books.map bookLine) (by
      intro line member
      obtain ⟨book, inside, rfl⟩ := List.mem_map.mp member
      exact newline_bookLine book (plain book inside).2)
    rw [List.flatMap_map] at ends
    unfold document
    rw [List.append_assoc, List.singleton_append, List.splitOn_append_cons_self_of_not_mem
      (newline_headerLine _), ends]
  have rows : (snapshot.books.map bookLine).mapM readRow =
      some (snapshot.books.map BookSummary.row) := by
    have each : ∀ book ∈ snapshot.books, readRow (bookLine book) = some book.row :=
      fun book member => readRow_bookLine book (plain book member).1
    exact mapM_map_some each
  have header := readHeader_headerLine snapshot.depthLevels
  exact read_lines lines header rows

/-- A symbol that is read has neither a tab nor the end of a line. -/
theorem plain_of_read {text : List Char} {table : Table} (found : read text = some table) :
    ∀ row ∈ table.rows, '\t' ∉ row.symbol ∧ '\n' ∉ row.symbol := by
  have cell {line : List Char} {row : BookRow} (found : readRow line = some row) :
      row.symbol ∈ line.splitOn '\t' := by
    unfold readRow at found
    split at found
    next symbol _ _ _ _ _ cells =>
      simp only [Option.bind_eq_bind, Option.bind_eq_some_iff] at found
      obtain ⟨_, _, _, _, _, _, _, _, _, _, equal⟩ := found
      cases equal
      rw [cells]
      exact List.mem_cons_self
    next => cases found
  unfold read at found
  split at found
  next header lines shape =>
    simp only [Option.bind_eq_bind, Option.bind_eq_some_iff] at found
    obtain ⟨_, _, rows, each, equal⟩ := found
    cases equal
    intro row member
    obtain ⟨line, inside, one⟩ := mapM_some_mem each member
    have within : line ∈ text.splitOn '\n' := by
      rw [shape]
      exact List.mem_cons_of_mem _ (List.dropLast_subset _ inside)
    have whole := mem_of_cell within
    have part := mem_of_cell (cell one)
    exact ⟨fun tab => (part _ tab).2 rfl, fun newline => (whole _ (part _ newline).1).2 rfl⟩
  next => cases found

end Table

namespace TsvFormatter

/-- The table of a snapshot is read back from what was written exactly if no symbol has a tab or
ends the line. -/
theorem table_read_iff (snapshot : Snapshot) :
    Table.readBytes (write snapshot) = some snapshot.table ↔
      ∀ book ∈ snapshot.books, '\t' ∉ book.text ∧ '\n' ∉ book.text := by
  have decoded : Table.readBytes (write snapshot) = Table.read (document snapshot) := by
    simp [Table.readBytes, write, String.toByteArray_ofList, List.utf8Decode?_utf8Encode]
  rw [decoded]
  constructor
  · intro found book member
    exact Table.plain_of_read found book.row (List.mem_map_of_mem member)
  · exact Table.read_document snapshot

end TsvFormatter

end Hftrs.App
