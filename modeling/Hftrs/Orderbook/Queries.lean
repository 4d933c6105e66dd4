import Hftrs.Library.Tally
import Hftrs.Orderbook.Effect
import Hftrs.Orderbook.Integrity

/-! The queries of the book: best prices, spread, mid and depth. They read the price maps only,
and of a level only its total. -/
namespace Hftrs.Orderbook

open Hftrs.Library

namespace OrderBook

/-- `a - b` of the best prices, in `i64`. The outer `none` is the panic on overflow. -/
def spread (profile : Profile) (book : OrderBook) : Option (Option Int) :=
  match book.bestBid, book.bestAsk with
  | some (b, _), some (a, _) => (profile.signed 64 (a - b)).map some
  | _, _ => some none

/-- `(a + b) / 2` of the best prices, in `i64`: the division rounds towards zero. -/
def mid (profile : Profile) (book : OrderBook) : Option (Option Int) :=
  match book.bestBid, book.bestAsk with
  | some (b, _), some (a, _) => (profile.signed 64 (a + b)).map fun sum => some (sum.tdiv 2)
  | _, _ => some none

/-- Top `n` levels of depth on each side, near to far. -/
def depth (book : OrderBook) (n : Nat) : List (Int × Nat) × List (Int × Nat) :=
  ((book.bids.toList.reverse.take n).map fun (price, level) => (price, level.totalQty),
    (book.asks.toList.take n).map fun (price, level) => (price, level.totalQty))

/-- The prices of a side with their totals, lowest price first. -/
def ladder (book : OrderBook) (side : Side) : List (Int × Nat) :=
  (book.sideLevels side).toList.map fun (price, level) => (price, level.totalQty)

theorem depth_eq (book : OrderBook) (n : Nat) :
    book.depth n = ((book.ladder .bid).reverse.take n, (book.ladder .ask).take n) := by
  simp only [depth, ladder, sideLevels, List.map_take, List.map_reverse]

theorem bestBid_eq (book : OrderBook) : book.bestBid = (book.ladder .bid).getLast? := by
  simp only [bestBid, ladder, sideLevels, List.getLast?_map]

theorem bestAsk_eq (book : OrderBook) : book.bestAsk = (book.ladder .ask).head? := by
  simp only [bestAsk, ladder, sideLevels, List.head?_map]

end OrderBook

/-- What rests in a queue. -/
def volume (l : List Entry) : Nat := (l.map Entry.qty).sum

/-- The prices of a side with what rests there, lowest price first. -/
def RefBook.ladder (ref : RefBook) (side : Side) : List (Int × Nat) :=
  (ref.side side).toList.map fun (price, l) => (price, volume l)

namespace OrderBook

variable {book : OrderBook} {q : Side → Int → List Nat} {ref : RefBook}

theorem Represents.total (rep : book.Represents q ref) (side : Side) (price : Int) :
    (book.level side price).totalQty = volume (ref.queue side price) := by
  rw [rep.sound.totals, rep.lists, volume, List.map_map]
  apply congrArg
  apply List.map_congr_left
  intro i inside
  obtain ⟨o, found, _⟩ := (rep.sound.members side price i).mp inside
  rw [Function.comp_apply, Pool.qtyAt_of_orderAt found, Pool.entryAt_of_orderAt found]
  rfl

/-- The price maps list what the reference book's queues add up to. -/
theorem Represents.ladder (rep : book.Represents q ref) (side : Side) :
    book.ladder side = ref.ladder side := by
  apply toList_map_eq
  intro price
  have total := rep.total side price
  -- a price is a key of both maps or of neither
  by_cases stored : price ∈ ref.side side
  · have level := rep.sound.getElem?_of_ne_nil
      ((rep.sound.present side price).mp ((rep.mem_sideLevels side price).mpr stored))
    rw [Std.ExtTreeMap.mem_iff_isSome_getElem?, Option.isSome_iff_exists] at stored
    obtain ⟨l, here⟩ := stored
    rw [RefBook.queue, here, Option.getD_some] at total
    rw [level, here, Option.map_some, Option.map_some, total]
  · have missing := mt (rep.mem_sideLevels side price).mp stored
    rw [Std.ExtTreeMap.mem_iff_isSome_getElem?, Bool.not_eq_true, Option.isSome_eq_false_iff,
      Option.isNone_iff_eq_none] at stored missing
    rw [stored, missing]
    rfl

/-- The prices of a ladder are those with a resting order. -/
theorem Represents.mem_ladder (rep : book.Represents q ref) {side : Side} {price : Int}
    {total : Nat} (listed : (price, total) ∈ book.ladder side) : ref.queue side price ≠ [] := by
  obtain ⟨⟨p, level⟩, stored, equal⟩ := List.mem_map.mp listed
  cases equal
  rw [Std.ExtTreeMap.mem_toList_iff_getElem?_eq_some] at stored
  rw [← rep.keys, ← rep.mem_sideLevels, Std.ExtTreeMap.mem_iff_isSome_getElem?, stored]
  rfl

end OrderBook

end Hftrs.Orderbook
