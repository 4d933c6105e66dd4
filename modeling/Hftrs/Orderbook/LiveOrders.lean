import Mathlib
import Hftrs.Orderbook.Exhausted
import Hftrs.Orderbook.Queries

/-! The queries answer from the live orders, although they read the price maps and the aggregates
of the levels only. -/
namespace Hftrs.Orderbook

open Hftrs.Library

namespace OrderBook

/-- The orders that the id map addresses. -/
def liveOrders (book : OrderBook) : List Order :=
  (book.orders.toList.map Prod.snd).filterMap book.pool.orderAt

/-- The live orders of a side at a price. -/
def liveAt (book : OrderBook) (side : Side) (price : Int) : List Order :=
  book.liveOrders.filter fun order => order.side = side ∧ order.price = price

/-- The prices of the live orders of a side. -/
def livePrices (book : OrderBook) (side : Side) : Finset Int :=
  ((book.liveOrders.filter fun order => order.side = side).map Order.price).toFinset

/-- The distinct prices of the live orders of a side, best first. -/
def bestFirst (book : OrderBook) : Side → List Int
  | .bid => (book.livePrices .bid).sort (· ≥ ·)
  | .ask => (book.livePrices .ask).sort (· ≤ ·)

/-- The prices of a side, best first, with the remaining quantities of the live orders there. -/
def quotes (book : OrderBook) (side : Side) : List (Int × Nat) :=
  (book.bestFirst side).map fun price => (price, ((book.liveAt side price).map Order.qty).sum)

/-- The result of an operation of `i64` is in the range of the type. -/
def InI64 (x : Int) : Prop := -2 ^ 63 ≤ x ∧ x < 2 ^ 63

/-- The queries agree with the live orders, `spread` and `mid` as far as the difference and the sum
of the best prices are in range. -/
structure Agrees (profile : Profile) (book : OrderBook) : Prop where
  depth : ∀ n, book.depth n = ((book.quotes .bid).take n, (book.quotes .ask).take n)
  bestBid : ∀ n, 1 ≤ n → book.bestBid = (book.depth n).1.head?
  bestAsk : ∀ n, 1 ≤ n → book.bestAsk = (book.depth n).2.head?
  spread : ∀ b ∈ (book.bestFirst .bid).head?, ∀ a ∈ (book.bestFirst .ask).head?,
    InI64 (a - b) → book.spread profile = some (some (a - b))
  mid : ∀ b ∈ (book.bestFirst .bid).head?, ∀ a ∈ (book.bestFirst .ask).head?,
    InI64 (a + b) → book.mid profile = some (some ((a + b).tdiv 2))
  noSpread : book.spread profile = some none ↔
    ∃ side, ∀ order ∈ book.liveOrders, order.side ≠ side
  noMid : book.mid profile = some none ↔ ∃ side, ∀ order ∈ book.liveOrders, order.side ≠ side
  len : book.len = book.liveOrders.length
  counts : book.len = tally Level.orderCount book.bids + tally Level.orderCount book.asks

variable {book : OrderBook} {q : Side → Int → List Nat}

theorem level_of_mem {side : Side} {price : Int} {lv : Level}
    (stored : (price, lv) ∈ (book.sideLevels side).toList) : lv = book.level side price := by
  rw [Std.ExtTreeMap.mem_toList_iff_getElem?_eq_some] at stored
  rw [level, stored, Option.getD_some]

namespace Queued

theorem mem_liveSlots (queued : book.Queued q) (i : Nat) :
    i ∈ book.orders.toList.map Prod.snd ↔ ∃ order, book.pool.orderAt i = some order := by
  rw [List.mem_map]
  constructor
  · rintro ⟨⟨id, _⟩, stored, rfl⟩
    rw [Std.ExtTreeMap.mem_toList_iff_getElem?_eq_some] at stored
    obtain ⟨order, found, _⟩ := (queued.ids id _).mp stored
    exact ⟨order, found⟩
  · rintro ⟨order, found⟩
    refine ⟨(order.id, i), ?_, rfl⟩
    rw [Std.ExtTreeMap.mem_toList_iff_getElem?_eq_some]
    exact (queued.ids _ _).mpr ⟨order, found, rfl⟩

theorem nodup_liveSlots (queued : book.Queued q) : (book.orders.toList.map Prod.snd).Nodup := by
  refine List.Nodup.map_on ?_ (nodup_toList _)
  rintro ⟨id, i⟩ stored ⟨id', _⟩ stored' rfl
  rw [Std.ExtTreeMap.mem_toList_iff_getElem?_eq_some] at stored stored'
  -- the slot holds one order, which has one id
  obtain ⟨order, found, rfl⟩ := (queued.ids _ _).mp stored
  obtain ⟨order', found', rfl⟩ := (queued.ids _ _).mp stored'
  rw [found] at found'
  cases found'
  rfl

theorem mem_liveOrders (queued : book.Queued q) (order : Order) :
    order ∈ book.liveOrders ↔ ∃ i, book.pool.orderAt i = some order := by
  rw [liveOrders, List.mem_filterMap]
  constructor
  · rintro ⟨i, _, found⟩
    exact ⟨i, found⟩
  · rintro ⟨i, found⟩
    exact ⟨i, (queued.mem_liveSlots i).mpr ⟨order, found⟩, found⟩

/-- A live order is in one slot, so that reading slots repeats no order. -/
theorem nodup_orders (queued : book.Queued q) {slots : List Nat} (nodup : slots.Nodup) :
    (slots.filterMap book.pool.orderAt).Nodup :=
  nodup.filterMap fun _ _ _ found found' => queued.slot_eq found found' rfl

/-- The live orders at a price are those of its queue. -/
theorem liveAt_perm (queued : book.Queued q) (side : Side) (price : Int) :
    (book.liveAt side price).Perm ((q side price).filterMap book.pool.orderAt) := by
  have nodup : (book.liveAt side price).Nodup :=
    (queued.nodup_orders queued.nodup_liveSlots).filter _
  rw [List.perm_ext_iff_of_nodup nodup (queued.nodup_orders (queued.nodup side price))]
  intro order
  rw [liveAt, List.mem_filter, queued.mem_liveOrders, List.mem_filterMap, decide_eq_true_eq]
  constructor
  · rintro ⟨⟨i, found⟩, here⟩
    exact ⟨i, (queued.members side price i).mpr ⟨order, found, here⟩, found⟩
  · rintro ⟨i, inside, found⟩
    obtain ⟨order', found', here⟩ := (queued.members side price i).mp inside
    rw [found] at found'
    cases found'
    exact ⟨⟨i, found⟩, here⟩

theorem mem_livePrices (queued : book.Queued q) (side : Side) (price : Int) :
    price ∈ book.livePrices side ↔ price ∈ book.sideLevels side := by
  rw [livePrices, List.mem_toFinset, List.mem_map, queued.present]
  constructor
  · rintro ⟨order, live, rfl⟩
    obtain ⟨live, here⟩ := List.mem_filter.mp live
    obtain ⟨i, found⟩ := (queued.mem_liveOrders order).mp live
    exact List.ne_nil_of_mem ((queued.members _ _ i).mpr
      ⟨order, found, of_decide_eq_true here, rfl⟩)
  · intro occupied
    obtain ⟨i, inside⟩ := List.exists_mem_of_ne_nil _ occupied
    obtain ⟨order, found, here, rfl⟩ := (queued.members side price i).mp inside
    exact ⟨order, List.mem_filter.mpr ⟨(queued.mem_liveOrders order).mpr ⟨i, found⟩,
      decide_eq_true here⟩, rfl⟩

/-- The keys of a price map are the prices of the live orders. -/
theorem keys_eq (queued : book.Queued q) (side : Side) :
    (book.sideLevels side).keys = (book.livePrices side).sort (· ≤ ·) := by
  have ascending : (book.sideLevels side).keys.SortedLT := by
    rw [List.sortedLT_iff_pairwise]
    exact Std.ExtTreeMap.ordered_keys.imp fun below => Std.compare_eq_lt.mp below
  refine ascending.eq_of_mem_iff (Finset.sortedLT_sort _) fun price => ?_
  rw [Finset.mem_sort, Std.ExtTreeMap.mem_keys, queued.mem_livePrices]

/-- The queues of both sides hold the live slots, each once. -/
theorem queues_perm (queued : book.Queued q) :
    (book.bids.keys.flatMap (q .bid) ++ book.asks.keys.flatMap (q .ask)).Perm
      (book.orders.toList.map Prod.snd) := by
  have side_nodup (side : Side) : ((book.sideLevels side).keys.flatMap (q side)).Nodup := by
    rw [List.nodup_flatMap]
    refine ⟨fun price _ => queued.nodup side price, ?_⟩
    apply List.Pairwise.imp _ (Std.ExtTreeMap.nodup_keys (t := book.sideLevels side))
    intro price price' apart i here there
    exact apart (queued.unique here there).2
  have nodup : (book.bids.keys.flatMap (q .bid) ++ book.asks.keys.flatMap (q .ask)).Nodup := by
    refine (side_nodup .bid).append (side_nodup .ask) fun i bid ask => ?_
    obtain ⟨_, _, here⟩ := List.mem_flatMap.mp bid
    obtain ⟨_, _, there⟩ := List.mem_flatMap.mp ask
    exact absurd (queued.unique here there).1 (by decide)
  rw [List.perm_ext_iff_of_nodup nodup queued.nodup_liveSlots]
  intro i
  rw [List.mem_append, List.mem_flatMap, List.mem_flatMap, queued.mem_liveSlots]
  have listed (side : Side) (price : Int) (inside : i ∈ q side price) :
      price ∈ (book.sideLevels side).keys :=
    Std.ExtTreeMap.mem_keys.mpr ((queued.present side price).mpr (List.ne_nil_of_mem inside))
  constructor
  · rintro (⟨price, _, inside⟩ | ⟨price, _, inside⟩)
    · obtain ⟨order, found, _⟩ := (queued.members _ _ i).mp inside
      exact ⟨order, found⟩
    · obtain ⟨order, found, _⟩ := (queued.members _ _ i).mp inside
      exact ⟨order, found⟩
  · rintro ⟨order, found⟩
    have inside := (queued.members order.side order.price i).mpr ⟨order, found, rfl, rfl⟩
    cases side : order.side with
    | bid =>
      rw [side] at inside
      exact .inl ⟨_, listed .bid _ inside, inside⟩
    | ask =>
      rw [side] at inside
      exact .inr ⟨_, listed .ask _ inside, inside⟩

/-- The order counts of a side add up to the lengths of its queues. -/
theorem tally_orderCount (queued : book.Queued q) (side : Side) :
    tally Level.orderCount (book.sideLevels side) =
      ((book.sideLevels side).keys.flatMap (q side)).length := by
  rw [tally, List.length_flatMap, ← Std.ExtTreeMap.map_fst_toList_eq_keys, List.map_map]
  apply congrArg
  apply List.map_congr_left
  rintro ⟨price, lv⟩ stored
  exact (congrArg Level.orderCount (level_of_mem stored)).trans (queued.counts side price)

theorem length_liveOrders (queued : book.Queued q) : book.liveOrders.length = book.len := by
  have all : book.liveOrders.length = (book.orders.toList.map Prod.snd).length := by
    rw [liveOrders, List.filterMap_length_eq_length]
    intro i inside
    exact Option.isSome_iff_exists.mpr ((queued.mem_liveSlots i).mp inside)
  rw [all, List.length_map, Std.ExtTreeMap.length_toList, len]

end Queued

/-- The total of a level is what its live orders have left. -/
theorem Sound.restingAt (sound : book.Sound q) (side : Side) (price : Int) :
    ((book.liveAt side price).map Order.qty).sum = (book.level side price).totalQty := by
  have read (slots : List Nat) (live : ∀ i ∈ slots, ∃ order, book.pool.orderAt i = some order) :
      (slots.filterMap book.pool.orderAt).map Order.qty = slots.map book.pool.qtyAt := by
    induction slots with
    | nil => rfl
    | cons i slots ih =>
      obtain ⟨order, found⟩ := live i (by simp)
      rw [List.filterMap_cons_some found, List.map_cons, List.map_cons,
        ih fun j inside => live j (by simp [inside]), Pool.qtyAt_of_orderAt found]
  rw [((sound.liveAt_perm side price).map Order.qty).sum_eq, sound.totals, read]
  intro i inside
  obtain ⟨order, found, _⟩ := (sound.members side price i).mp inside
  exact ⟨order, found⟩

/-- The price map of a side lists the prices of its live orders with what they have left. -/
theorem Sound.ladder_eq (sound : book.Sound q) (side : Side) :
    book.ladder side = ((book.livePrices side).sort (· ≤ ·)).map fun price =>
      (price, ((book.liveAt side price).map Order.qty).sum) := by
  rw [← sound.keys_eq, ← Std.ExtTreeMap.map_fst_toList_eq_keys, List.map_map, ladder]
  apply List.map_congr_left
  rintro ⟨price, lv⟩ stored
  rw [Function.comp_apply, sound.restingAt, ← level_of_mem stored]

theorem Sound.quotes_eq (sound : book.Sound q) :
    book.quotes .bid = (book.ladder .bid).reverse ∧ book.quotes .ask = book.ladder .ask := by
  constructor
  · have descending : (book.livePrices .bid).sort (· ≥ ·) = (book.livePrices .bid).sort.reverse :=
      (Finset.sortedGT_sort _).eq_of_mem_iff (Finset.sortedLT_sort _).reverse (by simp)
    rw [quotes, bestFirst, descending, List.map_reverse, sound.ladder_eq]
  · rw [quotes, bestFirst, sound.ladder_eq]

/-! ### Queries -/

theorem bestFirst_eq_nil_iff (book : OrderBook) (side : Side) :
    book.bestFirst side = [] ↔ ∀ order ∈ book.liveOrders, order.side ≠ side := by
  have listed (price : Int) : price ∈ book.bestFirst side ↔ price ∈ book.livePrices side := by
    cases side <;> exact Finset.mem_sort _
  simp only [List.eq_nil_iff_forall_not_mem, listed, livePrices, List.mem_toFinset, List.mem_map,
    List.mem_filter, decide_eq_true_eq, not_exists, not_and]
  constructor
  · exact fun none order live here => none order.price order ⟨live, here⟩ rfl
  · exact fun none _ order live _ => none order live.1 live.2

/-- The first quote of a side is at its best price. -/
theorem head?_quotes (book : OrderBook) (side : Side) :
    (book.quotes side).head?.map Prod.fst = (book.bestFirst side).head? := by
  rw [quotes, List.head?_map, Option.map_map]
  exact Option.map_id'

theorem Sound.bests (sound : book.Sound q) :
    book.bestBid = (book.quotes .bid).head? ∧ book.bestAsk = (book.quotes .ask).head? := by
  obtain ⟨bids, asks⟩ := sound.quotes_eq
  constructor
  · rw [bestBid_eq, bids, List.head?_reverse]
  · rw [bestAsk_eq, asks]

/-- `spread` and `mid` have no answer exactly when a best price is missing. -/
theorem no_answer_iff (profile : Profile) (book : OrderBook) :
    (book.spread profile = some none ↔ book.bestBid = none ∨ book.bestAsk = none) ∧
      (book.mid profile = some none ↔ book.bestBid = none ∨ book.bestAsk = none) := by
  unfold spread mid
  cases book.bestBid with
  | none => simp
  | some bid =>
    cases book.bestAsk with
    | none => simp
    | some ask => simp

theorem Sound.agrees (sound : book.Sound q) (profile : Profile) : book.Agrees profile := by
  obtain ⟨bids, asks⟩ := sound.quotes_eq
  obtain ⟨bid, ask⟩ := sound.bests
  obtain ⟨noSpread, noMid⟩ := no_answer_iff profile book
  have depth (n : Nat) : book.depth n = ((book.quotes .bid).take n, (book.quotes .ask).take n) := by
    rw [depth_eq, bids, asks]
  have head (quotes : List (Int × Nat)) (n : Nat) (some_n : 1 ≤ n) :
      (quotes.take n).head? = quotes.head? := by
    rw [List.head?_take, if_neg (Nat.ne_of_gt some_n)]
  have missing : (book.bestBid = none ∨ book.bestAsk = none) ↔
      ∃ side, ∀ order ∈ book.liveOrders, order.side ≠ side := by
    have empty (side : Side) : (book.quotes side).head? = none ↔
        ∀ order ∈ book.liveOrders, order.side ≠ side := by
      rw [← bestFirst_eq_nil_iff, List.head?_eq_none_iff, quotes, List.map_eq_nil_iff]
    rw [bid, ask, empty, empty]
    constructor
    · rintro (none | none)
      · exact ⟨.bid, none⟩
      · exact ⟨.ask, none⟩
    · rintro ⟨_ | _, none⟩
      · exact .inl none
      · exact .inr none
  have prices (b : Int) (b_first : b ∈ (book.bestFirst .bid).head?) (a : Int)
      (a_first : a ∈ (book.bestFirst .ask).head?) :
      ∃ t u, book.bestBid = some (b, t) ∧ book.bestAsk = some (a, u) := by
    rw [Option.mem_def, ← head?_quotes, Option.map_eq_some_iff] at b_first a_first
    obtain ⟨⟨b, t⟩, b_first, rfl⟩ := b_first
    obtain ⟨⟨a, u⟩, a_first, rfl⟩ := a_first
    exact ⟨t, u, bid.trans b_first, ask.trans a_first⟩
  refine ⟨depth, ?_, ?_, ?_, ?_, noSpread.trans missing, noMid.trans missing, ?_, ?_⟩
  · intro n some_n
    rw [depth, head _ n some_n, bid]
  · intro n some_n
    rw [depth, head _ n some_n, ask]
  · intro b b_first a a_first fits
    obtain ⟨t, u, bestBid, bestAsk⟩ := prices b b_first a a_first
    rw [spread, bestBid, bestAsk]
    simp only [profile.signed_eq (w := 64) fits.1 fits.2, Option.map_some]
  · intro b b_first a a_first fits
    obtain ⟨t, u, bestBid, bestAsk⟩ := prices b b_first a a_first
    rw [mid, bestBid, bestAsk]
    simp only [profile.signed_eq (w := 64) fits.1 fits.2, Option.map_some]
  · exact sound.length_liveOrders.symm
  · have counted := sound.queues_perm.length_eq
    rw [List.length_append, List.length_map, Std.ExtTreeMap.length_toList] at counted
    rw [len, ← counted]
    exact congrArg₂ (· + ·) (sound.tally_orderCount .bid).symm (sound.tally_orderCount .ask).symm

/-- In every book that a run reaches the queries agree with the live orders: the debug profile
needs no condition, the release profile a pool that does not run out of indices. -/
theorem run_agrees (profile : Profile) (calls : List Call)
    (wire : ∀ c ∈ calls, c.added ≤ maxValue 32) (replies : List Reply) (book : OrderBook)
    (returned : run (call profile) new calls = some (replies, book))
    (room : profile = .release → Along (call .release) FindsRoom new calls) :
    book.Agrees profile := by
  obtain ⟨q, ref, rep⟩ := represents_of_run profile calls wire replies book returned room
  exact rep.sound.agrees profile

theorem run_agrees_sample :
    ((run (call .release) new [.add ⟨1, .bid, 100, 10, 0⟩, .add ⟨2, .bid, 100, 5, 1⟩,
      .add ⟨3, .ask, 101, 7, 2⟩, .execute 1 4 3, .replace 2 4 99 8 4]).get (by decide)).2.Agrees
        .release :=
  run_agrees .release [.add ⟨1, .bid, 100, 10, 0⟩, .add ⟨2, .bid, 100, 5, 1⟩,
      .add ⟨3, .ask, 101, 7, 2⟩, .execute 1 4 3, .replace 2 4 99 8 4]
    (by decide) _ _ (Option.some_get (by decide)).symm (fun _ => by decide)

/-! ### Outside the range of the types -/

theorem Stranded.mem_liveOrders {id idx : Nat} (stranded : book.Stranded id idx) :
    ⟨NIL, .ask, 1, 1, 0⟩ ∈ book.liveOrders := by
  rw [liveOrders, List.mem_filterMap]
  refine ⟨NIL, List.mem_map.mpr ⟨(NIL, NIL), ?_, rfl⟩, Pool.orderAt_of_get stranded.node⟩
  rw [Std.ExtTreeMap.mem_toList_iff_getElem?_eq_some]
  exact stranded.live

/-- The spread of the two ends of the price range is −1 in the release profile and a panic in the
debug profile, the middle of the two highest prices is −1, and with every slot index taken a live
ask is at no depth. -/
theorem queries_beyond_range :
    (∃ calls replies book, (∀ c ∈ calls, c.added ≤ maxValue 32) ∧
      run (call .release) new calls = some (replies, book) ∧
      book.bestBid = some (-9223372036854775808, 1) ∧
      book.bestAsk = some (9223372036854775807, 1) ∧
      book.spread .release = some (some (-1)) ∧ book.spread .debug = none) ∧
    (∃ calls replies book, (∀ c ∈ calls, c.added ≤ maxValue 32) ∧
      run (call .release) new calls = some (replies, book) ∧
      book.bestBid = some (9223372036854775806, 1) ∧
      book.bestAsk = some (9223372036854775807, 1) ∧ book.mid .release = some (some (-1))) ∧
    ∃ calls replies book, (∀ c ∈ calls, c.added ≤ maxValue 32) ∧
      run (call .release) new calls = some (replies, book) ∧
      ∃ order ∈ book.liveOrders, order.side = .ask ∧
        ∀ n total, (order.price, total) ∉ (book.depth n).2 := by
  refine ⟨?_, ?_, ?_⟩
  · exact ⟨[.add ⟨1, .bid, -9223372036854775808, 1, 0⟩, .add ⟨2, .ask, 9223372036854775807, 1, 1⟩],
      _, _, by decide, (Option.some_get (by decide)).symm, by decide, by decide, by decide,
      by decide⟩
  · exact ⟨[.add ⟨1, .bid, 9223372036854775806, 1, 0⟩, .add ⟨2, .ask, 9223372036854775807, 1, 1⟩],
      _, _, by decide, (Option.some_get (by decide)).symm, by decide, by decide, by decide⟩
  · obtain ⟨calls, replies, book, _, wire, returned, stranded⟩ := run_stranded 4294967294 rfl
    refine ⟨calls, replies, book, wire, returned, _, stranded.mem_liveOrders, rfl, ?_⟩
    intro n total listed
    obtain ⟨⟨price, level⟩, stored, equal⟩ := List.mem_map.mp listed
    cases equal
    have found := List.mem_of_mem_take stored
    rw [Std.ExtTreeMap.mem_toList_iff_getElem?_eq_some, stranded.noLevel] at found
    cases found

end OrderBook

end Hftrs.Orderbook
