import Hftrs.Library.Tally
import Hftrs.Orderbook.Integrity

/-! A pool without room: what `add` does when every index below the sentinel is taken. -/
namespace Hftrs.Orderbook

open Hftrs.Library

namespace OrderBook

variable {book : OrderBook} {q : Side → Int → List Nat} {ref : RefBook}

namespace Represents

/-- The assertion in `alloc` refuses what the pool has no room for. -/
theorem findsRoom_of_debug (rep : book.Represents q ref) (c : Call) (reply : Reply)
    (book' : OrderBook) (returned : book.call .debug c = some (reply, book')) :
    book.FindsRoom c := by
  cases c with
  | add order =>
    by_cases live : order.id ∈ book.orders
    · exact .inl live
    · refine .inr (Decidable.byContradiction fun full => ?_)
      obtain ⟨noFree, least⟩ := not_or.mp full
      -- every index below the sentinel is taken, and the next one is the sentinel
      have length : book.pool.slots.length = NIL :=
        Nat.le_antisymm rep.sound.pool.bounded (Nat.le_of_not_lt least)
      have refused (node : Node Order) : book.pool.alloc .debug node = none := by
        rw [Pool.alloc, if_neg noFree, length]
        rfl
      rw [Std.ExtTreeMap.mem_iff_contains] at live
      rw [OrderBook.call, OrderBook.add, if_neg live] at returned
      simp only [refused, Option.bind_eq_bind, Option.bind_none, Option.map_none] at returned
      cases returned
  | _ => trivial

theorem along_of_debug (rep : book.Represents q ref) (calls : List Call)
    (wire : ∀ c ∈ calls, c.added ≤ maxValue 32) (replies : List Reply) (last : OrderBook)
    (returned : run (OrderBook.call .debug) book calls = some (replies, last)) :
    Along (OrderBook.call .debug) FindsRoom book calls := by
  induction calls generalizing book q ref replies with
  | nil => trivial
  | cons c cs ih =>
    obtain ⟨reply, rest, book', rfl, stepped, onwards⟩ := (run_cons_iff _ _ _ _ _ _).mp returned
    have room := rep.findsRoom_of_debug c reply book' stepped
    obtain ⟨_, q', again, next⟩ := rep.call .debug c room (wire c (by simp))
    rw [stepped] at again
    cases again
    refine ⟨room, fun b s' taken => ?_⟩
    rw [stepped] at taken
    cases taken
    exact ih next (fun c member => wire c (by simp [member])) rest onwards

end Represents

/-- The adds of a run that returns found room: the debug profile checks it, for the release profile
it is assumed. -/
theorem along_of_run (profile : Profile) (calls : List Call)
    (wire : ∀ c ∈ calls, c.added ≤ maxValue 32) (replies : List Reply) (book : OrderBook)
    (returned : run (call profile) new calls = some (replies, book))
    (room : profile = .release → Along (call .release) FindsRoom new calls) :
    Along (call profile) FindsRoom new calls := by
  cases profile with
  | debug => exact represents_new.along_of_debug calls wire replies book returned
  | release => exact room rfl

/-- Such a run ends in a book that represents a reference book. -/
theorem represents_of_run (profile : Profile) (calls : List Call)
    (wire : ∀ c ∈ calls, c.added ≤ maxValue 32) (replies : List Reply) (book : OrderBook)
    (returned : run (call profile) new calls = some (replies, book))
    (room : profile = .release → Along (call .release) FindsRoom new calls) :
    ∃ q ref, book.Represents q ref := by
  have along := along_of_run profile calls wire replies book returned room
  obtain ⟨_, q, again, rep⟩ := run_represents_along profile calls wire along
  rw [returned] at again
  cases again
  exact ⟨q, _, rep⟩

/-! ### Filling the book -/

/-- Adding the ids below `n` as bids of one share at price 0. -/
def fill (n : Nat) : List Call := (List.range n).map fun id => .add ⟨id, .bid, 0, 1, 0⟩

theorem fill_succ (n : Nat) : fill (n + 1) = fill n ++ [.add ⟨n, .bid, 0, 1, 0⟩] := by
  rw [fill, List.range_succ, List.map_append]
  rfl

theorem one_wire : 1 ≤ maxValue 32 := by decide

theorem fill_wire (n : Nat) : ∀ c ∈ fill n, c.added ≤ maxValue 32 := by
  intro c member
  obtain ⟨id, _, rfl⟩ := List.mem_map.mp member
  exact one_wire

/-- A sound book whose `n` slots are taken by the orders with the ids below `n`. -/
structure Packed (book : OrderBook) (q : Side → Int → List Nat) (n : Nat) : Prop where
  sound : book.Sound q
  slots : book.pool.slots.length = n
  noFree : book.pool.freeHead = NIL
  ids : ∀ id, id ∈ book.orders ↔ id < n

private theorem getMut_shape {pool pool' : Pool Order} {idx : Nat} {write : Node Order → Node Order}
    (written : pool.getMut idx write = some pool') :
    pool'.slots.length = pool.slots.length ∧ pool'.freeHead = pool.freeHead := by
  unfold Pool.getMut at written
  split at written
  next => cases written; exact ⟨List.length_set, rfl⟩
  next => cases written

/-- Without free slots `add` pushes a slot. -/
private theorem add_pushes {profile : Profile} {book' : OrderBook} {order : Order}
    (noFree : book.pool.freeHead = NIL) (fresh : order.id ∉ book.orders)
    (returned : book.add profile order = some (.ok (), book')) :
    book'.pool.slots.length = book.pool.slots.length + 1 ∧ book'.pool.freeHead = NIL := by
  rw [Std.ExtTreeMap.mem_iff_contains] at fresh
  simp only [add, fresh, Pool.alloc, noFree, ne_eq, not_true_eq_false, if_false,
    Bool.false_eq_true, Option.bind_eq_bind, Option.bind_eq_some_iff, Option.map_eq_some_iff,
    Option.pure_def, Option.some.injEq] at returned
  obtain ⟨⟨idx, pushed⟩, ⟨_, _, equal⟩, linked, written, _, _, _, _, result⟩ := returned
  cases equal
  cases result
  split at written
  next =>
    obtain ⟨length, head⟩ := getMut_shape written
    exact ⟨by rw [length]; simp, head⟩
  next =>
    cases written
    exact ⟨by simp, rfl⟩

/-- One more order in a packed book that has room. -/
theorem Packed.add (profile : Profile) {n : Nat} (packed : book.Packed q n) (below : n < NIL)
    (side : Side) (price : Int) :
    ∃ idx book', book.add profile ⟨n, side, price, 1, 0⟩ = some (.ok (), book') ∧
      book.Appended q idx ⟨n, side, price, 1, 0⟩ book' ∧
      book'.Packed (setAt q side price (q side price ++ [idx])) (n + 1) := by
  have fresh : n ∉ book.orders := fun member => Nat.lt_irrefl n ((packed.ids n).mp member)
  obtain ⟨idx, book', returned, appended, sound⟩ := packed.sound.add profile
    ⟨n, side, price, 1, 0⟩ fresh (.inr (packed.slots ▸ below)) one_wire
  obtain ⟨length, head⟩ := add_pushes packed.noFree fresh returned
  refine ⟨idx, book', returned, appended, sound, packed.slots ▸ length, head, fun id => ?_⟩
  rw [appended.orders, Std.ExtTreeMap.mem_insert, packed.ids, Std.LawfulEqCmp.compare_eq_iff_eq]
  change n = id ∨ id < n ↔ id < n + 1
  omega

private theorem Packed.along {profile : Profile} {calls : List Call} {replies : List Reply}
    {n : Nat} (packed : book.Packed q n) (returned : run (call profile) new calls =
      some (replies, book)) (below : n < NIL) (side : Side) (price : Int) (answers : List Reply)
    (last : OrderBook) (again : run (call profile) new calls = some (answers, last)) :
    Along (call profile) FindsRoom last [.add ⟨n, side, price, 1, 0⟩] := by
  rw [returned] at again
  cases again
  exact ⟨.inr (.inr (packed.slots ▸ below)), fun _ _ _ => trivial⟩

theorem packed_new : new.Packed (fun _ _ => []) 0 where
  sound := sound_new
  slots := rfl
  noFree := rfl
  ids id := by simp [new, withCapacity]

/-- Filling the book up to the sentinel: every add succeeds, and all orders are bids. -/
theorem run_fill (profile : Profile) (n : Nat) (bound : n ≤ NIL) :
    Along (call profile) FindsRoom new (fill n) ∧
      ∃ replies book q, run (call profile) new (fill n) = some (replies, book) ∧
        book.Packed q n ∧ ∀ price, q .ask price = [] := by
  induction n with
  | zero => exact ⟨trivial, [], new, _, rfl, packed_new, fun _ => rfl⟩
  | succ n ih =>
    obtain ⟨along, replies, book, q, returned, packed, noAsks⟩ := ih (Nat.le_of_succ_le bound)
    obtain ⟨idx, book', added, _, packed'⟩ := packed.add profile bound .bid 0
    have last : run (call profile) book [.add ⟨n, .bid, 0, 1, 0⟩] =
        some ([.unit (.ok ())], book') := by
      rw [run_cons_of_step _ _ _ _ _ (.unit (.ok ())) (by rw [call, added]; rfl)]
      rfl
    refine ⟨?_, replies ++ [.unit (.ok ())], book', _, ?_, packed', fun price => ?_⟩
    · rw [fill_succ]
      exact along.append (packed.along returned bound .bid 0)
    · rw [fill_succ]
      exact (run_append_iff _ _ _ _ _ _).mpr ⟨_, _, book, rfl, returned, last⟩
    · rw [setAt_other _ _ (by simp), noAsks]

/-- The book when its last free index has gone to a single ask, the order `id` in slot `idx`. -/
structure LoneAsk (book : OrderBook) (id idx : Nat) : Prop where
  noFree : book.pool.freeHead = NIL
  slots : book.pool.slots.length = NIL
  fresh : NIL ∉ book.orders
  live : book.orders[id]? = some idx
  node : book.pool.get idx = some ⟨⟨id, .ask, 1, 1, 0⟩, NIL, NIL⟩
  level : book.asks[(1 : Int)]? = some ⟨idx, idx, 1, 1⟩

/-- One order in a queue by itself, as `add` leaves it. -/
private theorem Packed.loneAsk {book' : OrderBook} {n idx : Nat}
    (appended : book.Appended q idx ⟨n, .ask, 1, 1, 0⟩ book')
    (packed : book'.Packed (setAt q .ask 1 [idx]) NIL) : book'.LoneAsk n idx := by
  have sound := packed.sound
  have queue : setAt q .ask 1 [idx] .ask 1 = [idx] := setAt_same _ _ _ _
  have nonempty : setAt q .ask 1 [idx] .ask 1 ≠ [] := by rw [queue]; simp
  have order : book'.pool.orderAt idx = some ⟨n, .ask, 1, 1, 0⟩ := by
    rw [appended.orderAt, if_pos rfl]
  obtain ⟨node, found, owner⟩ := (book'.pool.orderAt_iff idx _).mp order
  -- the only slot of a queue is the head and the tail of its level, between two sentinels
  have chain := sound.chain .ask 1 nonempty
  rw [queue] at chain
  have head : (book'.level .ask 1).head = idx := (Option.some.inj chain.first).symm
  have tail : (book'.level .ask 1).tail = idx := (Option.some.inj chain.last).symm
  have start := chain.start
  have stop := chain.stop
  rw [head, found] at start
  rw [tail, found] at stop
  have total := sound.totals .ask 1
  have count := sound.counts .ask 1
  rw [queue, List.map_singleton, List.sum_singleton, Pool.qtyAt_of_orderAt order] at total
  rw [queue] at count
  refine ⟨packed.noFree, packed.slots, ?_, ?_, ?_, ?_⟩
  · rw [packed.ids]
    exact Nat.lt_irrefl NIL
  · rw [appended.orders, Std.ExtTreeMap.getElem?_insert_self]
  · obtain ⟨order', prev, next⟩ := node
    cases owner
    cases start
    cases stop
    exact found
  · have level : book'.level .ask 1 = ⟨idx, idx, 1, 1⟩ := by
      cases shape : book'.level .ask 1 with
      | mk head' tail' total' count' =>
        rw [shape] at head tail total count
        cases head
        cases tail
        cases total
        cases count
        rfl
    rw [← level]
    exact sound.getElem?_of_ne_nil nonempty

theorem loneAsk_wire (n : Nat) :
    ∀ c ∈ fill n ++ [.add ⟨n, .ask, 1, 1, 0⟩], c.added ≤ maxValue 32 := by
  intro c member
  rcases List.mem_append.mp member with filling | last
  · exact fill_wire n c filling
  · rw [List.mem_singleton.mp last]
    exact one_wire

/-- Such a book is reached by adding orders only. -/
theorem run_loneAsk (profile : Profile) (n : Nat) (full : n + 1 = NIL) :
    Along (call profile) FindsRoom new (fill n ++ [.add ⟨n, .ask, 1, 1, 0⟩]) ∧
      ∃ replies book idx,
        run (call profile) new (fill n ++ [.add ⟨n, .ask, 1, 1, 0⟩]) = some (replies, book) ∧
        book.LoneAsk n idx := by
  obtain ⟨along, replies, before, q, returned, packed, noAsks⟩ := run_fill profile n (by omega)
  obtain ⟨idx, book, added, appended, packed'⟩ := packed.add profile (by omega) .ask 1
  rw [noAsks, List.nil_append, full] at packed'
  have last : run (call profile) before [.add ⟨n, .ask, 1, 1, 0⟩] =
      some ([.unit (.ok ())], book) := by
    rw [run_cons_of_step _ _ _ _ _ (.unit (.ok ())) (by rw [call, added]; rfl)]
    rfl
  exact ⟨along.append (packed.along returned (by omega) .ask 1), _, book, idx,
    (run_append_iff _ _ _ _ _ _).mpr ⟨_, _, before, rfl, returned, last⟩,
    packed'.loneAsk appended⟩

variable {id idx : Nat}

/-- Under the debug profile there is no room for one more order. -/
theorem LoneAsk.add_debug (lone : book.LoneAsk id idx) :
    book.call .debug (.add ⟨NIL, .ask, 1, 1, 0⟩) = none := by
  have fresh := lone.fresh
  rw [Std.ExtTreeMap.mem_iff_contains] at fresh
  have refused (node : Node Order) : book.pool.alloc .debug node = none := by
    rw [Pool.alloc, if_neg (not_not.mpr lone.noFree), lone.slots]
    rfl
  simp only [call, add, fresh, if_false, Bool.false_eq_true, refused, Option.bind_eq_bind,
    Option.bind_none, Option.map_none]

/-- The book when one more order, of the sentinel's number, has got the sentinel as its slot. -/
structure Overfull (book middle : OrderBook) (id idx : Nat) : Prop where
  bids : middle.bids = book.bids
  asks : middle.asks = book.asks.insert 1 ⟨idx, NIL, 2, 2⟩
  live : middle.orders[id]? = some idx
  node : middle.pool.get idx = some ⟨⟨id, .ask, 1, 1, 0⟩, NIL, NIL⟩
  addedLive : middle.orders[NIL]? = some NIL
  addedNode : middle.pool.get NIL = some ⟨⟨NIL, .ask, 1, 1, 0⟩, idx, NIL⟩
  noFree : middle.pool.freeHead = NIL

/-- Under the release profile the next order gets the sentinel as its slot. -/
theorem LoneAsk.add_release (lone : book.LoneAsk id idx) :
    ∃ middle, book.call .release (.add ⟨NIL, .ask, 1, 1, 0⟩) = some (.unit (.ok ()), middle) ∧
      book.Overfull middle id idx := by
  have fresh := lone.fresh
  rw [Std.ExtTreeMap.mem_iff_contains] at fresh
  have found := (book.pool.get_iff idx _).mp lone.node
  have inside := Pool.get_lt lone.node
  have notNIL : idx ≠ NIL := Nat.ne_of_lt (lone.slots ▸ inside)
  -- the slot is pushed behind all indices, and its own index is the sentinel
  have pushed (node : Node Order) : book.pool.alloc .release node =
      some (NIL, { book.pool with slots := book.pool.slots ++ [.occupied node] }) := by
    rw [Pool.alloc, if_neg (not_not.mpr lone.noFree), lone.slots]
    rfl
  have behind (node : Node Order) : (book.pool.slots ++ [Slot.occupied node])[idx]? =
      some (.occupied ⟨⟨id, .ask, 1, 1, 0⟩, NIL, NIL⟩) := by
    rw [List.getElem?_append_left inside, found]
  have level := lone.level
  have totals : Profile.release.add 64 1 1 = some 2 := by decide
  have counts : Profile.release.add 32 1 1 = some 2 := by decide
  simp only [call, add, fresh, if_false, Bool.false_eq_true, sideLevels, level, Option.map_some,
    Option.getD_some, pushed, Option.bind_eq_bind, Option.bind_some, ne_eq, notNIL,
    not_false_eq_true, if_true, Pool.getMut, behind, totals, counts, Option.pure_def,
    setSideLevels]
  refine ⟨_, rfl, rfl, rfl, getElem?_insert_fresh lone.fresh lone.live _, ?_,
    Std.ExtTreeMap.getElem?_insert_self, ?_, lone.noFree⟩
  · rw [Pool.get_iff, List.getElem?_set_self (by rw [List.length_append]; omega)]
  · rw [Pool.get_iff, List.getElem?_set_ne notNIL, ← lone.slots, List.getElem?_concat_length]

/-- A book whose order in the sentinel's slot is live without a level, and in which an id and a slot
have been given up. -/
structure Stranded (book : OrderBook) (id idx : Nat) : Prop where
  fresh : id ∉ book.orders
  live : book.orders[NIL]? = some NIL
  node : book.pool.get NIL = some ⟨⟨NIL, .ask, 1, 1, 0⟩, idx, NIL⟩
  noLevel : book.asks[(1 : Int)]? = none
  apart : idx ≠ NIL
  freeHead : book.pool.freeHead = idx
  free : book.pool.slots[idx]? = some (.free NIL)

/-- The level then reads as empty as soon as the order before it leaves, and goes with the order
still in it. -/
theorem LoneAsk.add_delete_release (lone : book.LoneAsk id idx) :
    ∃ last, run (call .release) book [.add ⟨NIL, .ask, 1, 1, 0⟩, .delete id] =
        some ([.unit (.ok ()), .unit (.ok ())], last) ∧
      last.bids = book.bids ∧ last.asks = book.asks.erase 1 ∧ last.Stranded id idx := by
  obtain ⟨middle, added, full⟩ := lone.add_release
  have slot := (middle.pool.get_iff idx _).mp full.node
  have notNIL : idx ≠ NIL := Nat.ne_of_lt (lone.slots ▸ Pool.get_lt lone.node)
  have level : middle.asks[(1 : Int)]? = some ⟨idx, NIL, 2, 2⟩ := by
    rw [full.asks, Std.ExtTreeMap.getElem?_insert_self]
  have counts : Profile.release.sub 32 2 1 = some 1 := by decide
  have erased : middle.asks.erase 1 = book.asks.erase 1 := by
    rw [full.asks, erase_insert]
  have deleted : ∃ last, middle.call .release (.delete id) = some (.unit (.ok ()), last) ∧
      last.bids = book.bids ∧ last.asks = book.asks.erase 1 ∧ last.Stranded id idx := by
    simp only [call, delete, full.live, unlink, full.node, slot, ne_eq, not_true_eq_false,
      if_false, Option.bind_eq_bind, Option.bind_some, sideLevels, level, counts, if_true,
      Level.isEmpty, decide_true, Pool.free, Profile.debugAssert, Option.map_some, Option.pure_def,
      setSideLevels]
    refine ⟨_, rfl, full.bids, erased, by simp, ?_, ?_, Std.ExtTreeMap.getElem?_erase_self, notNIL,
      rfl, ?_⟩
    · rw [Std.ExtTreeMap.getElem?_erase, if_neg, full.addedLive]
      rw [Std.LawfulEqCmp.compare_eq_iff_eq]
      exact ne_of_not_mem lone.fresh lone.live
    · rw [Pool.get_iff, List.getElem?_set_ne notNIL]
      exact (middle.pool.get_iff NIL _).mp full.addedNode
    · rw [List.getElem?_set_self (Pool.get_lt full.node), full.noFree]
  obtain ⟨last, deleted, kept⟩ := deleted
  refine ⟨last, ?_, kept⟩
  rw [run_cons_of_step _ _ _ _ _ _ added, run_cons_of_step _ _ _ _ _ _ deleted]
  rfl

theorem stranded_wire (n : Nat) :
    ∀ c ∈ (fill n ++ [.add ⟨n, .ask, 1, 1, 0⟩]) ++ [.add ⟨NIL, .ask, 1, 1, 0⟩, .delete n],
      c.added ≤ maxValue 32 := by
  intro c member
  rcases List.mem_append.mp member with before | after
  · exact loneAsk_wire n c before
  · simp only [List.mem_cons, List.not_mem_nil, or_false] at after
    rcases after with rfl | rfl
    · exact one_wire
    · exact Nat.zero_le _

/-- The ids below the sentinel, and then one order more, of which the first ask is deleted. -/
theorem run_stranded (n : Nat) (full : n + 1 = NIL) :
    ∃ calls replies book idx, (∀ c ∈ calls, c.added ≤ maxValue 32) ∧
      run (call .release) new calls = some (replies, book) ∧ book.Stranded n idx := by
  obtain ⟨_, replies, book, idx, returned, lone⟩ := run_loneAsk .release n full
  obtain ⟨last, more, _, _, stranded⟩ := lone.add_delete_release
  exact ⟨_, _, last, idx, stranded_wire n,
    (run_append_iff _ _ _ _ _ _).mpr ⟨_, _, book, rfl, returned, more⟩, stranded⟩

end OrderBook

end Hftrs.Orderbook
