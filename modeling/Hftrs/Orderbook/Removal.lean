import Hftrs.Library.Tally
import Hftrs.Orderbook.Errors
import Hftrs.Orderbook.Exhausted

/-! The ways an order leaves the book end in one state, and reductions add up. -/
namespace Hftrs.Orderbook

open Hftrs.Library

/-! ### Writes to different slots -/

namespace Pool

variable {T : Type} {pool : Pool T} {i j : Nat}

/-- A write to a neighbour, and a slot that is overwritten before or after it. -/
theorem relink_set (apart : i ≠ j) (slot : Slot T) (write : Node T → Node T) :
    (if j ≠ NIL then getMut { pool with slots := pool.slots.set i slot } j write
      else some { pool with slots := pool.slots.set i slot }) =
    (if j ≠ NIL then pool.getMut j write else some pool).map fun written =>
      { written with slots := written.slots.set i slot } := by
  split
  next =>
    simp only [getMut, List.getElem?_set_ne apart]
    split
    next => rw [Option.map_some, List.set_comm _ _ apart]
    next => rfl
  next => rfl

theorem relink_get (apart : i ≠ j) {write : Node T → Node T} {written : Pool T}
    (linked : (if j ≠ NIL then pool.getMut j write else some pool) = some written) :
    written.slots[i]? = pool.slots[i]? := by
  split at linked
  next =>
    unfold getMut at linked
    split at linked
    next =>
      cases linked
      exact List.getElem?_set_ne (Ne.symm apart)
    next => cases linked
  next =>
    cases linked
    rfl

/-- Freeing a slot forgets what was in it. -/
theorem free_set (profile : Profile) {node : Node T} (node' : Node T)
    (found : pool.slots[i]? = some (.occupied node)) :
    free profile { pool with slots := pool.slots.set i (.occupied node') } i =
      pool.free profile i := by
  have inside := (List.getElem?_eq_some_iff.mp found).1
  simp only [free, found, List.getElem?_set_self inside, List.set_set]

/-- The neighbours of a slot are linked past it, and it is freed, whatever order it holds. -/
theorem splice_set {α β : Type} (profile : Profile) {prev next : Nat} (before : i ≠ prev)
    (after : i ≠ next) {node : Node T} (node' : Node T)
    (found : pool.slots[i]? = some (.occupied node)) (write write' : Node T → Node T)
    (middle : Option α) (last : α → Pool T → Option β) :
    ((if prev ≠ NIL then
        getMut { pool with slots := pool.slots.set i (.occupied node') } prev write
      else some { pool with slots := pool.slots.set i (.occupied node') }).bind fun pool =>
      (if next ≠ NIL then pool.getMut next write' else some pool).bind fun pool =>
        middle.bind fun a => (pool.free profile i).bind (last a)) =
    (if prev ≠ NIL then pool.getMut prev write else some pool).bind fun pool =>
      (if next ≠ NIL then pool.getMut next write' else some pool).bind fun pool =>
        middle.bind fun a => (pool.free profile i).bind (last a) := by
  rw [relink_set before]
  cases first : (if prev ≠ NIL then pool.getMut prev write else some pool) with
  | none => rfl
  | some pool₁ =>
    have found₁ := (relink_get before first).trans found
    rw [Option.map_some, Option.bind_some, Option.bind_some, relink_set after]
    cases second : (if next ≠ NIL then pool₁.getMut next write' else some pool₁) with
    | none => rfl
    | some pool₂ =>
      have found₂ := (relink_get after second).trans found₁
      rw [Option.map_some, Option.bind_some, Option.bind_some, free_set profile node' found₂]

end Pool

/-- The node when a quantity has been taken from its order. -/
def Node.minus (node : Node Order) (qty : Nat) : Node Order :=
  { node with order := { node.order with qty := node.order.qty - qty } }

/-- The level when a quantity has been taken from its total. -/
def Level.minus (level : Level) (qty : Nat) : Level :=
  { level with totalQty := level.totalQty - qty }

namespace OrderBook

variable {book : OrderBook} {q : Side → Int → List Nat}

/-- The book with a quantity taken from the node in a slot and from the level of its order. -/
def taken (book : OrderBook) (idx : Nat) (node : Node Order) (level : Level) (qty : Nat) :
    OrderBook :=
  let levels := (book.sideLevels node.order.side).insert node.order.price (level.minus qty)
  let slots := book.pool.slots.set idx (.occupied (node.minus qty))
  { book.setSideLevels node.order.side levels with pool := { book.pool with slots } }

@[simp] theorem taken_orders (book : OrderBook) (idx : Nat) (node : Node Order) (level : Level)
    (qty : Nat) : (book.taken idx node level qty).orders = book.orders :=
  setSideLevels_orders _ _ _

@[simp] theorem taken_sideLevels (book : OrderBook) (idx : Nat) (node : Node Order)
    (level : Level) (qty : Nat) :
    (book.taken idx node level qty).sideLevels node.order.side =
      (book.sideLevels node.order.side).insert node.order.price (level.minus qty) := by
  rw [taken, sideLevels_with, sideLevels_setSideLevels, if_pos rfl]

/-- Storing the levels of the side again leaves nothing of what was stored before. -/
theorem taken_setSideLevels (book : OrderBook) (idx : Nat) (node : Node Order) (level : Level)
    (qty : Nat) (levels : Levels) :
    ((book.taken idx node level qty).setSideLevels node.order.side levels).bids =
        (book.setSideLevels node.order.side levels).bids ∧
      ((book.taken idx node level qty).setSideLevels node.order.side levels).asks =
        (book.setSideLevels node.order.side levels).asks := by
  obtain ⟨⟨id, side, price, rest, ts⟩, prev, next⟩ := node
  cases side <;> exact ⟨rfl, rfl⟩

/-- A live order: its slot, its node, and its level, which holds its quantity. -/
structure Live (book : OrderBook) (id idx : Nat) (node : Node Order) (level : Level) : Prop where
  slot : book.orders[id]? = some idx
  found : book.pool.get idx = some node
  stored : (book.sideLevels node.order.side)[node.order.price]? = some level
  total : node.order.qty ≤ level.totalQty
  apart : idx ≠ node.prev ∧ idx ≠ node.next

theorem Sound.live (sound : book.Sound q) {id : Nat} {order : Order}
    (rests : book.resting id = some order) :
    ∃ idx node level, book.Live id idx node level ∧ node.order = order := by
  obtain ⟨idx, slot, here⟩ := Option.bind_eq_some_iff.mp rests
  obtain ⟨node, found, owner⟩ := (book.pool.orderAt_iff idx order).mp here
  have occupied := List.ne_nil_of_mem (sound.mem_queue found)
  exact ⟨idx, node, _, ⟨slot, found, sound.getElem?_of_ne_nil occupied, sound.qty_le_total found,
    sound.neighbours_ne found⟩, owner⟩

namespace Live

variable {id idx : Nat} {node : Node Order} {level : Level}

/-- What is left of the order is live in the same way. -/
theorem taken (live : book.Live id idx node level) (qty : Nat) :
    (book.taken idx node level qty).Live id idx (node.minus qty) (level.minus qty) where
  slot := by rw [taken_orders, live.slot]
  found := by
    rw [Pool.get_iff, OrderBook.taken]
    exact List.getElem?_set_self (Pool.get_lt live.found)
  stored := by
    rw [Node.minus, taken_sideLevels, Std.ExtTreeMap.getElem?_insert_self]
  total := Nat.sub_le_sub_right live.total qty
  apart := live.apart

/-- Taking one quantity after another is taking both at once. -/
theorem taken_taken (book : OrderBook) (idx : Nat) (node : Node Order) (level : Level)
    (a b : Nat) : (book.taken idx node level a).taken idx (node.minus a) (level.minus a) b =
      book.taken idx node level (a + b) := by
  obtain ⟨⟨id, side, price, qty, ts⟩, prev, next⟩ := node
  cases side <;>
    simp only [OrderBook.taken, Node.minus, Level.minus, setSideLevels, sideLevels, insert_insert,
      List.set_set, Nat.sub_sub]

/-- An order with nothing left is spliced out as the whole order is. -/
theorem unlink_taken (profile : Profile) (live : book.Live id idx node level) :
    (book.taken idx node level node.order.qty).unlink profile idx = book.unlink profile idx := by
  have after := live.taken node.order.qty
  have slot := (book.pool.get_iff idx node).mp live.found
  have empty : level.totalQty - node.order.qty - (node.order.qty - node.order.qty) =
      level.totalQty - node.order.qty := by omega
  have kept := taken_setSideLevels book idx node level node.order.qty
  simp only [OrderBook.unlink, live.found, after.found, live.stored, Option.bind_eq_bind,
    Option.bind_some, Node.minus, Level.minus, taken_sideLevels, taken_orders,
    Std.ExtTreeMap.getElem?_insert_self, erase_insert, insert_insert, empty, (kept _).1,
    (kept _).2]
  exact Pool.splice_set profile live.apart.1 live.apart.2 _ slot _ _ _ _

end Live

/-! ### Reductions -/

/-- An execution, at either price, or a cancel of a quantity of an order. -/
def Call.Takes (id qty : Nat) : Call → Prop
  | .execute id' qty' _ => id' = id ∧ qty' = qty
  | .executeAt id' qty' _ _ => id' = id ∧ qty' = qty
  | .cancel id' qty' => id' = id ∧ qty' = qty
  | _ => False

/-- The book once a quantity is taken, without the order when nothing is left of it. -/
def reduced (profile : Profile) (book : OrderBook) (idx : Nat) (node : Node Order) (level : Level)
    (qty : Nat) : Option OrderBook :=
  if node.order.qty - qty = 0 then (book.taken idx node level qty).unlink profile idx
  else some (book.taken idx node level qty)

namespace Live

variable {id idx : Nat} {node : Node Order} {level : Level}

theorem reduce {α : Type} (profile : Profile) (live : book.Live id idx node level) {qty : Nat}
    (enough : qty ≤ node.order.qty) (excess : Nat → BookError) (done : Int → α) :
    book.reduce profile id qty excess done =
      (book.reduced profile idx node level qty).map fun book =>
        (.ok (done node.order.price), book) := by
  have slot := (book.pool.get_iff idx node).mp live.found
  have total := profile.sub_eq (w := 64) (Nat.le_trans enough live.total)
  simp only [OrderBook.reduce, live.slot, live.found, gt_iff_lt, if_neg (Nat.not_lt.mpr enough),
    Pool.getMut, slot, live.stored, total, Option.bind_eq_bind, Option.bind_some, reduced,
    Option.map_eq_bind]
  rfl

/-- The three reductions leave the same book. -/
theorem call_takes (profile : Profile) (live : book.Live id idx node level) {qty : Nat}
    (enough : qty ≤ node.order.qty) {c : Call} (takes : c.Takes id qty) :
    ∃ reply, reply.isError = false ∧ book.call profile c =
      (book.reduced profile idx node level qty).map fun book => (reply, book) := by
  cases c with
  | execute | executeAt =>
    obtain ⟨rfl, rfl⟩ := takes
    simp only [call, execute, executeAt, executeInner, live.reduce profile enough, Option.map_map]
    exact ⟨.trade (.ok _), rfl, rfl⟩
  | cancel =>
    obtain ⟨rfl, rfl⟩ := takes
    simp only [call, cancel, live.reduce profile enough, Option.map_map]
    exact ⟨.unit (.ok ()), rfl, rfl⟩
  | add | delete | replace => cases takes

/-- Taking everything splices the order out. -/
theorem reduced_all (profile : Profile) (live : book.Live id idx node level) :
    book.reduced profile idx node level node.order.qty = book.unlink profile idx := by
  rw [reduced, if_pos (Nat.sub_self _), live.unlink_taken]

/-- Reductions add up. -/
theorem reduced_add (profile : Profile) (book : OrderBook) (idx : Nat) (node : Node Order)
    (level : Level) (a b : Nat) :
    (book.taken idx node level a).reduced profile idx (node.minus a) (level.minus a) b =
      book.reduced profile idx node level (a + b) := by
  rw [reduced, reduced, taken_taken, Node.minus, Nat.sub_sub]

end Live

/-- From a reachable book, cancelling or executing all that is left of an order ends in the same
book as deleting it, and two reductions in a row in the same book as one of their sum. -/
theorem run_removals_agree (profile : Profile) (calls : List Call)
    (wire : ∀ c ∈ calls, c.added ≤ maxValue 32) (replies : List Reply) (book : OrderBook)
    (returned : run (call profile) new calls = some (replies, book))
    (room : profile = .release → Along (call .release) FindsRoom new calls) (id : Nat)
    (order : Order) (rests : book.resting id = some order) :
    (∃ last, ∀ c, c = .delete id ∨ c.Takes id order.qty →
      ∃ reply, reply.isError = false ∧ book.call profile c = some (reply, last)) ∧
    ∀ a b, a < order.qty → b ≤ order.qty - a → ∃ middle last,
      (∀ c, c.Takes id a → ∃ reply, reply.isError = false ∧
        book.call profile c = some (reply, middle)) ∧
      (∀ d, d.Takes id b → ∃ reply, reply.isError = false ∧
        middle.call profile d = some (reply, last)) ∧
      ∀ e, e.Takes id (a + b) → ∃ reply, reply.isError = false ∧
        book.call profile e = some (reply, last) := by
  obtain ⟨q, ref, rep⟩ := represents_of_run profile calls wire replies book returned room
  obtain ⟨idx, node, level, live, rfl⟩ := rep.sound.live rests
  obtain ⟨last, spliced, _⟩ := rep.sound.unlink profile live.found
  have all := (live.reduced_all profile).trans spliced
  constructor
  · refine ⟨last, fun c removes => ?_⟩
    rcases removes with rfl | takes
    · refine ⟨.unit (.ok ()), rfl, ?_⟩
      simp only [call, delete, live.slot, spliced, Option.map_some]
    · obtain ⟨reply, ok, called⟩ := live.call_takes profile (Nat.le_refl _) takes
      exact ⟨reply, ok, by rw [called, all, Option.map_some]⟩
  · intro a b less rest
    have left : book.reduced profile idx node level a = some (book.taken idx node level a) :=
      if_neg (Nat.sub_ne_zero_of_lt less)
    obtain ⟨last', both⟩ : ∃ last', book.reduced profile idx node level (a + b) = some last' := by
      by_cases whole : a + b = node.order.qty
      · exact ⟨last, whole ▸ all⟩
      · exact ⟨_, if_neg (by omega)⟩
    refine ⟨book.taken idx node level a, last', fun c takes => ?_, fun d takes => ?_,
      fun e takes => ?_⟩
    · obtain ⟨reply, ok, called⟩ := live.call_takes profile (Nat.le_of_lt less) takes
      exact ⟨reply, ok, by rw [called, left, Option.map_some]⟩
    · obtain ⟨reply, ok, called⟩ := (live.taken a).call_takes profile rest takes
      exact ⟨reply, ok, by rw [called, Live.reduced_add, both, Option.map_some]⟩
    · obtain ⟨reply, ok, called⟩ := live.call_takes profile (by omega) takes
      exact ⟨reply, ok, by rw [called, both, Option.map_some]⟩

/-- The order in the middle of a level, of which 1 of 5 has been cancelled. -/
theorem run_removals_agree_middle :
    (∃ last, ∀ c, c = .delete 2 ∨ c.Takes 2 4 → ∃ reply, reply.isError = false ∧
      ((run (call .release) new [.add ⟨1, .bid, 100, 10, 0⟩, .add ⟨2, .bid, 100, 5, 1⟩,
        .add ⟨3, .bid, 100, 7, 2⟩, .cancel 2 1]).get (by decide)).2.call .release c =
          some (reply, last)) :=
  (run_removals_agree .release [.add ⟨1, .bid, 100, 10, 0⟩, .add ⟨2, .bid, 100, 5, 1⟩,
      .add ⟨3, .bid, 100, 7, 2⟩, .cancel 2 1]
    (by decide) _ _ (Option.some_get (by decide)).symm (fun _ => by decide) 2
    ⟨2, .bid, 100, 4, 1⟩ (by decide)).1

/-! ### Without room -/

/-- The order in the sentinel's slot behind the only order of a level that does not count it. -/
structure Uncounted (book : OrderBook) (idx qty total : Nat) : Prop where
  node : book.pool.get NIL = some ⟨⟨NIL, .ask, 1, qty, 0⟩, idx, NIL⟩
  neighbour : ∃ n, book.pool.get idx = some n
  level : book.asks[(1 : Int)]? = some ⟨idx, idx, total, 1⟩
  apart : idx ≠ NIL

theorem Uncounted.unlink {idx qty total : Nat} (uncounted : book.Uncounted idx qty total) :
    ∃ last, book.unlink .release NIL = some last ∧
      last.asks[(1 : Int)]? = some ⟨idx, idx, total - qty, 0⟩ := by
  obtain ⟨n, neighbour⟩ := uncounted.neighbour
  have slot := (book.pool.get_iff NIL _).mp uncounted.node
  have other := (book.pool.get_iff idx n).mp neighbour
  have counts : Profile.release.sub 32 1 1 = some 0 := by decide
  simp only [OrderBook.unlink, uncounted.node, ne_eq, uncounted.apart, not_false_eq_true, if_true,
    not_true_eq_false, if_false, Pool.getMut, other, Option.bind_eq_bind, Option.bind_some,
    sideLevels, uncounted.level, counts, Level.isEmpty, decide_eq_true_eq, Pool.free,
    List.getElem?_set_ne uncounted.apart, slot, Profile.debugAssert, Option.map_some,
    Option.pure_def, setSideLevels]
  exact ⟨_, rfl, Std.ExtTreeMap.getElem?_insert_self⟩

/-- An order of no quantity at the price of a stranded order starts a level that does not count
it. -/
theorem Stranded.add {id idx : Nat} (stranded : book.Stranded id idx) :
    ∃ last, book.call .release (.add ⟨id, .ask, 1, 0, 0⟩) = some (.unit (.ok ()), last) ∧
      last.orders[NIL]? = some NIL ∧ last.Uncounted idx 1 0 := by
  have fresh := stranded.fresh
  rw [Std.ExtTreeMap.mem_iff_contains] at fresh
  have slot := (book.pool.get_iff NIL _).mp stranded.node
  have inside := (List.getElem?_eq_some_iff.mp stranded.free).1
  have totals : Profile.release.add 64 0 0 = some 0 := by decide
  have counts : Profile.release.add 32 0 1 = some 1 := by decide
  simp only [call, OrderBook.add, fresh, if_false, Bool.false_eq_true, sideLevels,
    stranded.noLevel, Option.map_none, Option.getD_none, Pool.alloc, stranded.freeHead, ne_eq,
    stranded.apart, not_false_eq_true, if_true, stranded.free, not_true_eq_false, Level.empty,
    totals, counts, Option.bind_eq_bind, Option.bind_some, Option.pure_def, Option.map_some,
    setSideLevels]
  refine ⟨_, rfl, getElem?_insert_fresh stranded.fresh stranded.live _, ?_,
    ⟨⟨⟨id, .ask, 1, 0, 0⟩, NIL, NIL⟩, ?_⟩, Std.ExtTreeMap.getElem?_insert_self, stranded.apart⟩
  · rw [Pool.get_iff, List.getElem?_set_ne stranded.apart, slot]
  · rw [Pool.get_iff, List.getElem?_set_self inside]

/-- A cancel then takes the order out of a total that wraps, and a delete out of one that stays
at zero. -/
theorem Uncounted.removals {idx : Nat} (uncounted : book.Uncounted idx 1 0)
    (live : book.orders[NIL]? = some NIL) :
    (∃ last, book.call .release (.cancel NIL 1) = some (.unit (.ok ()), last) ∧
      last.asks[(1 : Int)]? = some ⟨idx, idx, 18446744073709551615, 0⟩) ∧
    ∃ last, book.call .release (.delete NIL) = some (.unit (.ok ()), last) ∧
      last.asks[(1 : Int)]? = some ⟨idx, idx, 0, 0⟩ := by
  constructor
  · obtain ⟨n, neighbour⟩ := uncounted.neighbour
    have slot := (book.pool.get_iff NIL _).mp uncounted.node
    have other := (book.pool.get_iff idx n).mp neighbour
    have wraps : Profile.release.sub 64 0 1 = some 18446744073709551615 := by decide
    have slots : (book.pool.slots.set NIL
        (.occupied ⟨⟨NIL, .ask, 1, 0, 0⟩, idx, NIL⟩))[idx]? = some (.occupied n) :=
      (List.getElem?_set_ne (Ne.symm uncounted.apart)).trans other
    have wrapped : Uncounted { book with
        asks := book.asks.insert 1 ⟨idx, idx, 18446744073709551615, 1⟩
        pool := ⟨book.pool.slots.set NIL (.occupied ⟨⟨NIL, .ask, 1, 0, 0⟩, idx, NIL⟩),
          book.pool.freeHead⟩ } idx 0 18446744073709551615 :=
      { node := (Pool.get_iff _ _ _).mpr (List.getElem?_set_self (Pool.get_lt uncounted.node))
        neighbour := ⟨n, (Pool.get_iff _ _ _).mpr slots⟩
        level := Std.ExtTreeMap.getElem?_insert_self
        apart := uncounted.apart }
    obtain ⟨last, spliced, level⟩ := wrapped.unlink
    refine ⟨last, ?_, level⟩
    simp only [call, cancel, OrderBook.reduce, live, uncounted.node, gt_iff_lt, Nat.lt_irrefl,
      if_false, Pool.getMut, slot, sideLevels, uncounted.level, wraps, Option.bind_eq_bind,
      Option.bind_some, Nat.sub_self, if_true, setSideLevels, spliced]
    rfl
  · obtain ⟨last, spliced, level⟩ := uncounted.unlink
    refine ⟨last, ?_, level⟩
    simp only [call, delete, live, spliced, Option.map_some]

/-- With every slot index taken, a live order can be cancelled to a total of 2^64 − 1 at its price
and deleted to a total of zero. -/
theorem overfull_cancel_differs :
    ∃ calls replies book order cancelled deleted, (∀ c ∈ calls, c.added ≤ maxValue 32) ∧
      run (call .release) new calls = some (replies, book) ∧
      book.resting order.id = some order ∧
      book.call .release (.cancel order.id order.qty) = some (.unit (.ok ()), cancelled) ∧
      book.call .release (.delete order.id) = some (.unit (.ok ()), deleted) ∧
      (cancelled.level order.side order.price).totalQty = 18446744073709551615 ∧
      (deleted.level order.side order.price).totalQty = 0 := by
  obtain ⟨calls, replies, before, idx, wire, returned, stranded⟩ := run_stranded 4294967294 rfl
  obtain ⟨book, added, live, uncounted⟩ := stranded.add
  obtain ⟨⟨cancelled, cancels, wraps⟩, deleted, deletes, saturates⟩ := uncounted.removals live
  have last : run (call .release) before [.add ⟨4294967294, .ask, 1, 0, 0⟩] =
      some ([.unit (.ok ())], book) := by
    rw [run_cons_of_step _ _ _ _ _ _ added]
    rfl
  refine ⟨calls ++ [.add ⟨4294967294, .ask, 1, 0, 0⟩], _, book, ⟨NIL, .ask, 1, 1, 0⟩, cancelled,
    deleted, ?_, (run_append_iff _ _ _ _ _ _).mpr ⟨_, _, before, rfl, returned, last⟩, ?_, cancels,
    deletes, ?_, ?_⟩
  · intro c member
    rcases List.mem_append.mp member with earlier | final
    · exact wire c earlier
    · rw [List.mem_singleton.mp final]
      exact Nat.zero_le _
  · rw [resting, live, Option.bind_some, Pool.orderAt_of_get uncounted.node]
  · rw [level, sideLevels, wraps]
    rfl
  · rw [level, sideLevels, saturates]
    rfl

end OrderBook

end Hftrs.Orderbook
