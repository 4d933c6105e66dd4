import Mathlib.Algebra.BigOperators.Group.List.Basic
import Hftrs.Library.Ring
import Hftrs.Orderbook.Book

/-! The structural invariant of the book: every level is a ring of pool slots.

The invariant names the queue of slots behind each side and price. Each mutation of the book is
described by what it does to the nodes of the pool, to one level and to one queue. -/
namespace Hftrs.Orderbook

open Hftrs.Library

variable {α : Type}

/-- Replace the value at one side and price. -/
def setAt (f : Side → Int → α) (side : Side) (price : Int) (a : α) : Side → Int → α :=
  fun s p => if s = side ∧ p = price then a else f s p

@[simp] theorem setAt_same (f : Side → Int → α) (side : Side) (price : Int) (a : α) :
    setAt f side price a side price = a := by simp [setAt]

theorem setAt_other (f : Side → Int → α) {side s : Side} {price p : Int} (a : α)
    (other : ¬(s = side ∧ p = price)) : setAt f side price a s p = f s p := if_neg other

theorem setAt_self (f : Side → Int → α) (side : Side) (price : Int) :
    setAt f side price (f side price) = f := by
  funext s p
  unfold setAt
  split
  next same => rw [same.1, same.2]
  next => rfl

/-- The resting order in a slot. -/
def Pool.orderAt (pool : Pool Order) (i : Nat) : Option Order := (pool.get i).map Node.order

theorem Pool.orderAt_iff (pool : Pool Order) (i : Nat) (order : Order) :
    pool.orderAt i = some order ↔ ∃ n, pool.get i = some n ∧ n.order = order :=
  Option.map_eq_some_iff

theorem Pool.orderAt_of_get {pool : Pool Order} {i : Nat} {n : Node Order}
    (found : pool.get i = some n) : pool.orderAt i = some n.order :=
  (pool.orderAt_iff i n.order).mpr ⟨n, found, rfl⟩

/-- A change of one slot does not reach a list without it. -/
theorem Pool.orderAt_agree {pool pool' : Pool Order} {idx : Nat} {order : Option Order}
    (orderAt : ∀ i, pool'.orderAt i = if i = idx then order else pool.orderAt i) {l : List Nat}
    (apart : idx ∉ l) (i : Nat) (inside : i ∈ l) : pool'.orderAt i = pool.orderAt i := by
  rw [orderAt, if_neg (ne_of_mem_of_not_mem inside apart)]

namespace OrderBook

/-- The level under a price key; a missing level behaves as an empty one. -/
def level (book : OrderBook) (side : Side) (price : Int) : Level :=
  (book.sideLevels side)[price]?.getD Level.empty

/-- Forward links of a level, its head standing for the link of the sentinel. -/
def nextAt (pool : Pool Order) (level : Level) (i : Nat) : Nat :=
  if i = NIL then level.head else ((pool.get i).map Node.next).getD NIL

/-- Backward links of a level, its tail standing for the link of the sentinel. -/
def prevAt (pool : Pool Order) (level : Level) (i : Nat) : Nat :=
  if i = NIL then level.tail else ((pool.get i).map Node.prev).getD NIL

/-- The queues `q` are what the book stores: the id map addresses the occupied slots, each queue
holds the slots of its side and price, and each level is the ring of its queue. -/
structure Queued (book : OrderBook) (q : Side → Int → List Nat) : Prop where
  pool : book.pool.Valid
  ids : ∀ id i, book.orders[id]? = some i ↔ ∃ o, book.pool.orderAt i = some o ∧ o.id = id
  members : ∀ side price i, i ∈ q side price ↔
    ∃ o, book.pool.orderAt i = some o ∧ o.side = side ∧ o.price = price
  nodup : ∀ side price, (q side price).Nodup
  rings : ∀ side price, Ring (nextAt book.pool (book.level side price))
    (prevAt book.pool (book.level side price)) NIL (q side price)
  counts : ∀ side price, (book.level side price).orderCount = (q side price).length
  present : ∀ side price, price ∈ book.sideLevels side ↔ q side price ≠ []

/-! ### Reading the levels of an updated book -/

@[simp] theorem setSideLevels_orders (book : OrderBook) (side : Side) (levels : Levels) :
    (book.setSideLevels side levels).orders = book.orders := by cases side <;> rfl

@[simp] theorem setSideLevels_pool (book : OrderBook) (side : Side) (levels : Levels) :
    (book.setSideLevels side levels).pool = book.pool := by cases side <;> rfl

@[simp] theorem sideLevels_with (book : OrderBook) (orders : Std.ExtTreeMap Nat Nat compare)
    (pool : Pool Order) (side : Side) :
    sideLevels { book with orders, pool } side = book.sideLevels side := by cases side <;> rfl

theorem sideLevels_setSideLevels (book : OrderBook) (side s : Side) (levels : Levels) :
    (book.setSideLevels side levels).sideLevels s =
      if s = side then levels else book.sideLevels s := by
  cases side <;> cases s <;> rfl

@[simp] theorem level_with (book : OrderBook) (orders : Std.ExtTreeMap Nat Nat compare)
    (pool : Pool Order) : level { book with orders, pool } = book.level := by
  funext side price
  simp [level]

/-- Storing a level under a price key. -/
theorem level_insert (book : OrderBook) (side : Side) (price : Int) (lv : Level) :
    (book.setSideLevels side ((book.sideLevels side).insert price lv)).level =
      setAt book.level side price lv := by
  funext s p
  simp only [level, setAt, sideLevels_setSideLevels]
  by_cases sameSide : s = side
  · subst s
    by_cases samePrice : p = price
    · subst p
      simp
    · simp [samePrice, Std.ExtTreeMap.getElem?_insert, Ne.symm samePrice]
  · simp [sameSide]

/-- Dropping a price key leaves an empty level behind. -/
theorem level_erase (book : OrderBook) (side : Side) (price : Int) :
    (book.setSideLevels side ((book.sideLevels side).erase price)).level =
      setAt book.level side price Level.empty := by
  funext s p
  simp only [level, setAt, sideLevels_setSideLevels]
  by_cases sameSide : s = side
  · subst s
    by_cases samePrice : p = price
    · subst p
      simp
    · simp [samePrice, Std.ExtTreeMap.getElem?_erase, Ne.symm samePrice]
  · simp [sameSide]

theorem mem_insert_iff (book : OrderBook) (side s : Side) (price p : Int) (lv : Level) :
    p ∈ (book.setSideLevels side ((book.sideLevels side).insert price lv)).sideLevels s ↔
      (s = side ∧ p = price) ∨ p ∈ book.sideLevels s := by
  rw [sideLevels_setSideLevels]
  by_cases sameSide : s = side
  · subst s
    simp [Std.ExtTreeMap.mem_insert, eq_comm (a := p)]
  · simp [sameSide]

theorem mem_erase_iff (book : OrderBook) (side s : Side) (price p : Int) :
    p ∈ (book.setSideLevels side ((book.sideLevels side).erase price)).sideLevels s ↔
      ¬(s = side ∧ p = price) ∧ p ∈ book.sideLevels s := by
  rw [sideLevels_setSideLevels]
  by_cases sameSide : s = side
  · subst s
    simp [Std.ExtTreeMap.mem_erase, eq_comm (a := p)]
  · simp [sameSide]

/-! ### Consequences of the invariant -/

theorem nextAt_NIL (pool : Pool Order) (lv : Level) : nextAt pool lv NIL = lv.head := if_pos rfl

theorem prevAt_NIL (pool : Pool Order) (lv : Level) : prevAt pool lv NIL = lv.tail := if_pos rfl

/-- The tail that `add` snapshots before it touches the pool. -/
theorem tail_eq (book : OrderBook) (side : Side) (price : Int) :
    (((book.sideLevels side)[price]?).map Level.tail).getD NIL = (book.level side price).tail := by
  unfold level
  cases (book.sideLevels side)[price]? <;> rfl

namespace Queued

variable {book : OrderBook} {q : Side → Int → List Nat}

theorem occupied (queued : book.Queued q) {side : Side} {price : Int} {i : Nat}
    (member : i ∈ q side price) :
    ∃ n, book.pool.get i = some n ∧ n.order.side = side ∧ n.order.price = price := by
  obtain ⟨o, found, sides, prices⟩ := (queued.members side price i).mp member
  obtain ⟨n, node, rfl⟩ := (book.pool.orderAt_iff i o).mp found
  exact ⟨n, node, sides, prices⟩

theorem mem_queue (queued : book.Queued q) {i : Nat} {n : Node Order}
    (found : book.pool.get i = some n) : i ∈ q n.order.side n.order.price :=
  (queued.members _ _ i).mpr ⟨n.order, Pool.orderAt_of_get found, rfl, rfl⟩

theorem ne_NIL (queued : book.Queued q) {side : Side} {price : Int} {i : Nat}
    (member : i ∈ q side price) : i ≠ NIL := by
  obtain ⟨n, found, _⟩ := queued.occupied member
  exact Nat.ne_of_lt (queued.pool.lt_NIL found)

theorem nodup_sentinel (queued : book.Queued q) (side : Side) (price : Int) :
    (NIL :: q side price).Nodup :=
  List.nodup_cons.mpr ⟨fun member => queued.ne_NIL member rfl, queued.nodup side price⟩

/-- A slot belongs to one queue. -/
theorem unique (queued : book.Queued q) {s t : Side} {p r : Int} {i : Nat}
    (left : i ∈ q s p) (right : i ∈ q t r) : s = t ∧ p = r := by
  obtain ⟨o, found, rfl, rfl⟩ := (queued.members s p i).mp left
  obtain ⟨o', same, rfl, rfl⟩ := (queued.members t r i).mp right
  rw [found] at same
  cases same
  exact ⟨rfl, rfl⟩

theorem not_mem_other (queued : book.Queued q) {s t : Side} {p r : Int} {i : Nat}
    (member : i ∈ q s p) (other : ¬(t = s ∧ r = p)) : i ∉ q t r :=
  fun inside => other (queued.unique inside member)

/-- A slot that is not occupied is in no queue. -/
theorem not_mem_fresh (queued : book.Queued q) {i : Nat}
    (fresh : book.pool.orderAt i = none) (s : Side) (p : Int) : i ∉ q s p := by
  intro inside
  obtain ⟨o, found, _⟩ := (queued.members s p i).mp inside
  rw [fresh] at found
  cases found

/-- Slots whose orders have the same id are the same slot. -/
theorem slot_eq (queued : book.Queued q) {i j : Nat} {o o' : Order}
    (left : book.pool.orderAt i = some o) (right : book.pool.orderAt j = some o')
    (same : o.id = o'.id) : i = j := by
  have first := (queued.ids o'.id i).mpr ⟨o, left, same⟩
  have second := (queued.ids o'.id j).mpr ⟨o', right, rfl⟩
  rw [first] at second
  exact Option.some.inj second

theorem queue_length_le (queued : book.Queued q) (side : Side) (price : Int) :
    (q side price).length ≤ book.pool.slots.length := by
  -- distinct indices below the number of slots
  have inside : q side price ⊆ List.range book.pool.slots.length := by
    intro i member
    obtain ⟨n, found, _⟩ := queued.occupied member
    exact List.mem_range.mpr (Pool.get_lt found)
  simpa using (List.subperm_of_subset (queued.nodup side price) inside).length_le

/-- With room left in the pool a queue can take one more slot. -/
theorem queue_length_lt (queued : book.Queued q) (room : book.pool.HasRoom) (side : Side)
    (price : Int) : (q side price).length < NIL := by
  apply queued.pool.occupied_length_lt room (queued.nodup side price)
  intro i member
  obtain ⟨n, found, _⟩ := queued.occupied member
  exact ⟨n, found⟩

/-- The head is the sentinel exactly for a missing level. -/
theorem head_eq_NIL_iff (queued : book.Queued q) (side : Side) (price : Int) :
    (book.level side price).head = NIL ↔ q side price = [] := by
  have head := (queued.rings side price).head
  rw [nextAt_NIL] at head
  rw [head]
  cases shape : q side price with
  | nil => simp
  | cons i is => simpa using queued.ne_NIL (shape ▸ List.mem_cons_self : i ∈ q side price)

/-- The tail is the sentinel exactly for a missing level. -/
theorem tail_eq_NIL_iff (queued : book.Queued q) (side : Side) (price : Int) :
    (book.level side price).tail = NIL ↔ q side price = [] := by
  have tail := (queued.rings side price).tail
  rw [prevAt_NIL] at tail
  rw [tail]
  cases shape : q side price using List.reverseRecOn with
  | nil => simp
  | append_singleton is i =>
    have member : i ∈ q side price := by simp [shape]
    simpa using queued.ne_NIL member

theorem getElem?_of_ne_nil (queued : book.Queued q) {side : Side} {price : Int}
    (nonempty : q side price ≠ []) :
    (book.sideLevels side)[price]? = some (book.level side price) := by
  have mem := (queued.present side price).mpr nonempty
  rw [Std.ExtTreeMap.mem_iff_isSome_getElem?, Option.isSome_iff_exists] at mem
  obtain ⟨lv, found⟩ := mem
  simp [level, found]

/-- The new level and its queue replace the old ones; every other queue keeps its nodes. This is
the part of the invariant that splicing an order in and splicing one out have in common. -/
theorem rebuild (queued : book.Queued q) {book' : OrderBook} {side : Side} {price : Int}
    {lv : Level} {l : List Nat} (valid : book'.pool.Valid)
    (ids : ∀ id i, book'.orders[id]? = some i ↔ ∃ o, book'.pool.orderAt i = some o ∧ o.id = id)
    (members : ∀ s p i, i ∈ setAt q side price l s p ↔
      ∃ o, book'.pool.orderAt i = some o ∧ o.side = s ∧ o.price = p)
    (nodup : l.Nodup) (ring : Ring (nextAt book'.pool lv) (prevAt book'.pool lv) NIL l)
    (count : lv.orderCount = l.length) (levels : book'.level = setAt book.level side price lv)
    (present : ∀ s p, p ∈ book'.sideLevels s ↔ setAt q side price l s p ≠ [])
    (elsewhere : ∀ s p i, ¬(s = side ∧ p = price) → i ∈ q s p →
      book'.pool.get i = book.pool.get i) :
    book'.Queued (setAt q side price l) := by
  refine ⟨valid, ids, members, ?_, ?_, ?_, present⟩
  -- per side and price: the touched queue from the hypotheses, the others from the old book
  · intro s p
    unfold setAt
    split
    · exact nodup
    · exact queued.nodup s p
  · intro s p
    rw [levels]
    by_cases same : s = side ∧ p = price
    · obtain ⟨rfl, rfl⟩ := same
      simpa only [setAt_same] using ring
    · rw [setAt_other q l same, setAt_other book.level lv same]
      -- the links of another queue are read at its own members and at the sentinel
      apply (queued.rings s p).congr
      · intro i member
        rcases List.mem_cons.mp member with rfl | inside
        · rw [nextAt_NIL, nextAt_NIL]
        · simp only [nextAt, elsewhere s p i same inside]
      · intro i member
        rcases List.mem_cons.mp member with rfl | inside
        · rw [prevAt_NIL, prevAt_NIL]
        · simp only [prevAt, elsewhere s p i same inside]
  · intro s p
    rw [levels]
    by_cases same : s = side ∧ p = price
    · obtain ⟨rfl, rfl⟩ := same
      simpa only [setAt_same] using count
    · rw [setAt_other q l same, setAt_other book.level lv same]
      exact queued.counts s p

end Queued

end OrderBook

end Hftrs.Orderbook
