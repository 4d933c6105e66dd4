import Mathlib.Algebra.BigOperators.Group.List.Lemmas
import Mathlib.Algebra.Group.Action.Defs
import Mathlib.Algebra.Order.BigOperators.Group.List
import Mathlib.Algebra.Order.Ring.Nat
import Hftrs.Orderbook.Splice

/-! The aggregates of the book: every level's total is the sum over its queue.

Quantities come off the wire as `u32`, which keeps every sum of a `u64` total in range. -/
namespace Hftrs.Orderbook

/-- The quantity resting in a slot. -/
def Pool.qtyAt (pool : Pool Order) (i : Nat) : Nat := ((pool.orderAt i).map Order.qty).getD 0

theorem Pool.qtyAt_of_orderAt {pool : Pool Order} {i : Nat} {order : Order}
    (found : pool.orderAt i = some order) : pool.qtyAt i = order.qty := by
  rw [qtyAt, found]
  rfl

theorem Pool.map_qtyAt_congr {pool pool' : Pool Order} {l : List Nat}
    (same : ∀ i ∈ l, pool'.orderAt i = pool.orderAt i) :
    l.map pool'.qtyAt = l.map pool.qtyAt := by
  apply List.map_congr_left
  intro i inside
  rw [qtyAt, qtyAt, same i inside]

namespace OrderBook

/-- The structural invariant with its aggregates, for quantities of the wire's width. -/
structure Sound (book : OrderBook) (q : Side → Int → List Nat) : Prop extends Queued book q where
  totals : ∀ side price,
    (book.level side price).totalQty = ((q side price).map book.pool.qtyAt).sum
  wire : ∀ i o, book.pool.orderAt i = some o → o.qty ≤ maxValue 32

variable {book : OrderBook} {q : Side → Int → List Nat}

theorem sound_new : new.Sound fun _ _ => [] where
  pool := Pool.valid_withCapacity (1 <<< 16)
  ids := by intro id i; simp [new, withCapacity, Pool.withCapacity, Pool.orderAt, Pool.get]
  members := by
    intro side price i
    simp [new, withCapacity, Pool.withCapacity, Pool.orderAt, Pool.get]
  nodup _ _ := List.nodup_nil
  rings side price := by
    cases side <;> exact ⟨⟨nextAt_NIL _ _, trivial⟩, ⟨prevAt_NIL _ _, trivial⟩⟩
  counts side price := by cases side <;> rfl
  present side price := by cases side <;> simp [new, withCapacity, sideLevels]
  totals side price := by cases side <;> rfl
  wire := by simp [new, withCapacity, Pool.withCapacity, Pool.orderAt, Pool.get]

namespace Sound

/-- A level's total has room for one more order of the wire's width. -/
theorem total_bound (sound : book.Sound q) (room : book.pool.HasRoom) (side : Side)
    (price : Int) (qty : Nat) (wire : qty ≤ maxValue 32) :
    (book.level side price).totalQty + qty < 2 ^ 64 := by
  have each : ∀ x ∈ (q side price).map book.pool.qtyAt, x ≤ maxValue 32 := by
    intro x member
    obtain ⟨i, inside, rfl⟩ := List.mem_map.mp member
    obtain ⟨o, found, _⟩ := (sound.members side price i).mp inside
    rw [Pool.qtyAt_of_orderAt found]
    exact sound.wire i o found
  -- fewer than 2 ^ 32 orders of at most 2 ^ 32 - 1 each
  have sum := List.sum_le_card_nsmul _ _ each
  rw [List.length_map, smul_eq_mul] at sum
  have short : (q side price).length ≤ NIL - 1 :=
    Nat.le_sub_one_of_lt (sound.queue_length_lt room side price)
  have product := Nat.mul_le_mul_right (maxValue 32) short
  rw [sound.totals]
  unfold NIL at product
  unfold maxValue at *
  omega

theorem unlink (profile : Profile) (sound : book.Sound q) {idx : Nat} {node : Node Order}
    (found : book.pool.get idx = some node) :
    ∃ book', book.unlink profile idx = some book' ∧ book.Unlinked q idx node.order book' ∧
      book'.Sound
        (setAt q node.order.side node.order.price
          ((q node.order.side node.order.price).erase idx)) := by
  obtain ⟨book', returned, spliced⟩ := unlink_spec profile sound.toQueued found
  have member := sound.mem_queue found
  refine ⟨book', returned, spliced, spliced.queued, ?_, ?_⟩
  · intro s p
    by_cases same : s = node.order.side ∧ p = node.order.price
    · obtain ⟨rfl, rfl⟩ := same
      have taken := List.sum_map_erase book.pool.qtyAt member
      rw [Pool.qtyAt_of_orderAt (Pool.orderAt_of_get found)] at taken
      have apart := (sound.nodup node.order.side node.order.price).not_mem_erase (a := idx)
      have others := Pool.orderAt_agree spliced.orderAt apart
      -- the total held the quantity, so the saturating subtraction is exact
      rw [setAt_same, spliced.total, sound.totals, ← taken, Nat.add_sub_cancel_left,
        Pool.map_qtyAt_congr others]
      split
      -- the last order takes the level with it
      next last => rw [last]; rfl
      next => rfl
    · have others := Pool.orderAt_agree spliced.orderAt (sound.not_mem_other member same)
      rw [setAt_other _ _ same, spliced.totals s p same, sound.totals, Pool.map_qtyAt_congr others]
  · intro i o here
    rw [spliced.orderAt] at here
    split at here
    next => cases here
    next => exact sound.wire i o here

theorem add (profile : Profile) (sound : book.Sound q) (order : Order)
    (fresh : order.id ∉ book.orders) (room : book.pool.HasRoom)
    (wire : order.qty ≤ maxValue 32) :
    ∃ idx book', book.add profile order = some (.ok (), book') ∧
      book.Appended q idx order book' ∧
      book'.Sound (setAt q order.side order.price (q order.side order.price ++ [idx])) := by
  obtain ⟨idx, book', returned, added⟩ := add_spec profile sound.toQueued order fresh room
    (sound.total_bound room order.side order.price order.qty wire)
  refine ⟨idx, book', returned, added, added.queued, ?_, ?_⟩
  · have own : book'.pool.qtyAt idx = order.qty :=
      Pool.qtyAt_of_orderAt (by rw [added.orderAt, if_pos rfl])
    have kept (s : Side) (p : Int) :
        (q s p).map book'.pool.qtyAt = (q s p).map book.pool.qtyAt :=
      Pool.map_qtyAt_congr
        (Pool.orderAt_agree added.orderAt (sound.not_mem_fresh added.fresh s p))
    intro s p
    by_cases same : s = order.side ∧ p = order.price
    · obtain ⟨rfl, rfl⟩ := same
      rw [setAt_same, added.total, sound.totals, List.map_append, List.sum_append, kept]
      simp [own]
    · rw [setAt_other _ _ same, added.totals s p same, sound.totals, kept]
  · intro i o here
    rw [added.orderAt] at here
    split at here
    next => cases here; exact wire
    next => exact sound.wire i o here

theorem adjust (sound : book.Sound q) {idx : Nat} {node : Node Order} {book' : OrderBook}
    {taken : Nat} (found : book.pool.get idx = some node) (enough : taken ≤ node.order.qty)
    (adjusted : book.Adjusted q idx node.order (node.order.qty - taken)
      ((book.level node.order.side node.order.price).totalQty - taken) book') : book'.Sound q := by
  have member := sound.mem_queue found
  have own : book.pool.qtyAt idx = node.order.qty :=
    Pool.qtyAt_of_orderAt (Pool.orderAt_of_get found)
  have left : book'.pool.qtyAt idx = node.order.qty - taken :=
    Pool.qtyAt_of_orderAt (by rw [adjusted.orderAt, if_pos rfl])
  refine ⟨adjusted.queued, ?_, ?_⟩
  · intro s p
    by_cases same : s = node.order.side ∧ p = node.order.price
    · obtain ⟨rfl, rfl⟩ := same
      -- the sum of the others is the same before and after
      have apart := (sound.nodup node.order.side node.order.price).not_mem_erase (a := idx)
      have others := Pool.orderAt_agree adjusted.orderAt apart
      rw [adjusted.total, sound.totals, ← List.sum_map_erase book.pool.qtyAt member,
        ← List.sum_map_erase book'.pool.qtyAt member, Pool.map_qtyAt_congr others, own, left]
      omega
    · have others := Pool.orderAt_agree adjusted.orderAt (sound.not_mem_other member same)
      rw [adjusted.totals s p same, sound.totals, Pool.map_qtyAt_congr others]
  · intro i o here
    rw [adjusted.orderAt] at here
    split at here
    next =>
      cases here
      exact Nat.le_trans (Nat.sub_le _ _) (sound.wire idx _ (Pool.orderAt_of_get found))
    next => exact sound.wire i o here

/-- A queued order is part of its level's total. -/
theorem qty_le_total (sound : book.Sound q) {idx : Nat} {node : Node Order}
    (found : book.pool.get idx = some node) :
    node.order.qty ≤ (book.level node.order.side node.order.price).totalQty := by
  have taken := List.sum_map_erase book.pool.qtyAt (sound.mem_queue found)
  rw [Pool.qtyAt_of_orderAt (Pool.orderAt_of_get found)] at taken
  rw [sound.totals, ← taken]
  exact Nat.le_add_right _ _

end Sound

end OrderBook

end Hftrs.Orderbook
