import Hftrs.Orderbook.Queues

/-! What splicing an order out of its level, and splicing one in, do to the queues. -/
namespace Hftrs.Orderbook

open Hftrs.Library

namespace OrderBook

variable {book : OrderBook} {q : Side → Int → List Nat}

/-- Writing to a neighbour that may be the sentinel. `get NIL` is `none` in a valid pool, so the
two cases of the source read as one. -/
theorem relink_spec {pool : Pool Order} (valid : pool.Valid) (target : Nat)
    (write : Node Order → Node Order) (safe : target = NIL ∨ ∃ n, pool.get target = some n) :
    ∃ pool', (if target ≠ NIL then pool.getMut target write else some pool) = some pool' ∧
      pool'.Valid ∧ pool'.slots.length = pool.slots.length ∧
      ∀ i, pool'.get i = if i = target then (pool.get i).map write else pool.get i := by
  by_cases sentinel : target = NIL
  · refine ⟨pool, by simp [sentinel], valid, rfl, fun i => ?_⟩
    split
    -- no node sits at the sentinel, so writing to it would change nothing
    next same =>
      cases found : pool.get i with
      | none => rfl
      | some n => exact absurd (same.trans sentinel) (Nat.ne_of_lt (valid.lt_NIL found))
    next => rfl
  · obtain ⟨n, found⟩ := safe.resolve_left sentinel
    obtain ⟨pool', returned, valid', get', length'⟩ := Pool.getMut_spec write valid found
    refine ⟨pool', by rw [if_pos sentinel, returned], valid', length', fun i => ?_⟩
    rw [get']
    by_cases same : i = target
    · subst i
      simp [found]
    · simp [same]

/-! ### Unlinking -/

/-- What `unlink` makes of a book: the slot leaves its queue and its level gives up the
remaining quantity, or the whole level goes when the queue is empty. -/
structure Unlinked (book : OrderBook) (q : Side → Int → List Nat) (idx : Nat) (order : Order)
    (book' : OrderBook) : Prop where
  queued : book'.Queued (setAt q order.side order.price ((q order.side order.price).erase idx))
  orders : book'.orders = book.orders.erase order.id
  orderAt : ∀ i, book'.pool.orderAt i = if i = idx then none else book.pool.orderAt i
  total : (book'.level order.side order.price).totalQty =
    if (q order.side order.price).erase idx = [] then 0
    else (book.level order.side order.price).totalQty - order.qty
  totals : ∀ s p, ¬(s = order.side ∧ p = order.price) →
    (book'.level s p).totalQty = (book.level s p).totalQty
  slots : book'.pool.slots.length = book.pool.slots.length

/-- The neighbours of a queued slot, as its node records them. -/
private theorem node_neighbours (queued : book.Queued q) {idx : Nat} {node : Node Order}
    (found : book.pool.get idx = some node) {l₁ l₂ : List Nat}
    (shape : q node.order.side node.order.price = l₁ ++ idx :: l₂) :
    node.prev = l₁.getLastD NIL ∧ node.next = l₂.headD NIL := by
  have ring := queued.rings node.order.side node.order.price
  rw [shape] at ring
  have notNIL : idx ≠ NIL := queued.ne_NIL (queued.mem_queue found)
  have neighbours := ring.neighbours
  simpa [prevAt, nextAt, notNIL, found] using neighbours

/-- The neighbours are the sentinel or in the queue of the slot. -/
private theorem neighbours_mem (queued : book.Queued q) {idx : Nat} {node : Node Order}
    (found : book.pool.get idx = some node) :
    node.prev ∈ NIL :: q node.order.side node.order.price ∧
      node.next ∈ NIL :: q node.order.side node.order.price := by
  obtain ⟨l₁, l₂, shape⟩ := List.append_of_mem (queued.mem_queue found)
  obtain ⟨before, after⟩ := node_neighbours queued found shape
  rw [shape, before, after]
  constructor
  · exact List.cons_subset_cons NIL (List.subset_append_left l₁ _) (getLastD_mem NIL l₁)
  · have right : l₂ ⊆ l₁ ++ idx :: l₂ := fun i member => by simp [member]
    exact List.cons_subset_cons NIL right (headD_mem NIL l₂)

/-- A slot is not its own neighbour. -/
theorem Queued.neighbours_ne (queued : book.Queued q) {idx : Nat} {node : Node Order}
    (found : book.pool.get idx = some node) : idx ≠ node.prev ∧ idx ≠ node.next := by
  obtain ⟨l₁, l₂, shape⟩ := List.append_of_mem (queued.mem_queue found)
  obtain ⟨before, after⟩ := node_neighbours queued found shape
  have prevMem : node.prev ∈ NIL :: l₁ := before ▸ getLastD_mem NIL l₁
  have nextMem : node.next ∈ NIL :: l₂ := after ▸ headD_mem NIL l₂
  have nodup := queued.nodup_sentinel node.order.side node.order.price
  rw [shape] at nodup
  have middle : (NIL :: l₁ ++ idx :: l₂).Nodup := nodup
  have apart : idx ∉ NIL :: l₁ ++ l₂ := (List.nodup_cons.mp (List.nodup_middle.mp middle)).1
  constructor
  · exact fun same => apart (List.mem_append_left _ (same ▸ prevMem))
  · intro same
    rcases List.mem_cons.mp nextMem with sentinel | inside
    · exact apart (by simp [same, sentinel])
    · exact apart (List.mem_append_right _ (same ▸ inside))

/-- No slot of another queue is a neighbour. -/
private theorem elsewhere (queued : book.Queued q) {idx i : Nat} {node : Node Order}
    (found : book.pool.get idx = some node) {s : Side} {p : Int} (inside : i ∈ q s p)
    (other : ¬(s = node.order.side ∧ p = node.order.price)) : i ≠ node.prev ∧ i ≠ node.next := by
  have apart : i ∉ NIL :: q node.order.side node.order.price := by
    intro member
    rcases List.mem_cons.mp member with sentinel | same
    · exact queued.ne_NIL inside sentinel
    · exact other (queued.unique inside same)
  obtain ⟨prevMem, nextMem⟩ := neighbours_mem queued found
  constructor
  · intro same; exact apart (same ▸ prevMem)
  · intro same; exact apart (same ▸ nextMem)

/-- The id map still addresses the occupied slots when one entry and its slot go. -/
private theorem ids_erased (queued : book.Queued q) {idx : Nat} {node : Node Order}
    (found : book.pool.get idx = some node) (pool : Pool Order)
    (orderAt : ∀ i, pool.orderAt i = if i = idx then none else book.pool.orderAt i)
    (id i : Nat) :
    (book.orders.erase node.order.id)[id]? = some i ↔
      ∃ o, pool.orderAt i = some o ∧ o.id = id := by
  have own : book.orders[node.order.id]? = some idx :=
    (queued.ids _ _).mpr ⟨node.order, Pool.orderAt_of_get found, rfl⟩
  rw [orderAt, Std.ExtTreeMap.getElem?_erase]
  simp only [Std.LawfulEqCmp.compare_eq_iff_eq]
  by_cases same : i = idx
  · subst i
    simp only [if_true, reduceCtorEq, false_and, exists_false, iff_false]
    split
    next => simp
    next ne =>
      -- another id at the freed slot would be the id of its order
      intro stale
      obtain ⟨o, here, rfl⟩ := (queued.ids _ _).mp stale
      rw [Pool.orderAt_of_get found] at here
      cases here
      exact ne rfl
  · rw [if_neg same, ← queued.ids]
    split
    next equal =>
      subst id
      rw [own]
      simp [Ne.symm same]
    next => exact Iff.rfl

/-- The queues still partition the occupied slots when one slot goes. -/
private theorem members_erased (queued : book.Queued q) {idx : Nat} {node : Node Order}
    (found : book.pool.get idx = some node) (pool : Pool Order)
    (orderAt : ∀ i, pool.orderAt i = if i = idx then none else book.pool.orderAt i)
    (s : Side) (p : Int) (i : Nat) :
    i ∈ setAt q node.order.side node.order.price
        ((q node.order.side node.order.price).erase idx) s p ↔
      ∃ o, pool.orderAt i = some o ∧ o.side = s ∧ o.price = p := by
  have member := queued.mem_queue found
  have split : i ∈ setAt q node.order.side node.order.price
      ((q node.order.side node.order.price).erase idx) s p ↔ i ≠ idx ∧ i ∈ q s p := by
    by_cases same : s = node.order.side ∧ p = node.order.price
    · obtain ⟨rfl, rfl⟩ := same
      rw [setAt_same, (queued.nodup _ _).mem_erase_iff]
    · rw [setAt_other _ _ same]
      have apart := queued.not_mem_other member same
      exact ⟨fun inside => ⟨ne_of_mem_of_not_mem inside apart, inside⟩, And.right⟩
  rw [split, orderAt, queued.members]
  by_cases same : i = idx
  · simp [same]
  · simp [same]

/-- The ring that is left once the neighbours are relinked and the level's ends adjusted. -/
private theorem ring_unlinked (queued : book.Queued q) {idx : Nat} {node : Node Order}
    (found : book.pool.get idx = some node) {l₁ l₂ : List Nat}
    (shape : q node.order.side node.order.price = l₁ ++ idx :: l₂) (pool : Pool Order) (lv : Level)
    (nodes : ∀ i, i ≠ idx → pool.get i = (book.pool.get i).map fun n =>
      { n with
        next := if i = node.prev then node.next else n.next
        prev := if i = node.next then node.prev else n.prev })
    (head : lv.head = if (book.level node.order.side node.order.price).head = idx then node.next
      else (book.level node.order.side node.order.price).head)
    (tail : lv.tail = if (book.level node.order.side node.order.price).tail = idx then node.prev
      else (book.level node.order.side node.order.price).tail) :
    Ring (nextAt pool lv) (prevAt pool lv) NIL (l₁ ++ l₂) := by
  have ring := queued.rings node.order.side node.order.price
  have nodup := queued.nodup_sentinel node.order.side node.order.price
  have inQueue {i : Nat} (member : i ∈ l₁ ++ l₂) : i ∈ q node.order.side node.order.price := by
    rw [shape]
    rcases List.mem_append.mp member with left | right
    · exact List.mem_append_left _ left
    · exact List.mem_append_right _ (List.mem_cons_of_mem _ right)
  have notNIL : idx ≠ NIL := queued.ne_NIL (queued.mem_queue found)
  have prevIdx :
      prevAt book.pool (book.level node.order.side node.order.price) idx = node.prev := by
    simp [prevAt, notNIL, found]
  have nextIdx :
      nextAt book.pool (book.level node.order.side node.order.price) idx = node.next := by
    simp [nextAt, notNIL, found]
  rw [shape] at ring nodup
  have apart : idx ∉ l₁ ++ l₂ :=
    (List.nodup_cons.mp (List.nodup_middle.mp (List.nodup_cons.mp nodup).2)).1
  have headMoves := ring.head_iff nodup
  have tailMoves := ring.tail_iff nodup
  -- the ring of the level with the slot unlinked, to be compared with the new links node by node
  have spliced := ring.unlink nodup
  rw [nextAt_NIL, prevIdx] at headMoves
  rw [prevAt_NIL, nextIdx] at tailMoves
  rw [prevIdx, nextIdx] at spliced
  apply spliced.congr
  · intro i member
    rw [Function.update_apply]
    rcases List.mem_cons.mp member with rfl | inside
    · -- the head moves exactly when the order had no predecessor
      simp only [nextAt_NIL, head, headMoves, eq_comm (a := NIL)]
    · have ne : i ≠ idx := fun same => apart (same ▸ inside)
      have inner : i ≠ NIL := queued.ne_NIL (inQueue inside)
      obtain ⟨n, old, _⟩ := queued.occupied (inQueue inside)
      simp [nextAt, inner, nodes i ne, old]
  · intro i member
    rw [Function.update_apply]
    rcases List.mem_cons.mp member with rfl | inside
    · -- the tail moves exactly when the order had no successor
      simp only [prevAt_NIL, tail, tailMoves, eq_comm (a := NIL)]
    · have ne : i ≠ idx := fun same => apart (same ▸ inside)
      have inner : i ≠ NIL := queued.ne_NIL (inQueue inside)
      obtain ⟨n, old, _⟩ := queued.occupied (inQueue inside)
      simp [prevAt, inner, nodes i ne, old]

/-- The pool half of `unlink`: relink the neighbours of a queued slot and free it. -/
private theorem unlink_pool (profile : Profile) (queued : book.Queued q) {idx : Nat}
    {node : Node Order} (found : book.pool.get idx = some node) :
    ∃ pool₁ pool₂ pool₃,
      (if node.prev ≠ NIL then book.pool.getMut node.prev fun n => { n with next := node.next }
        else some book.pool) = some pool₁ ∧
      (if node.next ≠ NIL then pool₁.getMut node.next fun n => { n with prev := node.prev }
        else some pool₁) = some pool₂ ∧
      pool₂.free profile idx = some pool₃ ∧ pool₃.Valid ∧
      pool₃.slots.length = book.pool.slots.length ∧ pool₃.get idx = none ∧
      ∀ i, i ≠ idx → pool₃.get i = (book.pool.get i).map fun n =>
        { n with
          next := if i = node.prev then node.next else n.next
          prev := if i = node.next then node.prev else n.prev } := by
  have member := queued.mem_queue found
  obtain ⟨l₁, l₂, shape⟩ := List.append_of_mem member
  obtain ⟨before, after⟩ := node_neighbours queued found shape
  -- both neighbours are the sentinel or queued
  have prevMem : node.prev ∈ NIL :: l₁ := before ▸ getLastD_mem NIL l₁
  have nextMem : node.next ∈ NIL :: l₂ := after ▸ headD_mem NIL l₂
  have safe {j : Nat} {l : List Nat} (inside : j ∈ NIL :: l)
      (subset : ∀ i ∈ l, i ∈ q node.order.side node.order.price) :
      j = NIL ∨ ∃ n, book.pool.get j = some n := by
    refine (List.mem_cons.mp inside).imp_right fun queuedAt => ?_
    obtain ⟨n, old, _⟩ := queued.occupied (subset j queuedAt)
    exact ⟨n, old⟩
  have safePrev := safe prevMem (fun i inside => by rw [shape]; simp [inside])
  have safeNext := safe nextMem (fun i inside => by rw [shape]; simp [inside])
  obtain ⟨notPrev, notNext⟩ := queued.neighbours_ne found
  obtain ⟨pool₁, linked₁, valid₁, slots₁, get₁⟩ :=
    relink_spec queued.pool node.prev (fun n => { n with next := node.next }) safePrev
  have safeNext₁ : node.next = NIL ∨ ∃ n, pool₁.get node.next = some n := by
    refine safeNext.imp_right ?_
    rintro ⟨n, old⟩
    rw [get₁, old]
    split
    · exact ⟨_, rfl⟩
    · exact ⟨_, rfl⟩
  obtain ⟨pool₂, linked₂, valid₂, slots₂, get₂⟩ :=
    relink_spec valid₁ node.next (fun n => { n with prev := node.prev }) safeNext₁
  -- neither write reached the slot itself, which is still there to be freed
  have kept : pool₂.get idx = some node := by
    rw [get₂, if_neg notNext, get₁, if_neg notPrev, found]
  obtain ⟨pool₃, freed, valid₃, get₃, slots₃⟩ := Pool.free_spec profile valid₂ kept
  refine ⟨pool₁, pool₂, pool₃, linked₁, linked₂, freed, valid₃,
    slots₃.trans (slots₂.trans slots₁), by rw [get₃, Function.update_self], fun i ne => ?_⟩
  rw [get₃, Function.update_of_ne ne, get₂, get₁]
  cases book.pool.get i with
  | none => simp
  | some n => by_cases isNext : i = node.next <;> by_cases isPrev : i = node.prev <;> simp_all

/-- `unlink` of an occupied slot does not panic, and does exactly this. -/
theorem unlink_spec (profile : Profile) (queued : book.Queued q) {idx : Nat} {node : Node Order}
    (found : book.pool.get idx = some node) :
    ∃ book', book.unlink profile idx = some book' ∧ book.Unlinked q idx node.order book' := by
  have member := queued.mem_queue found
  obtain ⟨l₁, l₂, _, shape, erased⟩ := List.exists_erase_eq member
  have nodup := queued.nodup node.order.side node.order.price
  obtain ⟨pool₁, pool₂, pool₃, linked₁, linked₂, freed, valid₃, slots₃, gone, nodes⟩ :=
    unlink_pool profile queued found
  have orderAt (i : Nat) :
      pool₃.orderAt i = if i = idx then none else book.pool.orderAt i := by
    split
    next same => simp [Pool.orderAt, gone, same]
    next ne => simp [Pool.orderAt, nodes i ne, Function.comp_def]
  -- the level exists and counts the slot that goes
  have stored := queued.getElem?_of_ne_nil (List.ne_nil_of_mem member)
  have count := queued.counts node.order.side node.order.price
  have lengths : (q node.order.side node.order.price).length = (l₁ ++ l₂).length + 1 := by
    rw [shape]
    simp only [List.length_append, List.length_cons]
    omega
  have fewer : Profile.sub profile 32 (book.level node.order.side node.order.price).orderCount 1 =
      some (l₁ ++ l₂).length := by
    rw [profile.sub_eq (by omega), count, lengths, Nat.add_sub_cancel]
  obtain ⟨lv, level⟩ : ∃ lv : Level, lv =
      { head := if (book.level node.order.side node.order.price).head = idx then node.next
          else (book.level node.order.side node.order.price).head
        tail := if (book.level node.order.side node.order.price).tail = idx then node.prev
          else (book.level node.order.side node.order.price).tail
        totalQty := (book.level node.order.side node.order.price).totalQty - node.order.qty
        orderCount := (l₁ ++ l₂).length } := ⟨_, rfl⟩
  have ring : Ring (nextAt pool₃ lv) (prevAt pool₃ lv) NIL (l₁ ++ l₂) :=
    ring_unlinked queued found shape pool₃ lv nodes (by rw [level]) (by rw [level])
  -- the code asks the new head, which is the sentinel exactly when no slot is left
  have emptied : lv.isEmpty = decide (l₁ ++ l₂ = []) := by
    have head := nextAt_NIL pool₃ lv ▸ ring.head
    rw [Level.isEmpty, head]
    cases rest : l₁ ++ l₂ with
    | nil => simp
    | cons i is =>
      have inside : i ∈ q node.order.side node.order.price :=
        List.mem_of_mem_erase (erased ▸ rest ▸ List.mem_cons_self : i ∈ _)
      simp [queued.ne_NIL inside]
  obtain ⟨book', result⟩ : ∃ book' : OrderBook, book' =
      { book.setSideLevels node.order.side
          (if lv.isEmpty then (book.sideLevels node.order.side).erase node.order.price
            else (book.sideLevels node.order.side).insert node.order.price lv) with
        orders := book.orders.erase node.order.id
        pool := pool₃ } := ⟨_, rfl⟩
  have levels : book'.level = setAt book.level node.order.side node.order.price
      (if l₁ ++ l₂ = [] then Level.empty else lv) := by
    rw [result, level_with, emptied]
    by_cases last : l₁ ++ l₂ = []
    · simp only [last, decide_true, if_true, level_erase]
    · simp only [last, decide_false, if_false, Bool.false_eq_true, level_insert]
  have pool' : book'.pool = pool₃ := by rw [result]
  have here : book'.level node.order.side node.order.price =
      if l₁ ++ l₂ = [] then Level.empty else lv := by rw [levels, setAt_same]
  refine ⟨book', ?_, ?_, by rw [result], ?_, ?_, ?_, by rw [pool', slots₃]⟩
  -- the call runs through and returns this book
  · simp only [unlink, found, linked₁, linked₂, freed, stored, fewer, ← level, result,
      Option.bind_eq_bind, Option.bind_some, Option.pure_def]
  · rw [erased]
    apply queued.rebuild (by rw [pool']; exact valid₃) _ _ (erased ▸ nodup.erase idx) _ _ levels
    -- the price stays a key while a slot is left in its queue
    · intro s p
      rw [result, sideLevels_with, emptied]
      by_cases same : s = node.order.side ∧ p = node.order.price
      · obtain ⟨rfl, rfl⟩ := same
        rw [setAt_same]
        by_cases last : l₁ ++ l₂ = []
        · simp [last, mem_erase_iff]
        · simp only [last, decide_false, Bool.false_eq_true, if_false, mem_insert_iff, and_self,
            true_or, not_false_eq_true, ne_eq]
      · rw [setAt_other _ _ same, ← queued.present]
        by_cases last : l₁ ++ l₂ = []
        · simp only [last, decide_true, if_true, mem_erase_iff, same, not_false_eq_true, true_and]
        · simp only [last, decide_false, Bool.false_eq_true, if_false, mem_insert_iff, same,
            false_or]
    -- the slots of other queues are neither the slot nor its neighbours
    · intro s p i other inside
      have ne : i ≠ idx := ne_of_mem_of_not_mem inside (queued.not_mem_other member other)
      obtain ⟨notPrev, notNext⟩ := elsewhere queued found inside other
      rw [pool', nodes i ne]
      simp only [notPrev, notNext, if_false]
      exact Option.map_id_apply
    · rw [pool', result]; exact ids_erased queued found pool₃ orderAt
    · rw [pool', ← erased]; exact members_erased queued found pool₃ orderAt
    · split
      next last => rw [last]; exact ⟨⟨nextAt_NIL _ _, trivial⟩, ⟨prevAt_NIL _ _, trivial⟩⟩
      next => rw [pool']; exact ring
    · split
      next last => rw [last]; rfl
      next => rw [level]
  · rw [pool']; exact orderAt
  · rw [here, erased]
    split
    · rfl
    · rw [level]
  · intro s p other
    rw [levels, setAt_other _ _ other]

/-! ### Appending -/

/-- What `add` makes of a book: a fresh slot joins the tail of its queue and its level gains
the quantity. -/
structure Appended (book : OrderBook) (q : Side → Int → List Nat) (idx : Nat) (order : Order)
    (book' : OrderBook) : Prop where
  queued : book'.Queued (setAt q order.side order.price (q order.side order.price ++ [idx]))
  fresh : book.pool.orderAt idx = none
  orders : book'.orders = book.orders.insert order.id idx
  orderAt : ∀ i, book'.pool.orderAt i = if i = idx then some order else book.pool.orderAt i
  total : (book'.level order.side order.price).totalQty =
    (book.level order.side order.price).totalQty + order.qty
  totals : ∀ s p, ¬(s = order.side ∧ p = order.price) →
    (book'.level s p).totalQty = (book.level s p).totalQty

/-- The tail of a level is the sentinel or in its queue. -/
private theorem tail_mem (queued : book.Queued q) (side : Side) (price : Int) :
    (book.level side price).tail ∈ NIL :: q side price := by
  have tail := (queued.rings side price).tail
  rw [prevAt_NIL] at tail
  rw [tail]
  exact getLastD_mem NIL _

/-- The pool half of `add`: allocate a node behind the old tail and link the old tail to it. -/
private theorem append_pool (profile : Profile) (queued : book.Queued q) (order : Order)
    (room : book.pool.HasRoom) :
    ∃ idx pool₁ pool₂,
      book.pool.alloc profile
        { order, prev := (book.level order.side order.price).tail, next := NIL } =
          some (idx, pool₁) ∧
      (if (book.level order.side order.price).tail ≠ NIL then
          pool₁.getMut (book.level order.side order.price).tail fun n => { n with next := idx }
        else some pool₁) = some pool₂ ∧
      pool₂.Valid ∧ book.pool.get idx = none ∧
      pool₂.get idx =
        some { order, prev := (book.level order.side order.price).tail, next := NIL } ∧
      ∀ i, i ≠ idx → pool₂.get i = (book.pool.get i).map fun n =>
        { n with
          next := if i = (book.level order.side order.price).tail then idx else n.next } := by
  obtain ⟨idx, pool₁, allocated, fits⟩ := Pool.alloc_progress profile
    { order, prev := (book.level order.side order.price).tail, next := NIL } queued.pool room
  obtain ⟨valid₁, fresh, get₁⟩ := Pool.alloc_spec queued.pool allocated fits
  have tailMem := tail_mem queued order.side order.price
  have notNIL : idx ≠ NIL := by
    have occupied : (pool₁.get idx).isSome := by rw [get₁, Function.update_self]; rfl
    obtain ⟨n, found⟩ := Option.isSome_iff_exists.mp occupied
    exact Nat.ne_of_lt (valid₁.lt_NIL found)
  -- the old tail is the sentinel or an occupied slot, and so not the fresh one
  have apart : (book.level order.side order.price).tail ≠ idx := by
    intro same
    rcases List.mem_cons.mp tailMem with sentinel | inside
    · exact notNIL (same.symm.trans sentinel)
    · obtain ⟨n, found, _⟩ := queued.occupied inside
      rw [same, fresh] at found
      cases found
  have safe : (book.level order.side order.price).tail = NIL ∨
      ∃ n, pool₁.get (book.level order.side order.price).tail = some n := by
    refine (List.mem_cons.mp tailMem).imp_right fun inside => ?_
    obtain ⟨n, found, _⟩ := queued.occupied inside
    exact ⟨n, by rw [get₁, Function.update_of_ne apart, found]⟩
  obtain ⟨pool₂, linked, valid₂, _, get₂⟩ :=
    relink_spec valid₁ _ (fun n => { n with next := idx }) safe
  refine ⟨idx, pool₁, pool₂, allocated, linked, valid₂, fresh, ?_, ?_⟩
  · rw [get₂, if_neg (Ne.symm apart), get₁, Function.update_self]
  · intro i ne
    rw [get₂, get₁, Function.update_of_ne ne]
    split
    next => rfl
    next => exact Option.map_id_apply.symm

/-- The ring once the fresh slot is linked behind the old tail. -/
private theorem ring_appended (queued : book.Queued q) {side : Side} {price : Int} {idx : Nat}
    {node : Node Order} (fresh : book.pool.get idx = none) (pool : Pool Order) (lv : Level)
    (valid : pool.Valid) (new : pool.get idx = some node) (next : node.next = NIL)
    (prev : node.prev = (book.level side price).tail)
    (nodes : ∀ i, i ≠ idx → pool.get i = (book.pool.get i).map fun n =>
      { n with next := if i = (book.level side price).tail then idx else n.next })
    (head : lv.head = if (book.level side price).head = NIL then idx
      else (book.level side price).head)
    (tail : lv.tail = idx) :
    Ring (nextAt pool lv) (prevAt pool lv) NIL (q side price ++ [idx]) := by
  have ring := queued.rings side price
  have notNIL : idx ≠ NIL := Nat.ne_of_lt (valid.lt_NIL new)
  have outside : idx ∉ NIL :: q side price := by
    intro member
    obtain ⟨n, found, _⟩ := queued.occupied ((List.mem_cons.mp member).resolve_left notNIL)
    rw [fresh] at found
    cases found
  have ends : (book.level side price).head = NIL ↔ (book.level side price).tail = NIL := by
    rw [queued.head_eq_NIL_iff, queued.tail_eq_NIL_iff]
  have appended := ring.append (queued.nodup_sentinel side price) outside
  rw [prevAt_NIL] at appended
  apply appended.congr
  · intro i member
    simp only [Function.update_apply]
    -- the new node, the sentinel whose link is the head, and the old members
    by_cases isNew : i = idx
    · subst i
      simp [nextAt, notNIL, new, next]
    by_cases sentinel : i = NIL
    · subst i
      -- the head changes exactly when the queue was empty, and so exactly when the tail was `NIL`
      rw [if_neg isNew, nextAt_NIL, nextAt_NIL, head]
      simp only [ends, eq_comm (a := NIL)]
    · have inside : i ∈ q side price := by simp_all
      obtain ⟨n, old, _⟩ := queued.occupied inside
      simp [nextAt, sentinel, isNew, nodes i isNew, old]
  · intro i member
    simp only [Function.update_apply]
    by_cases sentinel : i = NIL
    · simp [sentinel, prevAt_NIL, tail]
    by_cases isNew : i = idx
    · subst i
      simp [prevAt, notNIL, new, prev]
    · have inside : i ∈ q side price := by simp_all
      obtain ⟨n, old, _⟩ := queued.occupied inside
      simp [prevAt, sentinel, isNew, nodes i isNew, old]

/-- The id map addresses the occupied slots when a new id and a fresh slot join. -/
private theorem ids_inserted (queued : book.Queued q) {idx : Nat} {order : Order}
    (fresh : book.pool.orderAt idx = none) (new : order.id ∉ book.orders) (pool : Pool Order)
    (orderAt : ∀ i, pool.orderAt i = if i = idx then some order else book.pool.orderAt i)
    (id i : Nat) :
    (book.orders.insert order.id idx)[id]? = some i ↔
      ∃ o, pool.orderAt i = some o ∧ o.id = id := by
  rw [orderAt, Std.ExtTreeMap.getElem?_insert]
  simp only [Std.LawfulEqCmp.compare_eq_iff_eq]
  by_cases same : i = idx
  · subst i
    simp only [if_true, Option.some.injEq, exists_eq_left']
    split
    next equal => simp [equal]
    next ne =>
      simp only [ne, iff_false]
      intro stale
      obtain ⟨o, here, _⟩ := (queued.ids id idx).mp stale
      rw [fresh] at here
      cases here
  · rw [if_neg same, ← queued.ids]
    split
    next equal =>
      subst id
      rw [Std.ExtTreeMap.getElem?_eq_none new]
      simp [Ne.symm same]
    next => exact Iff.rfl

/-- The queues partition the occupied slots when a fresh slot joins one of them. -/
private theorem members_appended (queued : book.Queued q) {idx : Nat} {order : Order}
    (fresh : book.pool.orderAt idx = none) (pool : Pool Order)
    (orderAt : ∀ i, pool.orderAt i = if i = idx then some order else book.pool.orderAt i)
    (s : Side) (p : Int) (i : Nat) :
    i ∈ setAt q order.side order.price (q order.side order.price ++ [idx]) s p ↔
      ∃ o, pool.orderAt i = some o ∧ o.side = s ∧ o.price = p := by
  rw [orderAt]
  by_cases same : s = order.side ∧ p = order.price
  · obtain ⟨rfl, rfl⟩ := same
    rw [setAt_same, List.mem_append, List.mem_singleton]
    by_cases isNew : i = idx
    · simp [isNew]
    · simp [isNew, queued.members]
  · rw [setAt_other _ _ same]
    by_cases isNew : i = idx
    · subst i
      simp only [if_true, Option.some.injEq, exists_eq_left']
      refine iff_of_false (queued.not_mem_fresh fresh s p) ?_
      rintro ⟨rfl, rfl⟩
      exact same ⟨rfl, rfl⟩
    · simp [isNew, queued.members]

/-- `add` of a new id within the range of the level's total does not panic, and does exactly
this. -/
theorem add_spec (profile : Profile) (queued : book.Queued q) (order : Order)
    (new : order.id ∉ book.orders) (room : book.pool.HasRoom)
    (fits : (book.level order.side order.price).totalQty + order.qty < 2 ^ 64) :
    ∃ idx book', book.add profile order = some (.ok (), book') ∧
      book.Appended q idx order book' := by
  obtain ⟨idx, pool₁, pool₂, allocated, linked, valid, fresh, here, nodes⟩ :=
    append_pool profile queued order room
  have count := queued.counts order.side order.price
  have short := queued.queue_length_lt room order.side order.price
  have unoccupied : book.pool.orderAt idx = none := by simp [Pool.orderAt, fresh]
  have orderAt (i : Nat) :
      pool₂.orderAt i = if i = idx then some order else book.pool.orderAt i := by
    split
    next same => simp [Pool.orderAt, here, same]
    next ne => simp [Pool.orderAt, nodes i ne, Function.comp_def]
  obtain ⟨lv, level⟩ : ∃ lv : Level, lv =
      { head := if (book.level order.side order.price).head = NIL then idx
          else (book.level order.side order.price).head
        tail := idx
        totalQty := (book.level order.side order.price).totalQty + order.qty
        orderCount := (book.level order.side order.price).orderCount + 1 } := ⟨_, rfl⟩
  have ring : Ring (nextAt pool₂ lv) (prevAt pool₂ lv) NIL (q order.side order.price ++ [idx]) :=
    ring_appended queued fresh pool₂ lv valid here rfl rfl nodes (by rw [level]) (by rw [level])
  obtain ⟨book', result⟩ : ∃ book' : OrderBook, book' =
      { book.setSideLevels order.side ((book.sideLevels order.side).insert order.price lv) with
        orders := book.orders.insert order.id idx
        pool := pool₂ } := ⟨_, rfl⟩
  have levels : book'.level = setAt book.level order.side order.price lv := by
    rw [result, level_with, level_insert]
  have pool' : book'.pool = pool₂ := by rw [result]
  refine ⟨idx, book', ?_, ?_, unoccupied, by rw [result], ?_, ?_, ?_⟩
  · have added : Profile.add profile 32 (book.level order.side order.price).orderCount 1 =
        some ((book.level order.side order.price).orderCount + 1) := by
      apply profile.add_eq
      unfold NIL at short
      omega
    -- an id that is not a key passes the duplicate check
    have contained : ¬book.orders.contains order.id = true := by
      rwa [← Std.ExtTreeMap.mem_iff_contains]
    rw [add, if_neg contained]
    simp only [tail_eq, allocated, linked, Option.bind_eq_bind, Option.bind_some, Option.pure_def]
    rw [show (book.sideLevels order.side)[order.price]?.getD Level.empty =
      book.level order.side order.price from rfl, profile.add_eq fits, added]
    simp only [Option.bind_some, result, level]
  · apply queued.rebuild (by rw [pool']; exact valid) _ _ _ (by rw [pool']; exact ring) _ levels
    · intro s p
      rw [result, sideLevels_with, mem_insert_iff]
      by_cases same : s = order.side ∧ p = order.price
      · obtain ⟨rfl, rfl⟩ := same
        simp
      · rw [setAt_other _ _ same, ← queued.present]
        simp [same]
    · intro s p i other inside
      -- the slots of other queues are not the old tail
      have notTail : i ≠ (book.level order.side order.price).tail := by
        intro same
        rcases List.mem_cons.mp (tail_mem queued order.side order.price) with sentinel | member
        · exact queued.ne_NIL inside (same.trans sentinel)
        · exact queued.not_mem_other member other (same ▸ inside)
      have old := ne_of_mem_of_not_mem inside (queued.not_mem_fresh unoccupied s p)
      rw [pool', nodes i old]
      simp only [notTail, if_false]
      exact Option.map_id_apply
    · rw [pool', result]; exact ids_inserted queued unoccupied new pool₂ orderAt
    · rw [pool']; exact members_appended queued unoccupied pool₂ orderAt
    · rw [← List.concat_eq_append]
      exact (queued.nodup _ _).concat (queued.not_mem_fresh unoccupied _ _)
    · rw [level, count, List.length_append, List.length_singleton]
  · rw [pool']; exact orderAt
  · rw [levels, setAt_same, level]
  · intro s p other
    rw [levels, setAt_other _ _ other]

/-! ### Adjusting -/

/-- What taking a quantity off a resting order makes of a book: the queues stay, one order has
`rest` left and its level has a new total. -/
structure Adjusted (book : OrderBook) (q : Side → Int → List Nat) (idx : Nat) (order : Order)
    (rest total : Nat) (book' : OrderBook) : Prop where
  queued : book'.Queued q
  orders : book'.orders = book.orders
  orderAt : ∀ i, book'.pool.orderAt i =
    if i = idx then some { order with qty := rest } else book.pool.orderAt i
  total : (book'.level order.side order.price).totalQty = total
  totals : ∀ s p, ¬(s = order.side ∧ p = order.price) →
    (book'.level s p).totalQty = (book.level s p).totalQty
  slots : book'.pool.slots.length = book.pool.slots.length

/-- Rewriting the quantity in a queued slot and the total of its level. -/
theorem adjust_spec (queued : book.Queued q) {idx : Nat} {node : Node Order}
    (found : book.pool.get idx = some node) (rest total : Nat) :
    ∃ pool', book.pool.getMut idx
        (fun n => { n with order := { n.order with qty := rest } }) = some pool' ∧
      pool'.get idx = some { node with order := { node.order with qty := rest } } ∧
      book.Adjusted q idx node.order rest total
        { book.setSideLevels node.order.side ((book.sideLevels node.order.side).insert
            node.order.price { book.level node.order.side node.order.price with
              totalQty := total }) with
          pool := pool' } := by
  obtain ⟨pool', written, valid, get, slots⟩ := Pool.getMut_spec
    (fun n => { n with order := { n.order with qty := rest } }) queued.pool found
  have orderAt (i : Nat) : pool'.orderAt i =
      if i = idx then some { node.order with qty := rest } else book.pool.orderAt i := by
    simp only [Pool.orderAt, get, Function.update_apply]
    split <;> rfl
  -- the node that is rewritten keeps its links
  have links (i : Nat) :
      (pool'.get i).map Node.next = (book.pool.get i).map Node.next ∧
        (pool'.get i).map Node.prev = (book.pool.get i).map Node.prev := by
    simp only [get, Function.update_apply]
    split
    next same => simp [same, found]
    next => simp
  have member := queued.mem_queue found
  obtain ⟨lv, level⟩ : ∃ lv : Level, lv =
      { book.level node.order.side node.order.price with totalQty := total } := ⟨_, rfl⟩
  have kept : setAt q node.order.side node.order.price (q node.order.side node.order.price) = q :=
    setAt_self q _ _
  rw [← level]
  obtain ⟨book', result⟩ : ∃ book' : OrderBook, book' =
      { book.setSideLevels node.order.side
          ((book.sideLevels node.order.side).insert node.order.price lv) with
        pool := pool' } := ⟨_, rfl⟩
  have levels : book'.level = setAt book.level node.order.side node.order.price lv := by
    rw [result, ← level_insert]
    exact level_with _ _ _
  have pool : book'.pool = pool' := by rw [result]
  refine ⟨pool', written, by rw [get, Function.update_self], ?_⟩
  rw [← result]
  refine ⟨?_, by simp [result], ?_, ?_, ?_, by rw [pool, slots]⟩
  -- the queues are the old ones, so this is a rebuild with the same queue at the price
  · rw [← kept]
    apply queued.rebuild (by rw [pool]; exact valid) _ _ (queued.nodup _ _) _ _ levels
    · intro s p
      rw [kept, ← queued.present, result]
      refine (mem_insert_iff book _ _ _ _ lv).trans (or_iff_right_of_imp ?_)
      rintro ⟨rfl, rfl⟩
      exact (queued.present _ _).mpr (List.ne_nil_of_mem member)
    · intro s p i other inside
      have ne : i ≠ idx := ne_of_mem_of_not_mem inside (queued.not_mem_other member other)
      rw [pool, get, Function.update_of_ne ne]
    · intro id i
      rw [show book'.orders = book.orders by simp [result], queued.ids, pool, orderAt]
      split
      next same => simp [same, Pool.orderAt_of_get found]
      next => exact Iff.rfl
    · intro s p i
      rw [kept, queued.members, pool, orderAt]
      split
      next same => simp [same, Pool.orderAt_of_get found]
      next => exact Iff.rfl
    · rw [pool]
      apply (queued.rings node.order.side node.order.price).congr
      · intro i _
        rw [nextAt, nextAt, (links i).1, level]
      · intro i _
        rw [prevAt, prevAt, (links i).2, level]
    · rw [level]; exact queued.counts _ _
  · rw [pool]; exact orderAt
  · rw [levels, setAt_same, level]
  · intro s p other
    rw [levels, setAt_other _ _ other]

end OrderBook

end Hftrs.Orderbook
