import Hftrs.Orderbook.Refinement

/-! Whole runs of the book: its four structures stay consistent, and reading any level back
gives the reference book's queue. -/
namespace Hftrs.Orderbook

open Hftrs.Library

namespace OrderBook

/-! ### Walking a level -/

private theorem walk_of_path {T : Type} (pool : Pool T) (link : Node T → Nat) (f : Nat → Nat)
    (x : Nat) (l : List Nat) (fuel : Nat) (path : Path f x (l ++ [NIL]))
    (links : ∀ i ∈ l, i ≠ NIL ∧ ∃ n, pool.get i = some n ∧ f i = link n)
    (enough : l.length ≤ fuel) : pool.walk link fuel (f x) = some l := by
  -- one unit of fuel per slot; `f x` is the slot the walk is about to enter
  induction l generalizing x fuel with
  | nil =>
    rw [path.1]
    cases fuel <;> exact if_pos rfl
  | cons i is ih =>
    obtain ⟨arrives, onwards⟩ := path
    obtain ⟨notNIL, n, found, next⟩ := links i (by simp)
    cases fuel with
    | zero => simp at enough
    | succ fuel =>
      have rest := ih i fuel onwards (fun j member => links j (by simp [member]))
        (Nat.le_of_succ_le_succ enough)
      rw [next] at rest
      simp only [arrives, Pool.walk, if_neg notNIL, found, rest, Option.map_some]

variable {book : OrderBook} {q : Side → Int → List Nat}

/-- Walking a level forward from its head visits its queue. -/
theorem Queued.walk_next (queued : book.Queued q) (side : Side) (price : Int) :
    book.pool.walk Node.next book.pool.capacityUsed (book.level side price).head =
      some (q side price) := by
  rw [← nextAt_NIL book.pool]
  apply walk_of_path _ _ _ _ _ _ (queued.rings side price).forward
  · intro i member
    have notNIL := queued.ne_NIL member
    obtain ⟨n, found, _⟩ := queued.occupied member
    exact ⟨notNIL, n, found, by simp [nextAt, notNIL, found]⟩
  · exact queued.queue_length_le side price

/-- Walking a level backward from its tail visits its queue in reverse. -/
theorem Queued.walk_prev (queued : book.Queued q) (side : Side) (price : Int) :
    book.pool.walk Node.prev book.pool.capacityUsed (book.level side price).tail =
      some (q side price).reverse := by
  rw [← prevAt_NIL book.pool]
  apply walk_of_path _ _ _ _ _ _ (queued.rings side price).backward
  · intro i member
    rw [List.mem_reverse] at member
    have notNIL := queued.ne_NIL member
    obtain ⟨n, found, _⟩ := queued.occupied member
    exact ⟨notNIL, n, found, by simp [prevAt, notNIL, found]⟩
  · rw [List.length_reverse]
    exact queued.queue_length_le side price

/-! ### Integrity -/

/-- The level is a doubly linked list through the slots `l`, from its head to its tail. -/
structure Chain (pool : Pool Order) (level : Level) (l : List Nat) : Prop where
  forward : pool.walk Node.next pool.capacityUsed level.head = some l
  backward : pool.walk Node.prev pool.capacityUsed level.tail = some l.reverse
  first : l.head? = some level.head
  last : l.getLast? = some level.tail
  start : (pool.get level.head).map Node.prev = some NIL
  stop : (pool.get level.tail).map Node.next = some NIL

/-- The id map, the two price maps, the slots and the links agree, aggregates included. -/
structure Intact (book : OrderBook) : Prop where
  ids : ∀ id ∈ book.orders, ∃ idx node,
    book.orders[id]? = some idx ∧ book.pool.get idx = some node ∧ node.order.id = id
  slots : ∀ idx node, book.pool.get idx = some node → ∃! id : Nat, book.orders[id]? = some idx
  levels : ∀ side price level, (book.sideLevels side)[price]? = some level →
    level.isEmpty = false ∧ ∃ l : List Nat, l.Nodup ∧
      (∀ i, i ∈ l ↔ ∃ node, book.pool.get i = some node ∧
        node.order.side = side ∧ node.order.price = price) ∧
      Chain book.pool level l ∧ level.totalQty = (l.map book.pool.qtyAt).sum ∧
      level.orderCount = l.length
  live : ∀ idx node, book.pool.get idx = some node →
    node.order.price ∈ book.sideLevels node.order.side

/-- The link of a queued slot, read off its node. -/
private theorem link_of_queued (queued : book.Queued q) {side : Side} {price : Int} {i : Nat}
    (member : i ∈ q side price) :
    (book.pool.get i).map Node.prev = some (prevAt book.pool (book.level side price) i) ∧
      (book.pool.get i).map Node.next = some (nextAt book.pool (book.level side price) i) := by
  have notNIL := queued.ne_NIL member
  obtain ⟨n, found, _⟩ := queued.occupied member
  simp [prevAt, nextAt, notNIL, found]

theorem Queued.chain (queued : book.Queued q) (side : Side) (price : Int)
    (nonempty : q side price ≠ []) : Chain book.pool (book.level side price) (q side price) := by
  have ring := queued.rings side price
  have head := ring.head
  have tail := ring.tail
  rw [nextAt_NIL] at head
  rw [prevAt_NIL] at tail
  obtain ⟨i, is, front⟩ := List.exists_cons_of_ne_nil nonempty
  obtain ⟨js, j, back⟩ := (List.eq_nil_or_concat (q side price)).resolve_left nonempty
  rw [List.concat_eq_append] at back
  have isHead : (book.level side price).head = i := by rw [head, front]; rfl
  have isTail : (book.level side price).tail = j := by rw [tail, back]; simp
  refine ⟨queued.walk_next side price, queued.walk_prev side price, ?_, ?_, ?_, ?_⟩
  · rw [isHead, front]; rfl
  · rw [isTail, back]; simp
  · have inside : i ∈ q side price := by simp [front]
    -- the first slot has the sentinel before it
    have neighbours := (front ▸ ring : Ring _ _ NIL ([] ++ i :: is)).neighbours
    rw [isHead, (link_of_queued queued inside).1, neighbours.1]
    rfl
  · have inside : j ∈ q side price := by simp [back]
    -- the last slot has the sentinel behind it
    have neighbours := (back ▸ ring : Ring _ _ NIL (js ++ j :: [])).neighbours
    rw [isTail, (link_of_queued queued inside).2, neighbours.2]
    rfl

theorem Sound.intact (sound : book.Sound q) : book.Intact where
  ids := by
    intro id member
    rw [Std.ExtTreeMap.mem_iff_isSome_getElem?, Option.isSome_iff_exists] at member
    obtain ⟨idx, live⟩ := member
    obtain ⟨o, found, owner⟩ := (sound.ids id idx).mp live
    obtain ⟨node, get, rfl⟩ := (book.pool.orderAt_iff idx o).mp found
    exact ⟨idx, node, live, get, owner⟩
  slots := by
    intro idx node get
    have found := Pool.orderAt_of_get get
    refine ⟨node.order.id, (sound.ids _ idx).mpr ⟨node.order, found, rfl⟩, ?_⟩
    intro id live
    obtain ⟨o, same, rfl⟩ := (sound.ids id idx).mp live
    rw [found] at same
    cases same
    rfl
  levels := by
    intro side price level stored
    have nonempty : q side price ≠ [] := by
      rw [← sound.present, Std.ExtTreeMap.mem_iff_isSome_getElem?, stored]
      rfl
    have equal : level = book.level side price := by
      have whole := sound.getElem?_of_ne_nil nonempty
      rw [stored] at whole
      exact Option.some.inj whole
    subst equal
    refine ⟨?_, q side price, sound.nodup side price, ?_, sound.chain side price nonempty,
      sound.totals side price, sound.counts side price⟩
    · simpa [Level.isEmpty, sound.head_eq_NIL_iff] using nonempty
    · intro i
      rw [sound.members]
      constructor
      · rintro ⟨o, found, sides, prices⟩
        obtain ⟨node, get, rfl⟩ := (book.pool.orderAt_iff i o).mp found
        exact ⟨node, get, sides, prices⟩
      · rintro ⟨node, get, sides, prices⟩
        exact ⟨node.order, Pool.orderAt_of_get get, sides, prices⟩
  live := by
    intro idx node get
    exact (sound.present _ _).mpr (List.ne_nil_of_mem (sound.mem_queue get))

/-- Every run from a new book keeps it intact, and does not panic. -/
theorem run_intact (profile : Profile) (calls : List Call)
    (wire : ∀ c ∈ calls, c.added ≤ maxValue 32)
    (room : Throughout (call profile) (fun book => book.pool.capacityUsed < NIL) new calls) :
    ∃ replies book, run (call profile) new calls = some (replies, book) ∧ book.Intact := by
  obtain ⟨book, q, returned, represents⟩ := run_represents profile calls wire room
  exact ⟨_, book, returned, represents.sound.intact⟩

theorem run_intact_sample :
    ∃ replies book, run (call .debug) new
      [.add ⟨1, .bid, 100, 10, 0⟩, .add ⟨2, .bid, 100, 5, 1⟩, .add ⟨3, .bid, 100, 7, 2⟩,
        .cancel 2 5, .replace 1 4 101 8 3, .execute 3 9 4] = some (replies, book) ∧
      book.Intact :=
  run_intact .debug _ (by decide) (by decide)

/-! ### Reading the queues back -/

/-- The entries of a level, met walking from its head by `next`. -/
def readLevel (book : OrderBook) (side : Side) (price : Int) : Option (List Entry) :=
  match (book.sideLevels side)[price]? with
  | none => some []
  | some level =>
    (book.pool.walk Node.next book.pool.capacityUsed level.head).map fun l =>
      l.map book.pool.entryAt

theorem Represents.readLevel {ref : RefBook} (represents : book.Represents q ref) (side : Side)
    (price : Int) : book.readLevel side price = some (ref.queue side price) := by
  rw [represents.lists, OrderBook.readLevel]
  have walked := represents.sound.walk_next side price
  cases stored : (book.sideLevels side)[price]? with
  | none =>
    have empty : q side price = [] := by
      by_contra nonempty
      rw [represents.sound.getElem?_of_ne_nil nonempty] at stored
      cases stored
    rw [empty]
    rfl
  | some level =>
    rw [OrderBook.level, stored, Option.getD_some] at walked
    simp only [walked, Option.map_some]

theorem Represents.mem_sideLevels {ref : RefBook} (represents : book.Represents q ref)
    (side : Side) (price : Int) : price ∈ book.sideLevels side ↔ price ∈ ref.side side := by
  rw [represents.sound.present, represents.keys, represents.lists]
  simp

/-- After every call of every run, the book has answered as the reference book does and walking
its levels reads the reference book's queues. -/
theorem run_refines (profile : Profile) (calls : List Call)
    (wire : ∀ c ∈ calls, c.added ≤ maxValue 32)
    (room : Throughout (call profile) (fun book => book.pool.capacityUsed < NIL) new calls)
    (made : List Call) (first : made <+: calls) :
    ∃ book, run (call profile) new made = some ((respond RefBook.call .empty made).1, book) ∧
      ∀ side price, (price ∈ book.sideLevels side ↔
          price ∈ (respond RefBook.call .empty made).2.side side) ∧
        book.readLevel side price =
          some ((respond RefBook.call .empty made).2.queue side price) := by
  obtain ⟨book, q, returned, represents⟩ := run_represents profile made
    (fun c member => wire c (first.subset member)) (room.shorten first)
  exact ⟨book, returned, fun side price =>
    ⟨represents.mem_sideLevels side price, represents.readLevel side price⟩⟩

theorem run_refines_sample :
    ∃ book, run (call .release) new
        [.add ⟨1, .bid, 100, 10, 0⟩, .add ⟨2, .bid, 100, 5, 1⟩, .replace 1 3 100 8 2] =
          some ([.unit (.ok ()), .unit (.ok ()), .unit (.ok ())], book) ∧
      book.readLevel .bid 100 = some [⟨2, 5, 1⟩, ⟨3, 8, 2⟩] := by
  obtain ⟨book, returned, reads⟩ := run_refines .release
    [.add ⟨1, .bid, 100, 10, 0⟩, .add ⟨2, .bid, 100, 5, 1⟩, .replace 1 3 100 8 2, .delete 7]
    (by decide) (by decide)
    [.add ⟨1, .bid, 100, 10, 0⟩, .add ⟨2, .bid, 100, 5, 1⟩, .replace 1 3 100 8 2] (by decide)
  exact ⟨book, returned, (reads .bid 100).2⟩

end OrderBook

end Hftrs.Orderbook
