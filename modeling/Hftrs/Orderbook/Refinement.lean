import Hftrs.Orderbook.Reference
import Hftrs.Orderbook.Totals

/-! The order book refines the reference book. -/
namespace Hftrs.Orderbook

open Hftrs.Library

def Order.entry (order : Order) : Entry := ⟨order.id, order.qty, order.ts⟩

/-- What a slot stands for in the reference book. -/
def Pool.entryAt (pool : Pool Order) (i : Nat) : Entry :=
  ((pool.orderAt i).map Order.entry).getD ⟨0, 0, 0⟩

theorem Pool.entryAt_of_orderAt {pool : Pool Order} {i : Nat} {order : Order}
    (found : pool.orderAt i = some order) : pool.entryAt i = order.entry := by
  rw [entryAt, found]
  rfl

theorem Pool.map_entryAt_congr {pool pool' : Pool Order} {l : List Nat}
    (same : ∀ i ∈ l, pool'.orderAt i = pool.orderAt i) :
    l.map pool'.entryAt = l.map pool.entryAt := by
  apply List.map_congr_left
  intro i inside
  rw [entryAt, entryAt, same i inside]

namespace OrderBook

/-- The book, whose queues of slots are `q`, holds the lists of the reference book. -/
structure Represents (book : OrderBook) (q : Side → Int → List Nat) (ref : RefBook) : Prop where
  sound : book.Sound q
  lists : ∀ s p, ref.queue s p = (q s p).map book.pool.entryAt
  keys : ∀ s p, p ∈ ref.side s ↔ ref.queue s p ≠ []

variable {book : OrderBook} {q : Side → Int → List Nat} {ref : RefBook}

/-- The pool has room for the call: only the add of a new id takes a slot that no order has just
given up. -/
def FindsRoom (book : OrderBook) : Call → Prop
  | .add order => order.id ∈ book.orders ∨ book.pool.HasRoom
  | _ => True

instance FindsRoom.decidable (book : OrderBook) : ∀ c, Decidable (book.FindsRoom c)
  | .add order => inferInstanceAs (Decidable (order.id ∈ book.orders ∨ book.pool.HasRoom))
  | .execute .. | .executeAt .. | .cancel .. | .delete .. | .replace .. =>
    inferInstanceAs (Decidable True)

theorem represents_new : new.Represents (fun _ _ => []) RefBook.empty where
  sound := sound_new
  lists s p := by cases s <;> rfl
  keys s p := by cases s <;> simp [RefBook.empty, RefBook.side, RefBook.queue]

private theorem keys_setQueue (keys : ∀ s p, p ∈ ref.side s ↔ ref.queue s p ≠ []) (s : Side)
    (price : Int) (l : List Entry) (t : Side) (p : Int) :
    p ∈ (ref.setQueue s price l).side t ↔ (ref.setQueue s price l).queue t p ≠ [] := by
  rw [RefBook.mem_setQueue, RefBook.queue_setQueue]
  split
  next => exact Iff.rfl
  next => exact keys t p

namespace Represents

theorem mem_queue_iff (rep : book.Represents q ref) (s : Side) (p : Int) (e : Entry) :
    e ∈ ref.queue s p ↔
      ∃ i o, book.pool.orderAt i = some o ∧ o.side = s ∧ o.price = p ∧ o.entry = e := by
  rw [rep.lists, List.mem_map]
  constructor
  · rintro ⟨i, inside, rfl⟩
    obtain ⟨o, found, side, price⟩ := (rep.sound.members s p i).mp inside
    exact ⟨i, o, found, side, price, (Pool.entryAt_of_orderAt found).symm⟩
  · rintro ⟨i, o, found, side, price, rfl⟩
    exact ⟨i, (rep.sound.members s p i).mpr ⟨o, found, side, price⟩,
      Pool.entryAt_of_orderAt found⟩

/-- A live id rests in the reference book where its node says. -/
theorem find?_live (rep : book.Represents q ref) {id idx : Nat}
    (live : book.orders[id]? = some idx) :
    ∃ node, book.pool.get idx = some node ∧ node.order.id = id ∧
      ref.find? id = some (node.order.side, node.order.price, node.order.entry) := by
  obtain ⟨o, found, owner⟩ := (rep.sound.ids id idx).mp live
  obtain ⟨node, get, rfl⟩ := (book.pool.orderAt_iff idx o).mp found
  refine ⟨node, get, owner, ?_⟩
  -- the reference book finds an entry, and it is that of this slot
  cases searched : ref.find? id with
  | none =>
    have member := (rep.mem_queue_iff _ _ _).mpr ⟨idx, node.order, found, rfl, rfl, rfl⟩
    exact absurd owner (ref.find?_none id searched _ _ _ member)
  | some hit =>
    obtain ⟨s, p, e⟩ := hit
    obtain ⟨member, same⟩ := ref.find?_some id s p e searched
    obtain ⟨i, o, other, rfl, rfl, rfl⟩ := (rep.mem_queue_iff s p e).mp member
    -- both slots carry the id, and the id map sends it to one slot
    have again := rep.sound.slot_eq other found (same.trans owner.symm)
    subst again
    rw [found] at other
    cases other
    rfl

theorem find?_missing (rep : book.Represents q ref) {id : Nat}
    (missing : book.orders[id]? = none) : ref.find? id = none := by
  cases searched : ref.find? id with
  | none => rfl
  | some hit =>
    obtain ⟨s, p, e⟩ := hit
    obtain ⟨member, same⟩ := ref.find?_some id s p e searched
    obtain ⟨i, o, found, _, _, rfl⟩ := (rep.mem_queue_iff s p e).mp member
    have live := (rep.sound.ids id i).mpr ⟨o, found, same⟩
    rw [missing] at live
    cases live

/-- Dropping the entry of an id is dropping its slot. -/
private theorem filter_entries (rep : book.Represents q ref) {idx : Nat} {node : Node Order}
    (found : book.pool.get idx = some node) (s : Side) (p : Int)
    (member : idx ∈ q s p) :
    ((q s p).map book.pool.entryAt).filter (fun e => e.id ≠ node.order.id) =
      ((q s p).erase idx).map book.pool.entryAt := by
  rw [(rep.sound.nodup s p).erase_eq_filter, List.filter_map]
  congr 1
  apply List.filter_congr
  -- two slots with one id are one slot, by the id map
  intro i inside
  obtain ⟨o, other, _⟩ := (rep.sound.members s p i).mp inside
  have here := Pool.orderAt_of_get found
  rw [Bool.eq_iff_iff]
  simp only [Function.comp_apply, Pool.entryAt_of_orderAt other, Order.entry, decide_eq_true_eq,
    bne_iff_ne, ne_eq, not_iff_not]
  constructor
  · exact rep.sound.slot_eq other here
  · rintro rfl
    rw [here] at other
    cases other
    rfl

theorem unlink (profile : Profile) (rep : book.Represents q ref) {idx : Nat} {node : Node Order}
    (found : book.pool.get idx = some node) :
    ∃ book' q', book.unlink profile idx = some book' ∧
      book'.Represents q' (ref.remove node.order.side node.order.price node.order.id) ∧
      book'.pool.HasRoom := by
  obtain ⟨book', returned, spliced, sound⟩ := rep.sound.unlink profile found
  have member := rep.sound.mem_queue found
  -- the slot given back is the room for the next order
  have inside : idx < book'.pool.slots.length := by
    rw [spliced.slots]
    exact Pool.get_lt found
  have gone := spliced.orderAt idx
  rw [if_pos rfl] at gone
  have room : book'.pool.HasRoom :=
    sound.pool.room_of_gap inside (Option.map_eq_none_iff.mp gone)
  have kept {l : List Nat} (apart : idx ∉ l) :
      l.map book.pool.entryAt = l.map book'.pool.entryAt :=
    (Pool.map_entryAt_congr (Pool.orderAt_agree spliced.orderAt apart)).symm
  refine ⟨book', _, returned, ⟨sound, ?_, keys_setQueue rep.keys _ _ _⟩, room⟩
  intro s p
  rw [RefBook.remove, RefBook.queue_setQueue, rep.lists]
  split
  next same =>
    obtain ⟨rfl, rfl⟩ := same
    rw [setAt_same, rep.filter_entries found _ _ member]
    exact kept (rep.sound.nodup _ _).not_mem_erase
  next other =>
    rw [setAt_other _ _ other, rep.lists]
    exact kept (rep.sound.not_mem_other member other)

theorem add (profile : Profile) (rep : book.Represents q ref) (order : Order)
    (room : order.id ∈ book.orders ∨ book.pool.HasRoom) (wire : order.qty ≤ maxValue 32) :
    ∃ book' q', book.add profile order = some ((ref.add order).1, book') ∧
      book'.Represents q' (ref.add order).2 := by
  cases live : book.orders[order.id]? with
  -- both books refuse an id that is live in both
  | some idx =>
    obtain ⟨node, _, _, found⟩ := rep.find?_live live
    have contained : book.orders.contains order.id = true := by
      rw [← Std.ExtTreeMap.mem_iff_contains, Std.ExtTreeMap.mem_iff_isSome_getElem?, live]
      rfl
    refine ⟨book, q, ?_, ?_⟩
    · rw [OrderBook.add, if_pos contained, RefBook.add, found]
    · rw [RefBook.add, found]; exact rep
  | none =>
    have fresh : order.id ∉ book.orders := by
      rw [Std.ExtTreeMap.mem_iff_isSome_getElem?, live]
      simp
    obtain ⟨idx, book', returned, added, sound⟩ :=
      rep.sound.add profile order fresh (room.resolve_left fresh) wire
    refine ⟨book', setAt q order.side order.price (q order.side order.price ++ [idx]), ?_, ?_⟩
    · rw [returned, RefBook.add, rep.find?_missing live]
    · rw [RefBook.add, rep.find?_missing live]
      refine ⟨sound, ?_, keys_setQueue rep.keys _ _ _⟩
      intro s p
      have kept (s : Side) (p : Int) :
          ref.queue s p = (q s p).map book'.pool.entryAt := by
        have others := Pool.orderAt_agree added.orderAt (rep.sound.not_mem_fresh added.fresh s p)
        rw [rep.lists, Pool.map_entryAt_congr others]
      have new : book'.pool.entryAt idx = order.entry :=
        Pool.entryAt_of_orderAt (by rw [added.orderAt, if_pos rfl])
      rw [RefBook.queue_setQueue]
      split
      next same =>
        obtain ⟨rfl, rfl⟩ := same
        rw [setAt_same, kept, List.map_append, List.map_singleton, new]
        rfl
      next other => rw [setAt_other _ _ other, kept]

/-- Taking a quantity off a queued order in place. -/
private theorem adjust (rep : book.Represents q ref) {idx : Nat} {node : Node Order}
    {book' : OrderBook} {taken : Nat} (found : book.pool.get idx = some node)
    (enough : taken ≤ node.order.qty)
    (adjusted : book.Adjusted q idx node.order (node.order.qty - taken)
      ((book.level node.order.side node.order.price).totalQty - taken) book') :
    book'.Represents q (ref.setQueue node.order.side node.order.price
      ((ref.queue node.order.side node.order.price).map fun e =>
        if e.id = node.order.id then { e with qty := e.qty - taken } else e)) := by
  refine ⟨rep.sound.adjust found enough adjusted, ?_, keys_setQueue rep.keys _ _ _⟩
  intro s p
  rw [RefBook.queue_setQueue]
  have here := Pool.orderAt_of_get found
  have member := rep.sound.mem_queue found
  split
  next same =>
    obtain ⟨rfl, rfl⟩ := same
    rw [rep.lists, List.map_map]
    apply List.map_congr_left
    intro i inside
    obtain ⟨o, other, _⟩ := (rep.sound.members _ _ i).mp inside
    by_cases same : i = idx
    · subst i
      rw [Function.comp_apply, Pool.entryAt_of_orderAt here,
        Pool.entryAt_of_orderAt (by rw [adjusted.orderAt, if_pos rfl])]
      exact if_pos rfl
    · have apart : o.id ≠ node.order.id :=
        fun equal => same (rep.sound.slot_eq other here equal)
      rw [Function.comp_apply, Pool.entryAt_of_orderAt other,
        Pool.entryAt_of_orderAt (by rw [adjusted.orderAt, if_neg same, other])]
      exact if_neg apart
  next other =>
    have others := Pool.orderAt_agree adjusted.orderAt (rep.sound.not_mem_other member other)
    rw [rep.lists, Pool.map_entryAt_congr others]

theorem reduce {α : Type} (profile : Profile) (rep : book.Represents q ref) (id qty : Nat)
    (excess : Nat → BookError) (done : Int → α) :
    ∃ book' q', book.reduce profile id qty excess done =
        some ((ref.reduce id qty excess done).1, book') ∧
      book'.Represents q' (ref.reduce id qty excess done).2 := by
  unfold OrderBook.reduce RefBook.reduce
  cases live : book.orders[id]? with
  | none =>
    rw [rep.find?_missing live]
    exact ⟨book, q, rfl, rep⟩
  | some idx =>
    obtain ⟨node, found, rfl, searched⟩ := rep.find?_live live
    rw [searched]
    simp only [found, Option.bind_eq_bind, Option.bind_some, gt_iff_lt]
    by_cases exceeds : node.order.qty < qty
    · simp only [exceeds, Order.entry, if_true]
      exact ⟨book, q, rfl, rep⟩
    · have enough : qty ≤ node.order.qty := Nat.le_of_not_lt exceeds
      have total := rep.sound.qty_le_total found
      have stored := rep.sound.getElem?_of_ne_nil
        (List.ne_nil_of_mem (rep.sound.mem_queue found))
      obtain ⟨pool', written, left, adjusted⟩ := adjust_spec rep.sound.toQueued found
        (node.order.qty - qty)
        ((book.level node.order.side node.order.price).totalQty - qty)
      have reduced := rep.adjust found enough adjusted
      simp only [exceeds, Order.entry, if_false, written, stored, Option.bind_some,
        profile.sub_eq (Nat.le_trans enough total)]
      by_cases last : node.order.qty = qty
      -- nothing remains: both books drop the order from its queue
      · subst last
        obtain ⟨book', q', unlinked, removed, _⟩ := reduced.unlink profile left
        rw [if_pos (Nat.sub_self _), unlinked]
        exact ⟨book', q', by simp, by simpa using removed⟩
      · have positive : ¬node.order.qty - qty = 0 := by omega
        simp only [positive, last, if_false, Option.bind_some]
        exact ⟨_, q, rfl, reduced⟩

theorem execute (profile : Profile) (rep : book.Represents q ref) (id qty ts : Nat)
    (print : Option Int) :
    ∃ book' q', book.executeInner profile id qty ts print =
        some ((ref.execute id qty ts print).1, book') ∧
      book'.Represents q' (ref.execute id qty ts print).2 :=
  rep.reduce profile id qty _ _

theorem cancel (profile : Profile) (rep : book.Represents q ref) (id qty : Nat) :
    ∃ book' q', book.cancel profile id qty = some ((ref.cancel id qty).1, book') ∧
      book'.Represents q' (ref.cancel id qty).2 :=
  rep.reduce profile id qty _ _

theorem delete (profile : Profile) (rep : book.Represents q ref) (id : Nat) :
    ∃ book' q', book.delete profile id = some ((ref.delete id).1, book') ∧
      book'.Represents q' (ref.delete id).2 := by
  unfold OrderBook.delete RefBook.delete
  cases live : book.orders[id]? with
  | none =>
    rw [rep.find?_missing live]
    exact ⟨book, q, rfl, rep⟩
  | some idx =>
    obtain ⟨node, found, rfl, searched⟩ := rep.find?_live live
    obtain ⟨book', q', unlinked, removed, _⟩ := rep.unlink profile found
    rw [searched]
    simp only [unlinked, Option.map_some]
    exact ⟨book', q', rfl, removed⟩

theorem replace (profile : Profile) (rep : book.Represents q ref) (oldId newId : Nat)
    (newPrice : Int) (newQty ts : Nat) (wire : newQty ≤ maxValue 32) :
    ∃ book' q', book.replace profile oldId newId newPrice newQty ts =
        some ((ref.replace oldId newId newPrice newQty ts).1, book') ∧
      book'.Represents q' (ref.replace oldId newId newPrice newQty ts).2 := by
  unfold OrderBook.replace RefBook.replace
  cases live : book.orders[oldId]? with
  | none =>
    rw [rep.find?_missing live]
    exact ⟨book, q, rfl, rep⟩
  | some idx =>
    obtain ⟨node, found, rfl, searched⟩ := rep.find?_live live
    obtain ⟨book', q', unlinked, removed, room⟩ := rep.unlink profile found
    rw [searched]
    simp only [found, unlinked, Option.bind_eq_bind, Option.bind_some]
    exact removed.add profile _ (.inr room) wire

/-- Every call answers as the reference book does. -/
theorem call (profile : Profile) (rep : book.Represents q ref) (c : Call)
    (room : book.FindsRoom c) (wire : c.added ≤ maxValue 32) :
    ∃ book' q', book.call profile c = some ((ref.call c).1, book') ∧
      book'.Represents q' (ref.call c).2 := by
  cases c with
  | add order =>
    obtain ⟨book', q', returned, onwards⟩ := rep.add profile order room wire
    exact ⟨book', q', by rw [OrderBook.call, returned]; rfl, onwards⟩
  | execute id qty ts =>
    obtain ⟨book', q', returned, onwards⟩ := rep.execute profile id qty ts none
    exact ⟨book', q', by rw [OrderBook.call, OrderBook.execute, returned]; rfl, onwards⟩
  | executeAt id qty price ts =>
    obtain ⟨book', q', returned, onwards⟩ := rep.execute profile id qty ts (some price)
    exact ⟨book', q', by rw [OrderBook.call, OrderBook.executeAt, returned]; rfl, onwards⟩
  | cancel id qty =>
    obtain ⟨book', q', returned, onwards⟩ := rep.cancel profile id qty
    exact ⟨book', q', by rw [OrderBook.call, returned]; rfl, onwards⟩
  | delete id =>
    obtain ⟨book', q', returned, onwards⟩ := rep.delete profile id
    exact ⟨book', q', by rw [OrderBook.call, returned]; rfl, onwards⟩
  | replace oldId newId newPrice newQty ts =>
    obtain ⟨book', q', returned, onwards⟩ :=
      rep.replace profile oldId newId newPrice newQty ts wire
    exact ⟨book', q', by rw [OrderBook.call, returned]; rfl, onwards⟩

end Represents

/-- Runs of the book and of the reference book give the same replies, do not panic, and end in
books that correspond. -/
theorem run_represents_along (profile : Profile) (calls : List Call)
    (wire : ∀ c ∈ calls, c.added ≤ maxValue 32)
    (room : Along (call profile) FindsRoom new calls) :
    ∃ book q, run (call profile) new calls = some ((respond RefBook.call .empty calls).1, book) ∧
      book.Represents q (respond RefBook.call .empty calls).2 := by
  obtain ⟨book, returned, q, rep⟩ := run_simulation (call profile) RefBook.call
    (fun book ref => ∃ q, book.Represents q ref)
    (fun book c => book.FindsRoom c ∧ c.added ≤ maxValue 32)
    (fun book ref c related admissible => by
      obtain ⟨q, rep⟩ := related
      obtain ⟨book', q', stepped, onwards⟩ := rep.call profile c admissible.1 admissible.2
      exact ⟨book', stepped, q', onwards⟩)
    new RefBook.empty calls ⟨_, represents_new⟩ (room.and_inputs wire)
  exact ⟨book, q, returned, rep⟩

/-- A pool that stays below the sentinel has room for every call. -/
theorem findsRoom_of_capacity (book : OrderBook) (c : Call)
    (below : book.pool.capacityUsed < NIL) : book.FindsRoom c := by
  cases c with
  | add order => exact .inr (.inr below)
  | _ => trivial

theorem run_represents (profile : Profile) (calls : List Call)
    (wire : ∀ c ∈ calls, c.added ≤ maxValue 32)
    (room : Throughout (call profile) (fun book => book.pool.capacityUsed < NIL) new calls) :
    ∃ book q, run (call profile) new calls = some ((respond RefBook.call .empty calls).1, book) ∧
      book.Represents q (respond RefBook.call .empty calls).2 :=
  run_represents_along profile calls wire (room.along.imp findsRoom_of_capacity)

end OrderBook

end Hftrs.Orderbook
