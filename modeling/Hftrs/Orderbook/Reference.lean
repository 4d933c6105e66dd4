import Hftrs.Orderbook.Book

/-! What the order book is for: price levels of first-in first-out queues.

This is the specification of the book, stated on its own: for each side a finite map from price
to the list of resting entries, oldest first. It has no arena, links, cached aggregates or id
index, and never panics. -/
namespace Hftrs.Orderbook

/-- What rests in the queue of a side and price. -/
structure Entry where
  id : Nat
  qty : Nat
  ts : Nat
  deriving DecidableEq, Repr

abbrev Queues := Std.ExtTreeMap Int (List Entry) compare

structure RefBook where
  bids : Queues
  asks : Queues

namespace RefBook

def empty : RefBook := ⟨∅, ∅⟩

def side (ref : RefBook) : Side → Queues
  | .bid => ref.bids
  | .ask => ref.asks

def setSide (ref : RefBook) (s : Side) (queues : Queues) : RefBook :=
  match s with
  | .bid => { ref with bids := queues }
  | .ask => { ref with asks := queues }

def queue (ref : RefBook) (s : Side) (price : Int) : List Entry := ((ref.side s)[price]?).getD []

/-- Only prices with a resting entry are keys. -/
def setQueue (ref : RefBook) (s : Side) (price : Int) (l : List Entry) : RefBook :=
  ref.setSide s (if l = [] then (ref.side s).erase price else (ref.side s).insert price l)

/-- Where an id rests. -/
def find? (ref : RefBook) (id : Nat) : Option (Side × Int × Entry) :=
  [Side.bid, Side.ask].findSome? fun s =>
    (ref.side s).toList.findSome? fun (price, l) =>
      (l.find? fun e => e.id = id).map fun e => (s, price, e)

/-- A new entry joins the end of its queue. -/
def add (ref : RefBook) (order : Order) : Except BookError Unit × RefBook :=
  match ref.find? order.id with
  | some _ => (.error (.duplicateOrder order.id), ref)
  | none =>
    (.ok (), ref.setQueue order.side order.price
      (ref.queue order.side order.price ++ [⟨order.id, order.qty, order.ts⟩]))

def remove (ref : RefBook) (s : Side) (price : Int) (id : Nat) : RefBook :=
  ref.setQueue s price ((ref.queue s price).filter fun e => e.id ≠ id)

/-- An entry gives up `qty` in place, and leaves its queue when nothing remains. -/
def reduce {α : Type} (ref : RefBook) (id qty : Nat) (excess : Nat → BookError) (done : Int → α) :
    Except BookError α × RefBook :=
  match ref.find? id with
  | none => (.error (.unknownOrder id), ref)
  | some (s, price, e) =>
    if e.qty < qty then (.error (excess e.qty), ref)
    else
      let left := ref.setQueue s price
        ((ref.queue s price).map fun e => if e.id = id then { e with qty := e.qty - qty } else e)
      (.ok (done price), if e.qty = qty then left.remove s price id else left)

/-- An execution trades at `print`, and at the resting price when there is none. -/
def execute (ref : RefBook) (id qty ts : Nat) (print : Option Int) :
    Except BookError Trade × RefBook :=
  ref.reduce id qty (fun avail => .overExecute id qty avail)
    fun resting => { makerId := id, price := print.getD resting, qty, ts }

def cancel (ref : RefBook) (id qty : Nat) : Except BookError Unit × RefBook :=
  ref.reduce id qty (fun avail => .overCancel id qty avail) fun _ => ()

def delete (ref : RefBook) (id : Nat) : Except BookError Unit × RefBook :=
  match ref.find? id with
  | none => (.error (.unknownOrder id), ref)
  | some (s, price, _) => (.ok (), ref.remove s price id)

/-- The old entry leaves, then the new one joins the end of a queue on the same side. -/
def replace (ref : RefBook) (oldId newId : Nat) (newPrice : Int) (newQty ts : Nat) :
    Except BookError Unit × RefBook :=
  match ref.find? oldId with
  | none => (.error (.unknownOrder oldId), ref)
  | some (s, price, _) =>
    (ref.remove s price oldId).add
      { id := newId, side := s, price := newPrice, qty := newQty, ts }

def call (ref : RefBook) : OrderBook.Call → OrderBook.Reply × RefBook
  | .add order => (ref.add order).map .unit fun ref => ref
  | .execute id qty ts => (ref.execute id qty ts none).map .trade fun ref => ref
  | .executeAt id qty price ts => (ref.execute id qty ts (some price)).map .trade fun ref => ref
  | .cancel id qty => (ref.cancel id qty).map .unit fun ref => ref
  | .delete id => (ref.delete id).map .unit fun ref => ref
  | .replace oldId newId newPrice newQty ts =>
    (ref.replace oldId newId newPrice newQty ts).map .unit fun ref => ref

/-! ### Queues after an update -/

theorem side_setSide (ref : RefBook) (s t : Side) (queues : Queues) :
    (ref.setSide s queues).side t = if t = s then queues else ref.side t := by
  cases s <;> cases t <;> rfl

theorem queue_setQueue (ref : RefBook) (s t : Side) (price p : Int) (l : List Entry) :
    (ref.setQueue s price l).queue t p = if t = s ∧ p = price then l else ref.queue t p := by
  simp only [queue, setQueue, side_setSide]
  by_cases sameSide : t = s
  · subst t
    simp only [if_true, true_and]
    split
    next none =>
      by_cases samePrice : p = price
      · simp [samePrice, none]
      · simp [samePrice, Std.ExtTreeMap.getElem?_erase, Ne.symm samePrice]
    next =>
      by_cases samePrice : p = price
      · simp [samePrice]
      · simp [samePrice, Std.ExtTreeMap.getElem?_insert, Ne.symm samePrice]
  · simp [sameSide]

theorem mem_setQueue (ref : RefBook) (s t : Side) (price p : Int) (l : List Entry) :
    p ∈ (ref.setQueue s price l).side t ↔
      if t = s ∧ p = price then l ≠ [] else p ∈ ref.side t := by
  simp only [setQueue, side_setSide]
  by_cases sameSide : t = s
  · subst t
    simp only [if_true, true_and]
    by_cases samePrice : p = price
    · subst p
      split
      next none => simp [none]
      next some => simp [some]
    · split
      next => simp [Std.ExtTreeMap.mem_erase, Ne.symm samePrice]
      next => simp [Std.ExtTreeMap.mem_insert, Ne.symm samePrice]
  · simp [sameSide]

theorem mem_queue_iff (ref : RefBook) (s : Side) (price : Int) (e : Entry) :
    e ∈ ref.queue s price ↔ ∃ l, (price, l) ∈ (ref.side s).toList ∧ e ∈ l := by
  simp only [Std.ExtTreeMap.mem_toList_iff_getElem?_eq_some, queue]
  cases (ref.side s)[price]? <;> simp

/-- A found entry rests where it was found. -/
theorem find?_some (ref : RefBook) (id : Nat) (s : Side) (price : Int) (e : Entry)
    (found : ref.find? id = some (s, price, e)) : e ∈ ref.queue s price ∧ e.id = id := by
  -- the search stopped on a side, at a price of it, and at an entry of that queue
  obtain ⟨t, _, onSide⟩ := List.exists_of_findSome?_eq_some found
  obtain ⟨⟨p, l⟩, stored, atPrice⟩ := List.exists_of_findSome?_eq_some onSide
  obtain ⟨e', inside, equal⟩ := Option.map_eq_some_iff.mp atPrice
  cases equal
  constructor
  · exact (ref.mem_queue_iff s price e).mpr ⟨l, stored, List.mem_of_find?_eq_some inside⟩
  · simpa using List.find?_some inside

theorem find?_none (ref : RefBook) (id : Nat) (missing : ref.find? id = none) (s : Side)
    (price : Int) (e : Entry) (member : e ∈ ref.queue s price) : e.id ≠ id := by
  obtain ⟨l, stored, inside⟩ := (ref.mem_queue_iff s price e).mp member
  have onSide := List.findSome?_eq_none_iff.mp missing s (by cases s <;> simp)
  have atPrice := List.findSome?_eq_none_iff.mp onSide (price, l) stored
  rw [Option.map_eq_none_iff, List.find?_eq_none] at atPrice
  simpa using atPrice e inside

end RefBook

end Hftrs.Orderbook
