import Hftrs.Orderbook.Refinement

/-! What a call does to every queue at once.

A call edits the entries of the ids it names, each on its own, and then lets at most one entry
join the end of a queue. -/
namespace Hftrs.Orderbook

namespace OrderBook

/-- The order ids a call names. -/
def Call.names : Call → List Nat
  | .add order => [order.id]
  | .execute id .. => [id]
  | .executeAt id .. => [id]
  | .cancel id _ => [id]
  | .delete id => [id]
  | .replace oldId newId .. => [oldId, newId]

end OrderBook

open OrderBook

/-- An entry after `qty` has been taken off it: refused when it has less, gone when it has no
more. -/
def Entry.less (e : Entry) (qty : Nat) : Option Entry :=
  if e.qty < qty then some e
  else if e.qty = qty then none
  else some { e with qty := e.qty - qty }

/-- What a call makes of an entry. -/
def Entry.after (c : Call) (e : Entry) : Option Entry :=
  match c with
  | .add _ => some e
  | .execute id qty _ => if e.id = id then e.less qty else some e
  | .executeAt id qty _ _ => if e.id = id then e.less qty else some e
  | .cancel id qty => if e.id = id then e.less qty else some e
  | .delete id => if e.id = id then none else some e
  | .replace oldId _ _ _ _ => if e.id = oldId then none else some e

namespace RefBook

/-- An id rests in one place. -/
def Unique (ref : RefBook) : Prop :=
  ∀ s p e t r f, e ∈ ref.queue s p → f ∈ ref.queue t r → e.id = f.id → s = t ∧ p = r ∧ e = f

/-- The entry that a call adds, and where. -/
def joins (ref : RefBook) : Call → Option (Side × Int × Entry)
  | .add order =>
    if (ref.find? order.id).isNone then
      some (order.side, order.price, ⟨order.id, order.qty, order.ts⟩)
    else none
  | .replace oldId newId newPrice newQty ts =>
    match ref.find? oldId with
    | none => none
    | some (s, _, _) =>
      -- the old entry is gone when the new id is looked up
      if newId = oldId ∨ (ref.find? newId).isNone then some (s, newPrice, ⟨newId, newQty, ts⟩)
      else none
  | _ => none

/-- The entries that join the queue of a side and price. -/
def joining (ref : RefBook) (c : Call) (s : Side) (price : Int) : List Entry :=
  match ref.joins c with
  | some (t, r, e) => if s = t ∧ price = r then [e] else []
  | none => []

theorem Unique.find?_iff {ref : RefBook} (unique : ref.Unique) (id : Nat) (s : Side) (price : Int)
    (e : Entry) : ref.find? id = some (s, price, e) ↔ e ∈ ref.queue s price ∧ e.id = id := by
  constructor
  · exact ref.find?_some id s price e
  · rintro ⟨member, owner⟩
    cases searched : ref.find? id with
    | none => exact absurd owner (ref.find?_none id searched s price e member)
    | some hit =>
      obtain ⟨t, r, f⟩ := hit
      obtain ⟨inside, same⟩ := ref.find?_some id t r f searched
      obtain ⟨rfl, rfl, rfl⟩ := unique _ _ _ _ _ _ member inside (owner.trans same.symm)
      rfl

theorem find?_eq_none_iff (ref : RefBook) (id : Nat) :
    ref.find? id = none ↔ ∀ s price, ∀ e ∈ ref.queue s price, e.id ≠ id := by
  constructor
  · exact fun missing s price e member => ref.find?_none id missing s price e member
  · intro absent
    cases searched : ref.find? id with
    | none => rfl
    | some hit =>
      obtain ⟨s, price, e⟩ := hit
      obtain ⟨member, owner⟩ := ref.find?_some id s price e searched
      exact absurd owner (absent s price e member)

/-- Searches for one id agree when its entries do. -/
theorem Unique.find?_congr {ref ref' : RefBook} (unique : ref.Unique) (unique' : ref'.Unique)
    (id : Nat)
    (same : ∀ s price e, e.id = id → (e ∈ ref'.queue s price ↔ e ∈ ref.queue s price)) :
    ref'.find? id = ref.find? id := by
  apply Option.ext
  rintro ⟨s, price, e⟩
  rw [unique'.find?_iff, unique.find?_iff]
  constructor
  · exact fun ⟨member, owner⟩ => ⟨(same s price e owner).mp member, owner⟩
  · exact fun ⟨member, owner⟩ => ⟨(same s price e owner).mpr member, owner⟩

/-! ### The queues after a call -/

theorem after_of_not_named (c : Call) (e : Entry) (apart : e.id ∉ c.names) :
    e.after c = some e := by
  cases c <;> simp_all [Call.names, Entry.after]

private theorem filterMap_after_absent (c : Call) (l : List Entry)
    (kept : ∀ e ∈ l, e.after c = some e) : l.filterMap (Entry.after c) = l := by
  rw [List.filterMap_congr kept]
  exact List.filterMap_some

/-- Removing an entry drops its id from every queue. -/
theorem Unique.queue_remove {ref : RefBook} (unique : ref.Unique) {id : Nat} {s : Side}
    {price : Int} {e : Entry} (found : ref.find? id = some (s, price, e)) (t : Side) (r : Int) :
    (ref.remove s price id).queue t r = (ref.queue t r).filter fun e => e.id ≠ id := by
  obtain ⟨member, owner⟩ := (unique.find?_iff id s price e).mp found
  rw [remove, queue_setQueue]
  split
  next same => rw [same.1, same.2]
  next other =>
    -- no entry of another queue has the id
    symm
    rw [List.filter_eq_self]
    intro f inside
    refine decide_eq_true fun equal => other ?_
    obtain ⟨rfl, rfl, _⟩ := unique _ _ _ _ _ _ inside member (equal.trans owner.symm)
    exact ⟨rfl, rfl⟩

theorem Unique.remove {ref : RefBook} (unique : ref.Unique) {id : Nat} {s : Side}
    {price : Int} {e : Entry} (found : ref.find? id = some (s, price, e)) :
    (ref.remove s price id).Unique := by
  intro s' p' e' t r f left right
  rw [unique.queue_remove found, List.mem_filter] at left right
  exact unique s' p' e' t r f left.1 right.1

theorem Unique.find?_remove {ref : RefBook} (unique : ref.Unique) {id : Nat} {s : Side}
    {price : Int} {e : Entry} (found : ref.find? id = some (s, price, e)) (other : Nat) :
    (ref.remove s price id).find? other = if other = id then none else ref.find? other := by
  split
  next same =>
    rw [find?_eq_none_iff]
    intro t r f member
    rw [unique.queue_remove found, List.mem_filter] at member
    simpa [same] using member.2
  next apart =>
    apply unique.find?_congr (unique.remove found)
    intro t r f owner
    rw [unique.queue_remove found, List.mem_filter]
    simp [owner, apart]

private theorem queue_add (ref : RefBook) (order : Order) (s : Side) (price : Int) :
    (ref.add order).2.queue s price = ref.queue s price ++ ref.joining (.add order) s price := by
  simp only [add, joining, joins]
  cases ref.find? order.id with
  | some hit => simp
  | none =>
    simp only [Option.isNone_none, if_true, queue_setQueue]
    split
    next same => rw [same.1, same.2]
    next => rw [List.append_nil]

private theorem queue_reduce {α : Type} {ref : RefBook} (unique : ref.Unique) (id qty : Nat)
    (excess : Nat → BookError) (done : Int → α) (s : Side) (price : Int) :
    (ref.reduce id qty excess done).2.queue s price =
      (ref.queue s price).filterMap fun e => if e.id = id then e.less qty else some e := by
  unfold reduce
  cases found : ref.find? id with
  | none =>
    -- no entry has the id
    have absent := (ref.find?_eq_none_iff id).mp found s price
    rw [List.filterMap_congr fun e member => if_neg (absent e member)]
    exact List.filterMap_some.symm
  | some hit =>
    obtain ⟨t, r, e⟩ := hit
    obtain ⟨member, owner⟩ := (unique.find?_iff id t r e).mp found
    -- the entries with the id are the one that was found
    have only : ∀ f ∈ ref.queue s price, f.id = id → s = t ∧ price = r ∧ f = e := by
      intro f inside equal
      exact unique _ _ _ _ _ _ inside member (equal.trans owner.symm)
    by_cases exceeds : e.qty < qty
    · simp only [exceeds, if_true]
      have kept : ∀ f ∈ ref.queue s price,
          (if f.id = id then f.less qty else some f) = some f := by
        intro f inside
        split
        next equal => rw [(only f inside equal).2.2, Entry.less, if_pos exceeds]
        next => rfl
      rw [List.filterMap_congr kept]
      exact List.filterMap_some.symm
    · simp only [exceeds, if_false]
      by_cases here : s = t ∧ price = r
      · obtain ⟨rfl, rfl⟩ := here
        by_cases last : e.qty = qty
        · -- what is reduced to nothing leaves, whatever it is reduced to first
          simp only [last, if_true, remove, queue_setQueue, and_self, List.filter_map]
          rw [← List.filterMap_eq_map, List.filterMap_filter]
          apply List.filterMap_congr
          intro f inside
          by_cases equal : f.id = id
          · have same := (only f inside equal).2.2
            simp [same, owner, Entry.less, last]
          · simp [equal]
        · simp only [last, if_false, queue_setQueue, and_self, if_true]
          rw [← List.filterMap_eq_map]
          apply List.filterMap_congr
          intro f inside
          by_cases equal : f.id = id
          · have same := (only f inside equal).2.2
            simp [same, owner, Entry.less, last, exceeds]
          · simp [equal]
      · -- another queue has no entry with the id
        have absent : ∀ f ∈ ref.queue s price, f.id ≠ id := fun f inside equal =>
          here ⟨(only f inside equal).1, (only f inside equal).2.1⟩
        rw [List.filterMap_congr fun f inside => if_neg (absent f inside), List.filterMap_some]
        split <;> simp only [remove, queue_setQueue, here, if_false]

private theorem queue_delete {ref : RefBook} (unique : ref.Unique) (id : Nat) (s : Side)
    (price : Int) : (ref.delete id).2.queue s price =
      (ref.queue s price).filterMap (Entry.after (.delete id)) := by
  unfold delete
  cases found : ref.find? id with
  | none =>
    have absent := (ref.find?_eq_none_iff id).mp found s price
    have kept : ∀ e ∈ ref.queue s price, e.after (.delete id) = some e :=
      fun e member => if_neg (absent e member)
    exact (filterMap_after_absent _ _ kept).symm
  | some hit =>
    obtain ⟨t, r, e⟩ := hit
    rw [unique.queue_remove found, ← List.filterMap_eq_filter]
    apply List.filterMap_congr
    intro f _
    by_cases equal : f.id = id <;> simp [Entry.after, Option.guard, equal]

private theorem queue_replace {ref : RefBook} (unique : ref.Unique) (oldId newId : Nat)
    (newPrice : Int) (newQty ts : Nat) (s : Side) (price : Int) :
    (ref.replace oldId newId newPrice newQty ts).2.queue s price =
      (ref.queue s price).filterMap (Entry.after (.delete oldId)) ++
        ref.joining (.replace oldId newId newPrice newQty ts) s price := by
  have left := queue_delete unique oldId s price
  unfold delete at left
  simp only [replace, joining, joins]
  cases found : ref.find? oldId with
  | none =>
    rw [found] at left
    rw [← left, List.append_nil]
  | some hit =>
    obtain ⟨t, r, e⟩ := hit
    simp only [found] at left
    rw [queue_add, left]
    -- the search for the new id, before and after the old entry has left
    simp only [joining, joins, unique.find?_remove found]
    by_cases same : newId = oldId <;> simp [same]

/-- A call edits every queue entry by entry, and what it adds joins the end of one queue. -/
theorem Unique.queue_call {ref : RefBook} (unique : ref.Unique) (c : Call) (s : Side)
    (price : Int) : (ref.call c).2.queue s price =
      (ref.queue s price).filterMap (Entry.after c) ++ ref.joining c s price := by
  cases c with
  | add order =>
    rw [filterMap_after_absent _ _ fun _ _ => rfl]
    exact queue_add ref order s price
  | execute id qty ts =>
    rw [show ref.joining (.execute id qty ts) s price = [] from rfl, List.append_nil]
    exact queue_reduce unique id qty _ _ s price
  | executeAt id qty print ts =>
    rw [show ref.joining (.executeAt id qty print ts) s price = [] from rfl, List.append_nil]
    exact queue_reduce unique id qty _ _ s price
  | cancel id qty =>
    rw [show ref.joining (.cancel id qty) s price = [] from rfl, List.append_nil]
    exact queue_reduce unique id qty _ _ s price
  | delete id =>
    rw [show ref.joining (.delete id) s price = [] from rfl, List.append_nil]
    exact queue_delete unique id s price
  | replace oldId newId newPrice newQty ts =>
    exact queue_replace unique oldId newId newPrice newQty ts s price

theorem mem_joining_iff (ref : RefBook) (c : Call) (s : Side) (price : Int) (e : Entry) :
    e ∈ ref.joining c s price ↔ ref.joins c = some (s, price, e) := by
  unfold joining
  cases ref.joins c with
  | none => simp
  | some hit =>
    obtain ⟨t, r, f⟩ := hit
    by_cases here : s = t ∧ price = r
    · simp [here, eq_comm]
    · refine iff_of_false (by simp [here]) fun equal => here ?_
      cases equal
      exact ⟨rfl, rfl⟩

/-! ### A call reads the ids it names -/

/-- The entry that joins carries a name of the call. -/
theorem joins_named (ref : RefBook) (c : Call) (s : Side) (price : Int) (e : Entry)
    (joined : ref.joins c = some (s, price, e)) : e.id ∈ c.names := by
  cases c with
  | add order =>
    simp only [joins] at joined
    split at joined
    next => cases joined; simp [Call.names]
    next => cases joined
  | replace oldId newId newPrice newQty ts =>
    simp only [joins] at joined
    split at joined
    next => cases joined
    next =>
      split at joined
      next => cases joined; simp [Call.names]
      next => cases joined
  | _ => cases joined

private theorem add_congr {ref ref' : RefBook} (order : Order)
    (same : ref'.find? order.id = ref.find? order.id) :
    (ref'.add order).1 = (ref.add order).1 := by
  unfold add
  rw [same]
  cases ref.find? order.id <;> rfl

private theorem reduce_congr {α : Type} {ref ref' : RefBook} (id qty : Nat)
    (excess : Nat → BookError) (done : Int → α) (same : ref'.find? id = ref.find? id) :
    (ref'.reduce id qty excess done).1 = (ref.reduce id qty excess done).1 := by
  unfold reduce
  rw [same]
  cases ref.find? id with
  | none => rfl
  | some hit =>
    simp only
    split <;> rfl

/-- A call answers by what it finds under the ids it names. -/
theorem Unique.reply_congr {ref ref' : RefBook} (unique : ref.Unique) (unique' : ref'.Unique)
    (c : Call) (same : ∀ id ∈ c.names, ref'.find? id = ref.find? id) :
    (ref'.call c).1 = (ref.call c).1 := by
  cases c with
  | add order => exact congrArg Reply.unit (add_congr order (same order.id (by simp [Call.names])))
  | execute id qty ts =>
    exact congrArg Reply.trade (reduce_congr id qty _ _ (same id (by simp [Call.names])))
  | executeAt id qty price ts =>
    exact congrArg Reply.trade (reduce_congr id qty _ _ (same id (by simp [Call.names])))
  | cancel id qty =>
    exact congrArg Reply.unit (reduce_congr id qty _ _ (same id (by simp [Call.names])))
  | delete id =>
    have found := same id (by simp [Call.names])
    refine congrArg Reply.unit ?_
    rw [found]
    cases ref.find? id <;> rfl
  | replace oldId newId newPrice newQty ts =>
    have old := same oldId (by simp [Call.names])
    have new := same newId (by simp [Call.names])
    refine congrArg Reply.unit ?_
    rw [old]
    cases found : ref.find? oldId with
    | none => rfl
    | some hit =>
      obtain ⟨s, price, e⟩ := hit
      apply add_congr
      rw [unique'.find?_remove (old.trans found), unique.find?_remove found, new]

theorem joins_congr {ref ref' : RefBook} (c : Call)
    (same : ∀ id ∈ c.names, ref'.find? id = ref.find? id) : ref'.joins c = ref.joins c := by
  cases c with
  | add order => simp only [joins, same order.id (by simp [Call.names])]
  | replace oldId newId newPrice newQty ts =>
    simp only [joins, same oldId (by simp [Call.names]), same newId (by simp [Call.names])]
  | _ => rfl

end RefBook

/-- Each live id has one slot, so each entry of the reference book has one place. -/
theorem OrderBook.Represents.unique {book : OrderBook} {q : Side → Int → List Nat}
    {ref : RefBook} (rep : book.Represents q ref) : ref.Unique := by
  intro s p e t r f left right same
  obtain ⟨i, o, here, rfl, rfl, rfl⟩ := (rep.mem_queue_iff s p e).mp left
  obtain ⟨j, o', there, rfl, rfl, rfl⟩ := (rep.mem_queue_iff t r f).mp right
  cases rep.sound.slot_eq here there same
  rw [here] at there
  cases there
  exact ⟨rfl, rfl, rfl⟩

end Hftrs.Orderbook
