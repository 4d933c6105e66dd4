import Hftrs.Orderbook.Exact
import Hftrs.Orderbook.Ledger
import Hftrs.Orderbook.LiveOrders

/-! What rests in a book, and the room that is left for it. -/
namespace Hftrs.Orderbook

open Hftrs.Library

namespace RefBook

/-- How many entries rest on both sides. -/
def size (ref : RefBook) : Nat :=
  tally List.length (ref.side .bid) + tally List.length (ref.side .ask)

/-- Highest price of bids with what rests there. -/
def bestBid (ref : RefBook) : Option (Int × Nat) := (ref.ladder .bid).getLast?

/-- Lowest price of asks with what rests there. -/
def bestAsk (ref : RefBook) : Option (Int × Nat) := (ref.ladder .ask).head?

/-- A value of the two best prices, when there are both. -/
def ofBests (ref : RefBook) (value : Int → Int → Int) : Option Int :=
  match ref.bestBid, ref.bestAsk with
  | some (b, _), some (a, _) => some (value b a)
  | _, _ => none

def depth (ref : RefBook) (n : Nat) : List (Int × Nat) × List (Int × Nat) :=
  ((ref.ladder .bid).reverse.take n, (ref.ladder .ask).take n)

end RefBook

/-! ### Ids that rest once -/

namespace RefBook

variable {ref : RefBook}

/-- An id rests in one place, and once there. -/
structure Single (ref : RefBook) : Prop where
  unique : ref.Unique
  distinct : ref.Distinct

theorem single_empty : empty.Single where
  unique := by intro s p e t r f member; cases s <;> cases member
  distinct := by intro s p; cases s <;> exact List.nodup_nil

theorem id_of_after {c : OrderBook.Call} {e f : Entry} (kept : e.after c = some f) :
    f.id = e.id ∧ f.ts = e.ts := by
  have less {qty : Nat} (kept : e.less qty = some f) : f.id = e.id ∧ f.ts = e.ts := by
    unfold Entry.less at kept
    split at kept
    next => cases kept; exact ⟨rfl, rfl⟩
    next =>
      split at kept
      next => cases kept
      next => cases kept; exact ⟨rfl, rfl⟩
  cases c with
  | add order => cases kept; exact ⟨rfl, rfl⟩
  | execute id | executeAt id | cancel id =>
    simp only [Entry.after] at kept
    split at kept
    next => exact less kept
    next => cases kept; exact ⟨rfl, rfl⟩
  | delete id | replace id =>
    simp only [Entry.after] at kept
    split at kept
    next => cases kept
    next => cases kept; exact ⟨rfl, rfl⟩

/-- What a call keeps stays in its order. -/
theorem after_sublist {α : Type} (c : OrderBook.Call) (f : Entry → α)
    (same : ∀ e g, e.after c = some g → f g = f e) (l : List Entry) :
    ((l.filterMap (Entry.after c)).map f).Sublist (l.map f) := by
  induction l with
  | nil => exact List.Sublist.refl _
  | cons e l ih =>
    rw [List.filterMap_cons]
    split
    next => exact ih.cons _
    next g after =>
      rw [List.map_cons, List.map_cons, same e g after]
      exact ih.cons_cons _

/-- An entry that joins is the order of an addition or of a replacement. -/
theorem joins_cases {c : OrderBook.Call} {s : Side} {price : Int} {e : Entry}
    (joined : ref.joins c = some (s, price, e)) :
    (∃ order : Order, c = .add order ∧ price = order.price ∧
        e = ⟨order.id, order.qty, order.ts⟩) ∨
      ∃ oldId, c = .replace oldId e.id price e.qty e.ts := by
  cases c with
  | add order =>
    simp only [joins] at joined
    split at joined
    next => cases joined; exact .inl ⟨order, rfl, rfl, rfl⟩
    next => cases joined
  | replace oldId newId newPrice newQty ts =>
    simp only [joins] at joined
    split at joined
    next => cases joined
    next =>
      split at joined
      next => cases joined; exact .inr ⟨oldId, rfl⟩
      next => cases joined
  | _ => cases joined

/-- The id of an entry that joins is free, or the call gives it up. -/
theorem joins_fresh {c : OrderBook.Call} {s t : Side} {price r : Int} {e f : Entry}
    (joined : ref.joins c = some (s, price, e)) (member : f ∈ ref.queue t r)
    (same : f.id = e.id) : f.after c = none := by
  have absent (missing : (ref.find? e.id).isNone) : f.after c = none := by
    rw [Option.isNone_iff_eq_none] at missing
    exact absurd same (ref.find?_none e.id missing t r f member)
  cases c with
  | add order =>
    simp only [joins] at joined
    split at joined
    next missing => cases joined; exact absent missing
    next => cases joined
  | replace oldId newId newPrice newQty ts =>
    simp only [joins] at joined
    split at joined
    next => cases joined
    next =>
      split at joined
      next free =>
        cases joined
        rcases free with rfl | missing
        · exact if_pos same
        · exact absent missing
      next => cases joined
  | _ => cases joined

theorem Unique.call (unique : ref.Unique) (c : OrderBook.Call) : (ref.call c).2.Unique := by
  -- an entry is what the call makes of an old one, or the one that joins
  have origin {s : Side} {p : Int} {e : Entry} (member : e ∈ (ref.call c).2.queue s p) :
      (∃ old ∈ ref.queue s p, old.after c = some e) ∨ ref.joins c = some (s, p, e) := by
    rw [unique.queue_call, List.mem_append, List.mem_filterMap, ref.mem_joining_iff] at member
    exact member
  intro s p e t r f left right same
  rcases origin left with ⟨old, here, kept⟩ | joined
  · rcases origin right with ⟨old', there, kept'⟩ | joined'
    · have ids := (id_of_after kept).1.symm.trans (same.trans (id_of_after kept').1)
      obtain ⟨rfl, rfl, rfl⟩ := unique s p old t r old' here there ids
      rw [kept] at kept'
      cases kept'
      exact ⟨rfl, rfl, rfl⟩
    · have gone := joins_fresh joined' here ((id_of_after kept).1.symm.trans same)
      rw [gone] at kept
      cases kept
  · rcases origin right with ⟨old', there, kept'⟩ | joined'
    · have gone := joins_fresh joined there ((id_of_after kept').1.symm.trans same.symm)
      rw [gone] at kept'
      cases kept'
    · rw [joined] at joined'
      cases joined'
      exact ⟨rfl, rfl, rfl⟩

theorem Single.call (single : ref.Single) (c : OrderBook.Call) :
    (ref.call c).2.Single where
  unique := single.unique.call c
  distinct := by
    intro s price
    rw [single.unique.queue_call, List.map_append, List.nodup_append]
    have kept := after_sublist c Entry.id (fun e g after => (id_of_after after).1)
      (ref.queue s price)
    refine ⟨(single.distinct s price).sublist kept, ?_, ?_⟩
    · unfold joining
      split
      next => split <;> simp
      next => exact List.nodup_nil
    · rintro id left _ right rfl
      obtain ⟨f, member, rfl⟩ := List.mem_map.mp left
      obtain ⟨e, joined, same⟩ := List.mem_map.mp right
      obtain ⟨old, here, after⟩ := List.mem_filterMap.mp member
      have gone := joins_fresh ((ref.mem_joining_iff c s price e).mp joined) here
        ((id_of_after after).1.symm.trans same.symm)
      rw [gone] at after
      cases after

/-! ### How many entries rest -/

theorem size_setQueue (ref : RefBook) (s : Side) (price : Int) (l : List Entry) :
    (ref.setQueue s price l).size + (ref.queue s price).length = ref.size + l.length := by
  have replaced : tally List.length ((ref.setQueue s price l).side s) +
      (ref.queue s price).length = tally List.length (ref.side s) + l.length := by
    have measured : (ref.queue s price).length =
        ((ref.side s)[price]?.map List.length).getD 0 := by
      rw [queue]
      cases (ref.side s)[price]? <;> rfl
    rw [measured, setQueue, side_setSide, if_pos rfl]
    split
    next none => rw [tally_erase, none, List.length_nil, Nat.add_zero]
    next => exact tally_insert_eq _ _ _ _
  cases s with
  | bid =>
    have other : (ref.setQueue .bid price l).side .ask = ref.side .ask := rfl
    rw [size, size, other]
    omega
  | ask =>
    have other : (ref.setQueue .ask price l).side .bid = ref.side .bid := rfl
    rw [size, size, other]
    omega

/-- Without the entry of an id, the queue that has it is shorter by one. -/
theorem size_remove {s : Side} {price : Int} {e : Entry}
    (nodup : ((ref.queue s price).map Entry.id).Nodup) (member : e ∈ ref.queue s price) :
    (ref.remove s price e.id).size + 1 = ref.size := by
  have once : (ref.queue s price).countP (fun f => f.id = e.id) = 1 := by
    have counted := List.count_eq_one_of_mem nodup (List.mem_map_of_mem member)
    rw [List.count, List.countP_map] at counted
    rw [← counted]
    apply List.countP_congr
    intro f _
    simp
  have others : ((ref.queue s price).filter fun f => f.id ≠ e.id).length =
      (ref.queue s price).countP fun f => ¬decide (f.id = e.id) := by
    rw [← List.countP_eq_length_filter]
    apply List.countP_congr
    intro f _
    simp
  have both : (ref.queue s price).length = _ :=
    List.length_eq_countP_add_countP fun f : Entry => decide (f.id = e.id)
  have sized := ref.size_setQueue s price ((ref.queue s price).filter fun f => f.id ≠ e.id)
  rw [remove]
  omega

variable (single : ref.Single)

include single in
theorem Single.size_remove {id : Nat} {s : Side} {price : Int} {e : Entry}
    (found : ref.find? id = some (s, price, e)) :
    (ref.remove s price id).size + 1 = ref.size := by
  obtain ⟨member, rfl⟩ := ref.find?_some id s price e found
  exact RefBook.size_remove (single.distinct s price) member

theorem size_add (ref : RefBook) (order : Order) :
    (ref.add order).2.size = ref.size + if (ref.add order).1.isOk then 1 else 0 := by
  unfold add
  cases ref.find? order.id with
  | some hit => rfl
  | none =>
    have sized := ref.size_setQueue order.side order.price
      (ref.queue order.side order.price ++ [⟨order.id, order.qty, order.ts⟩])
    rw [List.length_append, List.length_singleton] at sized
    simp only [Except.isOk, Except.toBool, if_true]
    omega

/-- The quantity is all that is left of the order. -/
def Finishes (ref : RefBook) (id qty : Nat) : Prop :=
  ∃ hit ∈ ref.find? id, hit.2.2.qty = qty

instance (ref : RefBook) (id qty : Nat) : Decidable (ref.Finishes id qty) :=
  inferInstanceAs (Decidable (∃ hit ∈ ref.find? id, hit.2.2.qty = qty))

/-- The orders that an execution or a cancellation uses up. -/
def usedUp (ref : RefBook) : OrderBook.Call → Nat
  | .execute id qty _ => if ref.Finishes id qty then 1 else 0
  | .executeAt id qty _ _ => if ref.Finishes id qty then 1 else 0
  | .cancel id qty => if ref.Finishes id qty then 1 else 0
  | _ => 0

include single in
/-- A reduction leaves an entry where it is, unless it takes all that is left of it. -/
theorem Single.size_reduce {α : Type} (id qty : Nat) (excess : Nat → BookError)
    (done : Int → α) :
    (ref.reduce id qty excess done).2.size + (if ref.Finishes id qty then 1 else 0) = ref.size ∧
      (ref.Finishes id qty → (ref.reduce id qty excess done).1.isOk) := by
  unfold reduce
  cases found : ref.find? id with
  | none =>
    have absent : ¬ref.Finishes id qty := by
      rintro ⟨hit, member, _⟩
      rw [found] at member
      cases member
    rw [if_neg absent]
    exact ⟨rfl, fun finishes => absurd finishes absent⟩
  | some hit =>
    obtain ⟨s, price, e⟩ := hit
    have finishes : ref.Finishes id qty ↔ e.qty = qty := by simp [Finishes, found]
    obtain ⟨member, rfl⟩ := ref.find?_some id s price e found
    simp only [finishes]
    by_cases exceeds : e.qty < qty
    · simp only [exceeds, if_true, Nat.ne_of_lt exceeds, if_false, Nat.add_zero, false_implies,
        and_self]
    · simp only [exceeds, if_false, Except.isOk, Except.toBool, implies_true, and_true]
      generalize shape : ((ref.queue s price).map fun f =>
        if f.id = e.id then { f with qty := f.qty - qty } else f) = lessened
      have ids : lessened.map Entry.id = (ref.queue s price).map Entry.id := by
        rw [← shape, List.map_map]
        apply List.map_congr_left
        intro f _
        rw [Function.comp_apply]
        split <;> rfl
      have less := ref.size_setQueue s price lessened
      have length := congrArg List.length ids
      rw [List.length_map, List.length_map] at length
      split
      next =>
        have here : (ref.setQueue s price lessened).queue s price = lessened := by
          rw [queue_setQueue, if_pos ⟨rfl, rfl⟩]
        have reduced : { e with qty := e.qty - qty } ∈ lessened :=
          shape ▸ List.mem_map.mpr ⟨e, member, if_pos rfl⟩
        have gone := RefBook.size_remove (by rw [here, ids]; exact single.distinct s price)
          (here.symm ▸ reduced)
        simp only at gone
        omega
      next => omega

include single in
theorem Single.size_delete (id : Nat) :
    (ref.delete id).2.size + (if (ref.delete id).1.isOk then 1 else 0) = ref.size := by
  unfold delete
  cases found : ref.find? id with
  | none => rfl
  | some hit => exact single.size_remove found

/-- The new id of a replacement rests elsewhere, so that the old order leaves and none joins. -/
def Collides (ref : RefBook) (oldId newId : Nat) : Prop :=
  (ref.find? oldId).isSome ∧ newId ≠ oldId ∧ (ref.find? newId).isSome

instance (ref : RefBook) (oldId newId : Nat) : Decidable (ref.Collides oldId newId) :=
  inferInstanceAs (Decidable (_ ∧ _ ∧ _))

/-- The orders that a call lets go although it fails. -/
def dropped (ref : RefBook) : OrderBook.Call → Nat
  | .replace oldId newId _ _ _ => if ref.Collides oldId newId then 1 else 0
  | _ => 0

include single in
theorem Single.size_replace (oldId newId : Nat) (newPrice : Int) (newQty ts : Nat) :
    (ref.replace oldId newId newPrice newQty ts).2.size +
      (if ref.Collides oldId newId then 1 else 0) = ref.size := by
  unfold replace
  cases found : ref.find? oldId with
  | none =>
    have apart : ¬ref.Collides oldId newId := by
      rintro ⟨resting, _⟩
      rw [found] at resting
      cases resting
    rw [if_neg apart]
    rfl
  | some hit =>
    obtain ⟨s, price, e⟩ := hit
    -- the old order leaves; the new one joins, unless its id rests elsewhere
    have left := single.size_remove found
    have joined := (ref.remove s price oldId).size_add ⟨newId, s, newPrice, newQty, ts⟩
    have searched := single.unique.find?_remove found newId
    have refused : ((ref.remove s price oldId).add ⟨newId, s, newPrice, newQty, ts⟩).1.isOk =
        !decide (ref.Collides oldId newId) := by
      rw [add, searched]
      by_cases same : newId = oldId
      · simp [same, Collides, Except.isOk, Except.toBool]
      · simp only [same, if_false, Collides, found, Option.isSome_some, ne_eq, not_false_eq_true,
          true_and]
        cases ref.find? newId <;> rfl
    rw [refused] at joined
    simp only
    by_cases collides : ref.Collides oldId newId
    · simp only [collides, decide_true, Bool.not_true, Bool.false_eq_true, if_false,
        if_true] at joined ⊢
      omega
    · simp only [collides, decide_false, Bool.not_false, if_true, if_false] at joined ⊢
      omega

end RefBook

namespace OrderBook

variable {book : OrderBook} {q : Side → Int → List Nat} {ref : RefBook}

/-- The pool has room exactly while fewer orders are live than it has indices. -/
theorem Queued.hasRoom_iff (queued : book.Queued q) : book.pool.HasRoom ↔ book.len < NIL := by
  have length : (book.orders.toList.map Prod.snd).length = book.len := by
    rw [List.length_map, Std.ExtTreeMap.length_toList, len]
  rw [← length]
  constructor
  · intro room
    refine queued.pool.occupied_length_lt room queued.nodup_liveSlots fun i member => ?_
    obtain ⟨o, found⟩ := (queued.mem_liveSlots i).mp member
    obtain ⟨n, get, _⟩ := (book.pool.orderAt_iff i o).mp found
    exact ⟨n, get⟩
  · intro few
    by_cases below : book.pool.slots.length < NIL
    · exact .inr below
    -- more slots than live ones leave a gap among them
    have more : (book.orders.toList.map Prod.snd).length <
        (List.range book.pool.slots.length).length := by
      rw [List.length_range]
      omega
    obtain ⟨i, inside, free⟩ : ∃ i ∈ List.range book.pool.slots.length,
        i ∉ book.orders.toList.map Prod.snd := by
      by_contra none
      push Not at none
      exact absurd (List.subperm_of_subset List.nodup_range none).length_le
        (Nat.not_le.mpr more)
    refine queued.pool.room_of_gap (List.mem_range.mp inside) ?_
    rw [queued.mem_liveSlots] at free
    by_contra taken
    obtain ⟨n, found⟩ := Option.ne_none_iff_exists'.mp taken
    exact free ⟨n.order, Pool.orderAt_of_get found⟩

namespace Represents

theorem bestBid (rep : book.Represents q ref) : book.bestBid = ref.bestBid := by
  rw [bestBid_eq, rep.ladder, RefBook.bestBid]

theorem bestAsk (rep : book.Represents q ref) : book.bestAsk = ref.bestAsk := by
  rw [bestAsk_eq, rep.ladder, RefBook.bestAsk]

theorem depth (rep : book.Represents q ref) (n : Nat) : book.depth n = ref.depth n := by
  rw [depth_eq, rep.ladder, rep.ladder, RefBook.depth]

/-- A query of the two best prices, whose intermediate value is in range. -/
private theorem signed_bests (rep : book.Represents q ref) (priced : Priced ref)
    (profile : Profile) (value : Int → Int → Int) (result : Int → Int)
    (inRange : ∀ b a, OnWire b → OnWire a → InI64 (value b a)) :
    (match book.bestBid, book.bestAsk with
      | some (b, _), some (a, _) => (profile.signed 64 (value b a)).map fun n => some (result n)
      | _, _ => some none) = some (ref.ofBests fun b a => result (value b a)) := by
  obtain ⟨bids, asks⟩ := best_onWire rep priced
  rw [RefBook.ofBests, ← rep.bestBid, ← rep.bestAsk]
  cases bid : book.bestBid with
  | none => rfl
  | some b =>
    cases ask : book.bestAsk with
    | none => rfl
    | some a =>
      obtain ⟨low, high⟩ := inRange b.1 a.1 (bids b.1 b.2 bid) (asks a.1 a.2 ask)
      simp only [profile.signed_eq (w := 64) low high, Option.map_some]

theorem spread (rep : book.Represents q ref) (priced : Priced ref) (profile : Profile) :
    book.spread profile = some (ref.ofBests fun b a => a - b) := by
  refine rep.signed_bests priced profile (fun b a => a - b) id fun b a bid ask => ?_
  obtain ⟨low, high⟩ := bid
  obtain ⟨low', high'⟩ := ask
  simp only [maxValue] at high high'
  constructor <;> omega

theorem mid (rep : book.Represents q ref) (priced : Priced ref) (profile : Profile) :
    book.mid profile = some (ref.ofBests fun b a => (a + b).tdiv 2) := by
  refine rep.signed_bests priced profile (fun b a => a + b) (·.tdiv 2) fun b a bid ask => ?_
  obtain ⟨low, high⟩ := bid
  obtain ⟨low', high'⟩ := ask
  simp only [maxValue] at high high'
  constructor <;> omega

private theorem tally_length (rep : book.Represents q ref) (side : Side) :
    tally Level.orderCount (book.sideLevels side) = tally List.length (ref.side side) := by
  have listed := toList_map_eq Level.orderCount List.length (book.sideLevels side)
    (ref.side side) fun price => by
      have count := rep.sound.counts side price
      have lists := congrArg List.length (rep.lists side price)
      rw [List.length_map, ← count, level, RefBook.queue] at lists
      have keys := rep.mem_sideLevels side price
      rw [Std.ExtTreeMap.mem_iff_isSome_getElem?, Std.ExtTreeMap.mem_iff_isSome_getElem?] at keys
      cases here : (book.sideLevels side)[price]? <;> cases there : (ref.side side)[price]? <;>
        simp_all
  have sums := congrArg (fun l => (l.map Prod.snd).sum) listed
  simp only [List.map_map] at sums
  exact sums

theorem len (rep : book.Represents q ref) : book.len = ref.size := by
  have counted := rep.sound.queues_perm.length_eq
  rw [List.length_append, List.length_map, Std.ExtTreeMap.length_toList] at counted
  have bids := rep.sound.tally_orderCount .bid
  have asks := rep.sound.tally_orderCount .ask
  rw [rep.tally_length] at bids asks
  rw [OrderBook.len, ← counted, RefBook.size, bids, asks]
  rfl

theorem findsRoom (rep : book.Represents q ref) (few : ref.size < NIL) (c : Call) :
    book.FindsRoom c := by
  cases c with
  | add order => exact .inr (rep.sound.hasRoom_iff.mpr (rep.len ▸ few))
  | _ => trivial

end Represents

end OrderBook

end Hftrs.Orderbook
