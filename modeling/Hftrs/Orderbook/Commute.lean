import Hftrs.Orderbook.Errors
import Hftrs.Orderbook.Exhausted
import Hftrs.Orderbook.Queries

/-! Calls that name different orders commute.

Each call edits the entries of the ids it names and reads nothing else, so on the reference book
two calls commute up to the order in which their new entries join a queue. Books that represent
the same reference book cannot be told apart by reading them. -/
namespace Hftrs.Orderbook

open Hftrs.Library OrderBook

/-! ### The reference book -/

theorem Entry.after_id {c : Call} {e f : Entry} (left : e.after c = some f) : f.id = e.id := by
  have less (qty : Nat) (left : e.less qty = some f) : f.id = e.id := by
    unfold Entry.less at left
    split at left
    next => cases left; rfl
    next =>
      split at left
      next => cases left
      next => cases left; rfl
  cases c <;> simp only [Entry.after] at left <;> try split at left
  all_goals first | exact less _ left | (cases left; rfl) | cases left

/-- The edits of calls that name different ids commute. -/
theorem Entry.after_comm {c d : Call} (disjoint : ∀ id ∈ c.names, id ∉ d.names) (e : Entry) :
    (e.after c).bind (Entry.after d) = (e.after d).bind (Entry.after c) := by
  -- one of the two calls does not name the entry, before and after the other's edit
  have skip (c d : Call) (apart : e.id ∉ c.names) :
      (e.after c).bind (Entry.after d) = (e.after d).bind (Entry.after c) := by
    rw [RefBook.after_of_not_named c e apart, Option.bind_some]
    cases left : e.after d with
    | none => rfl
    | some f =>
      rw [Option.bind_some, RefBook.after_of_not_named c f (after_id left ▸ apart)]
  by_cases named : e.id ∈ c.names
  · exact (skip d c (disjoint _ named)).symm
  · exact skip c d named

namespace RefBook

variable {ref : RefBook}

/-- A call does not touch what rests under other ids. -/
theorem Unique.find?_call (unique : ref.Unique) (c : Call) (unique' : (ref.call c).2.Unique)
    (id : Nat) (apart : id ∉ c.names) : (ref.call c).2.find? id = ref.find? id := by
  apply unique.find?_congr unique'
  intro s price e owner
  rw [unique.queue_call, List.mem_append, List.mem_filterMap]
  constructor
  · rintro (⟨f, member, left⟩ | joined)
    · have same := Entry.after_id left
      rw [after_of_not_named c f (by rw [← same, owner]; exact apart)] at left
      cases left
      exact member
    · have named := joins_named ref c s price e ((ref.mem_joining_iff c s price e).mp joined)
      rw [owner] at named
      exact absurd named apart
  · intro member
    exact .inl ⟨e, member, after_of_not_named c e (owner ▸ apart)⟩

/-- Queues after two calls that name different ids. -/
private theorem queue_two (unique : ref.Unique) {c d : Call} (unique' : (ref.call c).2.Unique)
    (disjoint : ∀ id ∈ c.names, id ∉ d.names) (s : Side) (price : Int) :
    ((ref.call c).2.call d).2.queue s price =
      ((ref.queue s price).filterMap fun e => (e.after c).bind (Entry.after d)) ++
        (ref.joining c s price ++ ref.joining d s price) := by
  have untouched : ∀ e ∈ ref.joining c s price, e.after d = some e := by
    intro e member
    have named := joins_named ref c s price e ((ref.mem_joining_iff c s price e).mp member)
    exact after_of_not_named d e (disjoint e.id named)
  have later : (ref.call c).2.joining d s price = ref.joining d s price := by
    have same : (ref.call c).2.joins d = ref.joins d := by
      apply joins_congr
      intro id member
      exact unique.find?_call c unique' id fun named => disjoint id named member
    unfold joining
    rw [same]
  rw [unique'.queue_call, unique.queue_call, List.filterMap_append, List.filterMap_filterMap,
    List.filterMap_congr untouched, List.filterMap_some, later, List.append_assoc]

/-- Calls that name different ids and do not join the same queue commute. -/
theorem Unique.queue_comm (unique : ref.Unique) {c d : Call} (first : (ref.call c).2.Unique)
    (second : (ref.call d).2.Unique) (disjoint : ∀ id ∈ c.names, id ∉ d.names)
    (apart : ∀ s price e f, ref.joins c = some (s, price, e) → ref.joins d ≠ some (s, price, f))
    (s : Side) (price : Int) :
    ((ref.call c).2.call d).2.queue s price = ((ref.call d).2.call c).2.queue s price := by
  have joined : ref.joining c s price ++ ref.joining d s price =
      ref.joining d s price ++ ref.joining c s price := by
    cases left : ref.joining c s price with
    | nil => rw [List.nil_append, List.append_nil]
    | cons e es =>
      cases right : ref.joining d s price with
      | nil => rw [List.nil_append, List.append_nil]
      | cons f fs =>
        have here := (ref.mem_joining_iff c s price e).mp (by rw [left]; simp)
        have there := (ref.mem_joining_iff d s price f).mp (by rw [right]; simp)
        exact absurd there (apart s price e f here)
  rw [queue_two unique first disjoint, queue_two unique second
    fun id member named => disjoint id named member, joined]
  simp only [Entry.after_comm disjoint]

/-- Reference books with the same queues are equal, when only occupied prices are keys. -/
theorem ext_of_queue {ref' : RefBook} (keys : ∀ s p, p ∈ ref.side s ↔ ref.queue s p ≠ [])
    (keys' : ∀ s p, p ∈ ref'.side s ↔ ref'.queue s p ≠ [])
    (same : ∀ s p, ref.queue s p = ref'.queue s p) : ref = ref' := by
  have stored (r : RefBook) (keys : ∀ s p, p ∈ r.side s ↔ r.queue s p ≠ []) (s : Side) (p : Int) :
      (r.side s)[p]? = if r.queue s p = [] then none else some (r.queue s p) := by
    have key := keys s p
    rw [Std.ExtTreeMap.mem_iff_isSome_getElem?] at key
    cases found : (r.side s)[p]? with
    | none => simp [queue, found]
    | some l =>
      rw [found] at key
      rw [if_neg (key.mp rfl), queue, found]
      rfl
  have sides (s : Side) : ref.side s = ref'.side s := by
    apply Std.ExtTreeMap.ext_getElem?
    intro p
    rw [stored ref keys, stored ref' keys', same]
  have bids := sides .bid
  have asks := sides .ask
  cases ref
  cases ref'
  cases bids
  cases asks
  rfl

end RefBook

namespace OrderBook

/-! ### Books that read alike -/

/-- The same orders, queue positions and aggregates, and the same answers to the queries. -/
structure Alike (book book' : OrderBook) : Prop where
  untouched : book.Untouched book'
  depth : ∀ n, book'.depth n = book.depth n
  bestBid : book'.bestBid = book.bestBid
  bestAsk : book'.bestAsk = book.bestAsk

variable {book book' : OrderBook} {q q' : Side → Int → List Nat} {ref : RefBook}

namespace Represents

theorem resting_eq (rep : book.Represents q ref) (id : Nat) :
    book.resting id = (ref.find? id).map fun (s, price, e) => ⟨e.id, s, price, e.qty, e.ts⟩ := by
  unfold OrderBook.resting
  cases live : book.orders[id]? with
  | none =>
    rw [rep.find?_missing live]
    rfl
  | some idx =>
    obtain ⟨node, found, _, searched⟩ := rep.find?_live live
    rw [searched, Option.bind_some, Pool.orderAt_of_get found]
    rfl

theorem aggregates (rep : book.Represents q ref) (side : Side) (price : Int) :
    book.aggregates side price = if ref.queue side price = [] then none
      else some (volume (ref.queue side price), (ref.queue side price).length) := by
  have empty : ref.queue side price = [] ↔ q side price = [] := by
    rw [rep.lists, List.map_eq_nil_iff]
  unfold OrderBook.aggregates
  split
  next none =>
    have missing := mt (rep.sound.present side price).mp (not_not.mpr (empty.mp none))
    rw [Std.ExtTreeMap.mem_iff_isSome_getElem?, Bool.not_eq_true, Option.isSome_eq_false_iff,
      Option.isNone_iff_eq_none] at missing
    rw [missing]
    rfl
  next some =>
    rw [rep.sound.getElem?_of_ne_nil fun none => some (empty.mpr none), Option.map_some,
      rep.total, rep.sound.counts, rep.lists, List.length_map]

theorem mem_orders (rep : book.Represents q ref) (id : Nat) :
    id ∈ book.orders ↔ ref.find? id ≠ none := by
  rw [Std.ExtTreeMap.mem_iff_isSome_getElem?]
  cases live : book.orders[id]? with
  | none => simp [rep.find?_missing live]
  | some idx =>
    obtain ⟨node, _, _, searched⟩ := rep.find?_live live
    simp [searched]

/-- Books that represent one reference book read alike, whatever slots their orders are in. -/
theorem alike (rep : book.Represents q ref) (rep' : book'.Represents q' ref) :
    book.Alike book' := by
  have ladders (s : Side) : book'.ladder s = book.ladder s := by rw [rep.ladder, rep'.ladder]
  refine ⟨⟨?_, ?_, ?_, ?_⟩, ?_, ?_, ?_⟩
  · intro id
    rw [rep.resting_eq, rep'.resting_eq]
  · intro side price
    rw [rep.readLevel, rep'.readLevel]
  · intro side price
    rw [rep.aggregates, rep'.aggregates]
  · -- the id maps have the same keys
    have keys := toList_map_eq (fun _ => ()) (fun _ => ()) book'.orders book.orders (by
      intro id
      have same := (rep'.mem_orders id).trans (rep.mem_orders id).symm
      rw [Std.ExtTreeMap.mem_iff_isSome_getElem?, Std.ExtTreeMap.mem_iff_isSome_getElem?] at same
      cases here : book'.orders[id]? <;> cases there : book.orders[id]? <;> simp_all)
    simpa [len] using congrArg List.length keys
  · intro n
    rw [depth_eq, depth_eq, ladders, ladders]
  · rw [bestBid_eq, bestBid_eq, ladders]
  · rw [bestAsk_eq, bestAsk_eq, ladders]

end Represents

/-! ### Two calls in either order -/

/-- The level a call inserts an order into, when it does. -/
def insertsAt (book : OrderBook) : Call → Option (Side × Int)
  | .add order => if order.id ∈ book.orders then none else some (order.side, order.price)
  | .replace oldId newId newPrice _ _ =>
    match book.resting oldId with
    | none => none
    | some old =>
      if newId = oldId ∨ newId ∉ book.orders then some (old.side, newPrice) else none
  | _ => none

theorem Represents.insertsAt (rep : book.Represents q ref) (c : Call) :
    book.insertsAt c = (ref.joins c).map fun (s, price, _) => (s, price) := by
  cases c with
  | add order =>
    simp only [OrderBook.insertsAt, RefBook.joins, rep.mem_orders]
    cases ref.find? order.id <;> simp
  | replace oldId newId newPrice newQty ts =>
    simp only [OrderBook.insertsAt, RefBook.joins, rep.mem_orders, rep.resting_eq]
    cases ref.find? oldId with
    | none => rfl
    | some hit =>
      by_cases same : newId = oldId
      · simp [same]
      · cases ref.find? newId <;> simp [same]
  | _ => rfl

/-- From a reachable book two calls that name different ids and do not insert into the same level
give the same replies in either order, and leave books that read alike. -/
theorem calls_commute (profile : Profile) (calls : List Call) (c d : Call)
    (wire : ∀ call ∈ c :: d :: calls, call.added ≤ maxValue 32) (replies : List Reply)
    (book : OrderBook) (reached : run (call profile) new calls = some (replies, book))
    (room : profile = .release → Along (call .release) FindsRoom new calls)
    (first : Along (call profile) FindsRoom book [c, d])
    (second : Along (call profile) FindsRoom book [d, c])
    (disjoint : ∀ id ∈ c.names, id ∉ d.names)
    (apart : ∀ level, book.insertsAt c = some level → book.insertsAt d ≠ some level) :
    ∃ r t cd dc, run (call profile) book [c, d] = some ([r, t], cd) ∧
      run (call profile) book [d, c] = some ([t, r], dc) ∧ cd.Alike dc := by
  have wireCalls : ∀ call ∈ calls, call.added ≤ maxValue 32 :=
    fun call member => wire call (by simp [member])
  obtain ⟨q, ref, rep⟩ := represents_of_run profile calls wireCalls replies book reached room
  -- both orders, each a pair of steps that the reference book follows
  obtain ⟨bookC, qC, stepC, repC⟩ := rep.call profile c first.1 (wire c (by simp))
  obtain ⟨bookD, qD, stepD, repD⟩ := rep.call profile d second.1 (wire d (by simp))
  obtain ⟨cd, qCD, stepCD, repCD⟩ :=
    repC.call profile d (first.2 _ _ stepC).1 (wire d (by simp))
  obtain ⟨dc, qDC, stepDC, repDC⟩ :=
    repD.call profile c (second.2 _ _ stepD).1 (wire c (by simp))
  have back : ∀ id ∈ d.names, id ∉ c.names := fun id member named => disjoint id named member
  have replyD := rep.unique.reply_congr repC.unique d
    fun id member => rep.unique.find?_call c repC.unique id (back id member)
  have replyC := rep.unique.reply_congr repD.unique c
    fun id member => rep.unique.find?_call d repD.unique id (disjoint id member)
  have same := RefBook.ext_of_queue repCD.keys repDC.keys
    (rep.unique.queue_comm repC.unique repD.unique disjoint fun s price e f joinsC joinsD => by
      refine apart (s, price) ?_ ?_
      · rw [rep.insertsAt, joinsC]
        rfl
      · rw [rep.insertsAt, joinsD]
        rfl)
  rw [replyD] at stepCD
  rw [replyC] at stepDC
  refine ⟨(ref.call c).1, (ref.call d).1, cd, dc, ?_, ?_, repCD.alike (same ▸ repDC)⟩
  · rw [run_cons_of_step _ _ _ _ _ _ stepC, run_cons_of_step _ _ _ _ _ _ stepCD]
    rfl
  · rw [run_cons_of_step _ _ _ _ _ _ stepD, run_cons_of_step _ _ _ _ _ _ stepDC]
    rfl

/-- The first order of a level is executed away, and its neighbour is replaced at the price the
level had. -/
theorem calls_commute_neighbours :
    ∃ r t cd dc, run (call .debug) twoOrders [.execute 1 10 2, .replace 2 3 100 8 3] =
        some ([r, t], cd) ∧
      run (call .debug) twoOrders [.replace 2 3 100 8 3, .execute 1 10 2] = some ([t, r], dc) ∧
      cd.Alike dc :=
  calls_commute .debug [.add ⟨1, .bid, 100, 10, 0⟩, .add ⟨2, .bid, 100, 5, 1⟩]
    (.execute 1 10 2) (.replace 2 3 100 8 3) (by decide) _ _ (Option.some_get (by decide)).symm
    (fun release => by cases release) (by decide) (by decide) (by decide)
    fun level first => by cases first

/-- With every slot index taken the order matters: an add panics before a delete has made room,
and succeeds after it. -/
theorem full_pool_order_matters :
    ∃ calls replies book c d,
      (∀ call ∈ c :: d :: calls, call.added ≤ maxValue 32) ∧
      run (call .debug) new calls = some (replies, book) ∧
      (∀ id ∈ c.names, id ∉ d.names) ∧
      (∀ level, book.insertsAt c = some level → book.insertsAt d ≠ some level) ∧
      run (call .debug) book [c, d] = none ∧
      ∃ r t dc, run (call .debug) book [d, c] = some ([t, r], dc) := by
  obtain ⟨n, full⟩ : ∃ n, n + 1 = NIL := ⟨4294967294, rfl⟩
  obtain ⟨along, replies, book, idx, returned, lone⟩ := run_loneAsk .debug n full
  obtain ⟨q, ref, rep⟩ := represents_of_run .debug _ (loneAsk_wire n) replies book returned
    fun release => by cases release
  -- the delete gives its slot back, and the add takes it
  obtain ⟨between, q', unlinked, removed, room⟩ := rep.unlink .debug lone.node
  have deleted : book.call .debug (.delete n) = some (.unit (.ok ()), between) := by
    simp only [call, delete, lone.live, unlinked, Option.map_some]
  obtain ⟨reply, last, added⟩ : ∃ reply last,
      between.call .debug (.add ⟨NIL, .ask, 1, 1, 0⟩) = some (reply, last) := by
    obtain ⟨last, _, added, _⟩ :=
      removed.call .debug (.add ⟨NIL, .ask, 1, 1, 0⟩) (.inr room) one_wire
    exact ⟨_, last, added⟩
  refine ⟨_, replies, book, .add ⟨NIL, .ask, 1, 1, 0⟩, .delete n, ?_, returned, ?_, ?_, ?_,
    reply, .unit (.ok ()), last, ?_⟩
  · intro c member
    simp only [List.mem_cons] at member
    rcases member with rfl | rfl | calls
    · exact one_wire
    · exact Nat.zero_le _
    · exact loneAsk_wire n c calls
  · intro id new old
    rw [List.mem_singleton.mp old] at new
    have same : n = NIL := List.mem_singleton.mp new
    omega
  · exact fun level _ never => by cases never
  · rw [run, lone.add_debug]
  · rw [run_cons_of_step _ _ _ _ _ _ deleted, run_cons_of_step _ _ _ _ _ _ added]
    rfl

end OrderBook

end Hftrs.Orderbook
