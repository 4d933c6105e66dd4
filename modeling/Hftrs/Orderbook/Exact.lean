import Hftrs.Orderbook.Queries

/-! No call panics, wraps or saturates.

The debug profile panics where the release profile wraps, so a call that returns under both with
the same result has done neither. For the saturating subtraction of `unlink` the calls are run
over a splice that panics where the subtraction would saturate. -/
namespace Hftrs.Orderbook

open Hftrs.Library

namespace OrderBook

/-! ### The calls over a splice of their choice -/

/-- `unlink`, with a panic where its `saturating_sub` would saturate. -/
def unlinkChecked (profile : Profile) (book : OrderBook) (idx : Nat) : Option OrderBook :=
  match book.pool.get idx with
  | none => none
  | some node =>
    if (book.level node.order.side node.order.price).totalQty < node.order.qty then none
    else book.unlink profile idx

def reduceWith {α : Type} (splice : OrderBook → Nat → Option OrderBook) (profile : Profile)
    (book : OrderBook) (id qty : Nat) (excess : Nat → BookError) (done : Int → α) :
    Option (Except BookError α × OrderBook) :=
  match book.orders[id]? with
  | none => some (.error (.unknownOrder id), book)
  | some idx => do
    let node ← book.pool.get idx
    if qty > node.order.qty then
      return (.error (excess node.order.qty), book)
    else
      let rest := node.order.qty - qty
      let pool ← book.pool.getMut idx fun n => { n with order := { n.order with qty := rest } }
      let levels := book.sideLevels node.order.side
      let level ← levels[node.order.price]?
      let totalQty ← profile.sub 64 level.totalQty qty
      let levels := levels.insert node.order.price { level with totalQty }
      let book := { book.setSideLevels node.order.side levels with pool }
      let book ← (if rest = 0 then splice book idx else some book)
      return (.ok (done node.order.price), book)

def deleteWith (splice : OrderBook → Nat → Option OrderBook) (book : OrderBook) (id : Nat) :
    Option (Except BookError Unit × OrderBook) :=
  match book.orders[id]? with
  | none => some (.error (.unknownOrder id), book)
  | some idx => (splice book idx).map fun book => (.ok (), book)

def replaceWith (splice : OrderBook → Nat → Option OrderBook) (profile : Profile)
    (book : OrderBook) (oldId newId : Nat) (newPrice : Int) (newQty ts : Nat) :
    Option (Except BookError Unit × OrderBook) :=
  match book.orders[oldId]? with
  | none => some (.error (.unknownOrder oldId), book)
  | some idx => do
    let node ← book.pool.get idx
    let book ← splice book idx
    book.add profile { id := newId, side := node.order.side, price := newPrice, qty := newQty, ts }

/-- The six handlers over a splice. -/
def callWith (splice : OrderBook → Nat → Option OrderBook) (profile : Profile)
    (book : OrderBook) : Call → Option (Reply × OrderBook)
  | .add order => (book.add profile order).map fun (r, book) => (.unit r, book)
  | .execute id qty ts =>
    (reduceWith splice profile book id qty (fun avail => .overExecute id qty avail)
      fun resting => { makerId := id, price := resting, qty, ts }).map
        fun (r, book) => (.trade r, book)
  | .executeAt id qty price ts =>
    (reduceWith splice profile book id qty (fun avail => .overExecute id qty avail)
      fun _ => { makerId := id, price, qty, ts }).map fun (r, book) => (.trade r, book)
  | .cancel id qty =>
    (reduceWith splice profile book id qty (fun avail => .overCancel id qty avail)
      fun _ => ()).map fun (r, book) => (.unit r, book)
  | .delete id => (deleteWith splice book id).map fun (r, book) => (.unit r, book)
  | .replace oldId newId newPrice newQty ts =>
    (replaceWith splice profile book oldId newId newPrice newQty ts).map
      fun (r, book) => (.unit r, book)

/-- Over `unlink` they are the handlers of the book. -/
theorem callWith_unlink (profile : Profile) (book : OrderBook) (c : Call) :
    callWith (unlink profile) profile book c = book.call profile c := by
  cases c <;> rfl

/-- The handlers over the splice that refuses to saturate. -/
def callChecked (profile : Profile) : OrderBook → Call → Option (Reply × OrderBook) :=
  callWith (unlinkChecked profile) profile

/-! ### What panics less -/

private theorem add_below (w a b : Nat) :
    Below (Profile.add .debug w a b) (Profile.add .release w a b) := by
  unfold Profile.add
  exact Below.ite _ (Below.refl _) (Below.none _)

private theorem sub_below (w a b : Nat) :
    Below (Profile.sub .debug w a b) (Profile.sub .release w a b) := by
  unfold Profile.sub
  exact Below.ite _ (Below.refl _) (Below.none _)

private theorem debugAssert_below (condition : Bool) :
    Below (Profile.debugAssert .debug condition) (Profile.debugAssert .release condition) := by
  cases condition
  · exact Below.none _
  · exact Below.refl _

private theorem free_below (pool : Pool Order) (idx : Nat) :
    Below (pool.free .debug idx) (pool.free .release idx) := by
  unfold Pool.free
  cases pool.slots[idx]? with
  | none => exact Below.refl _
  | some slot => exact (debugAssert_below _).map _

private theorem alloc_below (pool : Pool Order) (node : Node Order) :
    Below (pool.alloc .debug node) (pool.alloc .release node) := by
  unfold Pool.alloc
  exact Below.ite _ (Below.refl _) ((debugAssert_below _).map _)

private theorem unlink_below (book : OrderBook) (idx : Nat) :
    Below (book.unlink .debug idx) (book.unlink .release idx) := by
  unfold unlink
  refine (Below.refl _).bind fun node => (Below.refl _).bind fun pool => ?_
  refine (Below.refl _).bind fun pool => (Below.refl _).bind fun level => ?_
  exact (sub_below _ _ _).bind fun count => (free_below _ _).bind fun pool => Below.refl _

private theorem orderBook_add_below (book : OrderBook) (order : Order) :
    Below (book.add .debug order) (book.add .release order) := by
  unfold add
  refine Below.ite _ (Below.refl _) ?_
  refine (alloc_below _ _).bind fun (idx, pool) => (Below.refl _).bind fun pool => ?_
  exact (add_below _ _ _).bind fun total => (add_below _ _ _).bind fun count => Below.refl _

/-- The handlers return under the release profile what they return under the debug profile, and
over a splice what they return over one that panics more. -/
private theorem callWith_below {splice splice' : OrderBook → Nat → Option OrderBook}
    {profile profile' : Profile} (less : ∀ book idx, Below (splice book idx) (splice' book idx))
    (sub : ∀ w a b, Below (profile.sub w a b) (profile'.sub w a b))
    (add : ∀ (book : OrderBook) order, Below (book.add profile order) (book.add profile' order))
    (book : OrderBook) (c : Call) :
    Below (callWith splice profile book c) (callWith splice' profile' book c) := by
  have reduce {α : Type} (id qty : Nat) (excess : Nat → BookError) (done : Int → α) :
      Below (reduceWith splice profile book id qty excess done)
        (reduceWith splice' profile' book id qty excess done) := by
    unfold reduceWith
    cases book.orders[id]? with
    | none => exact Below.refl _
    | some idx =>
      refine (Below.refl _).bind fun node => Below.ite _ (Below.refl _) ?_
      refine (Below.refl _).bind fun pool => (Below.refl _).bind fun level => ?_
      refine (sub _ _ _).bind fun total => ?_
      exact (Below.ite _ (less _ _) (Below.refl _)).bind fun book => Below.refl _
  cases c with
  | add order => exact (add book order).map _
  | execute id qty ts => exact (reduce id qty _ _).map _
  | executeAt id qty price ts => exact (reduce id qty _ _).map _
  | cancel id qty => exact (reduce id qty _ _).map _
  | delete id =>
    refine Below.map _ ?_
    unfold deleteWith
    cases book.orders[id]? with
    | none => exact Below.refl _
    | some idx => exact (less book idx).map _
  | replace oldId newId newPrice newQty ts =>
    refine Below.map _ ?_
    unfold replaceWith
    cases book.orders[oldId]? with
    | none => exact Below.refl _
    | some idx =>
      exact (Below.refl _).bind fun node => (less book idx).bind fun between => add between _

private theorem unlinkChecked_below (profile : Profile) (book : OrderBook) (idx : Nat) :
    Below (book.unlinkChecked profile idx) (book.unlink profile idx) := by
  unfold unlinkChecked
  split
  next => exact Below.none _
  next node _ =>
    split
    next => exact Below.none _
    next => exact Below.refl _

theorem callChecked_below (profile : Profile) (book : OrderBook) (c : Call) :
    Below (book.callChecked profile c) (book.call profile c) := by
  rw [← callWith_unlink]
  exact callWith_below (unlinkChecked_below profile) (fun _ _ _ => Below.refl _)
    (fun _ _ => Below.refl _) book c

/-- What a call returns under the debug profile it returns under the release profile. -/
theorem call_debug_below (book : OrderBook) (c : Call) :
    Below (book.call .debug c) (book.call .release c) := by
  rw [← callWith_unlink, ← callWith_unlink]
  exact callWith_below unlink_below sub_below orderBook_add_below book c

/-! ### The saturating subtraction -/

variable {book : OrderBook} {q : Side → Int → List Nat} {ref : RefBook}

/-- In a sound book a level holds the quantity of each of its orders. -/
theorem Sound.unlinkChecked (profile : Profile) (sound : book.Sound q) {idx : Nat}
    {node : Node Order} (found : book.pool.get idx = some node) :
    book.unlinkChecked profile idx = book.unlink profile idx := by
  rw [OrderBook.unlinkChecked, found]
  exact if_neg (Nat.not_lt.mpr (sound.qty_le_total found))

private theorem Sound.reduceWith {α : Type} (profile : Profile) (sound : book.Sound q)
    (id qty : Nat) (excess : Nat → BookError) (done : Int → α) :
    OrderBook.reduceWith (OrderBook.unlinkChecked profile) profile book id qty excess done =
      book.reduce profile id qty excess done := by
  unfold OrderBook.reduceWith OrderBook.reduce
  cases live : book.orders[id]? with
  | none => rfl
  | some idx =>
    obtain ⟨o, stored, rfl⟩ := (sound.ids id idx).mp live
    obtain ⟨node, found, rfl⟩ := (book.pool.orderAt_iff idx o).mp stored
    simp only [found, Option.bind_eq_bind, Option.bind_some, gt_iff_lt]
    by_cases exceeds : node.order.qty < qty
    · simp only [exceeds, if_true]
    · -- the order gives up its quantity first, and the book it leaves is sound
      have enough : qty ≤ node.order.qty := Nat.le_of_not_lt exceeds
      have level := sound.getElem?_of_ne_nil (List.ne_nil_of_mem (sound.mem_queue found))
      have total := sound.qty_le_total found
      obtain ⟨pool', written, left, adjusted⟩ := adjust_spec sound.toQueued found
        (node.order.qty - qty) ((book.level node.order.side node.order.price).totalQty - qty)
      have reduced := sound.adjust found enough adjusted
      simp only [exceeds, if_false, written, level, Option.bind_some,
        profile.sub_eq (Nat.le_trans enough total)]
      rw [reduced.unlinkChecked profile left]

/-- From a sound book the checked handlers are the handlers. -/
theorem Sound.callChecked (profile : Profile) (sound : book.Sound q) (c : Call) :
    book.callChecked profile c = book.call profile c := by
  have slot (id idx : Nat) (live : book.orders[id]? = some idx) :
      book.unlinkChecked profile idx = book.unlink profile idx := by
    obtain ⟨o, stored, _⟩ := (sound.ids id idx).mp live
    obtain ⟨node, found, _⟩ := (book.pool.orderAt_iff idx o).mp stored
    exact sound.unlinkChecked profile found
  cases c with
  | add order => rfl
  | execute id qty ts => exact congrArg (Option.map _) (sound.reduceWith profile id qty _ _)
  | executeAt id qty price ts =>
    exact congrArg (Option.map _) (sound.reduceWith profile id qty _ _)
  | cancel id qty => exact congrArg (Option.map _) (sound.reduceWith profile id qty _ _)
  | delete id =>
    refine congrArg (Option.map _) ?_
    unfold deleteWith delete
    cases live : book.orders[id]? with
    | none => rfl
    | some idx => simp only [slot id idx live]
  | replace oldId newId newPrice newQty ts =>
    refine congrArg (Option.map _) ?_
    unfold replaceWith replace
    cases live : book.orders[oldId]? with
    | none => rfl
    | some idx => simp only [slot oldId idx live]

/-! ### The prices -/

/-- The price an add or a replace brings into the book. -/
def Call.price? : Call → Option Int
  | .add order => some order.price
  | .replace _ _ newPrice _ _ => some newPrice
  | _ => none

/-- A price as the wire carries it: `u32`. -/
def OnWire (price : Int) : Prop := 0 ≤ price ∧ price ≤ maxValue 32

instance (price : Int) : Decidable (OnWire price) :=
  inferInstanceAs (Decidable (0 ≤ price ∧ price ≤ maxValue 32))

/-- Every price with a resting order is one of the wire. -/
def Priced (ref : RefBook) : Prop := ∀ s price, ref.queue s price ≠ [] → OnWire price

theorem joins_price (ref : RefBook) (c : Call) (s : Side) (price : Int) (e : Entry)
    (joined : ref.joins c = some (s, price, e)) : c.price? = some price := by
  cases c with
  | add order =>
    simp only [RefBook.joins] at joined
    split at joined
    next => cases joined; rfl
    next => cases joined
  | replace oldId newId newPrice newQty ts =>
    simp only [RefBook.joins] at joined
    split at joined
    next => cases joined
    next =>
      split at joined
      next => cases joined; rfl
      next => cases joined
  | _ => cases joined

theorem Priced.call (priced : Priced ref) (unique : ref.Unique) (c : Call)
    (wire : ∀ price ∈ c.price?, OnWire price) : Priced (ref.call c).2 := by
  intro s price occupied
  rw [unique.queue_call, Ne, List.append_eq_nil_iff, not_and_or] at occupied
  rcases occupied with kept | joined
  · -- a queue with a remainder was a queue before
    apply priced s price
    rintro empty
    rw [empty] at kept
    exact kept rfl
  · obtain ⟨e, member⟩ := List.exists_mem_of_ne_nil _ joined
    exact wire price (joins_price ref c s price e ((ref.mem_joining_iff c s price e).mp member))

theorem best_onWire (rep : book.Represents q ref) (priced : Priced ref) :
    (∀ b t, book.bestBid = some (b, t) → OnWire b) ∧
      ∀ a t, book.bestAsk = some (a, t) → OnWire a := by
  constructor
  · intro b t best
    rw [bestBid_eq] at best
    exact priced _ _ (rep.mem_ladder (List.mem_of_getLast? best))
  · intro a t best
    rw [bestAsk_eq] at best
    exact priced _ _ (rep.mem_ladder (List.mem_of_head? best))

/-- With prices of the wire the sum and the difference of two of them fit an `i64`. -/
theorem spread_mid_exact (rep : book.Represents q ref) (priced : Priced ref) :
    (∃ spread, ∀ profile, book.spread profile = some spread) ∧
      ∃ mid, ∀ profile, book.mid profile = some mid := by
  obtain ⟨bids, asks⟩ := best_onWire rep priced
  unfold spread mid
  cases bid : book.bestBid with
  | none => exact ⟨⟨none, fun _ => rfl⟩, ⟨none, fun _ => rfl⟩⟩
  | some b =>
    cases ask : book.bestAsk with
    | none => exact ⟨⟨none, fun _ => rfl⟩, ⟨none, fun _ => rfl⟩⟩
    | some a =>
      obtain ⟨b, _⟩ := b
      obtain ⟨a, _⟩ := a
      obtain ⟨low, high⟩ := bids b _ bid
      obtain ⟨low', high'⟩ := asks a _ ask
      simp only [maxValue] at high high'
      have difference (profile : Profile) : profile.signed 64 (a - b) = some (a - b) :=
        profile.signed_eq (by omega) (by omega)
      have sum (profile : Profile) : profile.signed 64 (a + b) = some (a + b) :=
        profile.signed_eq (by omega) (by omega)
      simp only [difference, sum]
      exact ⟨⟨_, fun _ => rfl⟩, ⟨_, fun _ => rfl⟩⟩

/-- No call of a run panics, wraps or saturates: the debug profile returns, also where a
saturating subtraction would be a panic, and the release profile returns the same. In the book
the run ends in, and so in every book it passes, `spread` and `mid` do not overflow. -/
theorem run_exact (calls : List Call) (wire : ∀ c ∈ calls, c.added ≤ maxValue 32)
    (prices : ∀ c ∈ calls, ∀ price ∈ c.price?, OnWire price)
    (room : Throughout (call .debug) (fun book => book.pool.capacityUsed < NIL) new calls) :
    ∃ replies book,
      run (callChecked .debug) new calls = some (replies, book) ∧
      run (call .debug) new calls = some (replies, book) ∧
      run (call .release) new calls = some (replies, book) ∧
      (∃ spread, ∀ profile, book.spread profile = some spread) ∧
      ∃ mid, ∀ profile, book.mid profile = some mid := by
  -- the checked calls of the debug profile are the ones that panic most, and they simulate the
  -- reference book, whose prices stay those of the wire
  have room := (room.along.imp findsRoom_of_capacity).of_below (callChecked_below .debug)
  have inputs : ∀ c ∈ calls, c.added ≤ maxValue 32 ∧ ∀ price ∈ c.price?, OnWire price :=
    fun c member => ⟨wire c member, prices c member⟩
  obtain ⟨book, returned, ⟨q, rep⟩, priced⟩ := run_simulation (callChecked .debug) RefBook.call
    (fun book ref => (∃ q, book.Represents q ref) ∧ Priced ref) _
    (fun book ref c related admissible => by
      obtain ⟨⟨q, rep⟩, priced⟩ := related
      obtain ⟨finds, wire, prices⟩ := admissible
      obtain ⟨book', q', stepped, onwards⟩ := rep.call .debug c finds wire
      exact ⟨book', (rep.sound.callChecked .debug c).trans stepped, ⟨q', onwards⟩,
        priced.call rep.unique c prices⟩)
    new RefBook.empty calls
    ⟨⟨_, represents_new⟩, fun s _ occupied => by cases s <;> exact absurd rfl occupied⟩
    (room.and_inputs inputs)
  have debug := run_below (callChecked_below .debug) new calls _ returned
  have release := run_below call_debug_below new calls _ debug
  exact ⟨_, book, returned, debug, release, spread_mid_exact rep priced⟩

theorem run_exact_sample :
    ∃ replies book,
      run (callChecked .debug) new [.add ⟨1, .bid, 4294967295, 4294967295, 0⟩,
        .add ⟨2, .ask, 0, 10, 1⟩, .execute 2 4 2, .cancel 1 4294967295] = some (replies, book) ∧
      run (call .debug) new [.add ⟨1, .bid, 4294967295, 4294967295, 0⟩,
        .add ⟨2, .ask, 0, 10, 1⟩, .execute 2 4 2, .cancel 1 4294967295] = some (replies, book) ∧
      run (call .release) new [.add ⟨1, .bid, 4294967295, 4294967295, 0⟩,
        .add ⟨2, .ask, 0, 10, 1⟩, .execute 2 4 2, .cancel 1 4294967295] = some (replies, book) ∧
      (∃ spread, ∀ profile, book.spread profile = some spread) ∧
      ∃ mid, ∀ profile, book.mid profile = some mid :=
  run_exact _ (by decide) (by decide) (by decide)

end OrderBook

end Hftrs.Orderbook
