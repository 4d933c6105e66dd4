import Hftrs.Orderbook.Integrity

/-! What a failed call leaves behind.

Every check runs before the first mutation, except the duplicate check of `replace`, which runs
after the old order has been unlinked. -/
namespace Hftrs.Orderbook

open Hftrs.Library

namespace OrderBook

/-- The resting order an id addresses. -/
def resting (book : OrderBook) (id : Nat) : Option Order :=
  book.orders[id]?.bind book.pool.orderAt

/-- The aggregates of a level: its total quantity and its order count. -/
def aggregates (book : OrderBook) (side : Side) (price : Int) : Option (Nat × Nat) :=
  (book.sideLevels side)[price]?.map fun level => (level.totalQty, level.orderCount)

/-- The same orders, queue positions, aggregates and length. -/
structure Untouched (book book' : OrderBook) : Prop where
  resting : ∀ id, book'.resting id = book.resting id
  queues : ∀ side price, book'.readLevel side price = book.readLevel side price
  aggregates : ∀ side price, book'.aggregates side price = book.aggregates side price
  len : book'.len = book.len

theorem Untouched.refl (book : OrderBook) : book.Untouched book :=
  ⟨fun _ => rfl, fun _ _ => rfl, fun _ _ => rfl, rfl⟩

/-- The replaced id is live and the new id is that of another live order. -/
def Collides (book : OrderBook) : Call → Prop
  | .replace oldId newId _ _ _ =>
    ∃ order, book.resting oldId = some order ∧ newId ≠ order.id ∧ newId ∈ book.orders
  | _ => False

/-! ### Errors before any mutation -/

private theorem add_error (profile : Profile) (book book' : OrderBook) (order : Order)
    (error : BookError) (returned : book.add profile order = some (.error error, book')) :
    order.id ∈ book.orders ∧ book' = book := by
  unfold add at returned
  split at returned
  next contained => cases returned; exact ⟨Std.ExtTreeMap.mem_iff_contains.mpr contained, rfl⟩
  next => simp [Option.bind_eq_some_iff] at returned

private theorem reduce_error {α : Type} (profile : Profile) (book book' : OrderBook)
    (id qty : Nat) (excess : Nat → BookError) (done : Int → α) (error : BookError)
    (returned : book.reduce profile id qty excess done = some (.error error, book')) :
    book' = book := by
  unfold reduce at returned
  split at returned
  next => cases returned; rfl
  next idx _ =>
    obtain ⟨node, _, returned⟩ := Option.bind_eq_some_iff.mp returned
    split at returned
    next => cases returned; rfl
    -- past the quantity check nothing returns an error
    next => simp [Option.bind_eq_some_iff] at returned

private theorem delete_error (profile : Profile) (book book' : OrderBook) (id : Nat)
    (error : BookError) (returned : book.delete profile id = some (.error error, book')) :
    book' = book := by
  unfold delete at returned
  split at returned
  next => cases returned; rfl
  next =>
    obtain ⟨_, _, equal⟩ := Option.map_eq_some_iff.mp returned
    cases equal

/-! ### The error after the mutation -/

private theorem stored_ne (levels : Levels) (price : Int) (lv : Level) (total count : Nat)
    (changed : lv.orderCount ≠ count) :
    ((if lv.isEmpty then levels.erase price else levels.insert price lv)[price]?.map
      fun level => (level.totalQty, level.orderCount)) ≠ some (total, count) := by
  split
  next => simp
  next => simp [changed]

/-- A book that has lost an order shows it in the aggregates of the order's level, whatever
state it was in. -/
private theorem unlink_touches (profile : Profile) (book book' : OrderBook) (idx : Nat)
    (node : Node Order) (found : book.pool.get idx = some node)
    (returned : book.unlink profile idx = some book') :
    book'.orders = book.orders.erase node.order.id ∧
      book'.aggregates node.order.side node.order.price ≠
        book.aggregates node.order.side node.order.price := by
  simp only [unlink, found, Option.bind_eq_bind, Option.bind_some, Option.bind_eq_some_iff,
    Option.pure_def, Option.some.injEq] at returned
  obtain ⟨pool₁, _, pool₂, _, level, stored, count, fewer, pool₃, _, rfl⟩ := returned
  -- one order less, or no level at all
  have changed := profile.sub_ne (by decide) (by decide) fewer
  refine ⟨rfl, ?_⟩
  simp only [aggregates, stored, sideLevels_with, sideLevels_setSideLevels, if_true,
    Option.map_some]
  exact stored_ne _ _ _ _ _ changed

private theorem replace_error_iff (profile : Profile) (book book' : OrderBook)
    (oldId newId : Nat) (newPrice : Int) (newQty ts : Nat) (result : Except BookError Unit)
    (returned : book.replace profile oldId newId newPrice newQty ts = some (result, book')) :
    (∀ error, result = .error error → book.Untouched book') ↔
      ¬book.Collides (.replace oldId newId newPrice newQty ts) := by
  unfold replace at returned
  split at returned
  next missing =>
    cases returned
    -- an unknown id fails before the mutation, and is no collision
    refine iff_of_true (fun _ _ => Untouched.refl book) ?_
    rintro ⟨order, live, _⟩
    simp [resting, missing] at live
  next idx live =>
    obtain ⟨node, found, returned⟩ := Option.bind_eq_some_iff.mp returned
    obtain ⟨between, unlinked, returned⟩ := Option.bind_eq_some_iff.mp returned
    obtain ⟨orders, changed⟩ := unlink_touches profile book between idx node found unlinked
    have owner : book.resting oldId = some node.order := by
      rw [resting, live]
      exact Pool.orderAt_of_get found
    -- the duplicate check of `add` reads the id map without the old order
    have duplicate : newId ∈ between.orders ↔ newId ≠ node.order.id ∧ newId ∈ book.orders := by
      rw [orders, Std.ExtTreeMap.mem_erase, ne_eq, Std.LawfulEqCmp.compare_eq_iff_eq, ← ne_eq,
        ne_comm]
    constructor
    · rintro untouched ⟨order, resting, other, member⟩
      -- on a collision `add` refuses, after the old order has left its level
      rw [owner] at resting
      cases resting
      have contained := Std.ExtTreeMap.mem_iff_contains.mp (duplicate.mpr ⟨other, member⟩)
      rw [add, if_pos contained] at returned
      cases returned
      exact changed ((untouched _ rfl).aggregates _ _)
    -- an error of `add` is a duplicate, which is a collision
    · rintro apart error rfl
      obtain ⟨member, _⟩ := add_error profile between book' _ error returned
      exact absurd ⟨node.order, owner, duplicate.mp member⟩ apart

/-- From the errors of a handler to those of the call that wraps it. -/
private theorem wrapped_error {α : Type} {book book' : OrderBook} {reply : Reply}
    (wrap : Except BookError α → Reply) (ok : ∀ a, (wrap (.ok a)).isError = false)
    (handler : Option (Except BookError α × OrderBook))
    (same : ∀ error after, handler = some (.error error, after) → after = book)
    (returned : handler.map (fun (r, book) => (wrap r, book)) = some (reply, book'))
    (failed : reply.isError = true) : book.Untouched book' := by
  obtain ⟨⟨result, after⟩, called, equal⟩ := Option.map_eq_some_iff.mp returned
  cases equal
  cases result with
  | ok a => rw [ok] at failed; cases failed
  | error e => rw [same e book' called]; exact Untouched.refl book

/-- A failed call leaves the book as it was, unless it is a `replace` whose new id is that of
another live order: then the old order is gone. -/
theorem call_untouched_iff (profile : Profile) (book book' : OrderBook) (c : Call) (reply : Reply)
    (returned : book.call profile c = some (reply, book')) :
    (reply.isError = true → book.Untouched book') ↔ ¬book.Collides c := by
  cases c with
  | add order =>
    refine iff_of_true (wrapped_error .unit (fun _ => rfl) _ (fun e after called => ?_) returned) id
    exact (add_error profile book after order e called).2
  | execute id qty ts =>
    refine iff_of_true (wrapped_error .trade (fun _ => rfl) _ (fun e after called => ?_) returned)
      fun collides => collides
    rw [execute, executeInner] at called
    exact reduce_error profile book after id qty _ _ e called
  | executeAt id qty price ts =>
    refine iff_of_true (wrapped_error .trade (fun _ => rfl) _ (fun e after called => ?_) returned)
      fun collides => collides
    rw [executeAt, executeInner] at called
    exact reduce_error profile book after id qty _ _ e called
  | cancel id qty =>
    refine iff_of_true (wrapped_error .unit (fun _ => rfl) _ (fun e after called => ?_) returned)
      fun collides => collides
    exact reduce_error profile book after id qty _ _ e called
  | delete id =>
    refine iff_of_true (wrapped_error .unit (fun _ => rfl) _ (fun e after called => ?_) returned)
      fun collides => collides
    exact delete_error profile book after id e called
  | replace oldId newId newPrice newQty ts =>
    obtain ⟨⟨result, after⟩, called, equal⟩ := Option.map_eq_some_iff.mp returned
    cases equal
    rw [← replace_error_iff profile book book' _ _ _ _ _ result called]
    cases result with
    | ok => simp [Reply.isError]
    | error e => simp [Reply.isError]

/-- A book with two orders. -/
def twoOrders : OrderBook :=
  ((run (call .debug) new
    [.add ⟨1, .bid, 100, 10, 0⟩, .add ⟨2, .bid, 100, 5, 1⟩]).get (by decide)).2

theorem call_untouched_collision :
    ∃ reply book', twoOrders.call .debug (.replace 1 2 101 8 2) = some (reply, book') ∧
      ((reply.isError = true → twoOrders.Untouched book') ↔
        ¬twoOrders.Collides (.replace 1 2 101 8 2)) := by
  have called : (twoOrders.call .debug (.replace 1 2 101 8 2)).isSome := by decide
  have returned := (Option.some_get called).symm
  exact ⟨_, _, returned, call_untouched_iff .debug _ _ _ _ returned⟩

/-- Replacing the first of two orders under the id of the second fails and loses the first. -/
theorem replace_loses_order :
    ∃ replies book reply book',
      run (call .debug) new [.add ⟨1, .bid, 100, 10, 0⟩, .add ⟨2, .bid, 100, 5, 1⟩] =
        some (replies, book) ∧
      book.call .debug (.replace 1 2 101 8 2) = some (reply, book') ∧
      reply = .unit (.error (.duplicateOrder 2)) ∧ ¬book.Untouched book' := by
  refine ⟨_, twoOrders, ((twoOrders.call .debug (.replace 1 2 101 8 2)).get (by decide)).1,
    ((twoOrders.call .debug (.replace 1 2 101 8 2)).get (by decide)).2,
    (Option.some_get (by decide)).symm, (Option.some_get (by decide)).symm, by decide, ?_⟩
  intro untouched
  exact absurd untouched.len (by decide)

/-! ### The collision in an intact book -/

/-- In an intact book the order an id addresses carries that id. -/
theorem Intact.collides_iff {book : OrderBook} (intact : book.Intact) (oldId newId : Nat)
    (newPrice : Int) (newQty ts : Nat) :
    book.Collides (.replace oldId newId newPrice newQty ts) ↔
      oldId ∈ book.orders ∧ newId ∈ book.orders ∧ newId ≠ oldId := by
  constructor
  · rintro ⟨order, live, other, member⟩
    have old : oldId ∈ book.orders := by
      rw [Std.ExtTreeMap.mem_iff_isSome_getElem?]
      obtain ⟨idx, found, _⟩ := Option.bind_eq_some_iff.mp live
      rw [found]
      rfl
    obtain ⟨idx, node, found, get, owner⟩ := intact.ids oldId old
    rw [resting, found, Option.bind_some, Pool.orderAt_of_get get] at live
    cases live
    exact ⟨old, member, owner ▸ other⟩
  · rintro ⟨old, member, other⟩
    obtain ⟨idx, node, found, get, rfl⟩ := intact.ids oldId old
    refine ⟨node.order, ?_, other, member⟩
    rw [resting, found]
    exact Pool.orderAt_of_get get

end OrderBook

end Hftrs.Orderbook
