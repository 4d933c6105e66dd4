import Std.Data.ExtTreeMap
import Hftrs.Library.Runs
import Hftrs.Orderbook.Pool

/-! The order book. Order ids, quantities and timestamps (`u64`) are natural numbers and prices
(`i64`) integers; both price maps and the id map are extensional finite maps. -/
namespace Hftrs.Orderbook

inductive Side where
  | bid
  | ask
  deriving DecidableEq, Repr

/-- A resting order in the book. -/
structure Order where
  id : Nat
  side : Side
  price : Int
  qty : Nat
  ts : Nat
  deriving DecidableEq, Repr

/-- A trade synthesized when an execution message hits a resting order. -/
structure Trade where
  makerId : Nat
  price : Int
  qty : Nat
  ts : Nat
  deriving DecidableEq, Repr

inductive BookError where
  | duplicateOrder (id : Nat)
  | unknownOrder (id : Nat)
  | overExecute (id got avail : Nat)
  | overCancel (id got avail : Nat)
  deriving DecidableEq, Repr

/-- A single price level. -/
structure Level where
  head : Nat
  tail : Nat
  totalQty : Nat
  orderCount : Nat
  deriving DecidableEq, Repr

def Level.empty : Level := ⟨NIL, NIL, 0, 0⟩

def Level.isEmpty (level : Level) : Bool := level.head = NIL

abbrev Levels := Std.ExtTreeMap Int Level compare

structure OrderBook where
  bids : Levels
  asks : Levels
  orders : Std.ExtTreeMap Nat Nat compare
  pool : Pool Order

namespace OrderBook

def withCapacity (cap : Nat) : OrderBook := ⟨∅, ∅, ∅, Pool.withCapacity cap⟩

def new : OrderBook := withCapacity (1 <<< 16)

def sideLevels (book : OrderBook) : Side → Levels
  | .bid => book.bids
  | .ask => book.asks

/-- `side_levels_mut` and the write made through the reference it returns. -/
def setSideLevels (book : OrderBook) (side : Side) (levels : Levels) : OrderBook :=
  match side with
  | .bid => { book with bids := levels }
  | .ask => { book with asks := levels }

/-- Splice an order out of its price level and free its slot. -/
def unlink (profile : Profile) (book : OrderBook) (idx : Nat) : Option OrderBook := do
  let node ← book.pool.get idx
  -- splice out of the doubly linked list
  let pool ←
    (if node.prev ≠ NIL then book.pool.getMut node.prev fun n => { n with next := node.next }
      else some book.pool)
  let pool ←
    (if node.next ≠ NIL then pool.getMut node.next fun n => { n with prev := node.prev }
      else some pool)
  let levels := book.sideLevels node.order.side
  -- `expect("level must exist for live order")`
  let level ← levels[node.order.price]?
  let orderCount ← profile.sub 32 level.orderCount 1
  let level : Level :=
    { head := if level.head = idx then node.next else level.head
      tail := if level.tail = idx then node.prev else level.tail
      -- `saturating_sub`: subtraction of natural numbers
      totalQty := level.totalQty - node.order.qty
      orderCount }
  -- an empty level goes, and its price key with it
  let levels :=
    if level.isEmpty then levels.erase node.order.price
    else levels.insert node.order.price level
  let pool ← pool.free profile idx
  return { book.setSideLevels node.order.side levels with
    orders := book.orders.erase node.order.id
    pool }

/-- Add Order: inserts at the tail of its price level so time priority is preserved. -/
def add (profile : Profile) (book : OrderBook) (order : Order) :
    Option (Except BookError Unit × OrderBook) :=
  if book.orders.contains order.id then
    some (.error (.duplicateOrder order.id), book)
  else do
    let levels := book.sideLevels order.side
    -- the current tail, taken before the pool is touched
    let prev := (levels[order.price]?.map Level.tail).getD NIL
    let (idx, pool) ← book.pool.alloc profile { order, prev, next := NIL }
    let pool ←
      (if prev ≠ NIL then pool.getMut prev fun n => { n with next := idx } else some pool)
    -- `entry(price).or_insert_with(Level::empty)`
    let level := levels[order.price]?.getD Level.empty
    let totalQty ← profile.add 64 level.totalQty order.qty
    let orderCount ← profile.add 32 level.orderCount 1
    let level : Level :=
      { head := if level.head = NIL then idx else level.head
        tail := idx
        totalQty
        orderCount }
    let levels := levels.insert order.price level
    return (.ok (), { book.setSideLevels order.side levels with
      orders := book.orders.insert order.id idx
      pool })

/-- The body that `execute_inner` and `cancel` share: take `qty` from a resting order and from
its level's aggregate, and unlink the order when nothing remains. They differ in the error for a
quantity above what rests (`excess`) and in what they return (`done`). -/
def reduce {α : Type} (profile : Profile) (book : OrderBook) (id qty : Nat)
    (excess : Nat → BookError) (done : Int → α) : Option (Except BookError α × OrderBook) :=
  match book.orders[id]? with
  | none => some (.error (.unknownOrder id), book)
  | some idx => do
    let node ← book.pool.get idx
    if qty > node.order.qty then
      return (.error (excess node.order.qty), book)
    else
      let rest := node.order.qty - qty
      -- the arena first, then the level
      let pool ← book.pool.getMut idx fun n => { n with order := { n.order with qty := rest } }
      let levels := book.sideLevels node.order.side
      -- `expect("level must exist for live order")`
      let level ← levels[node.order.price]?
      let totalQty ← profile.sub 64 level.totalQty qty
      let levels := levels.insert node.order.price { level with totalQty }
      let book := { book.setSideLevels node.order.side levels with pool }
      let book ← (if rest = 0 then book.unlink profile idx else some book)
      return (.ok (done node.order.price), book)

def executeInner (profile : Profile) (book : OrderBook) (id qty ts : Nat)
    (printPrice : Option Int) : Option (Except BookError Trade × OrderBook) :=
  book.reduce profile id qty (fun avail => .overExecute id qty avail)
    fun restingPrice => { makerId := id, price := printPrice.getD restingPrice, qty, ts }

/-- Order Executed: the trade prints at the resting price. -/
def execute (profile : Profile) (book : OrderBook) (id qty ts : Nat) :
    Option (Except BookError Trade × OrderBook) :=
  book.executeInner profile id qty ts none

/-- Order Executed With Price: the trade prints at an explicit price. -/
def executeAt (profile : Profile) (book : OrderBook) (id qty : Nat) (price : Int) (ts : Nat) :
    Option (Except BookError Trade × OrderBook) :=
  book.executeInner profile id qty ts (some price)

/-- Order Cancel: partial cancel; reduces resting qty. -/
def cancel (profile : Profile) (book : OrderBook) (id qty : Nat) :
    Option (Except BookError Unit × OrderBook) :=
  book.reduce profile id qty (fun avail => .overCancel id qty avail) fun _ => ()

/-- Order Delete: removes the entire order regardless of qty. -/
def delete (profile : Profile) (book : OrderBook) (id : Nat) :
    Option (Except BookError Unit × OrderBook) :=
  match book.orders[id]? with
  | none => some (.error (.unknownOrder id), book)
  | some idx => (book.unlink profile idx).map fun book => (.ok (), book)

/-- Order Replace: cancels the old order and inserts a new one at the tail of its level, on
the side of the old order. -/
def replace (profile : Profile) (book : OrderBook) (oldId newId : Nat) (newPrice : Int)
    (newQty ts : Nat) : Option (Except BookError Unit × OrderBook) :=
  match book.orders[oldId]? with
  | none => some (.error (.unknownOrder oldId), book)
  | some idx => do
    let node ← book.pool.get idx
    -- the old order is gone before `add` looks for a duplicate
    let book ← book.unlink profile idx
    book.add profile { id := newId, side := node.order.side, price := newPrice, qty := newQty, ts }

/-! ### Queries -/

/-- Best bid as `(price, total qty at price)`. -/
def bestBid (book : OrderBook) : Option (Int × Nat) :=
  book.bids.toList.getLast?.map fun (price, level) => (price, level.totalQty)

/-- Best ask as `(price, total qty at price)`. -/
def bestAsk (book : OrderBook) : Option (Int × Nat) :=
  book.asks.toList.head?.map fun (price, level) => (price, level.totalQty)

def len (book : OrderBook) : Nat := book.orders.size

/-! ### Calls -/

/-- A call of one of the six ITCH event handlers. -/
inductive Call where
  | add (order : Order)
  | execute (id qty ts : Nat)
  | executeAt (id qty : Nat) (price : Int) (ts : Nat)
  | cancel (id qty : Nat)
  | delete (id : Nat)
  | replace (oldId newId : Nat) (newPrice : Int) (newQty ts : Nat)
  deriving DecidableEq, Repr

/-- What a call returns: `Result<()>`, or `Result<Trade>` from the two executions. -/
inductive Reply where
  | unit (result : Except BookError Unit)
  | trade (result : Except BookError Trade)
  deriving DecidableEq

def Reply.isError : Reply → Bool
  | .unit (.error _) => true
  | .trade (.error _) => true
  | _ => false

def call (profile : Profile) (book : OrderBook) : Call → Option (Reply × OrderBook)
  | .add order => (book.add profile order).map fun (r, book) => (.unit r, book)
  | .execute id qty ts => (book.execute profile id qty ts).map fun (r, book) => (.trade r, book)
  | .executeAt id qty price ts =>
    (book.executeAt profile id qty price ts).map fun (r, book) => (.trade r, book)
  | .cancel id qty => (book.cancel profile id qty).map fun (r, book) => (.unit r, book)
  | .delete id => (book.delete profile id).map fun (r, book) => (.unit r, book)
  | .replace oldId newId newPrice newQty ts =>
    (book.replace profile oldId newId newPrice newQty ts).map fun (r, book) => (.unit r, book)

/-- The quantity an add or a replace brings into the book. -/
def Call.added : Call → Nat
  | .add order => order.qty
  | .replace _ _ _ newQty _ => newQty
  | _ => 0

end OrderBook

end Hftrs.Orderbook
