import Hftrs.Itch5.Parse
import Hftrs.Orderbook.Registry

/-! The ITCH handler that keeps the books of a registry. Its counters (`u64`) are natural numbers:
no stream is long enough to overflow them. -/
namespace Hftrs.App

open Hftrs.Itch5 Hftrs.Orderbook

/-- What a run of the program fixes. -/
structure Env where
  profile : Profile
  /-- What loading the shared shutdown flag returns. -/
  shutdown : Bool
  /-- Whether `info!` and `debug!` evaluate their arguments. -/
  infoEnabled : Bool
  debugEnabled : Bool
  /-- `NaiveTime::from_num_seconds_from_midnight_opt`, a time of day in nanoseconds. -/
  fromNumSecondsFromMidnightOpt : Nat → Nat → Option Nat

/-- `Timestamp::to_naive_time` -/
def toNaiveTime (env : Env) (timestamp : Nat) : Option Nat := do
  let secs := timestamp / 1000000000
  let nanos := timestamp % 1000000000
  env.profile.debugAssert (secs < 86400)
  env.fromNumSecondsFromMidnightOpt (secs % 2 ^ 32) nanos

structure HandlerStats where
  ordersAdded : Nat
  ordersExecuted : Nat
  ordersCancelled : Nat
  ordersDeleted : Nat
  ordersReplaced : Nat
  stockDirectoryMsgs : Nat
  /-- Orders that referenced an unregistered locate code (not in watch list). -/
  skippedLocate : Nat
  deriving DecidableEq, Repr

/-- The counters of the calls that succeeded. -/
inductive OrderCounter where
  | added
  | executed
  | cancelled
  | deleted
  | replaced
  deriving DecidableEq, Repr

namespace HandlerStats

def default : HandlerStats := ⟨0, 0, 0, 0, 0, 0, 0⟩

def orders (stats : HandlerStats) : OrderCounter → Nat
  | .added => stats.ordersAdded
  | .executed => stats.ordersExecuted
  | .cancelled => stats.ordersCancelled
  | .deleted => stats.ordersDeleted
  | .replaced => stats.ordersReplaced

def bump (stats : HandlerStats) : OrderCounter → HandlerStats
  | .added => { stats with ordersAdded := stats.ordersAdded + 1 }
  | .executed => { stats with ordersExecuted := stats.ordersExecuted + 1 }
  | .cancelled => { stats with ordersCancelled := stats.ordersCancelled + 1 }
  | .deleted => { stats with ordersDeleted := stats.ordersDeleted + 1 }
  | .replaced => { stats with ordersReplaced := stats.ordersReplaced + 1 }

theorem orders_bump (stats : HandlerStats) (counter other : OrderCounter) :
    (stats.bump counter).orders other =
      stats.orders other + if counter = other then 1 else 0 := by
  cases counter <;> cases other <;> rfl

@[simp] theorem skippedLocate_bump (stats : HandlerStats) (counter : OrderCounter) :
    (stats.bump counter).skippedLocate = stats.skippedLocate := by
  cases counter <;> rfl

end HandlerStats

/-- Stateful ITCH handler over a registry. `symbolsToWatch` is a set of packed symbols, or
`none` to register every stock-directory entry. -/
structure MessageHandler (R : Type) where
  registry : R
  symbolsToWatch : Option (List Nat)
  stats : HandlerStats
  tick : Nat

/-- Poll the shutdown flag every 256 events. -/
def shutdownPollMask : Nat := 0xFF

namespace MessageHandler

variable {R : Type} [Registry R]

def new (symbolsToWatch : Option (List Nat)) : MessageHandler R :=
  { registry := Registry.new, symbolsToWatch, stats := .default, tick := 0 }

def shouldStop (env : Env) (handler : MessageHandler R) : ControlFlow × MessageHandler R :=
  let handler := { handler with tick := (handler.tick + 1) % 2 ^ 32 }
  -- the flag is only loaded when the low bits of the tick are zero
  (if handler.tick &&& shutdownPollMask = 0 ∧ env.shutdown then .Break else .Continue, handler)

/-- A method that begins with `self.should_stop()?` and otherwise continues. -/
def polled (env : Env) (handler : MessageHandler R)
    (body : MessageHandler R → Option (MessageHandler R)) :
    Option (ControlFlow × MessageHandler R) :=
  match handler.shouldStop env with
  | (.Break, handler) => some (.Break, handler)
  | (.Continue, handler) => (body handler).map fun handler => (.Continue, handler)

/-- The body that the order methods share: find the book, make the call, count it when it
succeeds. There is no call for an unknown side, and no timestamp in the log of a cancel or a
delete. -/
def applyOrder (env : Env) (handler : MessageHandler R) (locate : Nat)
    (call : Option OrderBook.Call) (logged : Option Nat) (counter : OrderCounter) :
    Option (MessageHandler R) :=
  match Registry.getMut handler.registry locate with
  | none => some
    { handler with
      stats := { handler.stats with skippedLocate := handler.stats.skippedLocate + 1 } }
  | some (book, put) =>
    match call with
    | none => some handler
    | some call => do
      -- `debug!` converts the timestamp before the call, where the conversion can panic
      let _ ← (match env.debugEnabled, logged with
        | true, some timestamp => (toNaiveTime env timestamp).map fun _ => ()
        | _, _ => some ())
      let (reply, book) ← book.call env.profile call
      return { handler with
        registry := put book
        stats := if reply.isError then handler.stats else handler.stats.bump counter }

def parseSide : BuySellIndicator → Option Side
  | .Buy => some .bid
  | .Sell => some .ask
  | .Unknown _ => none

/-- Shared body of the two add-order methods, whose messages differ in the attribution only. -/
def applyAddOrder {kind : MsgKind} (env : Env) (handler : MessageHandler R) (msg : Msg kind) :
    Option (MessageHandler R) :=
  handler.applyOrder env msg.stockLocate
    ((parseSide msg.buySellIndicator).map fun side => .add
      { id := msg.orderReferenceNumber
        side
        price := msg.price
        qty := msg.shares
        ts := msg.timestamp })
    (some msg.timestamp) .added

def onStockDirectory (env : Env) (msg : Msg .stockDirectory) (handler : MessageHandler R) :
    Option (ControlFlow × MessageHandler R) :=
  handler.polled env fun handler => do
    let handler := { handler with
      stats := { handler.stats with stockDirectoryMsgs := handler.stats.stockDirectoryMsgs + 1 } }
    if handler.symbolsToWatch.all fun symbols => symbols.contains msg.stock then
      -- `info!` reads the registry's length
      let _ ← (if env.infoEnabled then (Registry.len env.profile handler.registry).map fun _ => ()
        else some ())
      let registry ← Registry.register handler.registry msg.stockLocate msg.stock
      return { handler with registry }
    else
      return handler

def onAddOrderNoMpidAttribution (env : Env) (msg : Msg .addOrderNoMPIDAttribution)
    (handler : MessageHandler R) : Option (ControlFlow × MessageHandler R) :=
  handler.polled env fun handler => handler.applyAddOrder env msg

def onAddOrderWithMpidAttribution (env : Env) (msg : Msg .addOrderWithMPIDAttribution)
    (handler : MessageHandler R) : Option (ControlFlow × MessageHandler R) :=
  handler.polled env fun handler => handler.applyAddOrder env msg

def onOrderExecuted (env : Env) (msg : Msg .orderExecuted) (handler : MessageHandler R) :
    Option (ControlFlow × MessageHandler R) :=
  handler.polled env fun handler => handler.applyOrder env msg.stockLocate
    (some (.execute msg.orderReferenceNumber msg.executedShares msg.timestamp))
    (some msg.timestamp) .executed

def onOrderExecutedWithPrice (env : Env) (msg : Msg .orderExecutedWithPrice)
    (handler : MessageHandler R) : Option (ControlFlow × MessageHandler R) :=
  handler.polled env fun handler => handler.applyOrder env msg.stockLocate
    (some (.executeAt msg.orderReferenceNumber msg.executedShares msg.executionPrice
      msg.timestamp))
    (some msg.timestamp) .executed

def onOrderCancel (env : Env) (msg : Msg .orderCancel) (handler : MessageHandler R) :
    Option (ControlFlow × MessageHandler R) :=
  handler.polled env fun handler => handler.applyOrder env msg.stockLocate
    (some (.cancel msg.orderReferenceNumber msg.cancelledShares)) none .cancelled

def onOrderDelete (env : Env) (msg : Msg .orderDelete) (handler : MessageHandler R) :
    Option (ControlFlow × MessageHandler R) :=
  handler.polled env fun handler => handler.applyOrder env msg.stockLocate
    (some (.delete msg.orderReferenceNumber)) none .deleted

def onOrderReplace (env : Env) (msg : Msg .orderReplace) (handler : MessageHandler R) :
    Option (ControlFlow × MessageHandler R) :=
  handler.polled env fun handler => handler.applyOrder env msg.stockLocate
    (some (.replace msg.originalOrderReferenceNumber msg.newOrderReferenceNumber msg.price
      msg.shares msg.timestamp))
    (some msg.timestamp) .replaced

/-- The methods; those of the other messages keep their default body. -/
def on (env : Env) : Handler (MessageHandler R)
  | .stockDirectory, msg, handler => onStockDirectory env msg handler
  | .addOrderNoMPIDAttribution, msg, handler => onAddOrderNoMpidAttribution env msg handler
  | .addOrderWithMPIDAttribution, msg, handler => onAddOrderWithMpidAttribution env msg handler
  | .orderExecuted, msg, handler => onOrderExecuted env msg handler
  | .orderExecutedWithPrice, msg, handler => onOrderExecutedWithPrice env msg handler
  | .orderCancel, msg, handler => onOrderCancel env msg handler
  | .orderDelete, msg, handler => onOrderDelete env msg handler
  | .orderReplace, msg, handler => onOrderReplace env msg handler
  | _, _, handler => some (.Continue, handler)

/-! ### While the flag is down -/

omit [Registry R] in
theorem polled_alive (env : Env) (alive : env.shutdown = false) (handler : MessageHandler R)
    (body : MessageHandler R → Option (MessageHandler R)) :
    handler.polled env body =
      (body { handler with tick := (handler.tick + 1) % 2 ^ 32 }).map fun h => (.Continue, h) := by
  simp [polled, shouldStop, alive]

/-- No method asks the parser to stop. -/
theorem on_ne_break (env : Env) (alive : env.shutdown = false) (kind : MsgKind) (msg : Msg kind)
    (handler handler' : MessageHandler R) :
    on env kind msg handler ≠ some (.Break, handler') := by
  have continues (body : MessageHandler R → Option (MessageHandler R)) :
      handler.polled env body ≠ some (.Break, handler') := by
    simp [polled_alive env alive]
  cases kind with
  | stockDirectory | addOrderNoMPIDAttribution | addOrderWithMPIDAttribution | orderExecuted
  | orderExecutedWithPrice | orderCancel | orderDelete | orderReplace => exact continues _
  | _ => simp [on]

end MessageHandler

/-! ### A few messages -/

/-- The directory entry of locate 1. -/
def directoryOf1 : Message := ⟨.stockDirectory, ⟨[82, 0, 1] ++ List.replicate 36 0, by decide⟩⟩

/-- Order 1 of a locate: buy 100 at 5. -/
def buy100 (locate : UInt8) : Message :=
  ⟨.addOrderNoMPIDAttribution, ⟨[65, 0, locate] ++ List.replicate 8 0 ++
    [0, 0, 0, 0, 0, 0, 0, 1, 66, 0, 0, 0, 100] ++ List.replicate 8 0 ++ [0, 0, 0, 5],
    by simp; decide⟩⟩

/-- A debug build that logs nothing and is not asked to stop. -/
def quietEnv : Env := ⟨.debug, false, false, false, fun _ _ => none⟩

/-- Cancel 10 of order 1 of locate 1. -/
def cancel10 : Message :=
  ⟨.orderCancel, ⟨[88, 0, 1] ++ List.replicate 8 0 ++ [0, 0, 0, 0, 0, 0, 0, 1, 0, 0, 0, 10],
    by decide⟩⟩

end Hftrs.App
