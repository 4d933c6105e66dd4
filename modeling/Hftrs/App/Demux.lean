import Hftrs.App.Handler
import Hftrs.Itch5.Acceptance

/-! The handler keeps, for each locate, the book that the messages of that locate alone build. -/
namespace Hftrs.App

open Hftrs.Itch5 Hftrs.Library Hftrs.Orderbook

/-! ### What a stream asks for -/

def locate (m : Message) : Nat := m.2.stockLocate

/-- Add, execute, cancel, delete and replace messages. -/
def isOrder (m : Message) : Bool :=
  match m.1 with
  | .addOrderNoMPIDAttribution | .addOrderWithMPIDAttribution | .orderExecuted
  | .orderExecutedWithPrice | .orderCancel | .orderDelete | .orderReplace => true
  | _ => false

/-- The order an add message brings, on the side of its indicator. -/
def addOperation {kind : MsgKind} (msg : Msg kind) : Option OrderBook.Call :=
  let order (side : Side) : Order :=
    ⟨msg.orderReferenceNumber, side, msg.price, msg.shares, msg.timestamp⟩
  match msg.buySellIndicator with
  | .Buy => some (.add (order .bid))
  | .Sell => some (.add (order .ask))
  | .Unknown _ => none

/-- The book operation that a message carries. -/
def operation : Message → Option OrderBook.Call
  | ⟨.addOrderNoMPIDAttribution, msg⟩ => addOperation msg
  | ⟨.addOrderWithMPIDAttribution, msg⟩ => addOperation msg
  | ⟨.orderExecuted, msg⟩ =>
    some (.execute msg.orderReferenceNumber msg.executedShares msg.timestamp)
  | ⟨.orderExecutedWithPrice, msg⟩ =>
    some (.executeAt msg.orderReferenceNumber msg.executedShares msg.executionPrice msg.timestamp)
  | ⟨.orderCancel, msg⟩ => some (.cancel msg.orderReferenceNumber msg.cancelledShares)
  | ⟨.orderDelete, msg⟩ => some (.delete msg.orderReferenceNumber)
  | ⟨.orderReplace, msg⟩ =>
    some (.replace msg.originalOrderReferenceNumber msg.newOrderReferenceNumber msg.price
      msg.shares msg.timestamp)
  | _ => none

/-- The counter of the operation's successes. -/
def counterOf : OrderBook.Call → OrderCounter
  | .add _ => .added
  | .execute .. | .executeAt .. => .executed
  | .cancel .. => .cancelled
  | .delete _ => .deleted
  | .replace .. => .replaced

/-- A stock directory of the locate for a symbol that is watched. -/
def registers (watch : Option (List Nat)) (l : Nat) : Message → Bool
  | ⟨.stockDirectory, msg⟩ =>
    msg.stockLocate = l && watch.all fun symbols => symbols.contains msg.stock
  | _ => false

/-- The messages after the last one that registers the locate. -/
def sinceRegistered (watch : Option (List Nat)) (l : Nat) : List Message → Option (List Message)
  | [] => none
  | m :: ms =>
    -- a later registration starts the book over
    match sinceRegistered watch l ms with
    | some rest => some rest
    | none => if registers watch l m then some ms else none

/-- The operations on the book of a locate, in order. -/
def operations (l : Nat) (ms : List Message) : List OrderBook.Call :=
  ms.filterMap fun m => if locate m = l then operation m else none

/-- The book of a locate: an empty one after the operations since the last registration. -/
def bookOf (profile : Profile) (watch : Option (List Nat)) (l : Nat) (ms : List Message) :
    Option OrderBook :=
  (sinceRegistered watch l ms).bind fun rest =>
    (run (OrderBook.call profile) OrderBook.new (operations l rest)).map Prod.snd

/-- Each message with those before it. -/
def arrivals : List Message → List Message → List (List Message × Message)
  | _, [] => []
  | before, m :: ms => (before, m) :: arrivals (before ++ [m]) ms

/-- The book call that a message makes when it arrives: the call and what it returns. -/
def callMade (profile : Profile) (watch : Option (List Nat)) (before : List Message)
    (m : Message) : Option (OrderBook.Call × Option OrderBook.Reply) := do
  let call ← operation m
  let book ← bookOf profile watch (locate m) before
  return (call, (book.call profile call).map Prod.fst)

/-- The message makes a call of the counter's kind that returns `Ok`. -/
def succeeds (profile : Profile) (watch : Option (List Nat)) (counter : OrderCounter)
    (arrival : List Message × Message) : Bool :=
  match callMade profile watch arrival.1 arrival.2 with
  | some (call, some reply) => counterOf call = counter && !reply.isError
  | _ => false

/-- An order message for a locate without a book. -/
def untracked (profile : Profile) (watch : Option (List Nat))
    (arrival : List Message × Message) : Bool :=
  isOrder arrival.2 && (bookOf profile watch (locate arrival.2) arrival.1).isNone

/-- Some message makes a book call that panics. -/
def Panics (profile : Profile) (watch : Option (List Nat)) (ms : List Message) : Prop :=
  ∃ arrival ∈ arrivals [] ms, ∃ call, callMade profile watch arrival.1 arrival.2 = some (call, none)

/-! ### One more message -/

theorem arrivals_append (before ms ns : List Message) :
    arrivals before (ms ++ ns) = arrivals before ms ++ arrivals (before ++ ms) ns := by
  induction ms generalizing before with
  | nil => rw [List.nil_append, List.append_nil]; rfl
  | cons m ms ih =>
    have onwards := ih (before ++ [m])
    rw [List.append_assoc] at onwards
    rw [List.cons_append, arrivals, onwards]
    rfl

theorem countP_arrivals_concat (p : List Message × Message → Bool) (ms : List Message)
    (m : Message) :
    (arrivals [] (ms ++ [m])).countP p =
      (arrivals [] ms).countP p + if p (ms, m) then 1 else 0 := by
  rw [arrivals_append, List.countP_append, List.nil_append, arrivals, arrivals,
    List.countP_singleton]

theorem sinceRegistered_concat (watch : Option (List Nat)) (l : Nat) (ms : List Message)
    (m : Message) :
    sinceRegistered watch l (ms ++ [m]) =
      if registers watch l m then some [] else (sinceRegistered watch l ms).map (· ++ [m]) := by
  induction ms with
  | nil => simp [sinceRegistered]
  | cons n ns ih =>
    simp only [List.cons_append, sinceRegistered, ih]
    by_cases again : registers watch l m
    · simp only [again, if_true]
    · simp only [again, Bool.false_eq_true, if_false]
      -- the new message registers nothing, so it goes to the end of what there is
      cases sinceRegistered watch l ns with
      | some rest => rfl
      | none => by_cases first : registers watch l n <;> simp [first]

theorem sinceRegistered_isSome (watch : Option (List Nat)) (l : Nat) (ms : List Message) :
    (sinceRegistered watch l ms).isSome ↔ ∃ m ∈ ms, registers watch l m := by
  induction ms with
  | nil => simp [sinceRegistered]
  | cons m ms ih =>
    rw [sinceRegistered]
    cases since : sinceRegistered watch l ms with
    | some rest =>
      rw [since] at ih
      obtain ⟨n, member, later⟩ := ih.mp rfl
      exact ⟨fun _ => ⟨n, by simp [member], later⟩, fun _ => rfl⟩
    | none =>
      rw [since] at ih
      by_cases now : registers watch l m
      · simp only [now, if_true, Option.isSome_some, true_iff]
        exact ⟨m, by simp, now⟩
      · simp only [now, Bool.false_eq_true, if_false, Option.isSome_none, false_iff]
        rintro ⟨n, member, registering⟩
        rcases List.mem_cons.mp member with rfl | later
        · exact now registering
        · exact absurd (ih.mpr ⟨n, later, registering⟩) (by decide)

theorem operations_concat (l : Nat) (ms : List Message) (m : Message) :
    operations l (ms ++ [m]) =
      operations l ms ++ (if locate m = l then operation m else none).toList := by
  rw [operations, List.filterMap_append, operations, List.append_cancel_left_eq]
  cases carried : (if locate m = l then operation m else none) with
  | none => exact List.filterMap_cons_none carried
  | some call => exact List.filterMap_cons_some carried

/-- How a message changes the book of a locate. -/
theorem bookOf_concat (profile : Profile) (watch : Option (List Nat)) (l : Nat)
    (ms : List Message) (m : Message) :
    bookOf profile watch l (ms ++ [m]) =
      if registers watch l m then some OrderBook.new
      else match (if locate m = l then operation m else none) with
        | none => bookOf profile watch l ms
        | some call =>
          (bookOf profile watch l ms).bind fun book => (book.call profile call).map Prod.snd := by
  rw [bookOf, sinceRegistered_concat]
  by_cases again : registers watch l m
  · rw [if_pos again, if_pos again]
    rfl
  · rw [if_neg again, if_neg again, bookOf]
    cases sinceRegistered watch l ms with
    | none => cases (if locate m = l then operation m else none) <;> rfl
    | some rest =>
      rw [Option.map_some, Option.bind_some, Option.bind_some, operations_concat]
      cases (if locate m = l then operation m else none) with
      | none => rw [Option.toList_none, List.append_nil]
      | some call => exact run_concat _ _ _ _

/-! ### One step of the handler -/

variable {env : Env}

theorem applyAddOrder_eq {R : Type} [Registry R] {kind : MsgKind} (msg : Msg kind)
    (handler : MessageHandler R) :
    handler.applyAddOrder env msg =
      handler.applyOrder env msg.stockLocate (addOperation msg) (some msg.timestamp) .added := by
  rw [MessageHandler.applyAddOrder, addOperation]
  cases msg.buySellIndicator <;> rfl

theorem counterOf_addOperation {kind : MsgKind} {msg : Msg kind} {call : OrderBook.Call}
    (carried : addOperation msg = some call) : counterOf call = .added := by
  unfold addOperation at carried
  split at carried
  next => cases carried; rfl
  next => cases carried; rfl
  next => cases carried

/-- What a method does while the shutdown flag is down. -/
theorem on_cases {R : Type} [Registry R] (alive : env.shutdown = false) (m : Message)
    (handler : MessageHandler R) :
    (isOrder m = true ∧ (∀ watch l, registers watch l m = false) ∧ ∃ tick logged counter,
      (∀ call, operation m = some call → counterOf call = counter) ∧
      MessageHandler.on env m.1 m.2 handler =
        ({ handler with tick }.applyOrder env (locate m) (operation m) logged counter).map
          fun handler => (.Continue, handler)) ∨
    (∃ msg, m = ⟨.stockDirectory, msg⟩) ∨
    (isOrder m = false ∧ operation m = none ∧ (∀ watch l, registers watch l m = false) ∧
      MessageHandler.on env m.1 m.2 handler = some (.Continue, handler)) := by
  obtain ⟨kind, msg⟩ := m
  cases kind with
  | stockDirectory => exact Or.inr (Or.inl ⟨msg, rfl⟩)
  | addOrderNoMPIDAttribution | addOrderWithMPIDAttribution =>
    refine Or.inl ⟨rfl, fun _ _ => rfl, (handler.tick + 1) % 2 ^ 32, some msg.timestamp, .added,
      fun _ => counterOf_addOperation, ?_⟩
    have polled := MessageHandler.polled_alive env alive handler
      fun handler => handler.applyAddOrder env msg
    rwa [applyAddOrder_eq] at polled
  | orderExecuted | orderExecutedWithPrice | orderCancel | orderDelete | orderReplace =>
    refine Or.inl ⟨rfl, fun _ _ => rfl, (handler.tick + 1) % 2 ^ 32, _, _, ?_,
      MessageHandler.polled_alive env alive handler _⟩
    intro call carried
    cases carried
    rfl
  | _ => exact Or.inr (Or.inr ⟨rfl, rfl, fun _ _ => rfl, rfl⟩)

/-- What the shared body of the order methods does to a registry of maps, without debug logging. -/
theorem applyOrder_spec (quiet : env.debugEnabled = false)
    (handler : MessageHandler HashMapRegistry) (locate : Nat) (call : Option OrderBook.Call)
    (logged : Option Nat) (counter : OrderCounter) :
    match handler.registry.get locate, call with
    | none, _ => handler.applyOrder env locate call logged counter = some
        { handler with
          stats := { handler.stats with skippedLocate := handler.stats.skippedLocate + 1 } }
    | some _, none => handler.applyOrder env locate call logged counter = some handler
    | some book, some c =>
      match book.call env.profile c with
      | none => handler.applyOrder env locate call logged counter = none
      | some (reply, book') => ∃ registry : HashMapRegistry,
        handler.applyOrder env locate call logged counter = some
          { handler with
            registry
            stats := if reply.isError then handler.stats else handler.stats.bump counter } ∧
        ∀ l, registry.get l = if l = locate then some book' else handler.registry.get l := by
  have lookup : Registry.getMut handler.registry locate = handler.registry.getMut locate := rfl
  cases found : handler.registry.getMut locate with
  | none =>
    rw [(handler.registry.getMut_eq_none locate).mp found]
    simp only [MessageHandler.applyOrder, lookup, found]
  | some reference =>
    obtain ⟨book, put⟩ := reference
    obtain ⟨here, written⟩ := handler.registry.getMut_eq_some found
    rw [here]
    cases call with
    | none => simp only [MessageHandler.applyOrder, lookup, found]
    | some c =>
      simp only [MessageHandler.applyOrder, lookup, found, quiet]
      cases called : book.call env.profile c with
      | none => rfl
      | some answer => exact ⟨put answer.2, rfl, written answer.2⟩

/-- A stock directory of a watched symbol starts the book of its locate over. -/
theorem onStockDirectory_spec (alive : env.shutdown = false) (msg : Msg .stockDirectory)
    (handler : MessageHandler HashMapRegistry) :
    ∃ handler', MessageHandler.on env .stockDirectory msg handler = some (.Continue, handler') ∧
      handler'.symbolsToWatch = handler.symbolsToWatch ∧
      handler'.stats.orders = handler.stats.orders ∧
      handler'.stats.skippedLocate = handler.stats.skippedLocate ∧
      ∀ l, handler'.registry.get l =
        if registers handler.symbolsToWatch l ⟨.stockDirectory, msg⟩ then some OrderBook.new
        else handler.registry.get l := by
  have sized : Registry.len env.profile handler.registry = some handler.registry.books.size :=
    handler.registry.len_isSome env.profile
  have entered : Registry.register handler.registry msg.stockLocate msg.stock =
      some (handler.registry.register msg.stockLocate msg.stock) := rfl
  have polled := MessageHandler.polled_alive env alive handler
  have reads (l : Nat) : registers handler.symbolsToWatch l ⟨.stockDirectory, msg⟩ =
      (decide (msg.stockLocate = l) &&
        handler.symbolsToWatch.all fun symbols => symbols.contains msg.stock) := rfl
  simp only [MessageHandler.on, MessageHandler.onStockDirectory, polled]
  by_cases watched : handler.symbolsToWatch.all (fun symbols => symbols.contains msg.stock) = true
  · refine ⟨{ handler with
      registry := handler.registry.register msg.stockLocate msg.stock
      stats := { handler.stats with stockDirectoryMsgs := handler.stats.stockDirectoryMsgs + 1 }
      tick := (handler.tick + 1) % 2 ^ 32 }, ?_, rfl, rfl, rfl, fun l => ?_⟩
    · rw [if_pos watched]
      cases logged : env.infoEnabled <;> simp [sized, entered]
    · rw [HashMapRegistry.get_register, reads, watched, Bool.and_true]
      by_cases same : l = msg.stockLocate
      · simp [same]
      · simp [same, Ne.symm same]
  · rw [if_neg watched]
    refine ⟨_, rfl, rfl, rfl, rfl, fun l => ?_⟩
    rw [reads, Bool.eq_false_iff.mpr watched, Bool.and_false, if_neg Bool.false_ne_true]

/-! ### Runs -/

/-- The registry and the counters are those of the messages so far. -/
structure Demuxed (profile : Profile) (watch : Option (List Nat)) (before : List Message)
    (handler : MessageHandler HashMapRegistry) : Prop where
  watching : handler.symbolsToWatch = watch
  books : ∀ l, handler.registry.get l = bookOf profile watch l before
  tracked : ∀ l, (sinceRegistered watch l before).isSome → (handler.registry.get l).isSome
  successes : ∀ counter, handler.stats.orders counter =
    (arrivals [] before).countP (succeeds profile watch counter)
  skipped : handler.stats.skippedLocate = (arrivals [] before).countP (untracked profile watch)

variable {profile : Profile} {watch : Option (List Nat)} {before : List Message}
  {handler handler' : MessageHandler HashMapRegistry}

theorem demuxed_new (profile : Profile) (watch : Option (List Nat)) :
    Demuxed profile watch [] (MessageHandler.new watch) where
  watching := rfl
  books := HashMapRegistry.get_new
  tracked := fun _ since => by cases since
  successes := fun counter => by cases counter <;> rfl
  skipped := rfl

/-- Books, counters and tracked locates after one more message. -/
private theorem Demuxed.concat (demuxed : Demuxed profile watch before handler) (m : Message)
    (watching : handler'.symbolsToWatch = handler.symbolsToWatch)
    (books : ∀ l, handler'.registry.get l = bookOf profile watch l (before ++ [m]))
    (kept : ∀ l, (handler.registry.get l).isSome → (handler'.registry.get l).isSome)
    (successes : ∀ counter, handler'.stats.orders counter = handler.stats.orders counter +
      if succeeds profile watch counter (before, m) then 1 else 0)
    (skipped : handler'.stats.skippedLocate = handler.stats.skippedLocate +
      if untracked profile watch (before, m) then 1 else 0) :
    Demuxed profile watch (before ++ [m]) handler' where
  watching := watching.trans demuxed.watching
  books := books
  tracked := by
    intro l since
    rw [sinceRegistered_concat] at since
    by_cases registering : registers watch l m
    · rw [books, bookOf_concat, if_pos registering]
      rfl
    · rw [if_neg registering, Option.isSome_map] at since
      exact kept l (demuxed.tracked l since)
  successes := by
    intro counter
    rw [successes, demuxed.successes, countP_arrivals_concat]
  skipped := by
    rw [skipped, demuxed.skipped, countP_arrivals_concat]

/-- An order message skips, or makes its call on the book of its locate. -/
private theorem step_order (quiet : env.debugEnabled = false)
    (demuxed : Demuxed env.profile watch before handler) (m : Message) (order : isOrder m = true)
    (silent : ∀ l, registers watch l m = false) (tick : Nat) (logged : Option Nat)
    (counter : OrderCounter)
    (counted : ∀ call, operation m = some call → counterOf call = counter) :
    match { handler with tick }.applyOrder env (locate m) (operation m) logged counter with
    | none => ∃ call, callMade env.profile watch before m = some (call, none)
    | some handler' => Demuxed env.profile watch (before ++ [m]) handler' := by
  have spec := applyOrder_spec quiet { handler with tick } (locate m) (operation m) logged counter
  simp only [demuxed.books] at spec
  -- no book, no call, or a call that panics or answers: the cases of `applyOrder_spec`
  cases tracked : bookOf env.profile watch (locate m) before with
  | none =>
    simp only [tracked] at spec
    rw [spec]
    refine demuxed.concat _ rfl ?_ (fun _ present => present) ?_ ?_
    · intro l
      rw [demuxed.books, bookOf_concat, silent, if_neg Bool.false_ne_true]
      by_cases here : locate m = l
      · subst here
        rw [if_pos rfl, tracked]
        cases operation m <;> rfl
      · rw [if_neg here]
    · intro k
      have noCall : succeeds env.profile watch k (before, m) = false := by
        simp [succeeds, callMade, tracked]
      rw [noCall]
      cases k <;> rfl
    · simp [untracked, order, tracked]
  | some book =>
    have present : untracked env.profile watch (before, m) = false := by
      simp [untracked, tracked]
    cases carried : operation m with
    | none =>
      simp only [tracked, carried] at spec
      rw [spec]
      refine demuxed.concat _ rfl ?_ (fun _ present => present) ?_ ?_
      · intro l
        rw [demuxed.books, bookOf_concat, silent, carried]
        simp
      · intro counter
        simp [succeeds, callMade, carried]
      · simp [present]
    | some call =>
      simp only [tracked, carried] at spec
      cases called : book.call env.profile call with
      | none =>
        rw [called] at spec
        rw [spec]
        exact ⟨call, by simp [callMade, carried, tracked, called]⟩
      | some answer =>
        obtain ⟨reply, book'⟩ := answer
        rw [called] at spec
        obtain ⟨registry, applied, gets⟩ := spec
        rw [applied]
        have made : callMade env.profile watch before m = some (call, some reply) := by
          simp [callMade, carried, tracked, called]
        refine demuxed.concat _ rfl ?_ ?_ ?_ ?_
        · intro l
          rw [gets, bookOf_concat, silent, if_neg Bool.false_ne_true]
          by_cases here : locate m = l
          · subst here
            simp only [if_true, carried, tracked, Option.bind_some, called, Option.map_some]
          · rw [if_neg (Ne.symm here), if_neg here]
        · intro l present
          rw [gets]
          split
          next => rfl
          next => rwa [demuxed.books] at present
        · intro k
          simp only [succeeds, made, counted call carried]
          cases reply.isError with
          | true => simp
          | false => simp [HandlerStats.orders_bump]
        · rw [present]
          cases reply.isError with
          | true => rfl
          | false => exact HandlerStats.skippedLocate_bump _ _
/-- One message keeps the invariant, unless the book call it makes panics. -/
theorem step_demuxed (alive : env.shutdown = false) (quiet : env.debugEnabled = false)
    (demuxed : Demuxed env.profile watch before handler) (m : Message) :
    match MessageHandler.on env m.1 m.2 handler with
    | none => ∃ call, callMade env.profile watch before m = some (call, none)
    | some (_, handler') => Demuxed env.profile watch (before ++ [m]) handler' := by
  rcases on_cases alive m handler with
    ⟨order, silent, tick, logged, counter, counted, method⟩ | ⟨msg, rfl⟩ |
      ⟨other, carries, silent, method⟩
  -- the order methods, the stock directory, and the methods with the default body
  · have applied := step_order quiet demuxed m order (silent watch) tick logged counter counted
    rw [method]
    cases called : { handler with tick }.applyOrder env (locate m) (operation m) logged counter with
    | none => rwa [called] at applied
    | some handler' => rwa [called] at applied
  · obtain ⟨handler', method, watching, orders, skips, books⟩ :=
      onStockDirectory_spec alive msg handler
    rw [method]
    refine demuxed.concat _ watching ?_ ?_ ?_ ?_
    · intro l
      rw [books, bookOf_concat, demuxed.watching, demuxed.books]
      simp [operation]
    · intro l present
      rw [books]
      split
      next => rfl
      next => exact present
    · intro counter
      simp [orders, succeeds, callMade, operation]
    · simp [skips, untracked, isOrder]
  · rw [method]
    refine demuxed.concat _ rfl ?_ (fun _ present => present) ?_ ?_
    · intro l
      rw [demuxed.books, bookOf_concat, silent, carries]
      simp
    · intro counter
      simp [succeeds, callMade, carries]
    · simp [untracked, other]

/-- Handing messages over keeps the invariant, unless a book call panics. -/
theorem deliver_demuxed (alive : env.shutdown = false) (quiet : env.debugEnabled = false)
    (demuxed : Demuxed env.profile watch before handler) (ms : List Message) :
    match deliver (MessageHandler.on env) ms handler with
    | none => Panics env.profile watch (before ++ ms)
    | some handler' => Demuxed env.profile watch (before ++ ms) handler' := by
  -- on the messages to come, with those before them in the invariant
  induction ms generalizing before handler with
  | nil =>
    rw [List.append_nil]
    exact demuxed
  | cons m ms ih =>
    have stepped := step_demuxed alive quiet demuxed m
    rw [deliver]
    cases called : MessageHandler.on env m.1 m.2 handler with
    | none =>
      rw [called] at stepped
      obtain ⟨call, made⟩ := stepped
      refine ⟨(before, m), ?_, call, made⟩
      rw [arrivals_append, List.nil_append]
      exact List.mem_append_right _ (List.mem_cons_self ..)
    | some answer =>
      rw [called] at stepped
      have onwards := ih stepped
      rw [List.append_assoc] at onwards
      exact onwards

end Hftrs.App
