import Hftrs.App.Demux
import Hftrs.Orderbook.Exhausted

/-! What makes the handler panic on messages from the network. -/
namespace Hftrs.App

open Hftrs.Itch5 Hftrs.Library Hftrs.Orderbook

/-! ### The parser on a handler that panics -/

section Parser

variable {σ : Type}

/-- The method of a message as a step that goes on to the next message. -/
def going (on : Handler σ) (s : σ) (m : Message) : Option (Unit × σ) :=
  match on m.1 m.2 s with
  | some (.Continue, s') => some ((), s')
  | _ => none

/-- The parser returns exactly when the method of each message that it gets to does. -/
theorem parseStream_isSome_iff (on : Handler σ) (ms : List Message) (tagged : ∀ m ∈ ms, m.Tagged)
    (r : List UInt8) (invalid : NoFrame r) (s : σ) :
    (parseStream on (framed ms ++ r) s).isSome ↔
      Along (going on) (fun s m => (on m.1 m.2 s).isSome) s ms := by
  induction ms generalizing s with
  | nil =>
    obtain ⟨left, stopped⟩ := parseStream_stop on r s invalid
    rw [framed_nil, List.nil_append, stopped]
    exact ⟨fun _ => trivial, fun _ => rfl⟩
  | cons m ms ih =>
    have rest := ih fun n member => tagged n (by simp [member])
    rw [framed_cons, List.append_assoc, parseStream_frame on m (tagged m (by simp)), Along]
    cases called : on m.1 m.2 s with
    | none =>
      constructor
      · rintro ⟨⟩
      · rintro ⟨⟨⟩, _⟩
    | some result =>
      obtain ⟨cf, s'⟩ := result
      cases cf with
      | Break =>
        -- the other messages are not looked at
        constructor
        · intro _
          refine ⟨rfl, fun _ s'' stepped => ?_⟩
          rw [going, called] at stepped
          cases stepped
        · exact fun _ => rfl
      | Continue =>
        have stepped : going on s m = some ((), s') := by rw [going, called]
        constructor
        · intro returns
          refine ⟨rfl, fun _ s'' again => ?_⟩
          rw [stepped] at again
          cases again
          exact (rest s').mp returns
        · rintro ⟨_, onwards⟩
          exact (rest s').mpr (onwards () s' stepped)

end Parser

/-! ### One message -/

/-- The timestamp that the log of a message converts to a time of day. -/
def loggedTime : Message → Option Nat
  | ⟨.addOrderNoMPIDAttribution, msg⟩ => some msg.timestamp
  | ⟨.addOrderWithMPIDAttribution, msg⟩ => some msg.timestamp
  | ⟨.orderExecuted, msg⟩ => some msg.timestamp
  | ⟨.orderExecutedWithPrice, msg⟩ => some msg.timestamp
  | ⟨.orderReplace, msg⟩ => some msg.timestamp
  | _ => none

/-- A day has 86400 seconds. -/
def dayNanos : Nat := 86400 * 1000000000

/-- The message makes a call on the book of its locate. -/
def calls (handler : MessageHandler HashMapRegistry) (m : Message) :
    Option (OrderBook × OrderBook.Call) := do
  let book ← handler.registry.get (locate m)
  let call ← operation m
  return (book, call)

theorem calls_some {handler : MessageHandler HashMapRegistry} {m : Message} {book : OrderBook}
    {call : OrderBook.Call} (made : calls handler m = some (book, call)) :
    handler.registry.get (locate m) = some book ∧ operation m = some call := by
  simp only [calls, Option.bind_eq_bind, Option.bind_eq_some_iff] at made
  obtain ⟨_, here, _, carried, equal⟩ := made
  cases equal
  exact ⟨here, carried⟩

/-- When the message makes a call, the timestamp that is logged is within the day. -/
def Timely (handler : MessageHandler HashMapRegistry) (m : Message) : Prop :=
  ∀ _made ∈ calls handler m, ∀ timestamp ∈ loggedTime m, timestamp < dayNanos

/-- When the message makes a call, the pool of the book has room for it. -/
def Roomy (handler : MessageHandler HashMapRegistry) (m : Message) : Prop :=
  ∀ made ∈ calls handler m, made.1.FindsRoom made.2

/-- Polling the shutdown flag finds it up. -/
def Stops {R : Type} (env : Env) (handler : MessageHandler R) : Prop :=
  (handler.shouldStop env).1 = .Break

instance {R : Type} (env : Env) (handler : MessageHandler R) : Decidable (Stops env handler) :=
  inferInstanceAs (Decidable (_ = _))

theorem polled_eq {R : Type} (env : Env) (handler : MessageHandler R)
    (body : MessageHandler R → Option (MessageHandler R)) :
    handler.polled env body =
      if Stops env handler then
        some (.Break, { handler with tick := (handler.tick + 1) % 2 ^ 32 })
      else (body { handler with tick := (handler.tick + 1) % 2 ^ 32 }).map fun h =>
        (.Continue, h) := by
  by_cases up : ((handler.tick + 1) % 2 ^ 32) &&& shutdownPollMask = 0 ∧ env.shutdown
  · simp only [MessageHandler.polled, Stops, MessageHandler.shouldStop, if_pos up, if_true]
  · simp only [MessageHandler.polled, Stops, MessageHandler.shouldStop, if_neg up]
    rfl

/-- The books of the registry represent lists of orders. -/
def Sound (handler : MessageHandler HashMapRegistry) : Prop :=
  ∀ l book, handler.registry.get l = some book → ∃ q ref, book.Represents q ref

/-- The order methods poll, and then share a body. -/
theorem on_order {R : Type} [Registry R] (env : Env) (m : Message) (order : isOrder m = true)
    (handler : MessageHandler R) :
    ∃ counter, (∀ call, operation m = some call → counterOf call = counter) ∧
      MessageHandler.on env m.1 m.2 handler = handler.polled env fun handler =>
        handler.applyOrder env (locate m) (operation m) (loggedTime m) counter := by
  obtain ⟨kind, msg⟩ := m
  cases kind with
  | addOrderNoMPIDAttribution | addOrderWithMPIDAttribution =>
    refine ⟨.added, fun _ => counterOf_addOperation, ?_⟩
    have body : (fun handler : MessageHandler R => handler.applyAddOrder env msg) =
        fun handler => handler.applyOrder env msg.stockLocate (addOperation msg)
          (some msg.timestamp) .added := funext fun handler => applyAddOrder_eq msg handler
    exact congrArg (handler.polled env) body
  | orderExecuted | orderExecutedWithPrice | orderCancel | orderDelete | orderReplace =>
    exact ⟨_, by rintro call ⟨⟩; rfl, rfl⟩
  | _ => cases order

theorem timestamp_lt {m : Message} {timestamp : Nat} (logged : timestamp ∈ loggedTime m) :
    timestamp < 2 ^ 48 := by
  obtain ⟨kind, msg⟩ := m
  have bound := msg.get_lt .timestamp
  cases kind with
  | addOrderNoMPIDAttribution | addOrderWithMPIDAttribution | orderExecuted
  | orderExecutedWithPrice | orderReplace => cases logged; exact bound
  | _ => cases logged

/-- The calls of messages bring quantities of 32 bits. -/
theorem operation_wire {m : Message} {call : OrderBook.Call} (carried : operation m = some call) :
    call.added ≤ maxValue 32 := by
  obtain ⟨kind, msg⟩ := m
  have shares := msg.get_lt .shares
  have small {n : Nat} (bound : n < 256 ^ 4) : n ≤ maxValue 32 := Nat.le_sub_one_of_lt bound
  cases kind with
  | addOrderNoMPIDAttribution | addOrderWithMPIDAttribution =>
    change addOperation msg = some call at carried
    unfold addOperation at carried
    split at carried
    next => cases carried; exact small shares
    next => cases carried; exact small shares
    next => cases carried
  | orderReplace => cases carried; exact small shares
  | orderExecuted | orderExecutedWithPrice | orderCancel | orderDelete =>
    cases carried
    exact Nat.zero_le _
  | _ => cases carried

section Chrono

variable {env : Env}

/-- `from_num_seconds_from_midnight_opt` has a time for the seconds of a day. -/
def Chrono (env : Env) : Prop :=
  ∀ secs nanos, nanos < 1000000000 →
    ((env.fromNumSecondsFromMidnightOpt secs nanos).isSome ↔ secs < 86400)

theorem toNaiveTime_isSome (chrono : Chrono env) {timestamp : Nat} (wire : timestamp < 2 ^ 48) :
    (toNaiveTime env timestamp).isSome ↔ timestamp < dayNanos := by
  have nanos : timestamp % 1000000000 < 1000000000 := Nat.mod_lt _ (by decide)
  have small : timestamp / 1000000000 < 2 ^ 32 := by omega
  have seconds := chrono (timestamp / 1000000000 % 2 ^ 32) _ nanos
  rw [Nat.mod_eq_of_lt small] at seconds
  have day : timestamp < dayNanos ↔ timestamp / 1000000000 < 86400 := by
    rw [dayNanos]
    omega
  rw [day]
  by_cases early : timestamp / 1000000000 < 86400
  · have checked : env.profile.debugAssert (decide (timestamp / 1000000000 < 86400)) = some () := by
      rw [decide_eq_true early]
      exact env.profile.debugAssert_true
    simp only [toNaiveTime, checked, Option.bind_eq_bind, Option.bind_some,
      Nat.mod_eq_of_lt small]
    exact seconds
  · -- the assertion fails in a debug build, and `unwrap` in a release build
    have late : (env.fromNumSecondsFromMidnightOpt (timestamp / 1000000000)
        (timestamp % 1000000000)) = none := by
      rw [← Option.not_isSome_iff_eq_none, seconds]
      exact early
    simp only [toNaiveTime, Nat.mod_eq_of_lt small, late]
    cases env.profile.debugAssert (decide (timestamp / 1000000000 < 86400)) <;> simp [early]

end Chrono

/-- A message that makes no call leaves the books alone. -/
theorem applyOrder_idle (env : Env) (handler : MessageHandler HashMapRegistry) (m : Message)
    (counter : OrderCounter) (none_made : calls handler m = none) :
    ∃ handler', handler.applyOrder env (locate m) (operation m) (loggedTime m) counter =
        some handler' ∧
      ∀ l, handler'.registry.get l = handler.registry.get l := by
  have lookup : Registry.getMut handler.registry (locate m) =
      handler.registry.getMut (locate m) := rfl
  cases found : handler.registry.getMut (locate m) with
  | none =>
    simp only [MessageHandler.applyOrder, lookup, found]
    exact ⟨_, rfl, fun _ => rfl⟩
  | some reference =>
    obtain ⟨book, put⟩ := reference
    obtain ⟨here, _⟩ := handler.registry.getMut_eq_some found
    cases carried : operation m with
    | none =>
      simp only [MessageHandler.applyOrder, lookup, found]
      exact ⟨_, rfl, fun _ => rfl⟩
    | some call =>
      rw [calls, here, carried] at none_made
      cases none_made

/-- With debug logging the timestamp of the message is a time of day, where it is logged. -/
def Logs (env : Env) (m : Message) : Prop :=
  env.debugEnabled = true → ∀ timestamp ∈ loggedTime m, (toNaiveTime env timestamp).isSome

instance (env : Env) (m : Message) : Decidable (Logs env m) :=
  inferInstanceAs (Decidable (env.debugEnabled = true →
    ∀ timestamp ∈ loggedTime m, (toNaiveTime env timestamp).isSome))

/-- A message that makes a call is logged first. -/
theorem applyOrder_made (env : Env) (handler : MessageHandler HashMapRegistry) (m : Message)
    (counter : OrderCounter) {book : OrderBook} {call : OrderBook.Call}
    (made : calls handler m = some (book, call)) :
    ∃ put : OrderBook.Reply × OrderBook → MessageHandler HashMapRegistry,
      handler.applyOrder env (locate m) (operation m) (loggedTime m) counter =
        (if Logs env m then book.call env.profile call else none).map put ∧
      ∀ answer l, (put answer).registry.get l =
        if l = locate m then some answer.2 else handler.registry.get l := by
  have lookup : Registry.getMut handler.registry (locate m) =
      handler.registry.getMut (locate m) := rfl
  obtain ⟨here, carried⟩ := calls_some made
  cases found : handler.registry.getMut (locate m) with
  | none =>
    rw [(handler.registry.getMut_eq_none _).mp found] at here
    cases here
  | some reference =>
    obtain ⟨_, put⟩ := reference
    obtain ⟨there, written⟩ := handler.registry.getMut_eq_some found
    rw [here] at there
    cases there
    refine ⟨fun answer =>
      { handler with
        registry := put answer.2
        stats := if answer.1.isError then handler.stats else handler.stats.bump counter },
      ?_, fun answer l => written answer.2 l⟩
    simp only [MessageHandler.applyOrder, lookup, found, carried]
    cases logging : env.debugEnabled with
    | false =>
      have silent : Logs env m := by
        intro enabled
        rw [logging] at enabled
        cases enabled
      rw [if_pos silent]
      cases book.call env.profile call <;> rfl
    | true =>
      cases logged : loggedTime m with
      | none =>
        have nothing : Logs env m := by
          rintro _ timestamp member
          rw [logged] at member
          cases member
        rw [if_pos nothing]
        cases book.call env.profile call <;> rfl
      | some timestamp =>
        have converts : Logs env m ↔ (toNaiveTime env timestamp).isSome := by
          simp only [Logs, logging, logged, Option.mem_def, Option.some.injEq, forall_eq',
            true_imp_iff]
        cases converted : toNaiveTime env timestamp with
        | none =>
          have late : ¬Logs env m := by
            rw [converts, converted]
            exact Bool.false_ne_true
          simp only [if_neg late, converted, Option.map_none]
          rfl
        | some time =>
          have timely : Logs env m := by
            rw [converts, converted]
            rfl
          simp only [if_pos timely, converted, Option.map_some]
          cases book.call env.profile call <;> rfl

/-- A stock directory leaves the books as they are, or starts one over. -/
theorem stockDirectory_books (env : Env) (msg : Msg .stockDirectory)
    (handler : MessageHandler HashMapRegistry) :
    ∃ cf handler', MessageHandler.on env .stockDirectory msg handler = some (cf, handler') ∧
      (cf = .Break → Stops env handler ∧ handler'.registry = handler.registry) ∧
      ∀ l book, handler'.registry.get l = some book →
        book = OrderBook.new ∨ handler.registry.get l = some book := by
  have sized : Registry.len env.profile handler.registry = some handler.registry.books.size :=
    handler.registry.len_isSome env.profile
  have entered : Registry.register handler.registry msg.stockLocate msg.stock =
      some (handler.registry.register msg.stockLocate msg.stock) := rfl
  simp only [MessageHandler.on, MessageHandler.onStockDirectory, polled_eq]
  by_cases stops : Stops env handler
  · rw [if_pos stops]
    exact ⟨_, _, rfl, fun _ => ⟨stops, rfl⟩, fun _ _ found => .inr found⟩
  · rw [if_neg stops]
    by_cases watched : handler.symbolsToWatch.all (fun symbols => symbols.contains msg.stock) = true
    · refine ⟨.Continue, { handler with
        registry := handler.registry.register msg.stockLocate msg.stock
        stats := { handler.stats with stockDirectoryMsgs := handler.stats.stockDirectoryMsgs + 1 }
        tick := (handler.tick + 1) % 2 ^ 32 }, ?_, by rintro ⟨⟩, fun l book found => ?_⟩
      · rw [if_pos watched]
        cases logged : env.infoEnabled <;> simp [sized, entered]
      · rw [HashMapRegistry.get_register] at found
        split at found
        next => exact .inl (Option.some.inj found).symm
        next => exact .inr found
    · rw [if_neg watched]
      exact ⟨_, _, rfl, by rintro ⟨⟩, fun _ _ found => .inr found⟩

/-! ### One step -/

/-- What a method does to a handler whose books are sound: it stops, or it leaves the books as they
are or starts one over, or it makes a call. -/
theorem on_spec (env : Env) (handler : MessageHandler HashMapRegistry) (m : Message) :
    (∃ handler', MessageHandler.on env m.1 m.2 handler = some (.Break, handler') ∧
      Stops env handler ∧ handler'.registry = handler.registry) ∨
    (calls handler m = none ∧ ∃ handler',
      MessageHandler.on env m.1 m.2 handler = some (.Continue, handler') ∧
      ∀ l book, handler'.registry.get l = some book →
        book = OrderBook.new ∨ handler.registry.get l = some book) ∨
    (¬Stops env handler ∧ ∃ book call, calls handler m = some (book, call) ∧
      ∃ put : OrderBook.Reply × OrderBook → MessageHandler HashMapRegistry,
        MessageHandler.on env m.1 m.2 handler =
          (if Logs env m then book.call env.profile call else none).map
            (fun answer => (.Continue, put answer)) ∧
        ∀ answer l, (put answer).registry.get l =
          if l = locate m then some answer.2 else handler.registry.get l) := by
  by_cases order : isOrder m = true
  · obtain ⟨counter, _, method⟩ := on_order env m order handler
    rw [method, polled_eq]
    by_cases stops : Stops env handler
    · rw [if_pos stops]
      exact .inl ⟨_, rfl, stops, rfl⟩
    · rw [if_neg stops]
      right
      -- the body starts from the handler with the next tick, whose registry is the same
      cases made : calls handler m with
      | none =>
        obtain ⟨handler', applied, same⟩ := applyOrder_idle env
          { handler with tick := (handler.tick + 1) % 2 ^ 32 } m counter made
        rw [applied]
        exact .inl ⟨rfl, handler', rfl, fun l book found => .inr (by rwa [same] at found)⟩
      | some call =>
        obtain ⟨book, call⟩ := call
        obtain ⟨put, applied, written⟩ := applyOrder_made env
          { handler with tick := (handler.tick + 1) % 2 ^ 32 } m counter made
        rw [applied]
        exact .inr ⟨stops, book, call, rfl, put, Option.map_map .., written⟩
  · obtain ⟨kind, msg⟩ := m
    cases kind with
    | stockDirectory =>
      have made : calls handler ⟨.stockDirectory, msg⟩ = none := by
        rw [calls]
        cases handler.registry.get (locate ⟨.stockDirectory, msg⟩) <;> rfl
      obtain ⟨cf, handler', method, stopping, books⟩ := stockDirectory_books env msg handler
      cases cf with
      | Break => exact .inl ⟨handler', method, stopping rfl⟩
      | Continue => exact .inr (.inl ⟨made, handler', method, books⟩)
    | addOrderNoMPIDAttribution | addOrderWithMPIDAttribution | orderExecuted
    | orderExecutedWithPrice | orderCancel | orderDelete | orderReplace => exact absurd rfl order
    | _ =>
      refine .inr (.inl ⟨?_, handler, rfl, fun _ _ found => .inr found⟩)
      rw [calls]
      cases handler.registry.get (locate _) <;> rfl

theorem logs_iff {env : Env} (chrono : Chrono env) (logging : env.debugEnabled = true)
    (m : Message) : Logs env m ↔ ∀ timestamp ∈ loggedTime m, timestamp < dayNanos := by
  constructor
  · intro logs timestamp logged
    exact (toNaiveTime_isSome chrono (timestamp_lt logged)).mp (logs logging timestamp logged)
  · intro early _ timestamp logged
    exact (toNaiveTime_isSome chrono (timestamp_lt logged)).mpr (early timestamp logged)

/-- A message that makes no call meets both conditions. -/
theorem fine_of_idle {handler : MessageHandler HashMapRegistry} {m : Message}
    (idle : calls handler m = none) : Timely handler m ∧ Roomy handler m := by
  constructor
  · intro made member
    rw [idle] at member
    cases member
  · intro made member
    rw [idle] at member
    cases member

/-- A method that returns has stopped, or the timestamp it logged is within the day. -/
theorem timely_of_returns {env : Env} (chrono : Chrono env) (logging : env.debugEnabled = true)
    (handler : MessageHandler HashMapRegistry) (m : Message)
    (returns : (MessageHandler.on env m.1 m.2 handler).isSome) :
    Stops env handler ∨ Timely handler m := by
  rcases on_spec env handler m with ⟨_, _, stops, _⟩ | ⟨idle, _⟩ |
    ⟨_, book, call, _, put, method, _⟩
  · exact .inl stops
  · exact .inr (fine_of_idle idle).1
  · right
    intro _ _
    rw [← logs_iff chrono logging]
    by_contra late
    rw [method, if_neg late] at returns
    cases returns

/-- In a debug build it has found room in the pool. -/
theorem roomy_of_returns {env : Env} (debug : env.profile = .debug)
    {handler : MessageHandler HashMapRegistry} (sound : Sound handler) (m : Message)
    (returns : (MessageHandler.on env m.1 m.2 handler).isSome) :
    Stops env handler ∨ Roomy handler m := by
  rcases on_spec env handler m with ⟨_, _, stops, _⟩ | ⟨idle, _⟩ |
    ⟨_, book, call, made, put, method, _⟩
  · exact .inl stops
  · exact .inr (fine_of_idle idle).2
  · right
    intro other member
    rw [made] at member
    cases member
    rw [method, Option.isSome_map] at returns
    split at returns
    next =>
      obtain ⟨⟨reply, book'⟩, called⟩ := Option.isSome_iff_exists.mp returns
      obtain ⟨here, _⟩ := calls_some made
      obtain ⟨q, ref, rep⟩ := sound _ _ here
      rw [debug] at called
      exact rep.findsRoom_of_debug call reply book' called
    next => cases returns

/-- A method returns when it stops, or its timestamp is within the day and the pool has room. -/
theorem returns_of_roomy {env : Env} (chrono : Chrono env) (logging : env.debugEnabled = true)
    {handler : MessageHandler HashMapRegistry} (sound : Sound handler) (m : Message)
    (fine : Stops env handler ∨ Timely handler m ∧ Roomy handler m) :
    (MessageHandler.on env m.1 m.2 handler).isSome := by
  rcases on_spec env handler m with ⟨handler', method, _⟩ | ⟨_, handler', method, _⟩ |
    ⟨running, book, call, made, put, method, _⟩
  · rw [method]
    rfl
  · rw [method]
    rfl
  · obtain ⟨timely, roomy⟩ := fine.resolve_left running
    obtain ⟨here, carried⟩ := calls_some made
    obtain ⟨q, ref, rep⟩ := sound _ _ here
    obtain ⟨book', _, called, _⟩ := rep.call env.profile call (roomy (book, call) made)
      (operation_wire carried)
    rw [method, if_pos ((logs_iff chrono logging m).mpr (timely (book, call) made)), called]
    rfl

/-- Sound books stay sound while the pools have room. -/
theorem Sound.on {env : Env} {handler handler' : MessageHandler HashMapRegistry}
    (sound : Sound handler) (m : Message) (cf : ControlFlow)
    (room : Stops env handler ∨ Roomy handler m)
    (returned : MessageHandler.on env m.1 m.2 handler = some (cf, handler')) : Sound handler' := by
  rcases on_spec env handler m with ⟨next, method, _, same⟩ | ⟨_, next, method, books⟩ |
    ⟨running, book, call, made, put, method, written⟩
  · rw [method] at returned
    cases returned
    intro l book found
    rw [same] at found
    exact sound l book found
  · rw [method] at returned
    cases returned
    intro l book found
    rcases books l book found with rfl | old
    · exact ⟨_, _, OrderBook.represents_new⟩
    · exact sound l book old
  · rw [method] at returned
    obtain ⟨⟨reply, book'⟩, called, equal⟩ := Option.map_eq_some_iff.mp returned
    cases equal
    obtain ⟨here, carried⟩ := calls_some made
    obtain ⟨q, ref, rep⟩ := sound _ _ here
    obtain ⟨next, q', again, onwards⟩ := rep.call env.profile call
      (room.resolve_left running (book, call) made) (operation_wire carried)
    split at called
    next =>
      rw [again] at called
      cases called
      intro l other found
      rw [written] at found
      split at found
      next =>
        cases found
        exact ⟨q', _, onwards⟩
      next => exact sound l other found
    next => cases called

/-! ### Whole streams -/

/-- A call of a method, under what held at that time. -/
def method (handler : MessageHandler HashMapRegistry) (step : Env × Message) :
    Option (ControlFlow × MessageHandler HashMapRegistry) :=
  MessageHandler.on step.1 step.2.1 step.2.2 handler

/-- A step that gets to a call finds room in the pool. -/
def RoomyStep (handler : MessageHandler HashMapRegistry) (step : Env × Message) : Prop :=
  Stops step.1 handler ∨ Roomy handler step.2

theorem sound_new (watch : Option (List Nat)) : Sound (MessageHandler.new watch) := by
  intro l book found
  have nothing : HashMapRegistry.get Registry.new l = none := HashMapRegistry.get_new l
  change HashMapRegistry.get Registry.new l = some book at found
  rw [nothing] at found
  cases found

/-- The books of a handler that was reached are sound; a debug build sees to it. -/
theorem Sound.run {profile : Profile} {handler last : MessageHandler HashMapRegistry}
    (sound : Sound handler) (history : List (Env × Message))
    (built : ∀ step ∈ history, step.1.profile = profile)
    (room : profile = .release → Along method RoomyStep handler history)
    (answers : List ControlFlow) (reached : run method handler history = some (answers, last)) :
    Sound last := by
  induction history generalizing handler answers with
  | nil => cases reached; exact sound
  | cons step steps ih =>
    obtain ⟨cf, rest, next, _, stepped, onwards⟩ := (run_cons_iff _ _ _ _ _ _).mp reached
    have now : RoomyStep handler step := by
      cases made : profile with
      | debug =>
        have debug : step.1.profile = .debug := (built step (by simp)).trans made
        exact roomy_of_returns debug sound step.2 (by rw [method] at stepped; rw [stepped]; rfl)
      | release => exact (room made).1
    exact ih (sound.on step.2 cf now stepped) (fun other member => built other (by simp [member]))
      (fun release => (room release).2 cf next stepped) rest onwards

/-- The parser returns on a buffer, in a state that was reached, exactly when each message that
it gets to logs a timestamp within the day and finds room in the pool of its book. In a release
build a pool without room does not panic at once: there the condition on timestamps is necessary,
and with room in the pools it is sufficient. -/
theorem parseStream_returns_iff (env : Env) (logging : env.debugEnabled = true)
    (chrono : Chrono env) (watch : Option (List Nat)) (history : List (Env × Message))
    (built : ∀ step ∈ history, step.1.profile = env.profile) (answers : List ControlFlow)
    (handler : MessageHandler HashMapRegistry)
    (reached : run method (MessageHandler.new watch) history = some (answers, handler))
    (buf : List UInt8) :
    ∃ ms r, buf = framed ms ++ r ∧ (∀ m ∈ ms, m.Tagged) ∧ NoFrame r ∧
      ((parseStream (MessageHandler.on env) buf handler).isSome →
        Along (going (MessageHandler.on env)) (fun h m => Stops env h ∨ Timely h m) handler ms) ∧
      ((env.profile = .release → Along method RoomyStep (MessageHandler.new watch) history ∧
          Along (going (MessageHandler.on env)) (fun h m => Stops env h ∨ Roomy h m)
            handler ms) →
        ((parseStream (MessageHandler.on env) buf handler).isSome ↔
          Along (going (MessageHandler.on env))
            (fun h m => Stops env h ∨ Timely h m ∧ Roomy h m) handler ms)) := by
  obtain ⟨ms, r, rfl, tagged, invalid⟩ := exists_frames buf
  have returns := parseStream_isSome_iff (MessageHandler.on env) ms tagged r invalid handler
  refine ⟨ms, r, rfl, tagged, invalid, ?_, fun room => ?_⟩
  · intro returned
    exact (returns.mp returned).imp fun h m => timely_of_returns chrono logging h m
  · have sound : Sound handler := (sound_new watch).run history built (fun release =>
      (room release).1) answers reached
    -- with the room that a release build does not check for, one message returns exactly when
    -- it is fine, and then the books are sound for the next one
    have agree : Along (going (MessageHandler.on env)) (fun h m =>
        (MessageHandler.on env m.1 m.2 h).isSome ∧
          (env.profile = .release → Stops env h ∨ Roomy h m)) handler ms ↔
        Along (going (MessageHandler.on env))
          (fun h m => Stops env h ∨ Timely h m ∧ Roomy h m) handler ms := by
      refine Along.congr (I := Sound) ?_ ?_ sound
      · intro h m here
        constructor
        · rintro ⟨returned, free⟩
          have early := timely_of_returns chrono logging h m returned
          have roomy : Stops env h ∨ Roomy h m := by
            cases made : env.profile with
            | debug => exact roomy_of_returns made here m returned
            | release => exact free made
          rcases early with stops | timely
          · exact .inl stops
          · exact roomy.imp_right fun roomy => ⟨timely, roomy⟩
        · intro fine
          exact ⟨returns_of_roomy chrono logging here m fine, fun _ => fine.imp_right And.right⟩
      · intro h m _ next here fine stepped
        have called : MessageHandler.on env m.1 m.2 h = some (.Continue, next) := by
          unfold going at stepped
          split at stepped
          next found => cases stepped; exact found
          next => cases stepped
        exact here.on m .Continue (fine.imp_right And.right) called
    rw [returns, ← agree, Along.and_iff]
    constructor
    · intro all
      refine ⟨all, ?_⟩
      cases made : env.profile with
      | debug => exact Along.of_forall (fun h m => by rintro ⟨⟩) handler ms
      | release => exact (room made).2.imp fun h m free _ => free
    · exact And.left

/-- A build that logs everything, with times of day as the library has them. -/
def loudEnv (profile : Profile) : Env where
  profile
  shutdown := false
  infoEnabled := true
  debugEnabled := true
  fromNumSecondsFromMidnightOpt := fun secs nanos =>
    -- a leap second counts on from the last second of its minute
    if secs < 86400 ∧ (nanos < 1000000000 ∨ secs % 60 = 59 ∧ nanos < 2000000000) then
      some (secs * 1000000000 + nanos)
    else none

theorem chrono_loudEnv (profile : Profile) : Chrono (loudEnv profile) := by
  intro secs nanos small
  simp [loudEnv, small]

/-- The directory entry of locate 1 and a buy order at midnight. -/
theorem parseStream_returns_iff_midnight :
    ∃ cf handler, run method (MessageHandler.new none) [(loudEnv .debug, directoryOf1)] =
        some ([cf], handler) ∧
      (parseStream (MessageHandler.on (loudEnv .debug)) (framed [buy100 1]) handler).isSome ∧
      ∃ ms r, framed [buy100 1] = framed ms ++ r ∧
        Along (going (MessageHandler.on (loudEnv .debug)))
          (fun h m => Stops (loudEnv .debug) h ∨ Timely h m ∧ Roomy h m) handler ms := by
  obtain ⟨ms, r, whole, _, _, _, exact'⟩ := parseStream_returns_iff (loudEnv .debug) rfl
    (chrono_loudEnv .debug) none [(loudEnv .debug, directoryOf1)] (by simp) [.Continue] _ rfl
    (framed [buy100 1])
  refine ⟨.Continue, _, rfl, by decide +kernel, ms, r, whole, ?_⟩
  exact (exact' (by rintro ⟨⟩)).mp (by decide +kernel)

/-- The same order with another timestamp. -/
def buyAt (timestamp : List UInt8) (six : timestamp.length = 6) : Message :=
  ⟨.addOrderNoMPIDAttribution, ⟨[65, 0, 1, 0, 0] ++ timestamp ++
    [0, 0, 0, 0, 0, 0, 0, 1, 66, 0, 0, 0, 100] ++ List.replicate 8 0 ++ [0, 0, 0, 5],
    by simp [six]; decide⟩⟩

/-- A buy order that says it is from 86400 seconds after midnight panics; one nanosecond earlier
it does not. -/
theorem late_timestamp_panics :
    ∃ cf handler, run method (MessageHandler.new none) [(loudEnv .release, directoryOf1)] =
        some ([cf], handler) ∧
      (buyAt [78, 148, 145, 79, 0, 0] rfl).2.timestamp = 86400 * 1000000000 ∧
      parseStream (MessageHandler.on (loudEnv .release))
        (framed [buyAt [78, 148, 145, 79, 0, 0] rfl]) handler = none ∧
      (parseStream (MessageHandler.on (loudEnv .release))
        (framed [buyAt [78, 148, 145, 78, 255, 255] rfl]) handler).isSome := by
  refine ⟨.Continue, _, rfl, by decide, ?_, ?_⟩ <;> decide +kernel

end Hftrs.App
