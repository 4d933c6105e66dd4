import Hftrs.App.Market

/-! Asking the client to stop while it works. The shared flag goes up between two steps of the
receive loop; loads before that see it down, and loads after it see it up. -/
namespace Hftrs.App

open Hftrs.Itch5 Hftrs.Library Hftrs.Orderbook Hftrs.Moldudp

/-- The steps of a run: turns of the loop and messages. `handled` has the messages that a method has
worked on, each with its moment; no code reads it. -/
structure Clock where
  now : Nat
  handled : List (Nat × Message)

def Clock.start : Clock := ⟨0, []⟩

def Clock.tick (clock : Clock) : Clock := { clock with now := clock.now + 1 }

/-- What a load finds at a moment, when the flag goes up at `raised`. -/
def Env.asOf (env : Env) (raised now : Nat) : Env :=
  { env with shutdown := decide (raised ≤ now) }

/-- The methods that begin with `self.should_stop()?`. -/
def polls : MsgKind → Bool
  | .stockDirectory | .addOrderNoMPIDAttribution | .addOrderWithMPIDAttribution | .orderExecuted
  | .orderExecutedWithPrice | .orderCancel | .orderDelete | .orderReplace => true
  | _ => false

/-- The messages that were handled after the flag was raised, by methods that poll it. -/
def Clock.late (clock : Clock) (raised : Nat) : Nat :=
  clock.handled.countP fun (moment, m) => raised ≤ moment ∧ polls m.1

section Run

variable {R : Type} [Registry R]

/-- The methods, at the moment of their message. -/
def MessageHandler.onAsOf (env : Env) (raised : Nat) : Handler (Clock × MessageHandler R) :=
  fun kind msg (clock, handler) =>
    (MessageHandler.on (env.asOf raised clock.now) kind msg handler).map fun (cf, handler) =>
      match cf with
      | .Continue =>
        (.Continue, { clock.tick with handled := clock.handled ++ [(clock.now, ⟨kind, msg⟩)] },
          handler)
      | .Break => (.Break, clock.tick, handler)

namespace Receiving

/-- The part of the loop that standard packets reach. -/
def consumeAsOf (env : Env) (raised : Nat) (trySend : RetransmissionPacket → Bool)
    (packet : Packet) (clock : Clock) (state : Receiving R) : Option (Clock × Receiving R) := do
  let net := { state.net with packetsReceived := state.net.packetsReceived + 1 }
  let state :=
    if packet.iter.remaining ≠ packet.msgCount then
      requestRetransmission trySend packet
        { state with net := { net with truncatedPackets := net.truncatedPackets + 1 } }
    else { state with net }
  let (result, _, clock, handler) ←
    parseStream (MessageHandler.onAsOf env raised) packet.messages (clock, state.handler)
  -- a stop inside the packet is no error
  let parseErrors := match result with
    | .ok _ => state.net.parseErrors
    | .error _ => state.net.parseErrors + 1
  return (clock, { state with handler, net := { state.net with parseErrors } })

/-- One turn of the loop: it loads the flag before it looks at the datagram. -/
def turnAsOf (env : Env) (raised : Nat) (trySend : RetransmissionPacket → Bool)
    (datagram : List UInt8) (clock : Clock) (state : Receiving R) :
    Option (ControlFlow × Clock × Receiving R) :=
  if (env.asOf raised clock.now).shutdown then some (.Break, clock.tick, state)
  else
    match Packet.parse datagram with
    | none => none
    | some packet =>
      match packet.packetKind with
      | .Heartbeat => some (.Continue, clock.tick,
        { state with net := { state.net with heartbeats := state.net.heartbeats + 1 } })
      | .EndOfSession => some (.Break, clock.tick, state)
      | .Standard => (consumeAsOf env raised trySend packet clock.tick state).map fun result =>
        (.Continue, result)

def loopAsOf (env : Env) (raised : Nat) (trySend : RetransmissionPacket → Bool) :
    List (List UInt8) → Clock → Receiving R → Option (Clock × Receiving R)
  | [], clock, state => some (clock, state)
  | datagram :: datagrams, clock, state =>
    match turnAsOf env raised trySend datagram clock state with
    | none => none
    | some (.Break, clock, state) => some (clock, state)
    | some (.Continue, clock, state) => loopAsOf env raised trySend datagrams clock state

/-- `handler::run`, when the flag goes up at the moment `raised`. -/
def runAsOf (env : Env) (raised : Nat) (trySend : RetransmissionPacket → Bool)
    (datagrams : List (List UInt8)) (handler : MessageHandler R) : Option (Clock × Receiving R) :=
  loopAsOf env raised trySend datagrams .start ⟨handler, .default, []⟩

end Receiving

/-- Once the flag is up the loop takes no other datagram. -/
theorem Receiving.loopAsOf_up (env : Env) {raised : Nat} (trySend : RetransmissionPacket → Bool)
    (datagram : List UInt8) (datagrams : List (List UInt8)) {clock : Clock} (state : Receiving R)
    (up : raised ≤ clock.now) :
    loopAsOf env raised trySend (datagram :: datagrams) clock state = some (clock.tick, state) := by
  have stops : (env.asOf raised clock.now).shutdown = true := decide_eq_true up
  rw [loopAsOf, turnAsOf, if_pos stops]

/-! ### While the flag is down -/

/-- The environment before the flag goes up. -/
def Env.down (env : Env) : Env := { env with shutdown := false }

@[simp] theorem Env.down_shutdown (env : Env) : env.down.shutdown = false := rfl

theorem Env.asOf_down (env : Env) {raised now : Nat} (before : now < raised) :
    env.asOf raised now = env.down := by
  rw [Env.asOf, decide_eq_false (Nat.not_le.mpr before)]
  rfl

theorem onAsOf_down {env : Env} {raised : Nat} {kind : MsgKind} {msg : Msg kind}
    {clock clock' : Clock} {handler handler' : MessageHandler R} {cf : ControlFlow}
    (called : MessageHandler.onAsOf env raised kind msg (clock, handler) =
      some (cf, clock', handler')) :
    clock'.now = clock.now + 1 ∧
      (clock'.now ≤ raised →
        MessageHandler.on env.down kind msg handler = some (cf, handler')) := by
  obtain ⟨⟨cf', h⟩, method, equal⟩ := Option.map_eq_some_iff.mp called
  have result : cf' = cf ∧ clock'.now = clock.now + 1 ∧ h = handler' := by
    cases cf' <;> cases equal <;> exact ⟨rfl, rfl, rfl⟩
  obtain ⟨rfl, now, rfl⟩ := result
  refine ⟨now, fun before => ?_⟩
  rwa [env.asOf_down (by omega)] at method

private theorem dispatch_down {env : Env} {raised : Nat} {body : List UInt8} {clock clock' : Clock}
    {handler handler' : MessageHandler R} {result : Except ParseError ControlFlow}
    (called : dispatch (MessageHandler.onAsOf env raised) body (clock, handler) =
      some (result, clock', handler')) :
    clock.now ≤ clock'.now ∧ (clock'.now ≤ raised →
      dispatch (MessageHandler.on env.down) body handler = some (result, handler')) := by
  unfold dispatch at called ⊢
  cases body with
  | nil => cases called
  | cons tag tail =>
    simp only at called ⊢
    cases known : arm tag with
    | none =>
      simp only [known] at called ⊢
      cases called
      exact ⟨Nat.le_refl _, fun _ => rfl⟩
    | some kind =>
      simp only [known] at called ⊢
      cases view : cast kind (tag :: tail) with
      | error e =>
        simp only [view] at called ⊢
        cases called
        exact ⟨Nat.le_refl _, fun _ => rfl⟩
      | ok msg =>
        simp only [view] at called ⊢
        obtain ⟨⟨cf, clock₁, h⟩, method, equal⟩ := Option.map_eq_some_iff.mp called
        cases equal
        obtain ⟨now, down⟩ := onAsOf_down method
        refine ⟨by omega, fun before => ?_⟩
        rw [down before]
        rfl

theorem parseStream_down {env : Env} {raised : Nat} (buf left : List UInt8)
    (clock clock' : Clock) (handler handler' : MessageHandler R) (result : Except ParseError Unit)
    (called : parseStream (MessageHandler.onAsOf env raised) buf (clock, handler) =
      some (result, left, clock', handler')) :
    clock.now ≤ clock'.now ∧ (clock'.now ≤ raised →
      parseStream (MessageHandler.on env.down) buf handler = some (result, left, handler')) := by
  -- on the length of the buffer: one message on either side
  induction size : buf.length using Nat.strong_induction_on generalizing buf clock handler with
  | _ n ih =>
    subst size
    by_cases empty : buf = []
    · rw [empty, parseStream_nil] at called ⊢
      cases called
      exact ⟨Nat.le_refl _, fun _ => rfl⟩
    cases parsed : parseOne buf with
    | error e =>
      rw [parseStream_error _ buf _ e empty parsed] at called ⊢
      cases called
      exact ⟨Nat.le_refl _, fun _ => rfl⟩
    | ok first =>
      obtain ⟨body, rest⟩ := first
      rw [parseStream_ok _ buf body rest _ parsed] at called ⊢
      cases dispatched : dispatch (MessageHandler.onAsOf env raised) body (clock, handler) with
      | none => rw [dispatched] at called; cases called
      | some outcome =>
        obtain ⟨returned, clock₁, handler₁⟩ := outcome
        obtain ⟨now, down⟩ := dispatch_down dispatched
        rw [dispatched] at called
        rcases returned with e | _ | _
        · cases called
          exact ⟨now, fun before => by rw [down before]⟩
        · obtain ⟨later, onwards⟩ := ih rest.length (parseOne_length parsed) rest clock₁ handler₁
            called rfl
          exact ⟨Nat.le_trans now later, fun before => by
            rw [down (Nat.le_trans later before)]
            exact onwards before⟩
        · cases called
          exact ⟨now, fun before => by rw [down before]⟩

namespace Receiving

theorem consumeAsOf_down {env : Env} {raised : Nat} {trySend : RetransmissionPacket → Bool}
    {packet : Packet} {clock clock' : Clock} {state state' : Receiving R}
    (consumed : consumeAsOf env raised trySend packet clock state = some (clock', state')) :
    clock.now ≤ clock'.now ∧ (clock'.now ≤ raised →
      consume env.down trySend packet state = some state') := by
  obtain ⟨⟨result, left, clock₁, handler⟩, parsed, returned⟩ := Option.bind_eq_some_iff.mp consumed
  obtain ⟨now, down⟩ := parseStream_down _ _ _ _ _ _ _ parsed
  cases returned
  exact ⟨now, fun before => Option.bind_eq_some_iff.mpr ⟨_, down before, rfl⟩⟩

/-- A run that ends before the flag goes up is one that the flag does not touch. -/
theorem loopAsOf_down {env : Env} {raised : Nat} {trySend : RetransmissionPacket → Bool}
    (datagrams : List (List UInt8)) {clock clock' : Clock} {state state' : Receiving R}
    (looped : loopAsOf env raised trySend datagrams clock state = some (clock', state')) :
    clock.now ≤ clock'.now ∧ (clock'.now ≤ raised →
      loop env.down trySend datagrams state = some state') := by
  induction datagrams generalizing clock state with
  | nil => cases looped; exact ⟨Nat.le_refl _, fun _ => rfl⟩
  | cons datagram datagrams ih =>
    by_cases up : raised ≤ clock.now
    · rw [loopAsOf_up env trySend datagram datagrams state up] at looped
      cases looped
      exact ⟨Nat.le_succ _, fun before => absurd before (Nat.not_le.mpr (Nat.lt_succ_of_le up))⟩
    · have works : (env.asOf raised clock.now).shutdown = false := decide_eq_false up
      have down : env.down.shutdown = false := rfl
      rw [loopAsOf, turnAsOf, works, if_neg Bool.false_ne_true] at looped
      rw [loop, turn, down, if_neg Bool.false_ne_true]
      cases parsed : Packet.parse datagram with
      | none => rw [parsed] at looped; cases looped
      | some packet =>
        simp only [parsed] at looped ⊢
        cases kind : packet.packetKind with
        | Heartbeat =>
          simp only [kind] at looped ⊢
          obtain ⟨later, onwards⟩ := ih looped
          exact ⟨Nat.le_of_succ_le later, onwards⟩
        | EndOfSession =>
          simp only [kind] at looped ⊢
          cases looped
          exact ⟨Nat.le_succ _, fun _ => rfl⟩
        | Standard =>
          simp only [kind] at looped ⊢
          cases consumed : consumeAsOf env raised trySend packet clock.tick state with
          | none => rw [consumed] at looped; cases looped
          | some result =>
            obtain ⟨clock₁, state₁⟩ := result
            obtain ⟨now, calm⟩ := consumeAsOf_down consumed
            rw [consumed] at looped
            obtain ⟨later, onwards⟩ := ih looped
            refine ⟨Nat.le_of_succ_le (Nat.le_trans now later), fun before => ?_⟩
            rw [calm (Nat.le_trans later before)]
            exact onwards before

end Receiving

/-! ### What a method does about the flag -/

/-- A method stops at a load that finds the flag up, and else works as if it were down. -/
theorem on_asOf (env : Env) (m : Message) (handler : MessageHandler R) :
    MessageHandler.on env m.1 m.2 handler =
      if polls m.1 = true ∧ env.shutdown = true ∧ (handler.tick + 1) % 256 = 0 then
        some (.Break, { handler with tick := (handler.tick + 1) % 2 ^ 32 })
      else MessageHandler.on env.down m.1 m.2 handler := by
  have low : (handler.tick + 1) % 2 ^ 32 &&& shutdownPollMask = (handler.tick + 1) % 256 := by
    rw [shutdownPollMask, show (0xFF : Nat) = 2 ^ 8 - 1 from rfl, Nat.and_two_pow_sub_one_eq_mod]
    omega
  have polled (body body' : MessageHandler R → Option (MessageHandler R)) (same : body = body') :
      handler.polled env body =
        if env.shutdown = true ∧ (handler.tick + 1) % 256 = 0 then
          some (.Break, { handler with tick := (handler.tick + 1) % 2 ^ 32 })
        else handler.polled env.down body' := by
    subst same
    rw [MessageHandler.polled_alive env.down rfl]
    simp only [MessageHandler.polled, MessageHandler.shouldStop, low]
    by_cases up : env.shutdown = true
    · by_cases zero : (handler.tick + 1) % 256 = 0 <;> simp [up, zero]
    · simp [up]
  obtain ⟨kind, msg⟩ := m
  cases kind with
  | stockDirectory | addOrderNoMPIDAttribution | addOrderWithMPIDAttribution | orderExecuted
  | orderExecutedWithPrice | orderCancel | orderDelete | orderReplace =>
    simp only [polls, true_and]
    exact polled _ _ rfl
  | _ => rfl

private theorem applyOrder_tick {env : Env} {handler handler' : MessageHandler R} {l : Nat}
    {call : Option OrderBook.Call} {logged : Option Nat} {counter : OrderCounter}
    (applied : handler.applyOrder env l call logged counter = some handler') :
    handler'.tick = handler.tick := by
  unfold MessageHandler.applyOrder at applied
  split at applied
  next => cases applied; rfl
  next book put found =>
    cases call with
    | none => cases applied; rfl
    | some call =>
      obtain ⟨_, _, onwards⟩ := Option.bind_eq_some_iff.mp applied
      obtain ⟨_, _, returned⟩ := Option.bind_eq_some_iff.mp onwards
      cases returned
      rfl

/-- While the flag is down, a method that polls it counts the message. -/
theorem on_tick {env : Env} (alive : env.shutdown = false) (m : Message)
    {handler handler' : MessageHandler R} {cf : ControlFlow}
    (called : MessageHandler.on env m.1 m.2 handler = some (cf, handler')) :
    handler'.tick = if polls m.1 then (handler.tick + 1) % 2 ^ 32 else handler.tick := by
  have polled (body : MessageHandler R → Option (MessageHandler R))
      (called : handler.polled env body = some (cf, handler'))
      (keeps : ∀ h h', body h = some h' → h'.tick = h.tick) :
      handler'.tick = (handler.tick + 1) % 2 ^ 32 := by
    rw [MessageHandler.polled_alive env alive] at called
    obtain ⟨h, applied, same⟩ := Option.map_eq_some_iff.mp called
    cases same
    exact keeps _ _ applied
  obtain ⟨kind, msg⟩ := m
  cases kind with
  | stockDirectory =>
    refine polled _ called fun h h' applied => ?_
    simp only [Option.bind_eq_bind, Option.pure_def] at applied
    split at applied
    next =>
      simp only [Option.bind_eq_some_iff] at applied
      obtain ⟨_, _, registry, _, returned⟩ := applied
      cases returned
      rfl
    next => cases applied; rfl
  | addOrderNoMPIDAttribution | addOrderWithMPIDAttribution | orderExecuted
  | orderExecutedWithPrice | orderCancel | orderDelete | orderReplace =>
    exact polled _ called fun _ _ => applyOrder_tick
  | _ => cases called; rfl

end Run

/-! ### A run that may be stopped -/

section Stopping

variable {R : Type} [IterRegistry R] [LawfulRegistry R]

/-- The handler shows the market after the messages it has handled, and few of them were late. -/
structure Halted (watch : Option (List Nat)) (raised : Nat) (clock : Clock)
    (handler : MessageHandler R) : Prop where
  shows : Shows watch handler (Market.after watch (clock.handled.map Prod.snd))
  late : clock.late raised ≤ 255

/-- As long as no method has stopped, the low bits of the tick count the late messages. -/
structure Stopping (watch : Option (List Nat)) (raised : Nat) (clock : Clock)
    (handler : MessageHandler R) : Prop where
  shows : Shows watch handler (Market.after watch (clock.handled.map Prod.snd))
  past : ∀ entry ∈ clock.handled, entry.1 < clock.now
  late : clock.late raised ≤ handler.tick % 256

variable {env : Env} {watch : Option (List Nat)} {raised : Nat} {clock : Clock}
  {handler : MessageHandler R}

theorem stopping_start (watch : Option (List Nat)) (raised : Nat) :
    Stopping watch raised .start (.new watch : MessageHandler R) :=
  ⟨shows_new watch, by simp [Clock.start], Nat.zero_le _⟩

theorem Stopping.halted (stopping : Stopping watch raised clock handler) :
    Halted watch raised clock handler :=
  ⟨stopping.shows, Nat.le_trans stopping.late (Nat.le_of_lt_succ (Nat.mod_lt _ (by decide)))⟩

theorem Stopping.tick (stopping : Stopping watch raised clock handler) :
    Stopping watch raised clock.tick handler :=
  ⟨stopping.shows, fun entry member => Nat.lt_succ_of_lt (stopping.past entry member),
    stopping.late⟩

/-- Nothing is late before the flag goes up. -/
theorem Stopping.early (stopping : Stopping watch raised clock handler) {moment : Nat}
    (down : clock.now ≤ moment) : clock.late moment = 0 := by
  rw [Clock.late, List.countP_eq_zero]
  intro entry member late
  have before := stopping.past entry member
  simp only [Bool.decide_and, Bool.and_eq_true, decide_eq_true_eq] at late
  omega

/-- Someone else may raise the flag now. -/
theorem Stopping.raise (stopping : Stopping watch raised clock handler) :
    Stopping watch (min raised clock.now) clock handler := by
  refine ⟨stopping.shows, stopping.past, ?_⟩
  by_cases up : raised ≤ clock.now
  · rw [Nat.min_eq_left up]
    exact stopping.late
  · rw [Nat.min_eq_right (Nat.le_of_not_le up), stopping.early (Nat.le_refl _)]
    exact Nat.zero_le _

/-- One message: it is handled, or it finds the flag up and the parser stops. -/
theorem Stopping.step (stopping : Stopping watch raised clock handler) (m : Message)
    (logs : (Market.after watch (clock.handled.map Prod.snd)).Calls m → Logs env m)
    (few : (Market.after watch (clock.handled.map Prod.snd)).Roomy)
    (slot : ∀ l, registers watch l m → LawfulRegistry.HasSlot (Registry.new : R) l) :
    ∃ cf clock' handler', MessageHandler.onAsOf env raised m.1 m.2 (clock, handler) =
        some (cf, clock', handler') ∧
      match cf with
      | .Continue => Stopping watch raised clock' handler' ∧
        clock'.handled.map Prod.snd = clock.handled.map Prod.snd ++ [m]
      | .Break => Halted watch raised clock' handler' ∧ raised < clock'.now ∧
        clock'.handled = clock.handled := by
  rw [MessageHandler.onAsOf, on_asOf (env.asOf raised clock.now)]
  split
  next stops =>
    have up : raised ≤ clock.now := of_decide_eq_true stops.2.1
    exact ⟨_, _, _, rfl, ⟨stopping.shows.tick _, stopping.halted.late⟩, Nat.lt_succ_of_le up, rfl⟩
  next works =>
    obtain ⟨handler', called, shows⟩ := stopping.shows.hear
      (Env.down_shutdown (env.asOf raised clock.now)) m logs few slot
    have ticked := on_tick rfl m called
    rw [called]
    refine ⟨_, _, _, rfl, ⟨?_, ?_, ?_⟩, by simp⟩
    · rw [List.map_append, List.map_singleton, Market.after_concat]
      exact shows
    · intro entry member
      rcases List.mem_append.mp member with old | new
      · exact Nat.lt_succ_of_lt (stopping.past entry old)
      · rw [List.mem_singleton.mp new]
        exact Nat.lt_succ_self _
    · have bounded := stopping.late
      have added : Clock.late ⟨clock.now + 1, clock.handled ++ [(clock.now, m)]⟩ raised =
          clock.late raised + if raised ≤ clock.now ∧ polls m.1 = true then 1 else 0 := by
        simp [Clock.late, List.countP_append, List.countP_singleton]
      change Clock.late ⟨clock.now + 1, clock.handled ++ [(clock.now, m)]⟩ raised ≤ _
      rw [added, ticked]
      by_cases polled : polls m.1 = true
      · by_cases up : raised ≤ clock.now
        · -- the load found the flag up, so that the low bits of the tick are not zero
          have nonzero : (handler.tick + 1) % 256 ≠ 0 := fun zero =>
            works ⟨polled, decide_eq_true up, zero⟩
          simp only [polled, up, and_self, if_true]
          omega
        · have none := stopping.early (Nat.le_of_not_le up)
          simp only [up, false_and, if_false, none]
          omega
      · simpa [polled] using bounded

/-- The messages of a packet, as far as they are handled. -/
theorem Stopping.parse (stopping : Stopping watch raised clock handler) (ms : List Message)
    (tagged : ∀ m ∈ ms, m.Tagged) (r : List UInt8) (invalid : NoFrame r)
    (logs : ∀ before m, before ++ [m] <+: ms →
      (Market.after watch (clock.handled.map Prod.snd ++ before)).Calls m → Logs env m)
    (slot : ∀ m ∈ ms, ∀ l, registers watch l m → LawfulRegistry.HasSlot (Registry.new : R) l)
    (few : ∀ before, before <+: ms →
      (Market.after watch (clock.handled.map Prod.snd ++ before)).Roomy) :
    ∃ result left clock' handler' done,
      parseStream (MessageHandler.onAsOf env raised) (framed ms ++ r) (clock, handler) =
        some (result, left, clock', handler') ∧
      clock'.handled.map Prod.snd = clock.handled.map Prod.snd ++ done ∧
      (Stopping watch raised clock' handler' ∧ done = ms ∨
        Halted watch raised clock' handler' ∧ raised < clock'.now ∧ done <+: ms) := by
  induction ms generalizing clock handler with
  | nil =>
    obtain ⟨left, stopped⟩ := parseStream_stop (MessageHandler.onAsOf env raised) r
      (clock, handler) invalid
    exact ⟨_, left, clock, handler, [], stopped, by simp, .inl ⟨stopping, rfl⟩⟩
  | cons m ms ih =>
    have now : (Market.after watch (clock.handled.map Prod.snd)).Roomy := by
      have none := few [] List.nil_prefix
      rwa [List.append_nil] at none
    have first := logs [] m (List.prefix_append [m] ms)
    rw [List.append_nil] at first
    obtain ⟨cf, clock', handler', called, outcome⟩ := stopping.step m first now (slot m (by simp))
    rw [framed_cons, List.append_assoc, parseStream_frame _ m (tagged m (by simp)), called]
    cases cf with
    | Break =>
      obtain ⟨halted, up, same⟩ := outcome
      exact ⟨_, _, clock', handler', [], rfl, by simp [same],
        .inr ⟨halted, up, List.nil_prefix⟩⟩
    | Continue =>
      obtain ⟨stopping', handled⟩ := outcome
      obtain ⟨result, left, clock'', handler'', done, parsed, all, ends⟩ := ih stopping'
        (fun n member => tagged n (by simp [member]))
        (fun before n front => by
          rw [handled, List.append_assoc]
          exact logs (m :: before) n (List.prefix_cons_inj m |>.mpr front))
        (fun n member => slot n (by simp [member])) fun before front => by
          rw [handled, List.append_assoc]
          exact few (m :: before) (List.prefix_cons_inj m |>.mpr front)
      refine ⟨result, left, clock'', handler'', m :: done, parsed, ?_, ?_⟩
      · rw [all, handled, List.append_assoc]
        rfl
      · rcases ends with ⟨further, rfl⟩ | ⟨halted, up, front⟩
        · exact .inl ⟨further, rfl⟩
        · exact .inr ⟨halted, up, List.prefix_cons_inj m |>.mpr front⟩

/-- A turn of the loop handles the messages of its datagram, or it stops. -/
theorem Stopping.turn (trySend : RetransmissionPacket → Bool) {datagram : List UInt8}
    (headed : (Packet.parse datagram).isSome) {state : Receiving R}
    (stopping : Stopping watch raised clock state.handler)
    (smooth : Smooth R env watch (clock.handled.map Prod.snd ++ heard [datagram])) :
    ∃ cf clock' state' part,
      Receiving.turnAsOf env raised trySend datagram clock state = some (cf, clock', state') ∧
      clock'.handled.map Prod.snd = clock.handled.map Prod.snd ++ part ∧
      (Stopping watch raised clock' state'.handler ∧ part = heard [datagram] ∧
          (cf = .Continue ↔ continues datagram = true) ∨
        Halted watch raised clock' state'.handler ∧ raised < clock'.now ∧
          part <+: heard [datagram]) := by
  by_cases up : raised ≤ clock.now
  · have stops : (env.asOf raised clock.now).shutdown = true := decide_eq_true up
    exact ⟨.Break, clock.tick, state, [], if_pos stops, by simp [Clock.tick],
      .inr ⟨stopping.tick.halted, Nat.lt_succ_of_le up, List.nil_prefix⟩⟩
  · have works : (env.asOf raised clock.now).shutdown = false := decide_eq_false up
    obtain ⟨packet, parsed⟩ := Option.isSome_iff_exists.mp headed
    have goes : continues datagram = decide (packet.packetKind ≠ .EndOfSession) := by
      rw [continues, parsed]
      rfl
    rw [heard, parsed] at smooth ⊢
    cases kind : packet.packetKind with
    | Heartbeat =>
      simp only [Receiving.turnAsOf, works, parsed, kind, Bool.false_eq_true, if_false]
      exact ⟨.Continue, _, _, [], rfl, by simp [Clock.tick],
        .inl ⟨stopping.tick, rfl, by simp [goes, kind]⟩⟩
    | EndOfSession =>
      simp only [Receiving.turnAsOf, works, parsed, kind, Bool.false_eq_true, if_false]
      exact ⟨.Break, _, _, [], rfl, by simp [Clock.tick],
        .inl ⟨stopping.tick, rfl, by simp [goes, kind]⟩⟩
    | Standard =>
      simp only [kind, heard, List.append_nil] at smooth ⊢
      obtain ⟨ms, r, bytes, tagged, invalid⟩ := exists_frames packet.messages
      have intact : ¬packet.iter.remaining ≠ packet.msgCount := by
        rw [Packet.iter_standard kind]
        exact fun differ => differ rfl
      rw [bytes, readPrefix_framed ms tagged r invalid] at smooth ⊢
      simp only [Receiving.turnAsOf, works, parsed, kind, Bool.false_eq_true, if_false,
        Receiving.consumeAsOf, if_neg intact, bytes]
      obtain ⟨result, left, clock', handler', part, streamed, handled, ends⟩ :=
        stopping.tick.parse ms tagged r invalid
          (fun before m front => smooth.logs _ m (by
            rw [List.append_assoc]
            exact (List.prefix_append_right_inj _).mpr front))
          (fun m member => smooth.slots m (by simp [member])) fun before front =>
            smooth.few _ ((List.prefix_append_right_inj _).mpr front)
      simp only [streamed, Option.bind_eq_bind, Option.bind_some, Option.pure_def,
        Option.map_some]
      refine ⟨.Continue, clock', _, part, rfl, handled, ?_⟩
      rcases ends with ⟨further, same⟩ | halted
      · exact .inl ⟨further, same, by simp [goes, kind]⟩
      · exact .inr halted

/-- The loop handles a part of what it hears, and all of it if it ends before the flag goes up. -/
theorem Stopping.loop (trySend : RetransmissionPacket → Bool) (datagrams : List (List UInt8))
    (headed : ∀ d ∈ datagrams, (Packet.parse d).isSome) {state : Receiving R}
    (stopping : Stopping watch raised clock state.handler)
    (smooth : Smooth R env watch (clock.handled.map Prod.snd ++ heard datagrams)) :
    ∃ clock' state' done,
      Receiving.loopAsOf env raised trySend datagrams clock state = some (clock', state') ∧
      Halted watch raised clock' state'.handler ∧
      clock'.handled.map Prod.snd = clock.handled.map Prod.snd ++ done ∧
      done <+: heard datagrams ∧ (clock'.now ≤ raised → done = heard datagrams) := by
  induction datagrams generalizing clock state with
  | nil =>
    exact ⟨clock, state, [], rfl, stopping.halted, by simp, List.nil_prefix, fun _ => rfl⟩
  | cons datagram datagrams ih =>
    rw [heard_cons, ← List.append_assoc] at smooth
    obtain ⟨cf, clock', state', part, turned, handled, outcome⟩ := stopping.turn trySend
      (headed datagram (by simp)) (smooth.front (List.prefix_append _ _))
    rw [Receiving.loopAsOf, turned, heard_cons]
    rcases outcome with ⟨further, rfl, goes⟩ | ⟨halted, late, front⟩
    · cases cf with
      | Continue =>
        rw [goes.mp rfl, if_pos rfl] at smooth
        rw [goes.mp rfl, if_pos rfl]
        obtain ⟨clock'', state'', done, looped, halted, all, front, calm⟩ :=
          ih (fun d member => headed d (by simp [member])) further (by rwa [handled])
        refine ⟨clock'', state'', heard [datagram] ++ done, looped, halted, ?_,
          (List.prefix_append_right_inj _).mpr front, fun before => by rw [calm before]⟩
        rw [all, handled, List.append_assoc]
      | Break =>
        have last : continues datagram = false := by
          rw [← Bool.not_eq_true, ← goes]
          exact ControlFlow.noConfusion
        rw [last, if_neg Bool.false_ne_true, List.append_nil]
        exact ⟨clock', state', _, rfl, further.halted, handled, List.prefix_refl _, fun _ => rfl⟩
    · -- the loop finds the flag up at its next turn, if there is one
      have here := front.trans (List.prefix_append (heard [datagram])
        (if continues datagram then heard datagrams else []))
      cases cf with
      | Break =>
        exact ⟨clock', state', part, rfl, halted, handled, here,
          fun before => absurd before (Nat.not_le.mpr late)⟩
      | Continue =>
        cases datagrams with
        | nil =>
          exact ⟨clock', state', part, rfl, halted, handled, here,
            fun before => absurd before (Nat.not_le.mpr late)⟩
        | cons next datagrams =>
          exact ⟨clock'.tick, state', part, Receiving.loopAsOf_up env trySend next datagrams _
            (Nat.le_of_lt late), ⟨halted.shows, halted.late⟩, handled, here,
            fun before => absurd before (Nat.not_le.mpr (Nat.lt_succ_of_lt late))⟩

/-- The same from the start, with the messages that were handled named by the clock. -/
theorem Receiving.stopped_run (env : Env) (raised : Nat) (trySend : RetransmissionPacket → Bool)
    (watch : Option (List Nat)) (datagrams : List (List UInt8))
    (headed : ∀ d ∈ datagrams, (Packet.parse d).isSome)
    (smooth : Smooth R env watch (heard datagrams)) :
    ∃ clock state, Receiving.runAsOf env raised trySend datagrams
        (MessageHandler.new watch : MessageHandler R) = some (clock, state) ∧
      clock.handled.map Prod.snd <+: heard datagrams ∧
      (clock.now ≤ raised → clock.handled.map Prod.snd = heard datagrams) ∧
      Halted watch raised clock state.handler := by
  have start : Stopping watch raised .start (⟨.new watch, .default, []⟩ : Receiving R).handler :=
    stopping_start watch raised
  obtain ⟨clock, state, done, looped, halted, handled, front, calm⟩ :=
    start.loop trySend datagrams headed smooth
  change clock.handled.map Prod.snd = done at handled
  exact ⟨clock, state, looped, handled ▸ front, fun before => handled.trans (calm before), halted⟩

/-- Whenever the flag goes up in a smooth stream, the client stops between two messages: the books
and counters are those after the messages it handled, which are the first of what it hears, and all
of it when the flag stays down for the whole run. After the flag has gone up it handles at most 255
more messages of the kinds that change anything. -/
theorem shutdown_clean (env : Env) (raised : Nat) (trySend : RetransmissionPacket → Bool)
    (watch : Option (List Nat)) (datagrams : List (List UInt8))
    (headed : ∀ d ∈ datagrams, (Packet.parse d).isSome)
    (smooth : Smooth R env watch (heard datagrams)) :
    ∃ clock state, Receiving.runAsOf env raised trySend datagrams
        (MessageHandler.new watch : MessageHandler R) = some (clock, state) ∧
      clock.handled.map Prod.snd <+: heard datagrams ∧
      (clock.now ≤ raised → clock.handled.map Prod.snd = heard datagrams ∧
        Receiving.run env.down trySend datagrams (MessageHandler.new watch) = some state) ∧
      Shows watch state.handler (Market.after watch (clock.handled.map Prod.snd)) ∧
      clock.late raised ≤ 255 := by
  obtain ⟨clock, state, looped, front, calm, halted⟩ :=
    Receiving.stopped_run env raised trySend watch datagrams headed smooth
  exact ⟨clock, state, looped, front,
    fun before => ⟨calm before, (Receiving.loopAsOf_down _ looped).2 before⟩,
    halted.shows, halted.late⟩

end Stopping

/-- The flag goes up before the second of two packets. -/
theorem shutdown_clean_sample :
    ∃ clock state, Receiving.runAsOf (loudEnv .debug) 3 (fun _ => true)
        [Receiving.datagramOf 7 [directoryOf1, buy100 1], Receiving.datagramOf 9 [cancel10]]
        (MessageHandler.new none : MessageHandler HashMapRegistry) = some (clock, state) ∧
      clock.handled = [(1, directoryOf1), (2, buy100 1)] ∧
      Shows none state.handler (Market.after none [directoryOf1, buy100 1]) := by
  obtain ⟨clock, state, ran, _, _, shows, _⟩ := shutdown_clean (R := HashMapRegistry)
    (loudEnv .debug) 3 (fun _ => true) none
    [Receiving.datagramOf 7 [directoryOf1, buy100 1], Receiving.datagramOf 9 [cancel10]]
    (by decide +kernel)
    (.of_short (by decide +kernel) (fun _ _ _ _ => trivial) (by decide +kernel))
  have handled : (Receiving.runAsOf (loudEnv .debug) 3 (fun _ => true)
      [Receiving.datagramOf 7 [directoryOf1, buy100 1], Receiving.datagramOf 9 [cancel10]]
      (MessageHandler.new none : MessageHandler HashMapRegistry)).map (fun run => run.1.handled) =
        some [(1, directoryOf1), (2, buy100 1)] := by decide +kernel
  rw [ran] at handled
  have here := Option.some.inj handled
  simp only at here
  rw [here] at shows
  exact ⟨clock, state, ran, here, shows⟩

end Hftrs.App
