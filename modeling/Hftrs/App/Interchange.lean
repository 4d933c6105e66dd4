import Hftrs.App.Market
import Hftrs.Library.Lockstep

/-! The client runs the same on either registry. -/
namespace Hftrs.App

open Hftrs.Itch5 Hftrs.Library Hftrs.Orderbook Hftrs.Moldudp

/-- Two handlers that differ in the kind of their registry only. -/
structure Alike (cap : Nat) (watch : Option (List Nat)) (vec : MessageHandler VecRegistry)
    (map : MessageHandler HashMapRegistry) : Prop where
  registries : Registered cap vec.registry map.registry
  watching : vec.symbolsToWatch = watch ∧ map.symbolsToWatch = watch
  stats : vec.stats = map.stats
  tick : vec.tick = map.tick

variable {cap : Nat} {watch : Option (List Nat)} {env : Env} {vec : MessageHandler VecRegistry}
  {map : MessageHandler HashMapRegistry}

theorem alike_new (watch : Option (List Nat)) :
    Alike maxCapacity watch (MessageHandler.new watch) (MessageHandler.new watch) :=
  ⟨Registered.withCapacity maxCapacity, ⟨rfl, rfl⟩, rfl, rfl⟩

/-- A reference is found in both registries or in none, to the same book, and the same write through
it keeps them alike. -/
theorem Registered.getMut {registry : VecRegistry} {registry' : HashMapRegistry}
    (same : Registered cap registry registry') (locate : Nat) :
    Option.Rel (fun a b => a.1 = b.1 ∧ ∀ book, Registered cap (a.2 book) (b.2 book))
      (registry.getMut locate) (registry'.getMut locate) := by
  cases found : registry'.getMut locate with
  | none =>
    have missing := (registry'.getMut_eq_none locate).mp found
    rw [← same.books] at missing
    rw [VecRegistry.getMut, missing]
    exact .none
  | some reference =>
    obtain ⟨book, put⟩ := reference
    obtain ⟨here, _⟩ := registry'.getMut_eq_some found
    rw [← same.books] at here
    rw [VecRegistry.getMut, here]
    refine .some ⟨rfl, fun book' => ?_⟩
    -- a write is a mutation that forgets the old book
    obtain ⟨vec', map', first, second, onwards⟩ := same.mutate locate fun _ => book'
    simp only [RegistryCall.apply, Registry.getMut, VecRegistry.getMut, here, Option.map_some,
      Option.some.injEq] at first
    simp only [RegistryCall.apply, Registry.getMut, found, Option.some.injEq] at second
    subst first second
    exact onwards

theorem Alike.applyOrder (alike : Alike cap watch vec map) (locate : Nat)
    (call : Option OrderBook.Call) (logged : Option Nat) (counter : OrderCounter) :
    Option.Rel (Alike cap watch) (vec.applyOrder env locate call logged counter)
      (map.applyOrder env locate call logged counter) := by
  have references := Registered.getMut alike.registries locate
  unfold MessageHandler.applyOrder
  simp only [Registry.getMut]
  generalize vec.registry.getMut locate = here at references ⊢
  generalize map.registry.getMut locate = there at references ⊢
  cases references with
  | none => exact .some ⟨alike.registries, alike.watching, by rw [alike.stats], alike.tick⟩
  | some related =>
    obtain ⟨same, writes⟩ := related
    cases call with
    | none => exact .some alike
    | some call =>
      simp only [same]
      refine rel_bind (rel_eq _) fun _ _ _ => rel_bind (rel_eq _) ?_
      rintro ⟨reply, book⟩ _ rfl
      exact .some ⟨writes book, alike.watching, by rw [alike.stats], alike.tick⟩

theorem Alike.applyAddOrder (alike : Alike cap watch vec map) {kind : MsgKind} (msg : Msg kind) :
    Option.Rel (Alike cap watch) (vec.applyAddOrder env msg) (map.applyAddOrder env msg) :=
  alike.applyOrder ..

/-- A result of a method: the same control flow, and handlers that are alike. -/
def Results (cap : Nat) (watch : Option (List Nat)) (a : ControlFlow × MessageHandler VecRegistry)
    (b : ControlFlow × MessageHandler HashMapRegistry) : Prop :=
  a.1 = b.1 ∧ Alike cap watch a.2 b.2

theorem Alike.polled (alike : Alike cap watch vec map)
    {body : MessageHandler VecRegistry → Option (MessageHandler VecRegistry)}
    {body' : MessageHandler HashMapRegistry → Option (MessageHandler HashMapRegistry)}
    (does : ∀ vec' map', Alike cap watch vec' map' →
      Option.Rel (Alike cap watch) (body vec') (body' map')) :
    Option.Rel (Results cap watch) (vec.polled env body) (map.polled env body') := by
  have ticked : Alike cap watch { vec with tick := (vec.tick + 1) % 2 ^ 32 }
      { map with tick := (map.tick + 1) % 2 ^ 32 } :=
    ⟨alike.registries, alike.watching, alike.stats, by rw [alike.tick]⟩
  have flags : Stops env vec ↔ Stops env map := by
    simp only [Stops, MessageHandler.shouldStop, alike.tick]
  rw [polled_eq, polled_eq]
  by_cases stops : Stops env map
  · rw [if_pos stops, if_pos (flags.mpr stops)]
    exact .some ⟨rfl, ticked⟩
  · rw [if_neg stops, if_neg (mt flags.mp stops)]
    exact rel_map (does _ _ ticked) fun _ _ onwards => ⟨rfl, onwards⟩

theorem Alike.onStockDirectory (alike : Alike cap watch vec map) (msg : Msg .stockDirectory)
    (fits : registers watch msg.stockLocate ⟨.stockDirectory, msg⟩ →
      msg.stockLocate < cap) :
    Option.Rel (Results cap watch) (MessageHandler.onStockDirectory env msg vec)
      (MessageHandler.onStockDirectory env msg map) := by
  refine alike.polled fun vec' map' here => ?_
  -- what is logged is the length, which both have
  have logged (n : Nat) : (if env.infoEnabled = true then (some n).map fun _ => () else some ()) =
      some () := ite_self _
  have sized : Registry.len env.profile vec'.registry = some vec'.registry.books.length :=
    VecRegistry.len_isSome env.profile vec'.registry
  have sized' : Registry.len env.profile map'.registry = some map'.registry.books.size :=
    map'.registry.len_isSome env.profile
  simp only [here.watching.1, here.watching.2, sized, sized', logged, Option.bind_eq_bind,
    Option.bind_some]
  split
  next watched =>
    have below : msg.stockLocate < cap := by
      apply fits
      rw [registers, decide_eq_true rfl, Bool.true_and]
      exact watched
    obtain ⟨registry, registered, onwards⟩ := here.registries.register below msg.stock
    simp only [Registry.register, registered, Option.bind_some]
    exact .some ⟨onwards, ⟨rfl, rfl⟩, by rw [here.stats], here.tick⟩
  next => exact .some ⟨here.registries, ⟨rfl, rfl⟩, by rw [here.stats], here.tick⟩

/-- Every method does the same on either registry. -/
theorem Alike.on (env : Env) (alike : Alike cap watch vec map) (m : Message)
    (fits : ∀ l, registers watch l m → l < cap) :
    Option.Rel (Results cap watch) (MessageHandler.on env m.1 m.2 vec)
      (MessageHandler.on env m.1 m.2 map) := by
  obtain ⟨kind, msg⟩ := m
  cases kind with
  | stockDirectory => exact alike.onStockDirectory msg (fits _)
  | addOrderNoMPIDAttribution | addOrderWithMPIDAttribution =>
    exact alike.polled fun _ _ here => here.applyAddOrder msg
  | orderExecuted | orderExecutedWithPrice | orderCancel | orderDelete | orderReplace =>
    exact alike.polled fun _ _ here => here.applyOrder ..
  | _ => exact .some ⟨rfl, alike⟩

/-! ### Streams -/

/-- The parser returns on both handlers or on neither, with the same result. -/
theorem Alike.parseStream (alike : Alike cap watch vec map) (buf : List UInt8)
    (fits : ∀ m ∈ readPrefix (splitBlocks buf), ∀ l, registers watch l m → l < cap) :
    Option.Rel (fun a b => a.1 = b.1 ∧ Alike cap watch a.2.2 b.2.2)
      (Itch5.parseStream (MessageHandler.on env) buf vec)
      (Itch5.parseStream (MessageHandler.on env) buf map) := by
  obtain ⟨ms, r, rfl, tagged, invalid⟩ := exists_frames buf
  rw [readPrefix_framed ms tagged r invalid] at fits
  induction ms generalizing vec map with
  | nil =>
    obtain ⟨left, stopped⟩ := parseStream_stop (MessageHandler.on env) r vec invalid
    obtain ⟨left', stopped'⟩ := parseStream_stop (MessageHandler.on env) r map invalid
    rw [framed_nil, List.nil_append, stopped, stopped']
    exact .some ⟨rfl, alike⟩
  | cons m ms ih =>
    have first := alike.on env m (fits m (by simp))
    rw [framed_cons, List.append_assoc, parseStream_frame _ m (tagged m (by simp)),
      parseStream_frame _ m (tagged m (by simp))]
    generalize MessageHandler.on env m.1 m.2 vec = here at first ⊢
    generalize MessageHandler.on env m.1 m.2 map = there at first ⊢
    cases first with
    | none => exact .none
    | @some a b related =>
      obtain ⟨cf, vec'⟩ := a
      obtain ⟨cf', map'⟩ := b
      obtain ⟨same, alike'⟩ := related
      cases same
      cases cf with
      | Break => exact .some ⟨rfl, alike'⟩
      | Continue =>
        exact ih alike' (fun n member => fits n (by simp [member]))
          (fun n member => tagged n (by simp [member]))

/-- The loop on either registry. -/
structure SameRun (cap : Nat) (watch : Option (List Nat)) (a : Receiving VecRegistry)
    (b : Receiving HashMapRegistry) : Prop where
  handlers : Alike cap watch a.handler b.handler
  net : a.net = b.net
  requests : a.requests = b.requests

variable {trySend : RetransmissionPacket → Bool} {a : Receiving VecRegistry}
  {b : Receiving HashMapRegistry}

theorem SameRun.request (trySend : RetransmissionPacket → Bool) (same : SameRun cap watch a b)
    (packet : Packet) :
    SameRun cap watch (Receiving.requestRetransmission trySend packet a)
      (Receiving.requestRetransmission trySend packet b) := by
  dsimp only [Receiving.requestRetransmission]
  split
  · exact ⟨same.handlers, by rw [same.net], by rw [same.requests]⟩
  · exact same

theorem SameRun.consume (same : SameRun cap watch a b) (packet : Packet)
    (fits : ∀ m ∈ readPrefix (splitBlocks packet.messages), ∀ l, registers watch l m → l < cap) :
    Option.Rel (SameRun cap watch) (Receiving.consume env trySend packet a)
      (Receiving.consume env trySend packet b) := by
  -- the counters move alike before the bytes are parsed
  have counted (net : NetCounters) :
      SameRun cap watch { a with net } { b with net } := ⟨same.handlers, rfl, same.requests⟩
  dsimp only [Receiving.consume]
  rw [same.net]
  split
  · have asked := (counted { b.net with
      packetsReceived := b.net.packetsReceived + 1
      truncatedPackets := b.net.truncatedPackets + 1 }).request trySend packet
    refine rel_bind (asked.handlers.parseStream packet.messages fits) ?_
    rintro ⟨result, left, vec⟩ ⟨_, left', map⟩ ⟨rfl, alike⟩
    exact .some ⟨alike, by rw [asked.net], asked.requests⟩
  · refine rel_bind (same.handlers.parseStream packet.messages fits) ?_
    rintro ⟨result, left, vec⟩ ⟨_, left', map⟩ ⟨rfl, alike⟩
    exact .some ⟨alike, rfl, same.requests⟩

theorem SameRun.turn (env : Env) (trySend : RetransmissionPacket → Bool)
    (same : SameRun cap watch a b) (datagram : List UInt8)
    (fits : ∀ packet, Packet.parse datagram = some packet → packet.packetKind = .Standard →
      ∀ m ∈ readPrefix (splitBlocks packet.messages), ∀ l, registers watch l m → l < cap) :
    Option.Rel (fun x y => x.1 = y.1 ∧ SameRun cap watch x.2 y.2)
      (Receiving.turn env trySend datagram a) (Receiving.turn env trySend datagram b) := by
  unfold Receiving.turn
  split
  · exact .some ⟨rfl, same⟩
  · cases parsed : Packet.parse datagram with
    | none => exact .none
    | some packet =>
      simp only
      cases kind : packet.packetKind with
      | Heartbeat => exact .some ⟨rfl, same.handlers, by rw [same.net], same.requests⟩
      | EndOfSession => exact .some ⟨rfl, same⟩
      | Standard =>
        exact rel_map (same.consume packet (fits packet parsed kind)) fun _ _ here => ⟨rfl, here⟩

/-- A turn that continues has read a packet that does not end the session. -/
theorem turn_continues {R : Type} [Registry R] {datagram : List UInt8} {state state' : Receiving R}
    (turned : Receiving.turn env trySend datagram state = some (.Continue, state')) :
    ∃ packet, Packet.parse datagram = some packet ∧ packet.packetKind ≠ .EndOfSession := by
  unfold Receiving.turn at turned
  split at turned
  next => cases turned
  next =>
    split at turned
    next => cases turned
    next packet parsed =>
      refine ⟨packet, parsed, fun kind => ?_⟩
      rw [kind] at turned
      cases turned

theorem heard_tail {datagram : List UInt8} {packet : Packet}
    (parsed : Packet.parse datagram = some packet) (goes : packet.packetKind ≠ .EndOfSession)
    {datagrams : List (List UInt8)} {m : Message} (member : m ∈ heard datagrams) :
    m ∈ heard (datagram :: datagrams) := by
  simp only [heard, parsed]
  cases kind : packet.packetKind with
  | Heartbeat => exact member
  | EndOfSession => exact absurd kind goes
  | Standard => exact List.mem_append_right _ member

theorem SameRun.loop (same : SameRun cap watch a b) (datagrams : List (List UInt8))
    (fits : ∀ m ∈ heard datagrams, ∀ l, registers watch l m → l < cap) :
    Option.Rel (SameRun cap watch) (Receiving.loop env trySend datagrams a)
      (Receiving.loop env trySend datagrams b) := by
  induction datagrams generalizing a b with
  | nil => exact .some same
  | cons datagram datagrams ih =>
    have turned := same.turn env trySend datagram
      fun packet parsed kind m member => fits m (by
        simp only [heard, parsed, kind]
        exact List.mem_append_left _ member)
    simp only [Receiving.loop]
    generalize here : Receiving.turn env trySend datagram a = x at turned ⊢
    generalize Receiving.turn env trySend datagram b = y at turned ⊢
    cases turned with
    | none => exact .none
    | @some x y related =>
      obtain ⟨cf, a'⟩ := x
      obtain ⟨cf', b'⟩ := y
      obtain ⟨equal, onwards⟩ := related
      cases equal
      cases cf with
      | Break => exact .some onwards
      | Continue =>
        obtain ⟨packet, parsed, goes⟩ := turn_continues here
        exact ih onwards fun m member => fits m (heard_tail parsed goes member)

/-- Reports of registries with the same books differ in the order of the books at most. -/
theorem Alike.capture (alike : Alike cap watch vec map) (small : cap ≤ maxCapacity)
    (profile : Profile) (order : IterRegistry.Order HashMapRegistry) (levels : Nat) :
    Option.Rel (fun s t => s.stats = t.stats ∧ s.depthLevels = t.depthLevels ∧
        s.books.Perm t.books)
      (Snapshot.capture profile () vec levels) (Snapshot.capture profile order map levels) := by
  obtain ⟨items, walked, perm⟩ := alike.registries.walk_perm
    (order.1 map.registry.symbols.toList) (order.2 _)
  have collected : vec.registry.items profile =
      some (VecRegistry.slots vec.registry.books vec.registry.symbols 0) := by
    apply VecRegistry.collect_spec profile _ vec.registry.iter vec.registry.sameLength
    · have bound : vec.registry.books.length ≤ 65535 := alike.registries.slots ▸ small
      simp only [VecRegistry.iter]
      omega
    · exact Nat.lt_succ_self _
  have here : IterRegistry.iter profile () vec.registry = _ := collected
  have there : IterRegistry.iter profile order map.registry = _ := walked
  simp only [Snapshot.capture, here, there, Option.bind_eq_bind, Option.bind_some]
  exact rel_bind (mapM_perm (BookSummary.capture profile levels) perm.symm)
    fun books books' same => .some ⟨alike.stats, rfl, same⟩

/-- The client runs the same on the dense registry as on the maps, as long as no directory entry of
a watched symbol has the locate that the dense one lacks: one panics when the other does, and
otherwise the counters, the requests, the books and, but for the order of its books, the report are
the same. -/
theorem registries_interchangeable (env : Env) (trySend : RetransmissionPacket → Bool)
    (watch : Option (List Nat)) (datagrams : List (List UInt8))
    (fits : ∀ m ∈ heard datagrams, ∀ l, registers watch l m → l < 65535)
    (order : IterRegistry.Order HashMapRegistry) (levels : Nat) :
    Option.Rel (fun (a : Receiving VecRegistry) (b : Receiving HashMapRegistry) =>
        a.net = b.net ∧ a.requests = b.requests ∧ a.handler.stats = b.handler.stats ∧
        (∀ l, a.handler.registry.get l = b.handler.registry.get l ∧
          a.handler.registry.getSymbol l = b.handler.registry.getSymbol l) ∧
        Option.Rel (fun s t => s.stats = t.stats ∧ s.depthLevels = t.depthLevels ∧
            s.books.Perm t.books)
          (Snapshot.capture env.profile () a.handler levels)
          (Snapshot.capture env.profile order b.handler levels))
      (Receiving.run env trySend datagrams (MessageHandler.new watch))
      (Receiving.run env trySend datagrams (MessageHandler.new watch)) := by
  have same : SameRun 65535 watch ⟨.new watch, .default, []⟩ ⟨.new watch, .default, []⟩ :=
    ⟨alike_new watch, rfl, rfl⟩
  refine rel_imp (same.loop datagrams fits) fun a b same => ⟨same.net, same.requests,
    same.handlers.stats, fun l => ⟨same.handlers.registries.books l,
      same.handlers.registries.symbols l⟩, ?_⟩
  exact same.handlers.capture (Nat.le_refl _) env.profile order levels

/-- What the maps make of a directory entry and an order, the dense registry makes of them. -/
theorem registries_interchangeable_sample :
    ∃ a : Receiving VecRegistry, Receiving.run quietEnv (fun _ => true)
        [Receiving.datagramOf 7 [directoryOf1, buy100 1]] (MessageHandler.new none) = some a ∧
      a.handler.stats.ordersAdded = 1 := by
  have fits : ∀ m ∈ heard [Receiving.datagramOf 7 [directoryOf1, buy100 1]],
      ∀ l, registers none l m → l < 65535 := by
    have below : ∀ m ∈ heard [Receiving.datagramOf 7 [directoryOf1, buy100 1]],
        locate m < 65535 := by decide +kernel
    intro m member l registering
    exact locate_of_registers registering ▸ below m member
  have same := registries_interchangeable quietEnv (fun _ => true) none
    [Receiving.datagramOf 7 [directoryOf1, buy100 1]] fits asStored 5
  have added : (Receiving.run quietEnv (fun _ => true)
      [Receiving.datagramOf 7 [directoryOf1, buy100 1]]
      (MessageHandler.new none : MessageHandler HashMapRegistry)).map
        (fun b => b.handler.stats.ordersAdded) = some 1 := by decide +kernel
  generalize Receiving.run quietEnv (fun _ => true)
    [Receiving.datagramOf 7 [directoryOf1, buy100 1]]
    (MessageHandler.new none : MessageHandler VecRegistry) = here at same ⊢
  generalize Receiving.run quietEnv (fun _ => true)
    [Receiving.datagramOf 7 [directoryOf1, buy100 1]]
    (MessageHandler.new none : MessageHandler HashMapRegistry) = there at same added
  cases same with
  | none => cases added
  | some related =>
    obtain ⟨_, _, stats, _⟩ := related
    refine ⟨_, rfl, ?_⟩
    rw [stats]
    exact Option.some.inj added

end Hftrs.App
