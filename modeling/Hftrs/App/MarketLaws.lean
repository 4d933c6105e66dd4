import Mathlib.Algebra.BigOperators.Group.Finset.Basic
import Hftrs.App.Market

/-! What holds of the market in every run, and so of the books of the client. -/
namespace Hftrs.App

open Hftrs.Itch5 Hftrs.Library Hftrs.Orderbook Hftrs.Moldudp

namespace Market

/-! ### No order is lost or counted twice -/

/-- How many orders rest at a locate. -/
def restingAt (market : Market) (l : Nat) : Nat :=
  ((market.listings l).map fun listing => listing.orders.size).getD 0

/-- How many orders rest in all; a locate has 16 bits. -/
def resting (market : Market) : Nat := ∑ l ∈ Finset.range (2 ^ 16), market.restingAt l

/-- The orders that leave without being counted: those of a listing that is started over, and the
order that gives way to a replacement which fails. -/
def drops (watch : Option (List Nat)) (market : Market) (m : Message) : Nat :=
  if registers watch (locate m) m then market.restingAt (locate m)
  else match market.listings (locate m), operation m with
    | some listing, some c => listing.orders.dropped c
    | _, _ => 0

/-- What all messages drop. -/
def dropped (watch : Option (List Nat)) (ms : List Message) : Nat :=
  ((arrivals [] ms).map fun arrival => (after watch arrival.1).drops watch arrival.2).sum

/-- The orders that an execution or a cancellation uses up. -/
def usesUp (market : Market) (m : Message) : Nat :=
  match market.listings (locate m), operation m with
  | some listing, some c => listing.orders.usedUp c
  | _, _ => 0

/-- What all messages use up. -/
def usedUp (watch : Option (List Nat)) (ms : List Message) : Nat :=
  ((arrivals [] ms).map fun arrival => (after watch arrival.1).usesUp arrival.2).sum

theorem usedUp_concat (watch : Option (List Nat)) (ms : List Message) (m : Message) :
    usedUp watch (ms ++ [m]) = usedUp watch ms + (after watch ms).usesUp m := by
  rw [usedUp, arrivals_append, List.map_append, List.sum_append, List.nil_append]
  rfl

theorem dropped_concat (watch : Option (List Nat)) (ms : List Message) (m : Message) :
    dropped watch (ms ++ [m]) = dropped watch ms + (after watch ms).drops watch m := by
  rw [dropped, arrivals_append, List.map_append, List.sum_append, List.nil_append]
  rfl

/-- A listing that changes exchanges its old number of orders for the new one in the sum. -/
theorem resting_update {market market' : Market} {l : Nat} (small : l < 2 ^ 16)
    {listing : Listing}
    (changed : market'.listings = Function.update market.listings l (some listing)) :
    market'.resting + market.restingAt l = market.resting + listing.orders.size := by
  have member : l ∈ Finset.range (2 ^ 16) := Finset.mem_range.mpr small
  have here : market'.restingAt l = listing.orders.size := by
    rw [restingAt, changed, Function.update_self]
    rfl
  have others : ∀ k ∈ (Finset.range (2 ^ 16)).erase l,
      market'.restingAt k = market.restingAt k := by
    intro k apart
    rw [restingAt, changed, Function.update_of_ne (Finset.ne_of_mem_erase apart), restingAt]
  have rest : ∑ k ∈ (Finset.range (2 ^ 16)).erase l, market'.restingAt k =
      ∑ k ∈ (Finset.range (2 ^ 16)).erase l, market.restingAt k := Finset.sum_congr rfl others
  have before := Finset.add_sum_erase _ market.restingAt member
  have after := Finset.add_sum_erase _ market'.restingAt member
  rw [rest, here] at after
  rw [resting, resting, ← before, ← after]
  omega

/-- The counters account for every order: one that was added rests, or was deleted, dropped or used
up. Each that was used up was counted as executed or cancelled. -/
structure Balanced (market : Market) (dropped usedUp : Nat) : Prop where
  added : market.stats.orders .added =
    market.resting + market.stats.orders .deleted + dropped + usedUp
  counted : usedUp ≤ market.stats.orders .executed + market.stats.orders .cancelled

/-- A message that makes no call drops only the listing that it starts over, and uses nothing up. -/
theorem idle_of_silent {watch : Option (List Nat)} {market : Market} {m : Message}
    (silent : registers watch (locate m) m = false)
    (idle : market.listings (locate m) = none ∨ operation m = none) :
    market.drops watch m = 0 ∧ market.usesUp m = 0 := by
  rw [drops, usesUp, silent, if_neg Bool.false_ne_true]
  rcases idle with missing | noCall
  · rw [missing]
    exact ⟨rfl, rfl⟩
  · rw [noCall]
    cases market.listings (locate m) <;> exact ⟨rfl, rfl⟩

theorem operation_of_registers {watch : Option (List Nat)} {l : Nat} {m : Message}
    (registering : registers watch l m = true) : operation m = none := by
  obtain ⟨kind, msg⟩ := m
  cases kind <;> first | rfl | cases registering

theorem Balanced.hear {market : Market} {dropped usedUp : Nat}
    (balanced : market.Balanced dropped usedUp) (formed : market.WellFormed)
    (watch : Option (List Nat)) (m : Message) :
    (market.hear watch m).Balanced (dropped + market.drops watch m)
      (usedUp + market.usesUp m) := by
  obtain ⟨added, counted⟩ := balanced
  have small : locate m < 2 ^ 16 := m.2.stockLocate_lt
  rcases hear_cases watch market m with ⟨same, counters, silent, idle⟩ |
    ⟨symbol, listed, counters, registering⟩ | ⟨listing, c, here, carried, silent, called, counters⟩
  · -- no order comes or goes, and no counter of orders moves
    have kept : (market.hear watch m).resting = market.resting := by
      simp only [resting, restingAt, same]
    obtain ⟨noDrop, noUse⟩ := idle_of_silent silent idle
    rw [noDrop, noUse]
    constructor <;> rw [counters]
    · rw [kept]
      exact added
    · exact counted
  · -- the listing that is started over drops all that rested there
    have changed := resting_update small listed
    have all : market.drops watch m = market.restingAt (locate m) := by
      rw [drops, registering, if_pos rfl]
    have noUse : market.usesUp m = 0 := by
      rw [usesUp, operation_of_registers registering]
      cases market.listings (locate m) <;> rfl
    have none : RefBook.empty.size = 0 := rfl
    rw [none] at changed
    rw [all, noUse]
    constructor <;> rw [counters] <;> omega
  · have changed := resting_update small called
    have was : market.restingAt (locate m) = listing.orders.size := by rw [restingAt, here]; rfl
    have lost : market.drops watch m = listing.orders.dropped c := by
      rw [drops, silent, if_neg Bool.false_ne_true, here, carried]
    have used : market.usesUp m = listing.orders.usedUp c := by rw [usesUp, here, carried]
    -- the balance of the one listing, which the others do not enter
    obtain ⟨sized, spent⟩ := size_call (formed _ listing here).1 c
    rw [was] at changed
    simp only at changed
    rw [lost, used]
    constructor
    · rw [counters, counters]
      omega
    · rw [counters, counters]
      omega

theorem balanced_after (watch : Option (List Nat)) (ms : List Message) :
    (after watch ms).Balanced (dropped watch ms) (usedUp watch ms) := by
  induction ms using List.reverseRecOn with
  | nil =>
    have none : (after watch []).resting = 0 := Finset.sum_eq_zero fun _ _ => rfl
    constructor
    · rw [none]
      rfl
    · exact Nat.zero_le _
  | append_singleton ms m ih =>
    rw [after_concat, dropped_concat, usedUp_concat]
    exact ih.hear (wellFormed_after watch ms) watch m

end Market

section Conserved

variable {R : Type} [IterRegistry R]

/-- The live orders of all books. -/
def MessageHandler.live (handler : MessageHandler R) : Nat :=
  ∑ l ∈ Finset.range (2 ^ 16), ((Registry.get handler.registry l).map OrderBook.len).getD 0

variable [LawfulRegistry R]

theorem Shows.live {watch : Option (List Nat)} {handler : MessageHandler R} {market : Market}
    (shows : Shows watch handler market) : handler.live = market.resting := by
  refine Finset.sum_congr rfl fun l _ => ?_
  have rel := shows.books l
  rw [Market.restingAt]
  cases stored : Registry.get handler.registry l <;> cases listed : market.listings l <;>
    rw [stored, listed] at rel
  · rfl
  · cases rel
  · cases rel
  · obtain ⟨q, rep⟩ : ∃ q, OrderBook.Represents _ q _ := by cases rel; assumption
    exact rep.len

/-- No order is lost or counted twice: after a smooth stream, each order that was added is live in a
book, was counted as deleted, was dropped by a repeated directory entry or a failed replacement, or
was used up by an execution or a cancellation, which was counted. -/
theorem orders_conserved (env : Env) (alive : env.shutdown = false)
    (trySend : RetransmissionPacket → Bool) (watch : Option (List Nat))
    (datagrams : List (List UInt8)) (headed : ∀ d ∈ datagrams, (Packet.parse d).isSome)
    (smooth : Smooth R env watch (heard datagrams)) :
    ∃ state, Receiving.run env trySend datagrams (MessageHandler.new watch : MessageHandler R) =
        some state ∧
      state.handler.stats.ordersAdded = state.handler.live + state.handler.stats.ordersDeleted +
        Market.dropped watch (heard datagrams) + Market.usedUp watch (heard datagrams) ∧
      Market.usedUp watch (heard datagrams) ≤
        state.handler.stats.ordersExecuted + state.handler.stats.ordersCancelled := by
  obtain ⟨state, ran, shows⟩ :=
    Receiving.run_shows (R := R) env alive trySend watch datagrams headed smooth
  obtain ⟨added, counted⟩ := Market.balanced_after watch (heard datagrams)
  refine ⟨state, ran, ?_⟩
  rw [shows.live, shows.stats]
  exact ⟨added, counted⟩

end Conserved

/-- Two orders are added, one rests after the locate has been listed again. -/
theorem orders_conserved_sample :
    ∃ state, Receiving.run (loudEnv .debug) (fun _ => true)
        [Receiving.datagramOf 7 [directoryOf1, buy100 1, cancel10],
          Receiving.datagramOf 9 [directoryOf1, buy100 1]]
        (MessageHandler.new none : MessageHandler HashMapRegistry) = some state ∧
      state.handler.stats.ordersAdded =
        state.handler.live + state.handler.stats.ordersDeleted + 1 := by
  obtain ⟨state, ran, added, _⟩ := orders_conserved (R := HashMapRegistry) (loudEnv .debug) rfl
    (fun _ => true) none [Receiving.datagramOf 7 [directoryOf1, buy100 1, cancel10],
      Receiving.datagramOf 9 [directoryOf1, buy100 1]]
    (by decide +kernel)
    (.of_short (by decide +kernel) (fun _ _ _ _ => trivial) (by decide +kernel))
  have one : Market.dropped none (heard [Receiving.datagramOf 7 [directoryOf1, buy100 1, cancel10],
      Receiving.datagramOf 9 [directoryOf1, buy100 1]]) = 1 := by decide +kernel
  have none : Market.usedUp none (heard [Receiving.datagramOf 7 [directoryOf1, buy100 1, cancel10],
      Receiving.datagramOf 9 [directoryOf1, buy100 1]]) = 0 := by decide +kernel
  rw [one, none] at added
  exact ⟨state, ran, added⟩

/-! ### Time priority -/

/-- The order that a call enters: its id, price and timestamp. -/
def placed : OrderBook.Call → Option (Nat × Int × Nat)
  | .add order => some (order.id, order.price, order.ts)
  | .replace _ newId newPrice _ ts => some (newId, newPrice, ts)
  | _ => none

/-- The orders that messages enter at a locate, as they arrive. -/
def entered (l : Nat) (ms : List Message) : List (Nat × Int × Nat) :=
  ms.filterMap fun m => if locate m = l then (operation m).bind placed else none

theorem joins_entry {orders : RefBook} {c : OrderBook.Call} {s : Side} {price : Int} {e : Entry}
    (joined : orders.joins c = some (s, price, e)) : placed c = some (e.id, price, e.ts) := by
  rcases RefBook.joins_cases joined with ⟨order, rfl, rfl, rfl⟩ | ⟨oldId, rfl⟩ <;> rfl

/-- Every queue is in the order in which its entries arrived. -/
def InTurn (arrived : List (Nat × Int × Nat)) (orders : RefBook) : Prop :=
  ∀ s price, ((orders.queue s price).map fun e => (e.id, price, e.ts)).Sublist arrived

theorem InTurn.call {arrived : List (Nat × Int × Nat)} {orders : RefBook}
    (inTurn : InTurn arrived orders) (unique : orders.Unique) (c : OrderBook.Call) :
    InTurn (arrived ++ (placed c).toList) (orders.call c).2 := by
  intro s price
  rw [unique.queue_call, List.map_append]
  refine List.Sublist.append ((RefBook.after_sublist c _ ?_ _).trans (inTurn s price)) ?_
  · intro e g after
    obtain ⟨id, ts⟩ := RefBook.id_of_after after
    rw [id, ts]
  · unfold RefBook.joining
    split
    next t r e joined =>
      rw [joins_entry joined]
      split
      next here => rw [here.2]; exact List.Sublist.refl _
      next => exact List.nil_sublist _
    next => exact List.nil_sublist _

theorem entered_concat (l : Nat) (ms : List Message) (m : Message) :
    entered l (ms ++ [m]) = entered l ms ++
      if locate m = l then ((operation m).bind placed).toList else [] := by
  rw [entered, List.filterMap_append, ← entered, List.filterMap_cons, List.filterMap_nil]
  by_cases here : locate m = l
  · simp only [here, if_true]
    cases (operation m).bind placed <;> rfl
  · simp only [here, if_false]

theorem Market.inTurn_after (watch : Option (List Nat)) (ms : List Message) :
    ∀ l, ∀ listing ∈ (after watch ms).listings l, InTurn (entered l ms) listing.orders := by
  induction ms using List.reverseRecOn with
  | nil => intro l listing member; cases member
  | append_singleton ms m ih =>
    have formed := wellFormed_after watch ms
    rw [after_concat]
    refine hear_listings (P := fun l orders => orders.Single ∧ InTurn (entered l ms) orders)
      (Q := fun l orders => InTurn (entered l (ms ++ [m])) orders) watch _ m
      (fun l listing member => ⟨(formed l listing member).1, ih l listing member⟩) ?_ ?_ ?_
    · intro l s price
      cases s <;> exact List.nil_sublist _
    · rintro l orders ⟨_, inTurn⟩ s price
      rw [entered_concat]
      exact (inTurn s price).trans (List.sublist_append_left _ _)
    · rintro orders c carried ⟨single, inTurn⟩
      have turn := inTurn.call single.unique c
      rwa [entered_concat, if_pos rfl, carried]

end Hftrs.App
