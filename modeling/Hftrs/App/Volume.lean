import Mathlib.Algebra.Order.BigOperators.Group.List
import Hftrs.App.Market

/-! How much rests in a market: the quantities of a side add up within 64 bits. -/
namespace Hftrs.App

open Hftrs.Itch5 Hftrs.Library Hftrs.Orderbook

/-- The quantity of the order that a call enters. -/
def qty? : OrderBook.Call → Option Nat
  | .add order => some order.qty
  | .replace _ _ _ newQty _ => some newQty
  | _ => none

/-- No entry has more than `bound`. -/
def AtMost (bound : Nat) (orders : RefBook) : Prop :=
  ∀ s price, ∀ e ∈ orders.queue s price, e.qty ≤ bound

variable {bound : Nat} {orders : RefBook}

/-- What is left of an entry. -/
theorem qty_after {c : OrderBook.Call} {e f : Entry} (kept : e.after c = some f) :
    f.qty ≤ e.qty := by
  have less {qty : Nat} (kept : e.less qty = some f) : f.qty ≤ e.qty := by
    unfold Entry.less at kept
    split at kept
    next => cases kept; exact Nat.le_refl _
    next =>
      split at kept
      next => cases kept
      next => cases kept; exact Nat.sub_le _ _
  cases c with
  | add order => cases kept; exact Nat.le_refl _
  | execute id | executeAt id | cancel id =>
    simp only [Entry.after] at kept
    split at kept
    next => exact less kept
    next => cases kept; exact Nat.le_refl _
  | delete id | replace id =>
    simp only [Entry.after] at kept
    split at kept
    next => cases kept
    next => cases kept; exact Nat.le_refl _

theorem AtMost.call (atMost : AtMost bound orders) (unique : orders.Unique) (c : OrderBook.Call)
    (small : ∀ q ∈ qty? c, q ≤ bound) : AtMost bound (orders.call c).2 := by
  intro s price e member
  rw [unique.queue_call, List.mem_append, List.mem_filterMap, orders.mem_joining_iff] at member
  rcases member with ⟨old, here, kept⟩ | joined
  · exact (qty_after kept).trans (atMost s price old here)
  · rcases RefBook.joins_cases joined with ⟨order, rfl, rfl, rfl⟩ | ⟨oldId, rfl⟩ <;>
      exact small _ rfl

/-- The side's totals add up to what its entries have. -/
theorem AtMost.ladder (atMost : AtMost bound orders) (side : Side) :
    ((orders.ladder side).map Prod.snd).sum ≤ bound * orders.size := by
  have each (level : Int × List Entry) (member : level ∈ (orders.side side).toList) :
      volume level.2 ≤ bound * level.2.length := by
    have small : ∀ q ∈ level.2.map Entry.qty, q ≤ bound := by
      intro q member'
      obtain ⟨e, inside, rfl⟩ := List.mem_map.mp member'
      exact atMost side level.1 e ((orders.mem_queue_iff side level.1 e).mpr ⟨_, member, inside⟩)
    have summed := List.sum_le_card_nsmul _ _ small
    rwa [List.length_map, smul_eq_mul, Nat.mul_comm] at summed
  have totals : ((orders.ladder side).map Prod.snd).sum =
      ((orders.side side).toList.map fun level => volume level.2).sum := by
    rw [RefBook.ladder, List.map_map]
    rfl
  have counted : tally List.length (orders.side side) ≤ orders.size := by
    cases side
    · exact Nat.le_add_right _ _
    · exact Nat.le_add_left _ _
  rw [totals]
  calc ((orders.side side).toList.map fun level => volume level.2).sum
      ≤ ((orders.side side).toList.map fun level => bound * level.2.length).sum :=
        List.sum_le_sum each
    _ = bound * tally List.length (orders.side side) := by
        rw [List.sum_map_mul_left]
        rfl
    _ ≤ bound * orders.size := Nat.mul_le_mul_left bound counted

/-- The quantities of messages have 32 bits. -/
theorem operation_qty {m : Message} {c : OrderBook.Call} (carried : operation m = some c) :
    ∀ q ∈ qty? c, q ≤ maxValue 32 := by
  obtain ⟨kind, msg⟩ := m
  have bounded := msg.get_lt .shares
  have small : msg.shares ≤ maxValue 32 ∨ kind.width .shares ≠ 4 := by
    by_cases width : kind.width .shares = 4
    · rw [width] at bounded
      exact .inl (Nat.le_pred_of_lt bounded)
    · exact .inr width
  cases kind with
  | addOrderNoMPIDAttribution | addOrderWithMPIDAttribution =>
    change addOperation msg = some c at carried
    unfold addOperation at carried
    split at carried
    next => cases carried; rintro q ⟨⟩; exact small.resolve_right (by decide)
    next => cases carried; rintro q ⟨⟩; exact small.resolve_right (by decide)
    next => cases carried
  | orderReplace =>
    cases carried
    rintro q ⟨⟩
    exact small.resolve_right (by decide)
  | orderExecuted | orderExecutedWithPrice | orderCancel | orderDelete =>
    cases carried
    rintro q ⟨⟩
  | _ => cases carried

theorem Market.atMost_after (watch : Option (List Nat)) (ms : List Message) :
    ∀ l, ∀ listing ∈ (after watch ms).listings l, AtMost (maxValue 32) listing.orders := by
  induction ms using List.reverseRecOn with
  | nil => intro l listing member; cases member
  | append_singleton ms m ih =>
    have formed := wellFormed_after watch ms
    rw [after_concat]
    refine hear_listings (P := fun _ orders => orders.Single ∧ AtMost (maxValue 32) orders)
      (Q := fun _ orders => AtMost (maxValue 32) orders) watch _ m
      (fun l listing member => ⟨(formed l listing member).1, ih l listing member⟩) ?_
      (fun _ _ kept => kept.2) ?_
    · intro _ s price e member
      cases s <;> cases member
    · rintro orders c carried ⟨single, atMost⟩
      exact atMost.call single.unique c (operation_qty carried)

/-- What rests on a side of a listing has 64 bits, as long as its pool has room. -/
theorem Market.volume_lt (watch : Option (List Nat)) (ms : List Message)
    (roomy : (after watch ms).Roomy) {l : Nat} {listing : Listing}
    (listed : (after watch ms).listings l = some listing) (side : Side) :
    ((listing.orders.ladder side).map Prod.snd).sum < 2 ^ 64 := by
  have few := roomy l listing listed
  have summed := (atMost_after watch ms l listing listed).ladder side
  have bounded : maxValue 32 * listing.orders.size ≤ maxValue 32 * NIL :=
    Nat.mul_le_mul_left _ few.le
  exact Nat.lt_of_le_of_lt (summed.trans bounded) (by decide)

end Hftrs.App
