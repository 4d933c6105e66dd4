import Mathlib.Algebra.Order.BigOperators.Group.List
import Hftrs.Library.Json
import Hftrs.Library.Upsert
import Hftrs.Orderbook.Resting
import Hftrs.Tui.App

/-! The price ladder that the interface draws of a book. -/
namespace Hftrs.Tui

open Hftrs.Library Hftrs.Orderbook

/-- One slot of the price ladder, with what rests there on either side. -/
structure LadderRow where
  price : Int
  bid : Option Nat
  ask : Option Nat
  deriving DecidableEq

/-- Bids and asks in one falling sequence of prices, capped to `maxRows`. -/
def buildLadder (depth : DepthLadder) (maxRows : Nat) : List LadderRow :=
  let levels : Std.ExtTreeMap Int (Option Nat × Option Nat) compare :=
    upserts (none, none) (fun q slot => (some q, slot.2)) ∅ depth.bids
  let levels := upserts (none, none) (fun q slot => (slot.1, some q)) levels depth.asks
  (levels.toList.reverse.take maxRows).map fun (price, bid, ask) => { price, bid, ask }

/-- `LadderSide::qty_of` -/
def qtyOf (side : Side) (row : LadderRow) : Option Nat :=
  match side with
  | .bid => row.bid
  | .ask => row.ask

structure LadderStats where
  total : Nat
  maxQty : Nat
  nLevels : Nat
  deriving DecidableEq

/-- The totals with one more quantity; `none` is an overflow of their sum. -/
def LadderStats.counting (profile : Profile) (s : LadderStats) (q : Nat) : Option LadderStats := do
  let total ← profile.add 64 s.total q
  return { total, maxQty := max s.maxQty q, nLevels := s.nLevels + 1 }

/-- The totals of a side of the ladder. -/
def LadderStats.collect (profile : Profile) (ladder : List LadderRow) (side : Side) :
    Option LadderStats :=
  (ladder.filterMap (qtyOf side)).foldlM (counting profile) ⟨0, 0, 0⟩

/-- A price with its four implicit decimals. -/
def price (p : Int) : List Char :=
  let whole := p.tdiv 10000
  let frac := p.natAbs % 10000
  Json.integer whole ++ '.' :: (Json.natural frac).leftpad 4 '0'

/-! ### Printed prices -/

private theorem ofDigitChars_leftpad (n width : Nat) :
    Nat.ofDigitChars 10 ((Json.natural n).leftpad width '0') 0 = n := by
  have zeros (k : Nat) (text : List Char) :
      Nat.ofDigitChars 10 (List.replicate k '0' ++ text) 0 = Nat.ofDigitChars 10 text 0 := by
    induction k with
    | zero => rfl
    | succ k ih => rw [List.replicate_succ, List.cons_append, Nat.ofDigitChars_cons]; exact ih
  rw [List.leftpad, zeros, Json.ofDigitChars_natural]

/-- Prices that are not negative are printed apart. -/
theorem price_injective {p r : Int} (nonneg : 0 ≤ p) (nonneg' : 0 ≤ r)
    (same : price p = price r) : p = r := by
  obtain ⟨m, rfl⟩ := Int.eq_ofNat_of_zero_le nonneg
  obtain ⟨n, rfl⟩ := Int.eq_ofNat_of_zero_le nonneg'
  have shape (k : Nat) : price k =
      Json.natural (k / 10000) ++ '.' :: (Json.natural (k % 10000)).leftpad 4 '0' := by
    have whole : (k : Int).tdiv 10000 = (k / 10000 : Nat) := rfl
    rw [price, whole, Json.integer_natCast, Int.natAbs_natCast]
  have parts (k : Nat) : Json.digits (price k) =
      some (Json.natural (k / 10000), '.' :: (Json.natural (k % 10000)).leftpad 4 '0') := by
    rw [shape, Json.digits_natural]
    rintro c ⟨⟩
    decide
  have equal := (parts m).symm.trans ((congrArg Json.digits same).trans (parts n))
  simp only [Option.some.injEq, Prod.mk.injEq, List.cons.injEq, true_and] at equal
  have wholes := congrArg (Nat.ofDigitChars 10 · 0) equal.1
  have fracs := congrArg (Nat.ofDigitChars 10 · 0) equal.2
  simp only [Json.ofDigitChars_natural, ofDigitChars_leftpad] at wholes fracs
  omega

/-! ### The merged sides -/

/-- The rows merge two sides of levels: their prices fall, each has the quantities of the sides at
its price, and of the levels only the lowest prices are cut off, when there are `maxRows` rows. -/
structure Merges (levels : Side → List (Int × Nat)) (maxRows : Nat) (rows : List LadderRow) :
    Prop where
  falling : rows.Pairwise fun a b => b.price < a.price
  few : rows.length ≤ maxRows
  occupied : ∀ row ∈ rows, ∃ side, (qtyOf side row).isSome
  quantities : ∀ row ∈ rows, ∀ side q, qtyOf side row = some q ↔ (row.price, q) ∈ levels side
  covered : ∀ side, ∀ level ∈ levels side, (∃ row ∈ rows, row.price = level.1) ∨
    rows.length = maxRows ∧ ∀ row ∈ rows, level.1 < row.price

def DepthLadder.side (depth : DepthLadder) : Side → List (Int × Nat)
  | .bid => depth.bids
  | .ask => depth.asks

/-- What the sides have at their prices. -/
private abbrev Slots := Std.ExtTreeMap Int (Option Nat × Option Nat) compare

private def bidSlots (depth : DepthLadder) : Slots :=
  upserts (none, none) (fun q slot => (some q, slot.2)) ∅ depth.bids

/-- The map that the ladder lists. -/
private def merged (depth : DepthLadder) : Slots :=
  upserts (none, none) (fun q slot => (slot.1, some q)) (bidSlots depth) depth.asks

private def slotOf (slot : Option Nat × Option Nat) : Side → Option Nat
  | .bid => slot.1
  | .ask => slot.2

private theorem buildLadder_eq (depth : DepthLadder) (maxRows : Nat) :
    buildLadder depth maxRows = ((merged depth).toList.reverse.take maxRows).map
      fun (price, bid, ask) => { price, bid, ask } := rfl

private theorem size_merged (depth : DepthLadder) :
    (merged depth).toList.length ≤ depth.bids.length + depth.asks.length := by
  have bids : (bidSlots depth).size ≤ (∅ : Slots).size + depth.bids.length := size_upserts_le
  have asks : (merged depth).size ≤ (bidSlots depth).size + depth.asks.length := size_upserts_le
  rw [Std.ExtTreeMap.size_empty] at bids
  rw [Std.ExtTreeMap.length_toList]
  omega

@[simp] theorem buildLadder_nil (maxRows : Nat) : buildLadder ⟨[], []⟩ maxRows = [] := by
  have none : (merged ⟨[], []⟩).toList = [] := Std.ExtTreeMap.toList_eq_nil_iff.mpr rfl
  rw [buildLadder_eq, none]
  simp

/-- A price is listed with what the sides have there, if either has it. -/
private theorem merged_get {depth : DepthLadder}
    (once : ∀ side, ((depth.side side).map Prod.fst).Nodup) (p : Int) :
    ∃ slot : Option Nat × Option Nat,
      (∀ side q, slotOf slot side = some q ↔ (p, q) ∈ depth.side side) ∧
      (merged depth)[p]? = if slot = (none, none) then none else some slot := by
  obtain ⟨bid, bids, first⟩ := getElem?_upserts (none, none)
    (fun (q : Nat) (slot : Option Nat × Option Nat) => (some q, slot.2)) (∅ : Slots) (once .bid) p
  obtain ⟨ask, asks, second⟩ := getElem?_upserts (none, none)
    (fun (q : Nat) (slot : Option Nat × Option Nat) => (slot.1, some q)) (bidSlots depth)
    (once .ask) p
  refine ⟨(bid, ask), fun side q => ?_, ?_⟩
  · cases side with
    | bid => exact bids q
    | ask => exact asks q
  · change (bidSlots depth)[p]? = _ at first
    change (merged depth)[p]? = _ at second
    rw [second, first]
    cases bid <;> cases ask <;> simp

private theorem slot_of_mem {depth : DepthLadder}
    (once : ∀ side, ((depth.side side).map Prod.fst).Nodup) {p : Int}
    {slot : Option Nat × Option Nat} (member : (p, slot) ∈ (merged depth).toList) :
    (∃ side, (slotOf slot side).isSome) ∧
      ∀ side q, slotOf slot side = some q ↔ (p, q) ∈ depth.side side := by
  obtain ⟨found, quantities, listed⟩ := merged_get once p
  rw [Std.ExtTreeMap.mem_toList_iff_getElem?_eq_some, listed] at member
  split at member
  next => cases member
  next occupied =>
    cases member
    refine ⟨?_, quantities⟩
    obtain ⟨bid, ask⟩ := slot
    cases bid with
    | some b => exact ⟨.bid, rfl⟩
    | none =>
      cases ask with
      | some a => exact ⟨.ask, rfl⟩
      | none => exact absurd rfl occupied

private theorem mem_of_level {depth : DepthLadder}
    (once : ∀ side, ((depth.side side).map Prod.fst).Nodup) {side : Side} {level : Int × Nat}
    (member : level ∈ depth.side side) : ∃ slot, (level.1, slot) ∈ (merged depth).toList := by
  obtain ⟨slot, quantities, listed⟩ := merged_get once level.1
  refine ⟨slot, ?_⟩
  have here := (quantities side level.2).mpr member
  rw [Std.ExtTreeMap.mem_toList_iff_getElem?_eq_some, listed, if_neg]
  rintro rfl
  cases side <;> cases here

private theorem falling_listing (depth : DepthLadder) :
    (merged depth).toList.reverse.Pairwise fun a b => b.1 < a.1 := by
  rw [List.pairwise_reverse]
  exact Std.ExtTreeMap.ordered_keys_toList.imp fun before => compare_lt_iff_lt.mp before

/-- A ladder of sides that list their prices once. -/
theorem buildLadder_merges {depth : DepthLadder}
    (once : ∀ side, ((depth.side side).map Prod.fst).Nodup) (maxRows : Nat) :
    Merges depth.side maxRows (buildLadder depth maxRows) := by
  -- a row is an entry of the listing
  have entry {row : LadderRow} (member : row ∈ buildLadder depth maxRows) :
      ∃ slot, (row.price, slot) ∈ (merged depth).toList ∧
        ∀ side, qtyOf side row = slotOf slot side := by
    obtain ⟨⟨p, slot⟩, inside, rfl⟩ := List.mem_map.mp member
    exact ⟨slot, List.mem_reverse.mp (List.mem_of_mem_take inside),
      fun side => by cases side <;> rfl⟩
  refine ⟨?_, ?_, fun row member => ?_, fun row member side q => ?_, fun side level member => ?_⟩
  · rw [buildLadder_eq, List.pairwise_map]
    exact (falling_listing depth).sublist (List.take_sublist _ _)
  · rw [buildLadder_eq, List.length_map]
    exact List.length_take_le _ _
  · obtain ⟨slot, listed, equal⟩ := entry member
    obtain ⟨side, some⟩ := (slot_of_mem once listed).1
    exact ⟨side, by rwa [equal]⟩
  · obtain ⟨slot, listed, equal⟩ := entry member
    rw [equal]
    exact (slot_of_mem once listed).2 side q
  · obtain ⟨slot, listed⟩ := mem_of_level once member
    rcases mem_take_or (falling_listing depth) maxRows (List.mem_reverse.mpr listed) with
      shown | ⟨_, long, above⟩
    · exact .inl ⟨_, List.mem_map_of_mem shown, rfl⟩
    · refine .inr ⟨by rw [buildLadder_eq, List.length_map, long], fun row shown => ?_⟩
      obtain ⟨entry, inside, rfl⟩ := List.mem_map.mp shown
      exact above entry inside

/-- When the sides have one level more than there are rows, one price at most is cut off. -/
theorem buildLadder_cut {depth : DepthLadder}
    (once : ∀ side, ((depth.side side).map Prod.fst).Nodup) {maxRows : Nat}
    (few : depth.bids.length + depth.asks.length ≤ maxRows + 1) {side side' : Side}
    {level level' : Int × Nat} (member : level ∈ depth.side side)
    (member' : level' ∈ depth.side side')
    (cut : ∀ row ∈ buildLadder depth maxRows, row.price ≠ level.1)
    (cut' : ∀ row ∈ buildLadder depth maxRows, row.price ≠ level'.1) : level.1 = level'.1 := by
  have sized := size_merged depth
  have behind : ((merged depth).toList.reverse.drop maxRows).length ≤ 1 := by
    rw [List.length_drop, List.length_reverse]
    omega
  have dropped {side : Side} {level : Int × Nat} (member : level ∈ depth.side side)
      (cut : ∀ row ∈ buildLadder depth maxRows, row.price ≠ level.1) :
      ∃ slot, (level.1, slot) ∈ (merged depth).toList.reverse.drop maxRows := by
    obtain ⟨slot, listed⟩ := mem_of_level once member
    rcases mem_take_or (falling_listing depth) maxRows (List.mem_reverse.mpr listed) with
      shown | ⟨behind, _⟩
    · exact absurd rfl (cut _ (List.mem_map_of_mem shown))
    · exact ⟨slot, behind⟩
  obtain ⟨slot, here⟩ := dropped member cut
  obtain ⟨slot', there⟩ := dropped member' cut'
  generalize (merged depth).toList.reverse.drop maxRows = rest at behind here there
  match rest, behind with
  | [], _ => cases here
  | [entry], _ =>
    rw [List.mem_singleton] at here there
    exact (Prod.mk.inj (here.trans there.symm)).1

/-- The rows show no more of a side than levels that are listed. -/
theorem Merges.sum_le {levels : Side → List (Int × Nat)} {maxRows : Nat} {rows : List LadderRow}
    (merges : Merges levels maxRows rows) {side : Side} {all : List (Int × Nat)}
    (among : ∀ level ∈ levels side, level ∈ all) :
    (rows.filterMap (qtyOf side)).sum ≤ (all.map Prod.snd).sum := by
  let shown : List (Int × Nat) := rows.filterMap fun row => (qtyOf side row).map (row.price, ·)
  have quantities : rows.filterMap (qtyOf side) = shown.map Prod.snd := by
    rw [List.map_filterMap]
    refine List.filterMap_congr fun row _ => ?_
    cases qtyOf side row <;> rfl
  have distinct : shown.Nodup := by
    refine List.Pairwise.filterMap _ (R := fun a b => b.price < a.price) ?_ merges.falling
    rintro a b below level first level' second rfl
    obtain ⟨q, _, rfl⟩ := Option.map_eq_some_iff.mp first
    obtain ⟨q', _, same⟩ := Option.map_eq_some_iff.mp second
    exact Int.ne_of_lt below (Prod.mk.inj same).1
  have inside : shown ⊆ all := by
    intro level member
    obtain ⟨row, here, found⟩ := List.mem_filterMap.mp member
    obtain ⟨q, some, rfl⟩ := Option.map_eq_some_iff.mp found
    exact among _ ((merges.quantities row here side q).mp some)
  obtain ⟨levels', perm, sublist⟩ := List.subperm_of_subset distinct inside
  rw [quantities, ← (perm.map Prod.snd).sum_eq]
  exact (sublist.map Prod.snd).sum_le_sum fun _ _ => Nat.zero_le _

/-! ### The ladder of a book -/

/-- The `n` levels of a side that are nearest to the other one. -/
def nearest (orders : RefBook) (n : Nat) : Side → List (Int × Nat)
  | .bid => (orders.depth n).1
  | .ask => (orders.depth n).2

variable {orders : RefBook} {n : Nat}

theorem ladder_ascending (orders : RefBook) (side : Side) :
    (orders.ladder side).Pairwise fun a b => a.1 < b.1 := by
  rw [RefBook.ladder, List.pairwise_map]
  exact Std.ExtTreeMap.ordered_keys_toList.imp fun before => compare_lt_iff_lt.mp before

theorem mem_ladder_of_nearest {side : Side} {level : Int × Nat}
    (member : level ∈ nearest orders n side) : level ∈ orders.ladder side := by
  cases side with
  | bid => exact List.mem_reverse.mp (List.mem_of_mem_take member)
  | ask => exact List.mem_of_mem_take member

theorem nearest_once (orders : RefBook) (n : Nat) (side : Side) :
    ((nearest orders n side).map Prod.fst).Nodup := by
  have ladder : ((orders.ladder side).map Prod.fst).Nodup :=
    List.pairwise_map.mpr ((ladder_ascending orders side).imp Int.ne_of_lt)
  cases side with
  | bid =>
    have reversed : ((orders.ladder .bid).reverse.map Prod.fst).Nodup := by
      rw [List.map_reverse]
      exact List.nodup_reverse.mpr ladder
    exact reversed.sublist ((List.take_sublist _ _).map _)
  | ask => exact ladder.sublist ((List.take_sublist _ _).map _)

theorem length_nearest_le (orders : RefBook) (n : Nat) (side : Side) :
    (nearest orders n side).length ≤ n := by
  cases side <;> exact List.length_take_le _ _

/-- No bid is over the best one, and no ask under it. -/
theorem nearest_le_best {best level : Int × Nat} :
    (best ∈ orders.bestBid → level ∈ nearest orders n .bid → level.1 ≤ best.1) ∧
      (best ∈ orders.bestAsk → level ∈ nearest orders n .ask → best.1 ≤ level.1) := by
  constructor
  · intro last member
    obtain ⟨lower, shape⟩ := List.getLast?_eq_some_iff.mp last
    have listed := mem_ladder_of_nearest member
    have ascending := ladder_ascending orders .bid
    rw [shape] at listed ascending
    rcases List.mem_append.mp listed with below | here
    · exact ((List.pairwise_append.mp ascending).2.2 level below best (by simp)).le
    · rw [List.mem_singleton.mp here]
  · intro first member
    obtain ⟨higher, shape⟩ := List.head?_eq_some_iff.mp first
    have listed := mem_ladder_of_nearest member
    have ascending := ladder_ascending orders .ask
    rw [shape] at listed ascending
    rcases List.mem_cons.mp listed with here | above
    · rw [here]
    · exact (List.rel_of_pairwise_cons ascending above).le

theorem best_nearest (positive : 0 < n) {best : Int × Nat} :
    (best ∈ orders.bestBid → best ∈ nearest orders n .bid) ∧
      (best ∈ orders.bestAsk → best ∈ nearest orders n .ask) := by
  obtain ⟨n, rfl⟩ := Nat.exists_eq_add_one_of_ne_zero positive.ne'
  constructor
  · intro last
    obtain ⟨lower, shape⟩ := List.getLast?_eq_some_iff.mp last
    simp [nearest, RefBook.depth, shape]
  · intro first
    obtain ⟨higher, shape⟩ := List.head?_eq_some_iff.mp first
    simp [nearest, RefBook.depth, shape]

/-- The ladder has the nearest levels of the book, half of the rows for each side. One price at most
is cut off. The best bid is always on it, and so is the best ask while the book is not crossed. -/
structure Ladders (orders : RefBook) (maxRows : Nat) (rows : List LadderRow) : Prop where
  merges : Merges (nearest orders ((maxRows + 1) / 2)) maxRows rows
  cut : ∀ side side', ∀ level ∈ nearest orders ((maxRows + 1) / 2) side,
    ∀ level' ∈ nearest orders ((maxRows + 1) / 2) side', (∀ row ∈ rows, row.price ≠ level.1) →
      (∀ row ∈ rows, row.price ≠ level'.1) → level.1 = level'.1
  bestBid : 2 ≤ maxRows → ∀ bid ∈ orders.bestBid, ∃ row ∈ rows, row.price = bid.1
  bestAsk : 1 ≤ maxRows → ∀ ask ∈ orders.bestAsk, (∀ bid ∈ orders.bestBid, bid.1 < ask.1) →
    ∃ row ∈ rows, row.price = ask.1

/-- Rows that are all of one side are at most its levels. -/
private theorem rows_le {maxRows : Nat} {rows : List LadderRow} (side : Side) (prices : List Int)
    (merges : Merges (nearest orders n) maxRows rows) (apart : prices.Nodup)
    (others : ∀ p ∈ prices, ∀ row ∈ rows, row.price ≠ p)
    (levels : ∀ p ∈ prices, p ∈ (nearest orders n side).map Prod.fst)
    (one : ∀ row ∈ rows, (qtyOf side row).isSome) : rows.length + prices.length ≤ n := by
  have distinct : (rows.map LadderRow.price).Nodup :=
    List.pairwise_map.mpr (merges.falling.imp fun below => (Int.ne_of_lt below).symm)
  have both : (rows.map LadderRow.price ++ prices).Nodup := by
    refine List.nodup_append.mpr ⟨distinct, apart, fun p shown p' other same => ?_⟩
    obtain ⟨row, member, rfl⟩ := List.mem_map.mp shown
    exact others p' other row member same
  have inside : rows.map LadderRow.price ++ prices ⊆ (nearest orders n side).map Prod.fst := by
    intro p member
    rcases List.mem_append.mp member with shown | other
    · obtain ⟨row, here, rfl⟩ := List.mem_map.mp shown
      obtain ⟨q, found⟩ := Option.isSome_iff_exists.mp (one row here)
      exact List.mem_map.mpr ⟨_, (merges.quantities row here side q).mp found, rfl⟩
    · exact levels p other
  have length := (List.subperm_of_subset both inside).length_le
  rw [List.length_append, List.length_map, List.length_map] at length
  exact length.trans (length_nearest_le orders n side)

theorem buildLadder_ladders (orders : RefBook) (maxRows : Nat) :
    Ladders orders maxRows (buildLadder
      ⟨(orders.depth ((maxRows + 1) / 2)).1, (orders.depth ((maxRows + 1) / 2)).2⟩ maxRows) := by
  generalize half : (maxRows + 1) / 2 = n
  let depth : DepthLadder := ⟨(orders.depth n).1, (orders.depth n).2⟩
  have sides : depth.side = nearest orders n := funext fun side => by cases side <;> rfl
  have once (side : Side) : ((depth.side side).map Prod.fst).Nodup :=
    sides ▸ nearest_once orders n side
  have merges : Merges (nearest orders n) maxRows (buildLadder depth maxRows) :=
    sides ▸ buildLadder_merges once maxRows
  have few : depth.bids.length + depth.asks.length ≤ maxRows + 1 := by
    have bids := length_nearest_le orders n .bid
    have asks := length_nearest_le orders n .ask
    change depth.bids.length ≤ n at bids
    change depth.asks.length ≤ n at asks
    omega
  refine ⟨by rw [half]; exact merges, ?_, ?_, ?_⟩
  · intro side side' level member level' member'
    rw [half, ← sides] at member member'
    exact buildLadder_cut once few member member'
  · intro two bid best
    by_contra hidden
    push Not at hidden
    obtain ⟨row, here, same⟩ | ⟨full, above⟩ :=
      merges.covered .bid bid ((best_nearest (by omega)).1 best)
    · exact hidden row here same
    · -- every row is over the best bid, so that all are asks
      have asks := rows_le .ask [] merges List.nodup_nil (by simp) (by simp)
        fun row member => by
          obtain ⟨side, some⟩ := merges.occupied row member
          cases side with
          | ask => exact some
          | bid =>
            obtain ⟨q, found⟩ := Option.isSome_iff_exists.mp some
            have level := (merges.quantities row member .bid q).mp found
            have under := nearest_le_best.1 best level
            have higher := above row member
            simp only at under
            omega
      rw [full, List.length_nil] at asks
      omega
  · intro one ask best uncrossed
    by_contra hidden
    push Not at hidden
    have listed := (best_nearest (n := n) (by omega)).2 best
    obtain ⟨row, here, same⟩ | ⟨full, above⟩ := merges.covered .ask ask listed
    · exact hidden row here same
    · -- every row is over the best ask, where no bid is
      have asks := rows_le .ask [ask.1] merges (List.nodup_singleton _)
        (by simpa using hidden) (by simpa using ⟨ask.2, listed⟩) fun row member => by
          obtain ⟨side, some⟩ := merges.occupied row member
          cases side with
          | ask => exact some
          | bid =>
            obtain ⟨q, found⟩ := Option.isSome_iff_exists.mp some
            have level := (merges.quantities row member .bid q).mp found
            have higher := above row member
            cases top : orders.bestBid with
            | none =>
              have none := List.getLast?_eq_none_iff.mp top
              have member' := mem_ladder_of_nearest level
              rw [none] at member'
              cases member'
            | some bid =>
              have under := nearest_le_best.1 top level
              have apart := uncrossed bid top
              simp only at under
              omega
      rw [full, List.length_singleton] at asks
      omega

/-! ### The totals of a side -/

/-- The totals of quantities whose sum is in range. -/
theorem collect_eq (profile : Profile) (ladder : List LadderRow) (side : Side)
    (fits : (ladder.filterMap (qtyOf side)).sum < 2 ^ 64) :
    LadderStats.collect profile ladder side =
      some ⟨(ladder.filterMap (qtyOf side)).sum, (ladder.filterMap (qtyOf side)).foldl max 0,
        (ladder.filterMap (qtyOf side)).length⟩ := by
  unfold LadderStats.collect
  generalize ladder.filterMap (qtyOf side) = quantities at fits ⊢
  -- the fold adds the rest to what it has summed up
  have onwards (l : List Nat) (s : LadderStats) (fits : s.total + l.sum < 2 ^ 64) :
      l.foldlM (LadderStats.counting profile) s =
        some ⟨s.total + l.sum, l.foldl max s.maxQty, s.nLevels + l.length⟩ := by
    induction l generalizing s with
    | nil => rfl
    | cons q l ih =>
      rw [List.sum_cons, ← Nat.add_assoc] at fits
      have counted : s.counting profile q =
          some ⟨s.total + q, max s.maxQty q, s.nLevels + 1⟩ := by
        rw [LadderStats.counting, profile.add_eq (Nat.lt_of_le_of_lt (Nat.le_add_right _ _) fits)]
        rfl
      rw [List.foldlM_cons, counted, Option.bind_eq_bind, Option.bind_some, ih _ fits,
        List.sum_cons, List.length_cons, List.foldl_cons, Nat.add_assoc, Nat.add_assoc,
        Nat.add_comm 1]
  have all := onwards quantities ⟨0, 0, 0⟩ (by simpa using fits)
  simpa only [Nat.zero_add] using all

end Hftrs.Tui
