import Hftrs.App.Heard
import Hftrs.App.Report
import Hftrs.App.Robust
import Hftrs.Orderbook.Resting
import Hftrs.Orderbook.RegistryLaws

/-! What the client is for: a market that follows the messages.

The market is the specification of the handler, stated on its own: for each locate the symbol it
was last listed under and a reference book, and the counters. It has no registry and no shutdown
flag, and never panics. -/
namespace Hftrs.App

open Hftrs.Itch5 Hftrs.Library Hftrs.Orderbook Hftrs.Moldudp

/-- A security: the symbol it was listed under, and its orders. -/
structure Listing where
  symbol : Nat
  orders : RefBook

structure Market where
  listings : Nat → Option Listing
  stats : HandlerStats

/-- A call that succeeds counts once, under its kind. -/
def countsAs (orders : RefBook) (c : OrderBook.Call) (k : OrderCounter) : Nat :=
  if (orders.call c).1.isError = false ∧ counterOf c = k then 1 else 0

theorem locate_of_registers {watch : Option (List Nat)} {l : Nat} {m : Message}
    (registering : registers watch l m = true) : locate m = l := by
  obtain ⟨kind, msg⟩ := m
  cases kind with
  | stockDirectory =>
    rw [registers, Bool.and_eq_true, decide_eq_true_eq] at registering
    exact registering.1
  | _ => cases registering

namespace Market

def opening : Market := ⟨fun _ => none, .default⟩

/-- A listing starts without orders, also where there was one. -/
def list (market : Market) (locate symbol : Nat) : Market :=
  { market with listings := Function.update market.listings locate (some ⟨symbol, .empty⟩) }

/-- An order message, with its call unless it names no side. -/
def trade (market : Market) (locate : Nat) (call : Option OrderBook.Call) : Market :=
  match market.listings locate, call with
  | none, _ =>
    { market with
      stats := { market.stats with skippedLocate := market.stats.skippedLocate + 1 } }
  | some _, none => market
  | some listing, some c =>
    let (reply, orders) := listing.orders.call c
    { listings := Function.update market.listings locate (some { listing with orders })
      stats := if reply.isError then market.stats else market.stats.bump (counterOf c) }

def hear (watch : Option (List Nat)) (market : Market) : Message → Market
  | ⟨.stockDirectory, msg⟩ =>
    let market := { market with
      stats := { market.stats with stockDirectoryMsgs := market.stats.stockDirectoryMsgs + 1 } }
    if watch.all fun symbols => symbols.contains msg.stock then
      market.list msg.stockLocate msg.stock
    else market
  | m => if isOrder m then market.trade (locate m) (operation m) else market

/-- The market after messages. -/
def after (watch : Option (List Nat)) (ms : List Message) : Market :=
  ms.foldl (hear watch) opening

/-- A pool has an index for each order of a listing, and one more. -/
def Roomy (market : Market) : Prop :=
  ∀ l, ∀ listing ∈ market.listings l, listing.orders.size < NIL

/-- The ids and the prices of every listing are in order. -/
def WellFormed (market : Market) : Prop :=
  ∀ l, ∀ listing ∈ market.listings l, listing.orders.Single ∧ OrderBook.Priced listing.orders

/-- The message makes a call on a listing. -/
def Calls (market : Market) (m : Message) : Prop :=
  (market.listings (locate m)).isSome ∧ (operation m).isSome

/-! ### What a message can do -/

theorem hear_order (watch : Option (List Nat)) (market : Market) {m : Message}
    (order : isOrder m = true) : market.hear watch m = market.trade (locate m) (operation m) := by
  obtain ⟨kind, msg⟩ := m
  cases kind <;> first | rfl | cases order

/-- A message leaves the orders, starts a listing over, or makes a call on one, which is counted
when it succeeds. -/
theorem hear_cases (watch : Option (List Nat)) (market : Market) (m : Message) :
    ((market.hear watch m).listings = market.listings ∧
      (market.hear watch m).stats.orders = market.stats.orders ∧
      registers watch (locate m) m = false ∧
      (market.listings (locate m) = none ∨ operation m = none)) ∨
    (∃ symbol, (market.hear watch m).listings =
        Function.update market.listings (locate m) (some ⟨symbol, .empty⟩) ∧
      (market.hear watch m).stats.orders = market.stats.orders ∧
      registers watch (locate m) m = true) ∨
    ∃ listing c, market.listings (locate m) = some listing ∧ operation m = some c ∧
      registers watch (locate m) m = false ∧
      (market.hear watch m).listings =
        Function.update market.listings (locate m)
          (some { listing with orders := (listing.orders.call c).2 }) ∧
      ∀ k, (market.hear watch m).stats.orders k =
        market.stats.orders k + countsAs listing.orders c k := by
  by_cases order : isOrder m = true
  · have silent : registers watch (locate m) m = false := by
      obtain ⟨kind, msg⟩ := m
      cases kind <;> first | rfl | cases order
    rw [hear_order watch market order]
    unfold trade
    cases listed : market.listings (locate m) with
    | none => exact .inl ⟨rfl, funext fun k => by cases k <;> rfl, silent, .inl rfl⟩
    | some listing =>
      cases carried : operation m with
      | none => exact .inl ⟨rfl, rfl, silent, .inr rfl⟩
      | some c =>
        refine .inr (.inr ⟨listing, c, rfl, rfl, silent, rfl, fun k => ?_⟩)
        simp only [countsAs]
        cases (listing.orders.call c).1.isError with
        | true => simp
        | false => simp [HandlerStats.orders_bump]
  · obtain ⟨kind, msg⟩ := m
    cases kind with
    | stockDirectory =>
      have counted : ∀ market' : Market, ({ market'.stats with
          stockDirectoryMsgs := market'.stats.stockDirectoryMsgs + 1 } : HandlerStats).orders =
            market'.stats.orders := fun _ => funext fun k => by cases k <;> rfl
      have reads : registers watch (locate ⟨.stockDirectory, msg⟩) ⟨.stockDirectory, msg⟩ =
          watch.all fun symbols => symbols.contains msg.stock := by
        rw [registers, locate, decide_eq_true rfl, Bool.true_and]
      rw [reads]
      by_cases watched : watch.all (fun symbols => symbols.contains msg.stock) = true
      · refine .inr (.inl ⟨msg.stock, ?_⟩)
        simp only [hear, watched, if_true]
        exact ⟨rfl, counted market, trivial⟩
      · rw [Bool.not_eq_true] at watched
        simp only [hear, watched, Bool.false_eq_true, if_false]
        exact .inl ⟨trivial, counted market, trivial, .inr rfl⟩
    | addOrderNoMPIDAttribution | addOrderWithMPIDAttribution | orderExecuted
    | orderExecutedWithPrice | orderCancel | orderDelete | orderReplace => exact absurd rfl order
    | _ => exact .inl ⟨rfl, rfl, rfl, .inr rfl⟩

/-- What holds of an empty book, and of a book whether or not a message makes a call on it, holds of
every listing after the message. -/
theorem hear_listings {P Q : Nat → RefBook → Prop} (watch : Option (List Nat)) (market : Market)
    (m : Message) (holds : ∀ l, ∀ listing ∈ market.listings l, P l listing.orders)
    (empty : ∀ l, Q l .empty) (idle : ∀ l orders, P l orders → Q l orders)
    (call : ∀ orders c, operation m = some c → P (locate m) orders →
      Q (locate m) (orders.call c).2) :
    ∀ l, ∀ listing ∈ (market.hear watch m).listings l, Q l listing.orders := by
  intro l listing member
  rcases hear_cases watch market m with ⟨same, _⟩ | ⟨symbol, listed, _⟩ |
    ⟨old, c, here, carried, _, called, _⟩
  · rw [same] at member
    exact idle _ _ (holds l listing member)
  · rw [listed, Function.update_apply] at member
    split at member
    next => cases member; exact empty l
    next => exact idle _ _ (holds l listing member)
  · rw [called, Function.update_apply] at member
    split at member
    next same => cases member; exact same ▸ call old.orders c carried (holds _ old here)
    next => exact idle _ _ (holds l listing member)

/-- The prices of messages have 32 bits. -/
theorem operation_price {m : Message} {c : OrderBook.Call} (carried : operation m = some c) :
    ∀ price ∈ c.price?, OrderBook.OnWire price := by
  obtain ⟨kind, msg⟩ := m
  have bound := msg.get_lt .price
  have small : OrderBook.OnWire (msg.price : Int) ∨ kind.width .price ≠ 4 := by
    by_cases width : kind.width .price = 4
    · rw [width] at bound
      refine .inl ⟨Int.natCast_nonneg _, ?_⟩
      have wide : msg.price < 4294967296 := bound
      rw [maxValue]
      omega
    · exact .inr width
  cases kind with
  | addOrderNoMPIDAttribution | addOrderWithMPIDAttribution =>
    change addOperation msg = some c at carried
    unfold addOperation at carried
    split at carried
    next => cases carried; rintro price ⟨⟩; exact small.resolve_right (by decide)
    next => cases carried; rintro price ⟨⟩; exact small.resolve_right (by decide)
    next => cases carried
  | orderReplace =>
    cases carried
    rintro price ⟨⟩
    exact small.resolve_right (by decide)
  | orderExecuted | orderExecutedWithPrice | orderCancel | orderDelete =>
    cases carried
    rintro price ⟨⟩
  | _ => cases carried

theorem WellFormed.hear {market : Market} (formed : market.WellFormed)
    (watch : Option (List Nat)) (m : Message) : (market.hear watch m).WellFormed := by
  refine hear_listings (P := fun _ orders => orders.Single ∧ OrderBook.Priced orders)
    watch market m formed (fun _ => ⟨RefBook.single_empty, ?_⟩) (fun _ _ => id) ?_
  · rintro orders c carried ⟨single, priced⟩
    exact ⟨single.call c, priced.call single.unique c (operation_price carried)⟩
  · intro s _ occupied
    cases s <;> exact absurd rfl occupied

theorem after_concat (watch : Option (List Nat)) (ms : List Message) (m : Message) :
    after watch (ms ++ [m]) = (after watch ms).hear watch m := List.foldl_concat ..

/-- A message that registers gives its symbol to the locate, and every other message leaves it. -/
theorem hear_symbols (watch : Option (List Nat)) (market : Market) (m : Message) (l : Nat) :
    ((market.hear watch m).listings l).map Listing.symbol =
      if registers watch l m then some m.2.stock else (market.listings l).map Listing.symbol := by
  by_cases order : isOrder m = true
  · have silent : registers watch l m = false := by
      obtain ⟨kind, msg⟩ := m
      cases kind <;> first | rfl | cases order
    rw [hear_order watch market order, silent, if_neg Bool.false_ne_true]
    unfold trade
    cases listed : market.listings (locate m) with
    | none => rfl
    | some listing =>
      cases operation m with
      | none => rfl
      | some c =>
        simp only [Function.update_apply]
        split
        next same => rw [same, listed]; rfl
        next => rfl
  · obtain ⟨kind, msg⟩ := m
    cases kind with
    | stockDirectory =>
      by_cases watched : watch.all (fun symbols => symbols.contains msg.stock) = true
      · have registering : registers watch l ⟨.stockDirectory, msg⟩ =
            decide (msg.stockLocate = l) := by rw [registers, watched, Bool.and_true]
        simp only [hear, watched, if_true, list, registering, decide_eq_true_eq]
        by_cases here : msg.stockLocate = l
        · subst here
          simp
        · simp [Function.update_of_ne (Ne.symm here), here]
      · rw [Bool.not_eq_true] at watched
        have silent : registers watch l ⟨.stockDirectory, msg⟩ = false := by
          rw [registers, watched, Bool.and_false]
        simp only [hear, watched, Bool.false_eq_true, if_false, silent]
    | addOrderNoMPIDAttribution | addOrderWithMPIDAttribution | orderExecuted
    | orderExecutedWithPrice | orderCancel | orderDelete | orderReplace => exact absurd rfl order
    | _ => rfl

/-- A message is counted as a directory entry, or registers nothing. -/
theorem hear_directory (watch : Option (List Nat)) (market : Market) (m : Message) :
    (market.hear watch m).stats.stockDirectoryMsgs = market.stats.stockDirectoryMsgs + 1 ∨
      (market.hear watch m).stats.stockDirectoryMsgs = market.stats.stockDirectoryMsgs ∧
        ∀ l, registers watch l m = false := by
  by_cases order : isOrder m = true
  · refine .inr ⟨?_, fun l => ?_⟩
    · rw [hear_order watch market order]
      unfold trade
      split
      next => rfl
      next => rfl
      next listing c _ _ =>
        simp only
        split
        · rfl
        · cases counterOf c <;> rfl
    · obtain ⟨kind, msg⟩ := m
      cases kind <;> first | rfl | cases order
  · obtain ⟨kind, msg⟩ := m
    cases kind with
    | stockDirectory =>
      refine .inl ?_
      simp only [hear]
      split <;> rfl
    | addOrderNoMPIDAttribution | addOrderWithMPIDAttribution | orderExecuted
    | orderExecutedWithPrice | orderCancel | orderDelete | orderReplace => exact absurd rfl order
    | _ => exact .inr ⟨rfl, fun _ => rfl⟩

/-- As long as no directory entry is counted, the symbols stay. -/
theorem after_directory (watch : Option (List Nat)) (before part : List Message) :
    (after watch before).stats.stockDirectoryMsgs ≤
        (after watch (before ++ part)).stats.stockDirectoryMsgs ∧
      ((after watch (before ++ part)).stats.stockDirectoryMsgs =
          (after watch before).stats.stockDirectoryMsgs →
        ∀ l, ((after watch (before ++ part)).listings l).map Listing.symbol =
          ((after watch before).listings l).map Listing.symbol) := by
  induction part using List.reverseRecOn with
  | nil =>
    rw [List.append_nil]
    exact ⟨Nat.le_refl _, fun _ _ => rfl⟩
  | append_singleton part m ih =>
    obtain ⟨fewer, kept⟩ := ih
    rw [← List.append_assoc, after_concat]
    rcases hear_directory watch (after watch (before ++ part)) m with more | ⟨same, silent⟩
    · rw [more]
      exact ⟨by omega, fun equal => by omega⟩
    · rw [same]
      refine ⟨fewer, fun equal l => ?_⟩
      rw [hear_symbols, silent, if_neg Bool.false_ne_true]
      exact kept equal l

/-- A locate is listed under the symbol of the last message that registers it. -/
theorem symbol_after (watch : Option (List Nat)) (ms : List Message) (l : Nat) :
    ((after watch ms).listings l).map Listing.symbol =
      (ms.reverse.find? (registers watch l)).map fun m => m.2.stock := by
  induction ms using List.reverseRecOn with
  | nil => rfl
  | append_singleton ms m ih =>
    rw [after_concat, hear_symbols, List.reverse_append, List.reverse_singleton,
      List.singleton_append, List.find?_cons, ih]
    cases registers watch l m <;> rfl

theorem wellFormed_after (watch : Option (List Nat)) (ms : List Message) :
    (after watch ms).WellFormed := by
  induction ms using List.reverseRecOn with
  | nil => intro l listing member; cases member
  | append_singleton ms m ih =>
    rw [after_concat]
    exact ih.hear watch m

end Market

/-! ### Orders in and out -/

/-- Which orders a call lets in and out: one that is added, one that is deleted, dropped or used up.
An order is used up by a call that is counted as an execution or a cancellation. -/
theorem size_call {orders : RefBook} (single : orders.Single) (c : OrderBook.Call) :
    orders.size + countsAs orders c .added =
        (orders.call c).2.size + countsAs orders c .deleted + orders.dropped c + orders.usedUp c ∧
      orders.usedUp c ≤ countsAs orders c .executed + countsAs orders c .cancelled := by
  have unit (r : Except BookError Unit) :
      (OrderBook.Reply.unit r).isError = false ↔ r.isOk = true := by
    cases r <;> simp [OrderBook.Reply.isError, Except.isOk, Except.toBool]
  have trade (r : Except BookError Trade) :
      (OrderBook.Reply.trade r).isError = false ↔ r.isOk = true := by
    cases r <;> simp [OrderBook.Reply.isError, Except.isOk, Except.toBool]
  have reduced {size left : Nat} {finishes ok : Prop} [Decidable finishes] [Decidable ok]
      (sized : left + (if finishes then 1 else 0) = size) (counted : finishes → ok) :
      size = left + (if finishes then 1 else 0) ∧
        (if finishes then 1 else 0) ≤ if ok then 1 else 0 := by
    refine ⟨sized.symm, ?_⟩
    split
    next finished => rw [if_pos (counted finished)]
    next => exact Nat.zero_le _
  simp only [countsAs, RefBook.dropped, RefBook.usedUp, RefBook.call, counterOf]
  cases c with
  | add order =>
    have sized := orders.size_add order
    simp only [Prod.map_fst, Prod.map_snd, unit, reduceCtorEq, and_false, and_true, if_false,
      Nat.add_zero, Nat.zero_le]
    omega
  | execute id qty ts =>
    have sized : (orders.execute id qty ts none).2.size + _ = _ ∧ (_ → _) :=
      single.size_reduce id qty _ _
    simp only [Prod.map_fst, Prod.map_snd, trade, reduceCtorEq, and_false, and_true, if_false,
      Nat.add_zero]
    exact reduced sized.1 sized.2
  | executeAt id qty price ts =>
    have sized : (orders.execute id qty ts (some price)).2.size + _ = _ ∧ (_ → _) :=
      single.size_reduce id qty _ _
    simp only [Prod.map_fst, Prod.map_snd, trade, reduceCtorEq, and_false, and_true, if_false,
      Nat.add_zero]
    exact reduced sized.1 sized.2
  | cancel id qty =>
    have sized : (orders.cancel id qty).2.size + _ = _ ∧ (_ → _) :=
      single.size_reduce id qty _ _
    simp only [Prod.map_fst, Prod.map_snd, unit, reduceCtorEq, and_false, and_true, if_false,
      Nat.add_zero, Nat.zero_add]
    exact reduced sized.1 sized.2
  | delete id =>
    have sized := single.size_delete id
    simp only [Prod.map_fst, Prod.map_snd, unit, reduceCtorEq, and_false, and_true, if_false,
      Nat.add_zero, Nat.zero_le]
    omega
  | replace oldId newId newPrice newQty ts =>
    have sized := single.size_replace oldId newId newPrice newQty ts
    simp only [Prod.map_fst, Prod.map_snd, unit, reduceCtorEq, and_false, and_true, if_false,
      Nat.add_zero, Nat.zero_le]
    omega

theorem size_call_le {orders : RefBook} (single : orders.Single) (c : OrderBook.Call) :
    (orders.call c).2.size ≤ orders.size + 1 := by
  have sized := (size_call single c).1
  have one : countsAs orders c .added ≤ 1 := by
    unfold countsAs
    split <;> decide
  omega

/-- A message lets at most one order in. -/
theorem Market.size_after_le (watch : Option (List Nat)) (ms : List Message) :
    ∀ l, ∀ listing ∈ (after watch ms).listings l, listing.orders.size ≤ ms.length := by
  induction ms using List.reverseRecOn with
  | nil => intro l listing member; cases member
  | append_singleton ms m ih =>
    have formed := wellFormed_after watch ms
    rw [after_concat, List.length_append, List.length_singleton]
    refine hear_listings (P := fun _ orders => orders.Single ∧ orders.size ≤ ms.length)
      (Q := fun _ orders => orders.size ≤ ms.length + 1) watch _ m
      (fun l listing member => ⟨(formed l listing member).1, ih l listing member⟩)
      (fun _ => Nat.zero_le _) (fun _ _ kept => Nat.le_succ_of_le kept.2) ?_
    rintro orders c _ ⟨single, bound⟩
    have grown := size_call_le single c
    omega

theorem Market.roomy_of_short (watch : Option (List Nat)) {ms : List Message}
    (short : ms.length < NIL) (before : List Message) (front : before <+: ms) :
    (after watch before).Roomy := by
  intro l listing member
  have bound := size_after_le watch before l listing member
  have length := front.length_le
  omega

/-! ### The handler shows the market -/

section Shows

variable {R : Type} [IterRegistry R] [LawfulRegistry R]

/-- The registry has a book for each listing, under its symbol, and the counters are those of the
market. -/
structure Shows (watch : Option (List Nat)) (handler : MessageHandler R) (market : Market) :
    Prop where
  watching : handler.symbolsToWatch = watch
  stats : handler.stats = market.stats
  symbols : ∀ l, Registry.getSymbol handler.registry l =
    (market.listings l).map Listing.symbol
  books : ∀ l, Option.Rel (fun book listing => ∃ q, OrderBook.Represents book q listing.orders)
    (Registry.get handler.registry l) (market.listings l)
  slots : LawfulRegistry.HasSlot handler.registry = LawfulRegistry.HasSlot (Registry.new : R)
  valid : IterRegistry.Valid handler.registry

variable {env : Env} {watch : Option (List Nat)} {handler : MessageHandler R} {market : Market}

theorem shows_new (watch : Option (List Nat)) :
    Shows watch (MessageHandler.new watch : MessageHandler R) .opening where
  watching := rfl
  stats := rfl
  symbols := IterRegistry.getSymbol_new
  books := fun l => by
    have missing : Registry.get (Registry.new : R) l = none := LawfulRegistry.get_new l
    change Option.Rel _ (Registry.get (Registry.new : R) l) none
    rw [missing]
    exact .none
  slots := rfl
  valid := IterRegistry.valid_new

/-- The tick is not shown. -/
theorem Shows.tick (shows : Shows watch handler market) (tick : Nat) :
    Shows watch { handler with tick } market :=
  ⟨shows.watching, shows.stats, shows.symbols, shows.books, shows.slots, shows.valid⟩

private theorem rel_update {P : OrderBook → Listing → Prop} {f : Nat → Option OrderBook}
    {g : Nat → Option Listing} (rel : ∀ l, Option.Rel P (f l) (g l)) (k : Nat) {book : OrderBook}
    {listing : Listing} (here : P book listing) (l : Nat) :
    Option.Rel P (Function.update f k (some book) l) (Function.update g k (some listing) l) := by
  rw [Function.update_apply, Function.update_apply]
  split
  next => exact .some here
  next => exact rel l

private theorem map_update (f : Nat → Option Listing) (k : Nat) (listing : Listing) (l : Nat) :
    (Function.update f k (some listing) l).map Listing.symbol =
      Function.update (fun l => (f l).map Listing.symbol) k (some listing.symbol) l := by
  rw [Function.update_apply, Function.update_apply]
  split <;> rfl

omit [LawfulRegistry R] in
/-- A call on a book that is found, once the log has its timestamp. -/
theorem applyOrder_found {m : Message} (logs : Logs env m) (counter : OrderCounter)
    {book : OrderBook} {put : OrderBook → R}
    (found : Registry.getMut handler.registry (locate m) = some (book, put))
    {call : OrderBook.Call} (carried : operation m = some call) :
    handler.applyOrder env (locate m) (operation m) (loggedTime m) counter =
      (book.call env.profile call).map fun answer =>
        { handler with
          registry := put answer.2
          stats := if answer.1.isError then handler.stats else handler.stats.bump counter } := by
  simp only [MessageHandler.applyOrder, found, carried]
  cases logging : env.debugEnabled with
  | false => cases book.call env.profile call <;> rfl
  | true =>
    cases logged : loggedTime m with
    | none => cases book.call env.profile call <;> rfl
    | some timestamp =>
      obtain ⟨time, converted⟩ := Option.isSome_iff_exists.mp (logs logging timestamp logged)
      simp only [converted, Option.map_some]
      cases book.call env.profile call <;> rfl

/-- The shared body of the order methods is a trade. -/
theorem Shows.trade (shows : Shows watch handler market) (m : Message)
    (logs : market.Calls m → Logs env m) (few : market.Roomy) (counter : OrderCounter)
    (counted : ∀ call, operation m = some call → counterOf call = counter) :
    ∃ handler', handler.applyOrder env (locate m) (operation m) (loggedTime m) counter =
        some handler' ∧ Shows watch handler' (market.trade (locate m) (operation m)) := by
  have rel := shows.books (locate m)
  cases found : Registry.getMut handler.registry (locate m) with
  | none =>
    rw [LawfulRegistry.getMut_none found] at rel
    cases listed : market.listings (locate m) with
    | some listing => rw [listed] at rel; cases rel
    | none =>
      -- counted as skipped, before the side or the log is looked at
      simp only [MessageHandler.applyOrder, Market.trade, found, listed]
      exact ⟨_, rfl, shows.watching, by rw [shows.stats], shows.symbols, shows.books,
        shows.slots, shows.valid⟩
  | some reference =>
    obtain ⟨book, put⟩ := reference
    obtain ⟨here, written⟩ := LawfulRegistry.getMut_some found
    rw [here] at rel
    cases listed : market.listings (locate m) with
    | none => rw [listed] at rel; cases rel
    | some listing =>
      rw [listed] at rel
      obtain ⟨q, rep⟩ : ∃ q, book.Represents q listing.orders := by cases rel; assumption
      cases carried : operation m with
      | none =>
        simp only [MessageHandler.applyOrder, Market.trade, found, listed]
        exact ⟨handler, rfl, shows⟩
      | some call =>
        -- the pool has room for the call, and its prices are those of the wire
        obtain ⟨book', q', called, rep'⟩ := rep.call env.profile call
          (rep.findsRoom (few _ listing listed) call) (operation_wire carried)
        obtain ⟨books, symbols, slots⟩ := written book'
        obtain ⟨valid, _⟩ := IterRegistry.valid_put shows.valid found book'
        have made : market.Calls m := by
          rw [Market.Calls, listed, carried]
          exact ⟨rfl, rfl⟩
        have applied := applyOrder_found (logs made) counter found carried
        rw [called, carried] at applied
        refine ⟨_, applied, ?_⟩
        simp only [Market.trade, listed]
        refine ⟨shows.watching, ?_, fun l => ?_, fun l => ?_, slots.trans shows.slots, valid⟩
        · rw [counted call carried, shows.stats]
        · have symbol : (market.listings (locate m)).map Listing.symbol = some listing.symbol := by
            rw [listed]
            rfl
          rw [symbols, shows.symbols, map_update, Function.update_apply]
          split
          next same => rw [same, symbol]
          next => rfl
        · rw [books]
          exact rel_update shows.books (locate m) ⟨q', rep'⟩ l

/-- A stock directory starts the listing of its locate over, when its symbol is watched. -/
theorem Shows.list (alive : env.shutdown = false) (shows : Shows watch handler market)
    (msg : Msg .stockDirectory)
    (slot : ∀ l, registers watch l ⟨.stockDirectory, msg⟩ →
      LawfulRegistry.HasSlot (Registry.new : R) l) :
    ∃ handler', MessageHandler.on env .stockDirectory msg handler = some (.Continue, handler') ∧
      Shows watch handler' (market.hear watch ⟨.stockDirectory, msg⟩) := by
  simp only [MessageHandler.on, MessageHandler.onStockDirectory,
    MessageHandler.polled_alive env alive, Market.hear, shows.watching]
  by_cases watched : watch.all (fun symbols => symbols.contains msg.stock) = true
  · have free : LawfulRegistry.HasSlot handler.registry msg.stockLocate :=
      shows.slots ▸ slot _ (by rw [registers, decide_eq_true rfl, Bool.true_and, watched])
    obtain ⟨registry, registered, books, symbols, slots⟩ :=
      LawfulRegistry.register_some msg.stock free
    have valid := IterRegistry.valid_register shows.valid msg.stockLocate_lt registered
    -- the log asks for the length of the registry, whose assertion holds
    have logged : (if env.infoEnabled = true then
        (Registry.len env.profile handler.registry).map fun _ => () else some ()) = some () := by
      obtain ⟨n, length⟩ := Option.isSome_iff_exists.mp
        (LawfulRegistry.len_isSome env.profile handler.registry)
      rw [length]
      exact ite_self _
    simp only [watched, if_true, logged, registered, Option.bind_eq_bind, Option.bind_some,
      Option.pure_def, Option.map_some]
    refine ⟨_, rfl, rfl, by rw [shows.stats]; rfl, fun l => ?_, fun l => ?_,
      slots.trans shows.slots, valid⟩
    · rw [symbols, Market.list, map_update, Function.update_apply, Function.update_apply,
        shows.symbols]
    · rw [books]
      exact rel_update shows.books _ ⟨_, OrderBook.represents_new⟩ l
  · simp only [watched, Bool.false_eq_true, if_false, Option.pure_def, Option.map_some]
    exact ⟨_, rfl, rfl, by rw [shows.stats], shows.symbols, shows.books, shows.slots,
      shows.valid⟩

/-- One message, while nobody asks the client to stop. -/
theorem Shows.hear (alive : env.shutdown = false) (shows : Shows watch handler market)
    (m : Message) (logs : market.Calls m → Logs env m) (few : market.Roomy)
    (slot : ∀ l, registers watch l m → LawfulRegistry.HasSlot (Registry.new : R) l) :
    ∃ handler', MessageHandler.on env m.1 m.2 handler = some (.Continue, handler') ∧
      Shows watch handler' (market.hear watch m) := by
  by_cases order : isOrder m = true
  · obtain ⟨counter, counted, method⟩ := on_order env m order handler
    obtain ⟨handler', applied, shows'⟩ :=
      (shows.tick ((handler.tick + 1) % 2 ^ 32)).trade m logs few counter counted
    rw [method, MessageHandler.polled_alive env alive, applied, market.hear_order watch order]
    exact ⟨handler', rfl, shows'⟩
  · obtain ⟨kind, msg⟩ := m
    cases kind with
    | stockDirectory => exact shows.list alive msg slot
    | addOrderNoMPIDAttribution | addOrderWithMPIDAttribution | orderExecuted
    | orderExecutedWithPrice | orderCancel | orderDelete | orderReplace => exact absurd rfl order
    | _ => exact ⟨handler, rfl, shows⟩

/-- Messages one after the other. -/
theorem Shows.deliver (alive : env.shutdown = false) (shows : Shows watch handler market)
    (ms : List Message)
    (logs : ∀ before m, before ++ [m] <+: ms →
      (before.foldl (Market.hear watch) market).Calls m → Logs env m)
    (few : ∀ before, before <+: ms → (before.foldl (Market.hear watch) market).Roomy)
    (slot : ∀ m ∈ ms, ∀ l, registers watch l m →
      LawfulRegistry.HasSlot (Registry.new : R) l) :
    ∃ handler', deliver (MessageHandler.on env) ms handler = some handler' ∧
      Shows watch handler' (ms.foldl (Market.hear watch) market) := by
  induction ms generalizing handler market with
  | nil => exact ⟨handler, rfl, shows⟩
  | cons m ms ih =>
    obtain ⟨handler', called, shows'⟩ := shows.hear alive m
      (logs [] m (List.prefix_append [m] ms)) (few [] List.nil_prefix) (slot m (by simp))
    obtain ⟨last, delivered, final⟩ := ih shows'
      (fun before n front => logs (m :: before) n (List.prefix_cons_inj m |>.mpr front))
      (fun before front => few (m :: before) (List.prefix_cons_inj m |>.mpr front))
      (fun n member => slot n (by simp [member]))
    exact ⟨last, by rw [Itch5.deliver, called]; exact delivered, final⟩

/-! ### The report of a market -/

/-- What the report says of a listing. -/
def Listing.summary (listing : Listing) (depthLevels locate : Nat) : BookSummary where
  locate
  symbol := listing.symbol
  bestBid := listing.orders.bestBid
  bestAsk := listing.orders.bestAsk
  spread := listing.orders.ofBests fun b a => a - b
  mid := listing.orders.ofBests fun b a => (a + b).tdiv 2
  depth := listing.orders.depth depthLevels

/-- The snapshot has the counters of the market and one book for each listing. -/
structure Reports (market : Market) (levels : Nat) (snapshot : Snapshot) : Prop where
  stats : snapshot.stats = market.stats
  depthLevels : snapshot.depthLevels = levels
  once : (snapshot.books.map BookSummary.locate).Nodup
  books : ∀ book, book ∈ snapshot.books ↔ ∃ listing, market.listings book.locate = some listing ∧
    book = listing.summary levels book.locate

/-- A book that represents orders with prices of the wire reads as they do. -/
theorem capture_represented {book : OrderBook} {q : Side → Int → List Nat} {listing : Listing}
    (rep : book.Represents q listing.orders) (priced : OrderBook.Priced listing.orders)
    (profile : Profile) (levels l : Nat) :
    BookSummary.capture profile levels (l, listing.symbol, book) =
      some (listing.summary levels l) := by
  simp only [BookSummary.capture, rep.spread priced, rep.mid priced, Option.bind_eq_bind,
    Option.bind_some, rep.bestBid, rep.bestAsk, rep.depth, Listing.summary]

theorem Shows.reports (shows : Shows watch handler market) (formed : market.WellFormed)
    (profile : Profile) (order : IterRegistry.Order R) (levels : Nat) :
    ∃ snapshot, Snapshot.capture profile order handler levels = some snapshot ∧
      Reports market levels snapshot := by
  obtain ⟨items, iterated, _, entries⟩ := IterRegistry.iter_spec profile order shows.valid
  -- an item is of a listing
  have listed : ∀ item ∈ items, ∃ book, BookSummary.capture profile levels item = some book ∧
      ∃ listing, market.listings book.locate = some listing ∧
        book = listing.summary levels book.locate := by
    rintro ⟨l, symbol, book⟩ member
    have stored := LawfulRegistry.iter_get shows.valid iterated member
    have named := (entries l symbol).mp ⟨book, member⟩
    have rel := shows.books l
    rw [stored] at rel
    rw [shows.symbols] at named
    obtain ⟨listing, here, rfl⟩ := Option.map_eq_some_iff.mp named
    rw [here] at rel
    obtain ⟨q, rep⟩ : ∃ q, book.Represents q listing.orders := by cases rel; assumption
    exact ⟨_, capture_represented rep (formed l listing here).2 profile levels l, listing, here,
      rfl⟩
  obtain ⟨books, mapped, summaries⟩ := mapM_some_all listed
  have captured : Snapshot.capture profile order handler levels =
      some ⟨handler.stats, levels, books⟩ := by
    simp only [Snapshot.capture, iterated, mapped, Option.bind_eq_bind, Option.bind_some]
  obtain ⟨once, registered⟩ := Snapshot.capture_registered shows.valid captured
  refine ⟨_, captured, shows.stats, rfl, once, fun book => ⟨summaries book, ?_⟩⟩
  -- a listing has an item, which is captured as its summary
  rintro ⟨listing, here, equal⟩
  have symbol := shows.symbols book.locate
  rw [here] at symbol
  obtain ⟨other, member, same, _⟩ := (registered book.locate listing.symbol).mpr symbol
  obtain ⟨listing', here', equal'⟩ := summaries other member
  rw [same] at here' equal'
  rw [here] at here'
  cases here'
  rw [equal, ← equal']
  exact member

end Shows

/-! ### After any datagrams -/

/-- What a stream must meet for the handler to follow it without a panic: with debug logging on, the
timestamps of the calls on listings are within the day, the registry has a slot for each locate that
is registered, and no book comes to as many orders as a pool has indices. -/
structure Smooth (R : Type) [IterRegistry R] [LawfulRegistry R] (env : Env)
    (watch : Option (List Nat)) (ms : List Message) : Prop where
  logs : ∀ before m, before ++ [m] <+: ms → (Market.after watch before).Calls m → Logs env m
  slots : ∀ m ∈ ms, ∀ l, registers watch l m → LawfulRegistry.HasSlot (Registry.new : R) l
  few : ∀ before, before <+: ms → (Market.after watch before).Roomy

theorem Smooth.front {R : Type} [IterRegistry R] [LawfulRegistry R] {env : Env}
    {watch : Option (List Nat)} {ms before : List Message} (smooth : Smooth R env watch ms)
    (front : before <+: ms) : Smooth R env watch before :=
  ⟨fun first m shorter => smooth.logs first m (shorter.trans front),
    fun m member => smooth.slots m (front.subset member),
    fun first shorter => smooth.few first (shorter.trans front)⟩

/-- A stream whose timestamps are all within the day, of fewer messages than a pool has indices. -/
theorem Smooth.of_short {R : Type} [IterRegistry R] [LawfulRegistry R] {env : Env}
    {watch : Option (List Nat)} {ms : List Message} (logs : ∀ m ∈ ms, Logs env m)
    (slots : ∀ m ∈ ms, ∀ l, registers watch l m → LawfulRegistry.HasSlot (Registry.new : R) l)
    (short : ms.length < NIL) : Smooth R env watch ms :=
  ⟨fun _ m front _ => logs m (front.subset (by simp)), slots, Market.roomy_of_short watch short⟩

/-- After any datagrams the handler shows the market after what was heard. -/
theorem Receiving.run_shows {R : Type} [IterRegistry R] [LawfulRegistry R] (env : Env)
    (alive : env.shutdown = false) (trySend : RetransmissionPacket → Bool)
    (watch : Option (List Nat)) (datagrams : List (List UInt8))
    (headed : ∀ d ∈ datagrams, (Packet.parse d).isSome)
    (smooth : Smooth R env watch (heard datagrams)) :
    ∃ state, Receiving.run env trySend datagrams (MessageHandler.new watch : MessageHandler R) =
      some state ∧ Shows watch state.handler (Market.after watch (heard datagrams)) := by
  obtain ⟨handler, delivered, shows⟩ := (shows_new (R := R) watch).deliver alive (heard datagrams)
    smooth.logs smooth.few smooth.slots
  have looped := Receiving.loop_heard (R := R) env alive trySend datagrams headed
    ⟨.new watch, .default, []⟩
  rw [delivered] at looped
  obtain ⟨state, ran, rfl⟩ := Option.map_eq_some_iff.mp looped
  exact ⟨state, ran, shows⟩

/-- After any datagrams with a smooth stream, while nobody asks the client to stop, the report is that
of the market: the counters are the market's, every listing has one book, under its symbol, and the
prices, quantities, spread and mid are those of its reference book. -/
theorem report_shows_market {R : Type} [IterRegistry R] [LawfulRegistry R] (env : Env)
    (alive : env.shutdown = false) (trySend : RetransmissionPacket → Bool)
    (watch : Option (List Nat)) (datagrams : List (List UInt8))
    (headed : ∀ d ∈ datagrams, (Packet.parse d).isSome)
    (smooth : Smooth R env watch (heard datagrams)) (order : IterRegistry.Order R)
    (levels : Nat) :
    ∃ state snapshot, Receiving.run env trySend datagrams
        (MessageHandler.new watch : MessageHandler R) = some state ∧
      Snapshot.capture env.profile order state.handler levels = some snapshot ∧
      Reports (Market.after watch (heard datagrams)) levels snapshot := by
  obtain ⟨state, ran, shows⟩ :=
    Receiving.run_shows (R := R) env alive trySend watch datagrams headed smooth
  obtain ⟨snapshot, captured, reports⟩ :=
    shows.reports (Market.wellFormed_after watch _) env.profile order levels
  exact ⟨state, snapshot, ran, captured, reports⟩

/-- A directory entry and two orders, one of them for a locate that is not listed. -/
theorem report_shows_market_sample :
    ∃ state snapshot, Receiving.run (loudEnv .debug) (fun _ => true)
        [Receiving.datagramOf 7 [directoryOf1, buy100 1], Receiving.datagramOf 9 [buy100 2]]
        (MessageHandler.new none : MessageHandler HashMapRegistry) = some state ∧
      Snapshot.capture .debug asStored state.handler 5 = some snapshot ∧
      Reports (Market.after none [directoryOf1, buy100 1, buy100 2]) 5 snapshot := by
  have heard : heard [Receiving.datagramOf 7 [directoryOf1, buy100 1],
      Receiving.datagramOf 9 [buy100 2]] = [directoryOf1, buy100 1, buy100 2] := by
    decide +kernel
  have report := report_shows_market (R := HashMapRegistry) (loudEnv .debug) rfl (fun _ => true)
    none [Receiving.datagramOf 7 [directoryOf1, buy100 1], Receiving.datagramOf 9 [buy100 2]]
    (by decide +kernel)
    (.of_short (by rw [heard]; decide +kernel) (fun _ _ _ _ => trivial) (by rw [heard]; decide))
    asStored 5
  rwa [heard] at report

end Hftrs.App
