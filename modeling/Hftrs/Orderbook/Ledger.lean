import Hftrs.Orderbook.Errors
import Hftrs.Orderbook.Exhausted
import Hftrs.Orderbook.Queries

/-! Conservation of quantity: what comes into the book is traded, cancelled, removed or still
there. -/
namespace Hftrs.Orderbook

open Hftrs.Library

/-- Quantities moved by calls of the book. -/
@[ext] structure Ledger where
  /-- of successful adds, and new quantities of successful replaces -/
  added : Nat := 0
  /-- of returned trades -/
  traded : Nat := 0
  /-- of successful cancels -/
  cancelled : Nat := 0
  /-- remaining on orders taken out by a delete or by a replace, successful or not -/
  removed : Nat := 0
  deriving DecidableEq, Repr

namespace Ledger

instance : Add Ledger where
  add a b := ⟨a.added + b.added, a.traded + b.traded, a.cancelled + b.cancelled,
    a.removed + b.removed⟩

@[simp] theorem add_added (a b : Ledger) : (a + b).added = a.added + b.added := rfl
@[simp] theorem add_traded (a b : Ledger) : (a + b).traded = a.traded + b.traded := rfl
@[simp] theorem add_cancelled (a b : Ledger) : (a + b).cancelled = a.cancelled + b.cancelled :=
  rfl
@[simp] theorem add_removed (a b : Ledger) : (a + b).removed = a.removed + b.removed := rfl

theorem zero_add (a : Ledger) : {} + a = a := by
  ext <;> simp

theorem add_assoc (a b c : Ledger) : a + b + c = a + (b + c) := by
  ext <;> simp [Nat.add_assoc]

/-- Everything that has left the book. -/
def out (ledger : Ledger) : Nat := ledger.traded + ledger.cancelled + ledger.removed

end Ledger

namespace OrderBook

/-- What one call moves, by its reply and by what rests under an id when it is made. -/
def movement (remaining : Nat → Nat) (c : Call) (reply : Reply) : Ledger :=
  match c, reply with
  | .add order, .unit (.ok _) => { added := order.qty }
  | .execute .., .trade (.ok trade) => { traded := trade.qty }
  | .executeAt .., .trade (.ok trade) => { traded := trade.qty }
  | .cancel _ qty, .unit (.ok _) => { cancelled := qty }
  | .delete id, .unit (.ok _) => { removed := remaining id }
  | .replace oldId _ _ newQty _, .unit (.ok _) => { added := newQty, removed := remaining oldId }
  -- a failed replace of a live order has removed it
  | .replace oldId .., .unit (.error _) => { removed := remaining oldId }
  | _, _ => {}

/-- The quantity that rests under an id. -/
def remaining (book : OrderBook) (id : Nat) : Nat := ((book.resting id).map Order.qty).getD 0

/-- What a run of calls moves. -/
def ledger (profile : Profile) : OrderBook → List Call → Ledger
  | _, [] => {}
  | book, c :: cs =>
    match book.call profile c with
    | none => {}
    | some (reply, book') => movement book.remaining c reply + ledger profile book' cs

/-- The sum of `total_qty` over all levels of both sides. -/
def total (book : OrderBook) : Nat :=
  ((book.ladder .bid).map Prod.snd).sum + ((book.ladder .ask).map Prod.snd).sum

end OrderBook

/-! ### The reference book's account -/

open OrderBook

/-- A quantity that counts when the call succeeded. -/
def granted {α : Type} (result : Except BookError α) (qty : Nat) : Nat :=
  match result with
  | .ok _ => qty
  | .error _ => 0

@[simp] theorem granted_ok {α : Type} (a : α) (qty : Nat) : granted (.ok a) qty = qty := rfl

@[simp] theorem granted_error {α : Type} (e : BookError) (qty : Nat) :
    granted (.error e : Except BookError α) qty = 0 := rfl

namespace RefBook

def total (ref : RefBook) : Nat := tally volume ref.bids + tally volume ref.asks

def remaining (ref : RefBook) (id : Nat) : Nat :=
  match ref.find? id with
  | none => 0
  | some (_, _, e) => e.qty

/-- A queue that is stored exchanges its volume for the new one. -/
theorem total_setQueue (ref : RefBook) (s : Side) (price : Int) (l : List Entry) :
    (ref.setQueue s price l).total + volume (ref.queue s price) = ref.total + volume l := by
  have exchanged (m : Queues) :
      tally volume (if l = [] then m.erase price else m.insert price l) +
        volume (m[price]?.getD []) = tally volume m + volume l := by
    have old : volume (m[price]?.getD []) = (m[price]?.map volume).getD 0 := by
      cases m[price]? <;> rfl
    rw [old]
    split
    next none => rw [none, tally_erase]; rfl
    next => rw [tally_insert_eq]
  cases s with
  | bid =>
    have side := exchanged ref.bids
    simp only [total, setQueue, setSide, queue, RefBook.side]
    omega
  | ask =>
    have side := exchanged ref.asks
    simp only [total, setQueue, setSide, queue, RefBook.side]
    omega

private theorem volume_append (l l' : List Entry) :
    volume (l ++ l') = volume l + volume l' := by
  simp [volume]

/-- The entries of a queue around one of them have other ids. -/
private theorem split_at {l : List Entry} (nodup : (l.map Entry.id).Nodup) {e : Entry}
    (member : e ∈ l) : ∃ l₁ l₂, l = l₁ ++ e :: l₂ ∧ ∀ f ∈ l₁ ++ l₂, f.id ≠ e.id := by
  obtain ⟨l₁, l₂, rfl⟩ := List.append_of_mem member
  refine ⟨l₁, l₂, rfl, fun f inside same => ?_⟩
  rw [List.map_append, List.map_cons, List.nodup_middle, List.nodup_cons, ← List.map_append]
    at nodup
  exact nodup.1 (List.mem_map.mpr ⟨f, inside, same⟩)

theorem volume_filter {l : List Entry} (nodup : (l.map Entry.id).Nodup) {e : Entry}
    (member : e ∈ l) : volume (l.filter fun f => f.id ≠ e.id) + e.qty = volume l := by
  obtain ⟨l₁, l₂, rfl, others⟩ := split_at nodup member
  have kept : ∀ part : List Entry, (∀ f ∈ part, f ∈ l₁ ++ l₂) →
      part.filter (fun f => f.id ≠ e.id) = part := by
    intro part inside
    rw [List.filter_eq_self]
    exact fun f here => decide_eq_true (others f (inside f here))
  rw [List.filter_append, List.filter_cons_of_neg (by simp),
    kept l₁ fun f here => List.mem_append_left _ here,
    kept l₂ fun f here => List.mem_append_right _ here]
  simp only [volume, List.map_append, List.map_cons, List.sum_append, List.sum_cons]
  omega

theorem volume_taken {l : List Entry} (nodup : (l.map Entry.id).Nodup) {e : Entry}
    (member : e ∈ l) {qty : Nat} (enough : qty ≤ e.qty) :
    volume (l.map fun f => if f.id = e.id then { f with qty := f.qty - qty } else f) + qty =
      volume l := by
  obtain ⟨l₁, l₂, rfl, others⟩ := split_at nodup member
  have kept : ∀ part : List Entry, (∀ f ∈ part, f ∈ l₁ ++ l₂) →
      (part.map fun f => if f.id = e.id then { f with qty := f.qty - qty } else f) = part := by
    intro part inside
    refine (List.map_congr_left fun f here => ?_).trans (List.map_id part)
    exact if_neg (others f (inside f here))
  rw [List.map_append, List.map_cons, kept l₁ fun f here => List.mem_append_left _ here,
    kept l₂ fun f here => List.mem_append_right _ here]
  simp only [volume, if_true, List.map_append, List.map_cons, List.sum_append, List.sum_cons]
  omega

/-- Every queue lists its ids once. -/
def Distinct (ref : RefBook) : Prop := ∀ s price, ((ref.queue s price).map Entry.id).Nodup

variable {ref : RefBook}

theorem total_remove (distinct : ref.Distinct) {id : Nat} {s : Side} {price : Int} {e : Entry}
    (found : ref.find? id = some (s, price, e)) :
    (ref.remove s price id).total + e.qty = ref.total := by
  obtain ⟨member, rfl⟩ := ref.find?_some id s price e found
  have exchanged := ref.total_setQueue s price ((ref.queue s price).filter fun f => f.id ≠ e.id)
  have left := volume_filter (distinct s price) member
  rw [remove]
  omega

theorem total_add (ref : RefBook) (order : Order) :
    (ref.add order).2.total = ref.total + granted (ref.add order).1 order.qty := by
  unfold add
  cases ref.find? order.id with
  | some hit => rfl
  | none =>
    have exchanged := ref.total_setQueue order.side order.price
      (ref.queue order.side order.price ++ [⟨order.id, order.qty, order.ts⟩])
    have one : volume [⟨order.id, order.qty, order.ts⟩] = order.qty := by simp [volume]
    rw [volume_append, one] at exchanged
    simp only [granted_ok]
    omega

/-- An entry without quantity leaves the total as it is. -/
private theorem total_remove_taken (distinct : ref.Distinct) {s : Side} {price : Int} {e : Entry}
    (member : e ∈ ref.queue s price) {qty : Nat} (last : e.qty = qty) :
    ((ref.setQueue s price ((ref.queue s price).map fun f =>
      if f.id = e.id then { f with qty := f.qty - qty } else f)).remove s price e.id).total =
    (ref.setQueue s price ((ref.queue s price).map fun f =>
      if f.id = e.id then { f with qty := f.qty - qty } else f)).total := by
  obtain ⟨l, taken⟩ : ∃ l, l = (ref.queue s price).map fun f =>
    if f.id = e.id then { f with qty := f.qty - qty } else f := ⟨_, rfl⟩
  have ids : l.map Entry.id = (ref.queue s price).map Entry.id := by
    rw [taken, List.map_map]
    apply List.map_congr_left
    intro f _
    rw [Function.comp_apply]
    split <;> rfl
  have inside : { e with qty := e.qty - qty } ∈ l := by
    rw [taken]
    exact List.mem_map.mpr ⟨e, member, if_pos rfl⟩
  have dropped := volume_filter (ids ▸ distinct s price) inside
  have exchanged := (ref.setQueue s price l).total_setQueue s price
    (l.filter fun f => f.id ≠ e.id)
  rw [← taken, remove]
  simp only [queue_setQueue, and_self, if_true] at exchanged ⊢
  simp only at dropped
  omega

theorem total_reduce {α : Type} (distinct : ref.Distinct) (id qty : Nat)
    (excess : Nat → BookError) (done : Int → α) :
    (ref.reduce id qty excess done).2.total + granted (ref.reduce id qty excess done).1 qty =
      ref.total := by
  unfold reduce
  cases found : ref.find? id with
  | none => rfl
  | some hit =>
    obtain ⟨s, price, e⟩ := hit
    obtain ⟨member, rfl⟩ := ref.find?_some id s price e found
    by_cases exceeds : e.qty < qty
    · simp only [exceeds, if_true]
      rfl
    · have enough : qty ≤ e.qty := Nat.le_of_not_lt exceeds
      have taken := volume_taken (distinct s price) member enough
      have exchanged := ref.total_setQueue s price ((ref.queue s price).map fun f =>
        if f.id = e.id then { f with qty := f.qty - qty } else f)
      simp only [exceeds, if_false, granted_ok]
      split
      next last =>
        rw [total_remove_taken distinct member last]
        omega
      next => omega

private theorem execute_qty (ref : RefBook) (id qty ts : Nat) (print : Option Int)
    (trade : Trade) (traded : (ref.execute id qty ts print).1 = .ok trade) : trade.qty = qty := by
  unfold execute reduce at traded
  split at traded
  next => cases traded
  next =>
    split at traded
    next => cases traded
    next => cases traded; rfl

/-- What leaves with a removed order. -/
private theorem total_delete (distinct : ref.Distinct) (id : Nat) :
    (ref.delete id).2.total + granted (ref.delete id).1 (ref.remaining id) = ref.total := by
  unfold delete remaining
  cases found : ref.find? id with
  | none => rfl
  | some hit => exact total_remove distinct found

/-- A replaced order leaves whether or not the new one joins. -/
private theorem total_replace (distinct : ref.Distinct) (oldId newId : Nat) (newPrice : Int)
    (newQty ts : Nat) :
    (ref.replace oldId newId newPrice newQty ts).2.total + ref.remaining oldId =
      ref.total + granted (ref.replace oldId newId newPrice newQty ts).1 newQty := by
  unfold replace remaining
  cases found : ref.find? oldId with
  | none => rfl
  | some hit =>
    obtain ⟨s, price, e⟩ := hit
    have left := total_remove distinct found
    have joined := (ref.remove s price oldId).total_add
      { id := newId, side := s, price := newPrice, qty := newQty, ts }
    simp only at left joined ⊢
    omega

private theorem execute_balances (distinct : ref.Distinct) (id qty ts : Nat)
    (print : Option Int) :
    (ref.execute id qty ts print).2.total +
      (match (ref.execute id qty ts print).1 with
        | .ok trade => trade.qty
        | .error _ => 0) = ref.total := by
  have taken : (ref.execute id qty ts print).2.total + granted (ref.execute id qty ts print).1 qty =
    ref.total := total_reduce distinct id qty (fun avail => .overExecute id qty avail) _
  cases answered : (ref.execute id qty ts print).1 with
  | error e => rwa [answered] at taken
  | ok trade =>
    rw [answered, granted_ok] at taken
    simp only [execute_qty ref id qty ts print trade answered, taken]

/-- The account of one call balances: what was there and what came in is what has left and what
is there. -/
theorem call_balances (distinct : ref.Distinct) (c : Call) :
    (ref.call c).2.total + (movement ref.remaining c (ref.call c).1).out =
      ref.total + (movement ref.remaining c (ref.call c).1).added := by
  cases c with
  | add order =>
    have grown := ref.total_add order
    simp only [RefBook.call, Prod.map]
    cases answered : (ref.add order).1 <;> rw [answered] at grown <;>
      simp only [movement, Ledger.out, granted] at grown ⊢ <;> omega
  | execute id qty ts =>
    have taken := execute_balances distinct id qty ts none
    simp only [RefBook.call, Prod.map]
    cases answered : (ref.execute id qty ts none).1 <;> rw [answered] at taken <;>
      simp only [movement, Ledger.out] at taken ⊢ <;> omega
  | executeAt id qty price ts =>
    have taken := execute_balances distinct id qty ts (some price)
    simp only [RefBook.call, Prod.map]
    cases answered : (ref.execute id qty ts (some price)).1 <;> rw [answered] at taken <;>
      simp only [movement, Ledger.out] at taken ⊢ <;> omega
  | cancel id qty =>
    have taken : (ref.cancel id qty).2.total + granted (ref.cancel id qty).1 qty = ref.total :=
      total_reduce distinct id qty (fun avail => .overCancel id qty avail) fun _ => ()
    simp only [RefBook.call, Prod.map]
    cases answered : (ref.cancel id qty).1 <;> rw [answered] at taken <;>
      simp only [movement, Ledger.out, granted] at taken ⊢ <;> omega
  | delete id =>
    have left := total_delete distinct id
    simp only [RefBook.call, Prod.map]
    cases answered : (ref.delete id).1 <;> rw [answered] at left <;>
      simp only [movement, Ledger.out, granted] at left ⊢ <;> omega
  | replace oldId newId newPrice newQty ts =>
    have exchanged := total_replace distinct oldId newId newPrice newQty ts
    simp only [RefBook.call, Prod.map]
    cases answered : (ref.replace oldId newId newPrice newQty ts).1 <;>
      rw [answered] at exchanged <;> simp only [movement, Ledger.out, granted] at exchanged ⊢ <;>
      omega

end RefBook

namespace OrderBook

variable {book : OrderBook} {q : Side → Int → List Nat} {ref : RefBook}

namespace Represents

theorem remaining (rep : book.Represents q ref) : book.remaining = ref.remaining := by
  funext id
  unfold OrderBook.remaining RefBook.remaining resting
  cases live : book.orders[id]? with
  | none =>
    rw [rep.find?_missing live]
    rfl
  | some idx =>
    obtain ⟨node, found, _, searched⟩ := rep.find?_live live
    rw [searched, Option.bind_some, Pool.orderAt_of_get found]
    rfl

theorem distinct (rep : book.Represents q ref) : ref.Distinct := by
  intro s price
  rw [rep.lists, List.map_map]
  apply (rep.sound.nodup s price).map_on
  -- two slots of a queue with one id are one slot
  intro i left j right same
  obtain ⟨o, here, _⟩ := (rep.sound.members s price i).mp left
  obtain ⟨o', there, _⟩ := (rep.sound.members s price j).mp right
  rw [Function.comp_apply, Function.comp_apply, Pool.entryAt_of_orderAt here,
    Pool.entryAt_of_orderAt there] at same
  exact rep.sound.slot_eq here there same

theorem book_total (rep : book.Represents q ref) : book.total = ref.total := by
  have side (s : Side) : (book.ladder s).map Prod.snd =
      (ref.side s).toList.map fun entry => volume entry.2 := by
    rw [rep.ladder, RefBook.ladder, List.map_map]
    rfl
  rw [OrderBook.total, side, side]
  rfl

/-- One call, and the balance of its account. -/
theorem call_balances (profile : Profile) (rep : book.Represents q ref) (c : Call)
    (room : book.FindsRoom c) (wire : c.added ≤ maxValue 32) :
    ∃ reply book' q', book.call profile c = some (reply, book') ∧
      book'.Represents q' (ref.call c).2 ∧
      book'.total + (movement book.remaining c reply).out =
        book.total + (movement book.remaining c reply).added := by
  obtain ⟨book', q', stepped, onwards⟩ := rep.call profile c room wire
  refine ⟨_, book', q', stepped, onwards, ?_⟩
  rw [onwards.book_total, rep.book_total, rep.remaining]
  exact RefBook.call_balances rep.distinct c

/-- A run, and the balance of its account. -/
theorem run_balances (profile : Profile) (rep : book.Represents q ref) (calls : List Call)
    (wire : ∀ c ∈ calls, c.added ≤ maxValue 32)
    (room : Along (OrderBook.call profile) FindsRoom book calls) :
    ∃ replies last, run (OrderBook.call profile) book calls = some (replies, last) ∧
      last.total + (ledger profile book calls).out =
        book.total + (ledger profile book calls).added := by
  -- on the calls: each account is added to that of the rest of the run
  induction calls generalizing book q ref with
  | nil => exact ⟨[], book, rfl, rfl⟩
  | cons c cs ih =>
    obtain ⟨reply, book', q', stepped, onwards, one⟩ :=
      rep.call_balances profile c room.1 (wire c (by simp))
    obtain ⟨replies, last, returned, rest⟩ :=
      ih onwards (fun c member => wire c (by simp [member])) (room.2 _ _ stepped)
    refine ⟨reply :: replies, last, ?_, ?_⟩
    · rw [run_cons_of_step _ _ _ _ _ _ stepped, returned]
      rfl
    · simp only [ledger, stepped, Ledger.out, Ledger.add_added, Ledger.add_traded,
        Ledger.add_cancelled, Ledger.add_removed] at one rest ⊢
      omega

end Represents

/-- Conservation of quantity over a run from the empty book: the debug profile needs no
condition, the release profile a pool that does not run out of indices. -/
theorem run_conserves (profile : Profile) (calls : List Call)
    (wire : ∀ c ∈ calls, c.added ≤ maxValue 32) (replies : List Reply) (book : OrderBook)
    (returned : run (call profile) new calls = some (replies, book))
    (room : profile = .release → Along (call .release) FindsRoom new calls) :
    (ledger profile new calls).added =
      (ledger profile new calls).traded + (ledger profile new calls).cancelled +
        (ledger profile new calls).removed + book.total := by
  have along := along_of_run profile calls wire replies book returned room
  obtain ⟨_, last, again, balance⟩ := represents_new.run_balances profile calls wire along
  rw [returned] at again
  cases again
  have empty : new.total = 0 := by decide
  simp only [Ledger.out] at balance
  omega

theorem run_conserves_sample :
    (ledger .release new [.add ⟨1, .bid, 100, 10, 0⟩, .add ⟨2, .ask, 101, 5, 1⟩, .execute 1 4 2,
        .cancel 1 1, .replace 2 1 102 8 3]).added =
      (ledger .release new [.add ⟨1, .bid, 100, 10, 0⟩, .add ⟨2, .ask, 101, 5, 1⟩, .execute 1 4 2,
        .cancel 1 1, .replace 2 1 102 8 3]).traded +
      (ledger .release new [.add ⟨1, .bid, 100, 10, 0⟩, .add ⟨2, .ask, 101, 5, 1⟩, .execute 1 4 2,
        .cancel 1 1, .replace 2 1 102 8 3]).cancelled +
      (ledger .release new [.add ⟨1, .bid, 100, 10, 0⟩, .add ⟨2, .ask, 101, 5, 1⟩, .execute 1 4 2,
        .cancel 1 1, .replace 2 1 102 8 3]).removed +
      ((run (call .release) new [.add ⟨1, .bid, 100, 10, 0⟩, .add ⟨2, .ask, 101, 5, 1⟩,
        .execute 1 4 2, .cancel 1 1, .replace 2 1 102 8 3]).get (by decide)).2.total :=
  run_conserves .release _ (by decide) _ _ (Option.some_get (by decide)).symm
    (fun _ => by decide)

/-! ### Without room -/

theorem ledger_append (profile : Profile) (book last : OrderBook) (calls more : List Call)
    (replies : List Reply) (returned : run (call profile) book calls = some (replies, last)) :
    ledger profile book (calls ++ more) = ledger profile book calls + ledger profile last more := by
  induction calls generalizing book replies with
  | nil =>
    cases returned
    rw [List.nil_append, ledger, Ledger.zero_add]
  | cons c cs ih =>
    obtain ⟨reply, rest, book', rfl, stepped, onwards⟩ := (run_cons_iff _ _ _ _ _ _).mp returned
    simp only [List.cons_append, ledger, stepped, ih book' rest onwards, Ledger.add_assoc]

theorem total_eq (book : OrderBook) :
    book.total = tally Level.totalQty book.bids + tally Level.totalQty book.asks := by
  simp only [total, ladder, tally, List.map_map, sideLevels]
  rfl

/-- With every index taken the law fails: the level of a deleted order takes another order with
it. -/
theorem LoneAsk.unbalanced {book last : OrderBook} {id idx : Nat} (lone : book.LoneAsk id idx)
    (returned : run (call .release) book [.add ⟨NIL, .ask, 1, 1, 0⟩, .delete id] =
      some ([.unit (.ok ()), .unit (.ok ())], last)) :
    last.total + 1 = book.total ∧
      ledger .release book [.add ⟨NIL, .ask, 1, 1, 0⟩, .delete id] =
        { added := 1, removed := 1 } := by
  obtain ⟨last', again, bids, asks, _⟩ := lone.add_delete_release
  rw [returned] at again
  cases again
  constructor
  · have gone := tally_erase Level.totalQty book.asks 1
    simp only [lone.level, Option.map_some, Option.getD_some] at gone
    rw [total_eq, total_eq, bids, asks]
    omega
  · obtain ⟨reply, rest, middle, equal, added, onwards⟩ := (run_cons_iff _ _ _ _ _ _).mp returned
    obtain ⟨reply', rest', end', equal', deleted, _⟩ := (run_cons_iff _ _ _ _ _ _).mp onwards
    cases equal
    cases equal'
    obtain ⟨_, same, full⟩ := lone.add_release
    rw [added] at same
    cases same
    have left : middle.remaining id = 1 := by
      rw [remaining, resting, full.live, Option.bind_some, Pool.orderAt_of_get full.node]
      rfl
    simp only [ledger, added, deleted, movement, left]
    rfl

/-- Conservation fails in the release profile once every slot index is taken. -/
theorem overfull_pool_loses_quantity :
    ∃ calls : List Call, (∀ c ∈ calls, c.added ≤ maxValue 32) ∧
      ∃ replies book, run (call .release) new calls = some (replies, book) ∧
        (ledger .release new calls).added ≠
          (ledger .release new calls).traded + (ledger .release new calls).cancelled +
            (ledger .release new calls).removed + book.total := by
  obtain ⟨n, full⟩ : ∃ n, n + 1 = NIL := ⟨4294967294, rfl⟩
  obtain ⟨along, replies, book, idx, returned, lone⟩ := run_loneAsk .release n full
  obtain ⟨last, more, _⟩ := lone.add_delete_release
  obtain ⟨lost, moved⟩ := lone.unbalanced more
  have balance := run_conserves .release _ (loneAsk_wire n) replies book returned fun _ => along
  refine ⟨_, stranded_wire n, _, last,
    (run_append_iff _ _ _ _ _ _).mpr ⟨_, _, book, rfl, returned, more⟩, ?_⟩
  rw [ledger_append .release new book _ _ replies returned, moved]
  simp only [Ledger.add_added, Ledger.add_traded, Ledger.add_cancelled, Ledger.add_removed]
  omega

end OrderBook

end Hftrs.Orderbook
