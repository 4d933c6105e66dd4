import Mathlib.Data.List.Pairwise
import Hftrs.Orderbook.Registry

/-! The dense registry: two vectors indexed by stock locate, and the iterator that walks them in
step with a `u16` counter. -/
namespace Hftrs.Orderbook

/-- `u16::MAX`, as the source has it. -/
def maxCapacity : Nat := 65535

/-- The vectors have one length, so that the assertion of `len` holds. -/
structure VecRegistry where
  books : List (Option OrderBook)
  symbols : List (Option Nat)
  sameLength : books.length = symbols.length

namespace VecRegistry

def withCapacity (cap : Nat) : VecRegistry where
  books := List.replicate cap none
  symbols := List.replicate cap none
  sameLength := by rw [List.length_replicate, List.length_replicate]

def new : VecRegistry := withCapacity maxCapacity

/-- `Vec::resize_with(len, Default::default)` on a vector of options. -/
def resizeWith {α : Type} (l : List (Option α)) (len : Nat) : List (Option α) :=
  l.take len ++ List.replicate (len - l.length) none

theorem length_resizeWith {α : Type} (l : List (Option α)) (len : Nat) :
    (resizeWith l len).length = len := by
  rw [resizeWith, List.length_append, List.length_take, List.length_replicate]
  omega

/-- `none` is the failed assertion. -/
def resize (registry : VecRegistry) (newLen : Nat) : Option VecRegistry :=
  if newLen ≤ maxCapacity then
    some {
      books := resizeWith registry.books newLen
      symbols := resizeWith registry.symbols newLen
      sameLength := by rw [length_resizeWith, length_resizeWith] }
  else none

def len (profile : Profile) (registry : VecRegistry) : Option Nat := do
  profile.debugAssert (registry.books.length = registry.symbols.length)
  return registry.books.length

def getSymbol (registry : VecRegistry) (locate : Nat) : Option Nat :=
  (registry.symbols[locate]?).join

def get (registry : VecRegistry) (locate : Nat) : Option OrderBook :=
  (registry.books[locate]?).join

/-- The write through the reference that `get_mut` returns. -/
def write (registry : VecRegistry) (locate : Nat) (book : OrderBook) : VecRegistry where
  books := registry.books.set locate (some book)
  symbols := registry.symbols
  sameLength := by rw [List.length_set, registry.sameLength]

def getMut (registry : VecRegistry) (locate : Nat) :
    Option (OrderBook × (OrderBook → VecRegistry)) :=
  (registry.get locate).map fun book => (book, registry.write locate)

/-- Create an entry for a stock locate, resizing the vectors if needed. -/
def register (registry : VecRegistry) (locate symbol : Nat) : Option VecRegistry := do
  -- a locate past the end resizes to `locate` slots, of which the last is before it
  let registry ← (if registry.books.length ≤ locate then registry.resize locate else some registry)
  -- an index out of range panics
  if locate < registry.books.length then
    return {
      books := registry.books.set locate (some OrderBook.new)
      symbols := registry.symbols.set locate (some symbol)
      sameLength := by rw [List.length_set, List.length_set, registry.sameLength] }
  else none

instance : Registry VecRegistry where
  new := new
  getSymbol := getSymbol
  get := get
  getMut := getMut
  register := register
  len := len

/-- Taking the length never trips the assertion. -/
theorem len_isSome (profile : Profile) (registry : VecRegistry) :
    registry.len profile = some registry.books.length := by
  simp [len, registry.sameLength]

variable (registry : VecRegistry)

theorem get_withCapacity (cap locate : Nat) : (withCapacity cap).get locate = none := by
  rw [get, withCapacity, List.getElem?_replicate]
  split <;> rfl

theorem getSymbol_withCapacity (cap locate : Nat) : (withCapacity cap).getSymbol locate = none := by
  rw [getSymbol, withCapacity, List.getElem?_replicate]
  split <;> rfl

/-- Registering a locate that has a slot. -/
theorem register_inside {locate : Nat} (inside : locate < registry.books.length) (symbol : Nat) :
    ∃ registry', registry.register locate symbol = some registry' ∧
      registry'.books = registry.books.set locate (some OrderBook.new) ∧
      registry'.symbols = registry.symbols.set locate (some symbol) := by
  simp only [register, Nat.not_le.mpr inside, if_false, Option.bind_eq_bind, Option.bind_some,
    inside, if_true]
  exact ⟨_, rfl, rfl, rfl⟩

theorem lt_of_get {locate : Nat} {book : OrderBook} (found : registry.get locate = some book) :
    locate < registry.books.length := by
  by_contra outside
  rw [get, List.getElem?_eq_none (Nat.le_of_not_lt outside)] at found
  cases found

/-- A slot that is written reads as what was written, and the others as before. -/
theorem join_set {α : Type} (l : List (Option α)) {locate : Nat} (inside : locate < l.length)
    (a : α) (other : Nat) :
    ((l.set locate (some a))[other]?).join =
      if other = locate then some a else (l[other]?).join := by
  rw [List.getElem?_set]
  by_cases same : locate = other
  · subst same
    simp [inside]
  · simp [same, Ne.symm same]

end VecRegistry

/-! ### The iterator -/

namespace VecRegistry

/-- An item of the iterator: locate, symbol, book. -/
abbrev Item := Nat × Nat × OrderBook

structure Iter where
  books : List (Option OrderBook)
  symbols : List (Option Nat)
  locate : Nat

def iter (registry : VecRegistry) : Iter := ⟨registry.books, registry.symbols, 0⟩

/-- The loop of `next`. The outer `none` is the overflow of the counter, the inner one the end. -/
def next (profile : Profile) :
    List (Option OrderBook) → List (Option Nat) → Nat → Option (Option (Item × Iter))
  | bookOpt :: books, symbolOpt :: symbols, currentLocate =>
    match profile.add 16 currentLocate 1 with
    | none => none
    | some locate =>
      -- only a slot with both a symbol and a book is yielded
      match symbolOpt, bookOpt with
      | some symbol, some book =>
        some (some ((currentLocate, symbol, book), ⟨books, symbols, locate⟩))
      | _, _ => next profile books symbols locate
  -- either iterator is exhausted
  | _, _, _ => some none

/-- The items that `fuel` calls of `next` yield. -/
def Iter.collect (profile : Profile) : Nat → Iter → Option (List Item)
  | 0, _ => some []
  | fuel + 1, it =>
    match next profile it.books it.symbols it.locate with
    | none => none
    | some none => some []
    | some (some (item, rest)) => (collect profile fuel rest).map (item :: ·)

/-- All items of a registry: every call of `next` takes a slot at least, and one more finds the
end. -/
def items (profile : Profile) (registry : VecRegistry) : Option (List Item) :=
  registry.iter.collect profile (registry.books.length + 1)

/-- The items of the slots from `locate` on. -/
def slots : List (Option OrderBook) → List (Option Nat) → Nat → List Item
  | bookOpt :: books, symbolOpt :: symbols, locate =>
    match symbolOpt, bookOpt with
    | some symbol, some book => (locate, symbol, book) :: slots books symbols (locate + 1)
    | _, _ => slots books symbols (locate + 1)
  | _, _, _ => []

/-- `next` yields the first item of the slots, with the counter at the index behind its slot, or
finds the end when they have none. -/
def Yields (profile : Profile) (books : List (Option OrderBook)) (symbols : List (Option Nat))
    (locate : Nat) : Prop :=
  (next profile books symbols locate = some none ∧ slots books symbols locate = []) ∨
    ∃ item it, next profile books symbols locate = some (some (item, it)) ∧
      slots books symbols locate = item :: slots it.books it.symbols it.locate ∧
      it.books.length = it.symbols.length ∧ it.books.length < books.length ∧
      it.locate + it.books.length = locate + books.length

theorem next_spec (profile : Profile) (books : List (Option OrderBook))
    (symbols : List (Option Nat)) (locate : Nat) (same : books.length = symbols.length)
    (fits : locate + books.length < 2 ^ 16) : Yields profile books symbols locate := by
  -- on the slots: one that yields nothing is passed with the counter one further
  induction books generalizing symbols locate with
  | nil => exact .inl ⟨by simp [next], by simp [slots]⟩
  | cons bookOpt books ih =>
    cases symbols with
    | nil => cases same
    | cons symbolOpt symbols =>
      have equal := Nat.succ.inj same
      rw [List.length_cons] at fits
      have counted : profile.add 16 locate 1 = some (locate + 1) := profile.add_eq (by omega)
      have passed (turn : next profile (bookOpt :: books) (symbolOpt :: symbols) locate =
            next profile books symbols (locate + 1))
          (kept : slots (bookOpt :: books) (symbolOpt :: symbols) locate =
            slots books symbols (locate + 1)) :
          Yields profile (bookOpt :: books) (symbolOpt :: symbols) locate := by
        rw [Yields, turn, kept]
        refine (ih symbols (locate + 1) equal (by omega)).imp_right ?_
        rintro ⟨item, it, yielded, items, same, shorter, index⟩
        exact ⟨item, it, yielded, items, same, Nat.lt_succ_of_lt shorter,
          by rw [List.length_cons]; omega⟩
      cases symbolOpt with
      | none => exact passed (by simp only [next, counted]) (by simp only [slots])
      | some symbol =>
        cases bookOpt with
        | none => exact passed (by simp only [next, counted]) (by simp only [slots])
        | some book =>
          refine .inr ⟨(locate, symbol, book), ⟨books, symbols, locate + 1⟩, ?_, ?_, equal, ?_, ?_⟩
          · simp only [next, counted]
          · simp only [slots]
          · exact Nat.lt_succ_self _
          · simp only [List.length_cons]
            omega

theorem collect_spec (profile : Profile) (fuel : Nat) (it : Iter)
    (same : it.books.length = it.symbols.length) (fits : it.locate + it.books.length < 2 ^ 16)
    (enough : it.books.length < fuel) :
    it.collect profile fuel = some (slots it.books it.symbols it.locate) := by
  induction fuel generalizing it with
  | zero => exact absurd enough (Nat.not_lt_zero _)
  | succ fuel ih =>
    rw [Iter.collect]
    rcases next_spec profile it.books it.symbols it.locate same fits with
      ⟨ended, items⟩ | ⟨item, rest, yielded, items, same', shorter, index⟩
    · rw [ended, items]
    · simp only [yielded]
      rw [items, ih rest same' (by omega) (by omega), Option.map_some]

/-- The counter of an item is the index of its slot. -/
theorem mem_slots (books : List (Option OrderBook)) (symbols : List (Option Nat)) (start : Nat)
    (locate symbol : Nat) (book : OrderBook) :
    (locate, symbol, book) ∈ slots books symbols start ↔
      start ≤ locate ∧ symbols[locate - start]? = some (some symbol) ∧
        books[locate - start]? = some (some book) := by
  induction books generalizing symbols start with
  | nil => simp [slots]
  | cons bookOpt books ih =>
    cases symbols with
    | nil => simp [slots]
    | cons symbolOpt symbols =>
      rcases Nat.lt_trichotomy locate start with below | rfl | above
      · -- before the first slot there is nothing
        have absent : ¬start + 1 ≤ locate := by omega
        have absent' : ¬start ≤ locate := by omega
        cases symbolOpt <;> cases bookOpt <;> simp [slots, ih, absent, absent', Nat.ne_of_lt below]
      · cases symbolOpt <;> cases bookOpt <;> simp [slots, ih, eq_comm]
      · obtain ⟨i, rfl⟩ : ∃ i, locate = start + 1 + i := ⟨locate - (start + 1), by omega⟩
        have index : start + 1 + i - start = i + 1 := by omega
        have index' : start + 1 + i - (start + 1) = i := by omega
        have reached : start ≤ start + 1 + i := by omega
        have other : start + 1 + i ≠ start := by omega
        cases symbolOpt <;> cases bookOpt <;> simp [slots, ih, index, index', reached, other]

/-- The items come in strictly ascending order of locate. -/
theorem slots_ascending (books : List (Option OrderBook)) (symbols : List (Option Nat))
    (start : Nat) : (slots books symbols start).Pairwise fun a b => a.1 < b.1 := by
  induction books generalizing symbols start with
  | nil => simp [slots]
  | cons bookOpt books ih =>
    cases symbols with
    | nil => simp [slots]
    | cons symbolOpt symbols =>
      cases symbolOpt with
      | none => exact ih symbols (start + 1)
      | some symbol =>
        cases bookOpt with
        | none => exact ih symbols (start + 1)
        | some book =>
          refine List.pairwise_cons.mpr ⟨?_, ih symbols (start + 1)⟩
          rintro ⟨locate, symbol', book'⟩ member
          exact ((mem_slots books symbols (start + 1) locate symbol' book').mp member).1

end VecRegistry

end Hftrs.Orderbook
