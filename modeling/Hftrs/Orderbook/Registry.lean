import Hftrs.Orderbook.Book

/-! Registries of order books by stock locate. Locates (`u16`) and packed symbols (`u64`) are
natural numbers. -/
namespace Hftrs.Orderbook

/-- A registry. `getMut` gives the book together with the registry that a write through the
reference leaves; a registration that panics is `none`. -/
class Registry (R : Type) where
  new : R
  getSymbol : R → Nat → Option Nat
  get : R → Nat → Option OrderBook
  getMut : R → Nat → Option (OrderBook × (OrderBook → R))
  register : R → Nat → Nat → Option R
  len : Profile → R → Option Nat

/-- Both maps have the same locates, so that the assertion of `len` holds. -/
structure HashMapRegistry where
  books : Std.ExtTreeMap Nat OrderBook compare
  symbols : Std.ExtTreeMap Nat Nat compare
  keys : ∀ locate, locate ∈ books ↔ locate ∈ symbols
  sizes : books.size = symbols.size

namespace HashMapRegistry

def new : HashMapRegistry := ⟨∅, ∅, by simp, by simp⟩

/-- The capacity only sizes the allocation. -/
def withCapacity (_cap : Nat) : HashMapRegistry := new

def getSymbol (registry : HashMapRegistry) (locate : Nat) : Option Nat :=
  registry.symbols[locate]?

def get (registry : HashMapRegistry) (locate : Nat) : Option OrderBook := registry.books[locate]?

/-- The write through the reference that `get_mut` returns. -/
def write (registry : HashMapRegistry) (locate : Nat) (present : locate ∈ registry.books)
    (book : OrderBook) : HashMapRegistry where
  books := registry.books.insert locate book
  symbols := registry.symbols
  keys := by
    intro l
    rw [Std.ExtTreeMap.mem_insert, Std.LawfulEqCmp.compare_eq_iff_eq, ← registry.keys]
    constructor
    · rintro (rfl | old)
      · exact present
      · exact old
    · exact Or.inr
  sizes := by
    have contained := Std.ExtTreeMap.mem_iff_contains.mp present
    rw [Std.ExtTreeMap.size_insert, if_pos contained, registry.sizes]

def getMut (registry : HashMapRegistry) (locate : Nat) :
    Option (OrderBook × (OrderBook → HashMapRegistry)) :=
  if present : locate ∈ registry.books then
    some (registry.books[locate], registry.write locate present)
  else none

/-- Create an entry for a stock locate, or start it over. -/
def register (registry : HashMapRegistry) (locate symbol : Nat) : HashMapRegistry where
  books := registry.books.insert locate OrderBook.new
  -- `insert` replaces: a book that was there is lost
  symbols := registry.symbols.insert locate symbol
  keys := by
    intro l
    rw [Std.ExtTreeMap.mem_insert, Std.ExtTreeMap.mem_insert, registry.keys]
  sizes := by
    have same : registry.books.contains locate = registry.symbols.contains locate := by
      rw [Bool.eq_iff_iff, ← Std.ExtTreeMap.mem_iff_contains, ← Std.ExtTreeMap.mem_iff_contains,
        registry.keys]
    rw [Std.ExtTreeMap.size_insert, Std.ExtTreeMap.size_insert, same, registry.sizes]

def len (profile : Profile) (registry : HashMapRegistry) : Option Nat := do
  profile.debugAssert (registry.books.size = registry.symbols.size)
  return registry.books.size

instance : Registry HashMapRegistry where
  new := new
  getSymbol := getSymbol
  get := get
  getMut := getMut
  register := fun registry locate symbol => some (registry.register locate symbol)
  len := len

variable (registry : HashMapRegistry)

@[simp] theorem get_new (locate : Nat) : new.get locate = none := by simp [new, get]

theorem get_register (locate symbol l : Nat) :
    (registry.register locate symbol).get l =
      if l = locate then some OrderBook.new else registry.get l := by
  by_cases same : l = locate
  · simp [get, register, same]
  · simp [get, register, same, Std.ExtTreeMap.getElem?_insert, Ne.symm same]

theorem getMut_eq_none (locate : Nat) :
    registry.getMut locate = none ↔ registry.get locate = none := by
  simp [getMut, get]

/-- A reference is to the book at the locate, and a write through it leaves the other books. -/
theorem getMut_eq_some {locate : Nat} {book : OrderBook} {put : OrderBook → HashMapRegistry}
    (found : registry.getMut locate = some (book, put)) :
    registry.get locate = some book ∧
      ∀ book' l, (put book').get l = if l = locate then some book' else registry.get l := by
  unfold getMut at found
  split at found
  next present =>
    cases found
    constructor
    · exact Std.ExtTreeMap.getElem?_eq_some_getElem present
    · intro book' l
      by_cases same : l = locate
      · simp [get, write, same]
      · simp [get, write, same, Std.ExtTreeMap.getElem?_insert, Ne.symm same]
  next => cases found

/-- A write through a reference leaves the symbols. -/
theorem getMut_getSymbol {locate : Nat} {book : OrderBook} {put : OrderBook → HashMapRegistry}
    (found : registry.getMut locate = some (book, put)) (book' : OrderBook) :
    (put book').getSymbol = registry.getSymbol := by
  unfold getMut at found
  split at found
  next => cases found; rfl
  next => cases found

/-- Taking the length never trips the assertion. -/
theorem len_isSome (profile : Profile) : len profile registry = some registry.books.size := by
  simp [len, registry.sizes]

end HashMapRegistry

end Hftrs.Orderbook
