import Hftrs.Orderbook.RegistryEquivalence

/-! Which locates the dense registry can register: those it had a slot for from the start. -/
namespace Hftrs.Orderbook

/-- What registering a locate is for. -/
structure VecRegistry.Registers (registry : VecRegistry) (locate symbol : Nat)
    (registry' : VecRegistry) : Prop where
  book : registry'.get locate = some OrderBook.new
  symbol : registry'.getSymbol locate = some symbol
  books : ∀ other, other ≠ locate → registry'.get other = registry.get other
  symbols : ∀ other, other ≠ locate → registry'.getSymbol other = registry.getSymbol other

namespace VecRegistry

variable {registry registry' : VecRegistry} {locate symbol : Nat}

/-- A locate without a slot panics: the vectors grow up to the slot before it, and the write is
past their end. -/
theorem register_outside (registry : VecRegistry) (symbol : Nat)
    (outside : registry.books.length ≤ locate) : registry.register locate symbol = none := by
  rw [register, if_pos outside]
  cases resized : registry.resize locate with
  | none => rfl
  | some grown =>
    have length : grown.books.length = locate := by
      unfold resize at resized
      split at resized
      next => cases resized; exact length_resizeWith _ _
      next => cases resized
    simp only [Option.bind_eq_bind, Option.bind_some, length, Nat.lt_irrefl, if_false]

theorem registers_inside (inside : locate < registry.books.length) (symbol : Nat) :
    ∃ registry', registry.register locate symbol = some registry' ∧
      registry.Registers locate symbol registry' := by
  obtain ⟨registry', registered, books, symbols⟩ := registry.register_inside inside symbol
  have insideSymbols : locate < registry.symbols.length := registry.sameLength ▸ inside
  refine ⟨registry', registered, ?_, ?_, ?_, ?_⟩
  · rw [get, books, join_set _ inside, if_pos rfl]
  · rw [getSymbol, symbols, join_set _ insideSymbols, if_pos rfl]
  · intro other apart
    rw [get, books, join_set _ inside, if_neg apart, get]
  · intro other apart
    rw [getSymbol, symbols, join_set _ insideSymbols, if_neg apart, getSymbol]

/-- The number of slots never changes. -/
theorem length_apply (c : RegistryCall) (applied : c.apply registry = some registry') :
    registry'.books.length = registry.books.length := by
  cases c with
  | register locate symbol =>
    have registered : registry.register locate symbol = some registry' := applied
    by_cases inside : locate < registry.books.length
    · obtain ⟨other, equal, books, _⟩ := registry.register_inside inside symbol
      rw [registered, Option.some.injEq] at equal
      rw [equal, books, List.length_set]
    · rw [registry.register_outside symbol (Nat.le_of_not_lt inside)] at registered
      cases registered
  | mutate locate change =>
    simp only [RegistryCall.apply, Registry.getMut, getMut] at applied
    cases found : registry.get locate with
    | none =>
      rw [found] at applied
      cases applied
      rfl
    | some book =>
      rw [found] at applied
      cases applied
      exact List.length_set

theorem length_applyAll (calls : List RegistryCall)
    (applied : RegistryCall.applyAll registry calls = some registry') :
    registry'.books.length = registry.books.length := by
  induction calls generalizing registry with
  | nil => cases applied; rfl
  | cons c cs ih =>
    obtain ⟨next, first, rest⟩ := Option.bind_eq_some_iff.mp applied
    exact (ih rest).trans (length_apply c first)

/-- In every state of a registry with `cap` slots, a locate can be registered exactly when it is
below `cap`. The registry of `new` has `maxCapacity` slots. -/
theorem registers_iff (cap : Nat) (calls : List RegistryCall) (registry : VecRegistry)
    (reached : RegistryCall.applyAll (withCapacity cap) calls = some registry)
    (locate symbol : Nat) :
    (∃ registry', registry.register locate symbol = some registry' ∧
      registry.Registers locate symbol registry') ↔ locate < cap := by
  have length : registry.books.length = cap :=
    (length_applyAll calls reached).trans List.length_replicate
  constructor
  · rintro ⟨registry', registered, _⟩
    by_contra outside
    rw [registry.register_outside symbol (length ▸ Nat.le_of_not_lt outside)] at registered
    cases registered
  · intro below
    exact registers_inside (length ▸ below) symbol

/-- A locate is registered, and again after its book has been written to. -/
theorem registers_iff_again :
    ∃ registry, RegistryCall.applyAll (withCapacity 3)
        [.register 2 7, .mutate 2 fun _ => ⟨∅, ∅, ∅, ⟨[], 0⟩⟩] = some registry ∧
      ∃ registry', registry.register 2 9 = some registry' ∧
        registry.Registers 2 9 registry' := by
  refine ⟨_, rfl, ?_⟩
  exact (registers_iff 3 [.register 2 7, .mutate 2 fun _ => ⟨∅, ∅, ∅, ⟨[], 0⟩⟩] _ rfl 2 9).mpr
    (by decide)

/-- A registry of any capacity panics at the locate that equals it. -/
theorem register_at_capacity_panics :
    new.register 65535 7 = none ∧ (withCapacity 2).register 2 7 = none :=
  ⟨new.register_outside 7 (Nat.le_of_eq List.length_replicate),
    (withCapacity 2).register_outside 7 (by decide)⟩

end VecRegistry

end Hftrs.Orderbook
