import Hftrs.Orderbook.Registration

/-! Registries with their iteration, in whatever order it goes. -/
namespace Hftrs.Orderbook

open Hftrs.Library

/-- A registry that can be iterated. `Valid` holds of a new registry and of what registering and
writing lead to. -/
class IterRegistry (R : Type) extends Registry R where
  /-- What decides the order of an iteration. -/
  Order : Type
  /-- All items of an iteration; `none` is a panic. -/
  iter : Profile → Order → R → Option (List VecRegistry.Item)
  Valid : R → Prop
  valid_new : Valid new
  getSymbol_new (locate : Nat) : getSymbol new locate = none
  valid_register {registry registry' : R} {locate symbol : Nat} :
    Valid registry → locate < 2 ^ 16 → register registry locate symbol = some registry' →
      Valid registry'
  valid_put {registry : R} {locate : Nat} {book : OrderBook} {put : OrderBook → R} :
    Valid registry → getMut registry locate = some (book, put) → ∀ book',
      Valid (put book') ∧ getSymbol (put book') = getSymbol registry
  small {registry : R} {locate symbol : Nat} :
    Valid registry → getSymbol registry locate = some symbol → locate < 2 ^ 16
  /-- An iteration yields every symbol once. -/
  iter_spec {registry : R} (profile : Profile) (order : Order) :
    Valid registry → ∃ items, iter profile order registry = some items ∧
      (items.map Prod.fst).Nodup ∧
      ∀ locate symbol, (∃ book, (locate, symbol, book) ∈ items) ↔
        getSymbol registry locate = some symbol

/-! ### The maps -/

namespace HashMapRegistry

/-- A walk of the symbols in any order yields each once. -/
theorem items_spec (registry : HashMapRegistry) (walk : List (Nat × Nat))
    (walked : walk.Perm registry.symbols.toList) :
    ∃ items, registry.items walk = some items ∧ (items.map Prod.fst).Nodup ∧
      ∀ locate symbol, (∃ book, (locate, symbol, book) ∈ items) ↔
        registry.getSymbol locate = some symbol := by
  obtain ⟨items, collected, entries, _⟩ :=
    Registered.items_of_walk registry walk fun entry member => walked.subset member
  refine ⟨items, collected, ?_, fun locate symbol => ?_⟩
  · have locates : items.map Prod.fst = walk.map Prod.fst := by
      rw [← entries, List.map_map]
      rfl
    rw [locates, (walked.map Prod.fst).nodup_iff, Std.ExtTreeMap.map_fst_toList_eq_keys]
    exact Std.ExtTreeMap.nodup_keys
  · have listed : (locate, symbol) ∈ walk ↔ registry.getSymbol locate = some symbol :=
      walked.mem_iff.trans Std.ExtTreeMap.mem_toList_iff_getElem?_eq_some
    rw [← listed, ← entries, List.mem_map]
    constructor
    · rintro ⟨book, member⟩
      exact ⟨_, member, rfl⟩
    · rintro ⟨⟨l, s, book⟩, member, equal⟩
      cases equal
      exact ⟨book, member⟩

end HashMapRegistry

/-- The maps are walked in any order. -/
instance : IterRegistry HashMapRegistry where
  Order := { walk : List (Nat × Nat) → List (Nat × Nat) // ∀ l, (walk l).Perm l }
  iter := fun _ order registry => registry.items (order.1 registry.symbols.toList)
  Valid := fun registry => ∀ locate ∈ registry.symbols, locate < 2 ^ 16
  valid_new := by
    intro locate member
    simp [Registry.new, HashMapRegistry.new] at member
  getSymbol_new := by simp [Registry.getSymbol, Registry.new, HashMapRegistry.getSymbol,
    HashMapRegistry.new]
  valid_register := by
    intro registry registry' locate symbol valid small registered
    cases registered
    intro other member
    rw [HashMapRegistry.register, Std.ExtTreeMap.mem_insert,
      Std.LawfulEqCmp.compare_eq_iff_eq] at member
    rcases member with rfl | old
    · exact small
    · exact valid other old
  valid_put := by
    intro registry locate book put valid found book'
    have symbols := registry.getMut_getSymbol found book'
    refine ⟨fun other member => valid other ?_, symbols⟩
    have same := congrFun symbols other
    unfold HashMapRegistry.getSymbol at same
    rwa [Std.ExtTreeMap.mem_iff_isSome_getElem?, same,
      ← Std.ExtTreeMap.mem_iff_isSome_getElem?] at member
  small := by
    intro registry locate symbol valid found
    have stored : registry.symbols[locate]? = some symbol := found
    refine valid locate ?_
    rw [Std.ExtTreeMap.mem_iff_isSome_getElem?, stored]
    rfl
  iter_spec := fun {registry} _ order _ =>
    registry.items_spec _ (order.2 registry.symbols.toList)

/-- The maps walked as they are stored. -/
def asStored : IterRegistry.Order HashMapRegistry := ⟨id, List.Perm.refl⟩

/-! ### The dense registry -/

namespace VecRegistry

/-- A slot is empty in both vectors or in none. -/
def Paired (registry : VecRegistry) : Prop :=
  ∀ locate, (registry.get locate).isSome = (registry.getSymbol locate).isSome

variable {registry registry' : VecRegistry}

theorem Paired.register {locate symbol : Nat} (paired : registry.Paired)
    (registered : registry.register locate symbol = some registry') : registry'.Paired := by
  have inside : locate < registry.books.length := by
    by_contra outside
    rw [registry.register_outside symbol (Nat.le_of_not_lt outside)] at registered
    cases registered
  obtain ⟨other, equal, registers⟩ := registers_inside inside symbol
  rw [registered, Option.some.injEq] at equal
  subst equal
  intro l
  by_cases same : l = locate
  · rw [same, registers.book, registers.symbol]
    rfl
  · rw [registers.books l same, registers.symbols l same]
    exact paired l

theorem Paired.write {locate : Nat} {book : OrderBook} (paired : registry.Paired)
    (found : registry.get locate = some book) (book' : OrderBook) :
    (registry.write locate book').Paired := by
  intro l
  have symbols : (registry.write locate book').getSymbol l = registry.getSymbol l := rfl
  have books : (registry.write locate book').get l =
      if l = locate then some book' else registry.get l :=
    join_set _ (registry.lt_of_get found) book' l
  rw [symbols, books, ← paired]
  by_cases same : l = locate
  · rw [if_pos same, same, found]
    rfl
  · rw [if_neg same]

/-- Every symbol is yielded once. -/
theorem items_spec (profile : Profile) (small : registry.books.length ≤ maxCapacity)
    (paired : registry.Paired) :
    ∃ items, registry.items profile = some items ∧ (items.map Prod.fst).Nodup ∧
      ∀ locate symbol, (∃ book, (locate, symbol, book) ∈ items) ↔
        registry.getSymbol locate = some symbol := by
  have collected : registry.items profile =
      some (slots registry.books registry.symbols 0) := by
    refine collect_spec profile _ registry.iter registry.sameLength ?_ (Nat.lt_succ_self _)
    have bound : registry.books.length ≤ 65535 := small
    simp only [iter]
    omega
  refine ⟨_, collected, ?_, fun locate symbol => ?_⟩
  · exact List.Pairwise.map _ (fun _ _ below => Nat.ne_of_lt below)
      (slots_ascending registry.books registry.symbols 0)
  · simp only [mem_slots, Nat.zero_le, true_and, Nat.sub_zero]
    have stored : registry.getSymbol locate = some symbol ↔
        registry.symbols[locate]? = some (some symbol) := Option.join_eq_some_iff
    rw [← stored]
    constructor
    · rintro ⟨book, found, _⟩
      exact found
    · intro found
      have present := paired locate
      rw [found, Option.isSome_some, Option.isSome_iff_exists] at present
      obtain ⟨book, present⟩ := present
      exact ⟨book, found, Option.join_eq_some_iff.mp present⟩

end VecRegistry

/-- The slots of `new`, walked from the first on. -/
instance : IterRegistry VecRegistry where
  Order := Unit
  iter := fun profile _ registry => registry.items profile
  Valid := fun registry => registry.books.length = maxCapacity ∧ registry.Paired
  valid_new := by
    refine ⟨List.length_replicate, fun locate => ?_⟩
    have book : VecRegistry.new.get locate = none := VecRegistry.get_withCapacity _ _
    have symbol : VecRegistry.new.getSymbol locate = none := VecRegistry.getSymbol_withCapacity _ _
    simp only [Registry.new, book, symbol, Option.isSome_none]
  getSymbol_new := VecRegistry.getSymbol_withCapacity maxCapacity
  valid_register := by
    rintro registry registry' locate symbol ⟨slots, paired⟩ _ registered
    exact ⟨(VecRegistry.length_apply (.register locate symbol) registered).trans slots,
      paired.register registered⟩
  valid_put := by
    rintro registry locate book put ⟨slots, paired⟩ found book'
    obtain ⟨here, stored, equal⟩ := Option.map_eq_some_iff.mp found
    cases equal
    exact ⟨⟨List.length_set.trans slots, paired.write stored book'⟩, rfl⟩
  small := by
    rintro registry locate symbol ⟨slots, _⟩ found
    have stored : registry.symbols[locate]? = some (some symbol) := Option.join_eq_some_iff.mp found
    have inside := (List.getElem?_eq_some_iff.mp stored).1
    rw [← registry.sameLength, slots] at inside
    exact Nat.lt_of_lt_of_le inside (by decide)
  iter_spec := fun profile _ valid =>
    VecRegistry.items_spec profile (Nat.le_of_eq valid.1) valid.2

end Hftrs.Orderbook
