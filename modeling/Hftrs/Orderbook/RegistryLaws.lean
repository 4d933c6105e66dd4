import Hftrs.Orderbook.Walks

/-! What registering, writing and iterating do to the books of a registry. -/
namespace Hftrs.Orderbook

/-- A registry that keeps one book for each locate. -/
class LawfulRegistry (R : Type) [IterRegistry R] where
  /-- The locates that can be registered. -/
  HasSlot : R → Nat → Prop
  get_new (locate : Nat) : Registry.get (Registry.new : R) locate = none
  len_isSome (profile : Profile) (registry : R) : (Registry.len profile registry).isSome
  getMut_none {registry : R} {locate : Nat} :
    Registry.getMut registry locate = none → Registry.get registry locate = none
  getMut_some {registry : R} {locate : Nat} {book : OrderBook} {put : OrderBook → R} :
    Registry.getMut registry locate = some (book, put) →
      Registry.get registry locate = some book ∧ ∀ book',
        Registry.get (put book') =
          Function.update (Registry.get registry) locate (some book') ∧
        Registry.getSymbol (put book') = Registry.getSymbol registry ∧
        HasSlot (put book') = HasSlot registry
  register_some {registry : R} {locate : Nat} (symbol : Nat) : HasSlot registry locate →
    ∃ registry', Registry.register registry locate symbol = some registry' ∧
      Registry.get registry' =
        Function.update (Registry.get registry) locate (some OrderBook.new) ∧
      Registry.getSymbol registry' =
        Function.update (Registry.getSymbol registry) locate (some symbol) ∧
      HasSlot registry' = HasSlot registry
  /-- An item of an iteration has the book of its locate. -/
  iter_get {registry : R} {profile : Profile} {order : IterRegistry.Order R}
    {items : List VecRegistry.Item} {locate symbol : Nat} {book : OrderBook} :
    IterRegistry.Valid registry → IterRegistry.iter profile order registry = some items →
      (locate, symbol, book) ∈ items → Registry.get registry locate = some book

theorem update_eq {α : Type} {f g : Nat → α} {k : Nat} {a : α}
    (reads : ∀ l, g l = if l = k then a else f l) : g = Function.update f k a := by
  funext l
  rw [reads, Function.update_apply]

/-! ### The maps -/

theorem HashMapRegistry.some_len (profile : Profile) (registry : HashMapRegistry) :
    (Registry.len profile registry).isSome = true := by
  have sized : Registry.len profile registry = some registry.books.size :=
    registry.len_isSome profile
  rw [sized, Option.isSome_some]

instance : LawfulRegistry HashMapRegistry where
  HasSlot := fun _ _ => True
  get_new := HashMapRegistry.get_new
  len_isSome := HashMapRegistry.some_len
  getMut_none := fun {registry locate} missing =>
    (registry.getMut_eq_none locate).mp missing
  getMut_some := by
    intro registry locate book put found
    obtain ⟨here, written⟩ := registry.getMut_eq_some found
    exact ⟨here, fun book' =>
      ⟨update_eq (written book'), registry.getMut_getSymbol found book', rfl⟩⟩
  register_some := by
    intro registry locate symbol _
    refine ⟨registry.register locate symbol, rfl, ?_, ?_, rfl⟩
    · exact update_eq (registry.get_register locate symbol)
    · refine update_eq fun l => ?_
      change (registry.symbols.insert locate symbol)[l]? = _
      rw [Std.ExtTreeMap.getElem?_insert]
      by_cases same : l = locate
      · simp [same]
      · simp only [same, Std.LawfulEqCmp.compare_eq_iff_eq, Ne.symm same, if_false]
        rfl
  iter_get := by
    intro registry profile order items locate symbol book _ iterated member
    obtain ⟨items', collected, _, books⟩ := Registered.items_of_walk registry
      (order.1 registry.symbols.toList) fun entry inside =>
        (order.2 registry.symbols.toList).subset inside
    have walked : registry.items (order.1 registry.symbols.toList) = some items := iterated
    rw [collected] at walked
    cases walked
    exact books locate symbol book member

/-! ### The dense registry -/

theorem VecRegistry.some_len (profile : Profile) (registry : VecRegistry) :
    (Registry.len profile registry).isSome = true := by
  have sized : Registry.len profile registry = some registry.books.length :=
    VecRegistry.len_isSome profile registry
  rw [sized, Option.isSome_some]

/-- An iteration walks all slots from the first on. -/
theorem VecRegistry.iter_slots (profile : Profile) (order : IterRegistry.Order VecRegistry)
    {registry : VecRegistry} (valid : IterRegistry.Valid registry) :
    IterRegistry.iter profile order registry = some (slots registry.books registry.symbols 0) := by
  have bound : registry.books.length ≤ 65535 := Nat.le_of_eq valid.1
  refine collect_spec profile _ registry.iter registry.sameLength ?_ (Nat.lt_succ_self _)
  simp only [iter]
  omega

instance : LawfulRegistry VecRegistry where
  HasSlot := fun registry locate => locate < registry.books.length
  get_new := VecRegistry.get_withCapacity maxCapacity
  len_isSome := VecRegistry.some_len
  getMut_none := fun missing => Option.map_eq_none_iff.mp missing
  getMut_some := by
    intro registry locate book put found
    obtain ⟨here, stored, equal⟩ := Option.map_eq_some_iff.mp found
    cases equal
    refine ⟨stored, fun book' => ⟨update_eq fun l => ?_, rfl, ?_⟩⟩
    · exact VecRegistry.join_set _ (registry.lt_of_get stored) book' l
    · exact congrArg (fun n locate => locate < n) List.length_set
  register_some := by
    intro registry locate symbol inside
    obtain ⟨registry', registered, registers⟩ := VecRegistry.registers_inside inside symbol
    have length := VecRegistry.length_apply (.register locate symbol) registered
    refine ⟨registry', registered, update_eq fun l => ?_, update_eq fun l => ?_, ?_⟩
    · split
      next same => rw [same]; exact registers.book
      next apart => exact registers.books l apart
    · split
      next same => rw [same]; exact registers.symbol
      next apart => exact registers.symbols l apart
    · exact congrArg (fun n locate => locate < n) length
  iter_get := by
    intro registry profile order items locate symbol book valid iterated member
    rw [VecRegistry.iter_slots profile order valid] at iterated
    cases iterated
    obtain ⟨_, _, stored⟩ := (VecRegistry.mem_slots _ _ _ _ _ _).mp member
    exact Option.join_eq_some_iff.mpr stored

end Hftrs.Orderbook
