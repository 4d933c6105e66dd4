import Hftrs.Library.Tally
import Hftrs.Orderbook.VecRegistry

/-! The two registries are observationally equivalent.

The dense registry is compared with the maps over a capacity that holds every registered locate;
its `register` never resizes then. -/
namespace Hftrs.Orderbook

open Hftrs.Library

/-- What is done to a registry: a registration, or a write through `get_mut`. -/
inductive RegistryCall where
  | register (locate symbol : Nat)
  | mutate (locate : Nat) (change : OrderBook → OrderBook)

namespace RegistryCall

/-- `none` is a panic. A locate without a book is left alone. -/
def apply {R : Type} [Registry R] (registry : R) : RegistryCall → Option R
  | register locate symbol => Registry.register registry locate symbol
  | mutate locate change =>
    match Registry.getMut registry locate with
    | none => some registry
    | some (book, put) => some (put (change book))

def applyAll {R : Type} [Registry R] : R → List RegistryCall → Option R
  | registry, [] => some registry
  | registry, c :: cs => (apply registry c).bind fun registry => applyAll registry cs

/-- A registration fits a capacity. -/
def Fits (cap : Nat) : RegistryCall → Prop
  | register locate _ => locate < cap
  | mutate .. => True

end RegistryCall

/-- The items of the hash maps, for the order in which the map of symbols is walked. `none` is the
failed `unwrap`. -/
def HashMapRegistry.items (registry : HashMapRegistry) (walk : List (Nat × Nat)) :
    Option (List VecRegistry.Item) :=
  walk.mapM fun (locate, symbol) =>
    (registry.get locate).map fun book => (locate, symbol, book)

/-- Both registries have the same books and symbols under every locate. -/
structure Registered (cap : Nat) (vec : VecRegistry) (map : HashMapRegistry) : Prop where
  slots : vec.books.length = cap
  books : ∀ locate, vec.get locate = map.get locate
  symbols : ∀ locate, vec.getSymbol locate = map.getSymbol locate

namespace Registered

variable {cap : Nat} {vec : VecRegistry} {map : HashMapRegistry}

theorem withCapacity (cap : Nat) :
    Registered cap (VecRegistry.withCapacity cap) (HashMapRegistry.withCapacity cap) where
  slots := List.length_replicate
  books locate := by
    rw [VecRegistry.get_withCapacity]
    exact (HashMapRegistry.get_new locate).symm
  symbols locate := by
    rw [VecRegistry.getSymbol_withCapacity]
    simp [HashMapRegistry.withCapacity, HashMapRegistry.new, HashMapRegistry.getSymbol]

theorem register (same : Registered cap vec map) {locate : Nat} (below : locate < cap)
    (symbol : Nat) :
    ∃ vec', vec.register locate symbol = some vec' ∧
      Registered cap vec' (map.register locate symbol) := by
  have inside : locate < vec.books.length := same.slots ▸ below
  obtain ⟨vec', registered, books, symbols⟩ := vec.register_inside inside symbol
  refine ⟨vec', registered, ?_, ?_, ?_⟩
  · rw [books, List.length_set, same.slots]
  · intro l
    rw [VecRegistry.get, books, VecRegistry.join_set _ inside, HashMapRegistry.get_register,
      ← same.books]
    rfl
  · intro l
    have insideSymbols : locate < vec.symbols.length := vec.sameLength ▸ inside
    rw [VecRegistry.getSymbol, symbols, VecRegistry.join_set _ insideSymbols]
    have old := same.symbols l
    unfold VecRegistry.getSymbol HashMapRegistry.getSymbol at old
    by_cases equal : l = locate
    · simp [equal, HashMapRegistry.register, HashMapRegistry.getSymbol]
    · simp [equal, HashMapRegistry.register, HashMapRegistry.getSymbol, old,
        Std.ExtTreeMap.getElem?_insert, Ne.symm equal]

theorem mutate (same : Registered cap vec map) (locate : Nat) (change : OrderBook → OrderBook) :
    ∃ vec' map', RegistryCall.apply vec (.mutate locate change) = some vec' ∧
      RegistryCall.apply map (.mutate locate change) = some map' ∧ Registered cap vec' map' := by
  simp only [RegistryCall.apply, Registry.getMut]
  cases found : map.getMut locate with
  | none =>
    have missing : vec.getMut locate = none := by
      rw [VecRegistry.getMut, same.books, (map.getMut_eq_none locate).mp found]
      rfl
    rw [missing]
    exact ⟨vec, map, rfl, rfl, same⟩
  | some reference =>
    obtain ⟨book, put⟩ := reference
    obtain ⟨present, writes⟩ := map.getMut_eq_some found
    have here : vec.getMut locate = some (book, vec.write locate) := by
      rw [VecRegistry.getMut, same.books, present]
      rfl
    rw [here]
    refine ⟨_, _, rfl, rfl, ?_, ?_, ?_⟩
    · simp only [VecRegistry.write, List.length_set, same.slots]
    · intro l
      have inside := vec.lt_of_get ((same.books locate).trans present)
      rw [writes, VecRegistry.get, VecRegistry.write, VecRegistry.join_set _ inside, ← same.books]
      rfl
    · intro l
      rw [map.getMut_getSymbol found, ← same.symbols]
      rfl

theorem apply (same : Registered cap vec map) (c : RegistryCall) (fits : c.Fits cap) :
    ∃ vec' map', c.apply vec = some vec' ∧ c.apply map = some map' ∧ Registered cap vec' map' := by
  cases c with
  | register locate symbol =>
    obtain ⟨vec', registered, onwards⟩ := same.register fits symbol
    exact ⟨vec', _, registered, rfl, onwards⟩
  | mutate locate change => exact same.mutate locate change

theorem applyAll (same : Registered cap vec map) (calls : List RegistryCall)
    (fits : ∀ c ∈ calls, c.Fits cap) :
    ∃ vec' map', RegistryCall.applyAll vec calls = some vec' ∧
      RegistryCall.applyAll map calls = some map' ∧ Registered cap vec' map' := by
  induction calls generalizing vec map with
  | nil => exact ⟨vec, map, rfl, rfl, same⟩
  | cons c cs ih =>
    obtain ⟨vec₁, map₁, first, first', onwards⟩ := same.apply c (fits c (by simp))
    obtain ⟨vec', map', rest, rest', last⟩ :=
      ih onwards fun c member => fits c (by simp [member])
    exact ⟨vec', map', by rw [RegistryCall.applyAll, first, Option.bind_some, rest],
      by rw [RegistryCall.applyAll, first', Option.bind_some, rest'], last⟩

/-! ### Iteration -/

/-- The items of the dense registry are what the maps hold. -/
theorem mem_slots (same : Registered cap vec map) (locate symbol : Nat) (book : OrderBook) :
    (locate, symbol, book) ∈ VecRegistry.slots vec.books vec.symbols 0 ↔
      map.getSymbol locate = some symbol ∧ map.get locate = some book := by
  rw [VecRegistry.mem_slots, ← same.symbols, ← same.books, VecRegistry.getSymbol, VecRegistry.get,
    Option.join_eq_some_iff, Option.join_eq_some_iff, Nat.sub_zero]
  simp

/-- No `unwrap` fails, whatever the order of the walk: a locate with a symbol has a book. -/
theorem items_of_walk (registry : HashMapRegistry) (walk : List (Nat × Nat))
    (stored : ∀ entry ∈ walk, entry ∈ registry.symbols.toList) :
    ∃ items, registry.items walk = some items ∧ items.map (fun i => (i.1, i.2.1)) = walk ∧
      ∀ locate symbol book, (locate, symbol, book) ∈ items →
        registry.get locate = some book := by
  induction walk with
  | nil => exact ⟨[], rfl, rfl, fun _ _ _ member => by cases member⟩
  | cons entry rest ih =>
    obtain ⟨locate, symbol⟩ := entry
    obtain ⟨items, collected, walked, books⟩ := ih fun e member => stored e (by simp [member])
    have key : locate ∈ registry.books := by
      have found := stored (locate, symbol) (by simp)
      rw [Std.ExtTreeMap.mem_toList_iff_getElem?_eq_some] at found
      rw [registry.keys, Std.ExtTreeMap.mem_iff_isSome_getElem?, found]
      rfl
    rw [Std.ExtTreeMap.mem_iff_isSome_getElem?, Option.isSome_iff_exists] at key
    obtain ⟨book, present⟩ := key
    have here : registry.get locate = some book := present
    refine ⟨(locate, symbol, book) :: items, ?_, ?_, ?_⟩
    · simp only [HashMapRegistry.items, List.mapM_cons, here, Option.map_some] at collected ⊢
      rw [collected]
      rfl
    · rw [List.map_cons, walked]
    · intro l s b member
      rcases List.mem_cons.mp member with equal | inside
      · cases equal
        exact here
      · exact books l s b inside

/-- Every walk of the maps yields the items of the dense registry. -/
theorem walk_perm (same : Registered cap vec map) (walk : List (Nat × Nat))
    (walked : walk.Perm map.symbols.toList) :
    ∃ items, map.items walk = some items ∧
      items.Perm (VecRegistry.slots vec.books vec.symbols 0) := by
  obtain ⟨items, collected, entries, books⟩ :=
    items_of_walk map walk fun entry member => walked.subset member
  have ascending := VecRegistry.slots_ascending vec.books vec.symbols 0
  have nodup : (VecRegistry.slots vec.books vec.symbols 0).Nodup := by
    refine ascending.imp fun below same => ?_
    rw [same] at below
    exact Nat.lt_irrefl _ below
  have nodup' : items.Nodup := by
    apply List.Nodup.of_map (fun i => (i.1, i.2.1))
    rw [entries]
    exact walked.nodup_iff.mpr (nodup_toList map.symbols)
  refine ⟨items, collected, (List.perm_ext_iff_of_nodup nodup' nodup).mpr ?_⟩
  rintro ⟨locate, symbol, book⟩
  rw [same.mem_slots]
  have listed : (locate, symbol) ∈ walk ↔ map.getSymbol locate = some symbol :=
    walked.mem_iff.trans Std.ExtTreeMap.mem_toList_iff_getElem?_eq_some
  constructor
  · intro member
    refine ⟨listed.mp ?_, books locate symbol book member⟩
    rw [← entries]
    exact List.mem_map.mpr ⟨_, member, rfl⟩
  · rintro ⟨symbols, present⟩
    have entry := listed.mpr symbols
    rw [← entries] at entry
    obtain ⟨⟨l, s, b⟩, member, equal⟩ := List.mem_map.mp entry
    cases equal
    have found := books l s b member
    rw [present] at found
    cases found
    exact member

/-- The locates of the maps are those that have been registered. -/
theorem registered_iff (calls : List RegistryCall) (map map' : HashMapRegistry)
    (applied : RegistryCall.applyAll map calls = some map') (locate : Nat) :
    locate ∈ map'.symbols ↔
      locate ∈ map.symbols ∨ ∃ symbol, RegistryCall.register locate symbol ∈ calls := by
  induction calls generalizing map with
  | nil =>
    cases applied
    simp
  | cons c cs ih =>
    obtain ⟨middle, first, rest⟩ := Option.bind_eq_some_iff.mp applied
    rw [ih middle rest]
    cases c with
    | register l s =>
      cases first
      simp only [HashMapRegistry.register, Std.ExtTreeMap.mem_insert,
        Std.LawfulEqCmp.compare_eq_iff_eq, List.mem_cons, RegistryCall.register.injEq]
      constructor
      · rintro ((rfl | old) | ⟨symbol, member⟩)
        · exact .inr ⟨s, .inl ⟨rfl, rfl⟩⟩
        · exact .inl old
        · exact .inr ⟨symbol, .inr member⟩
      · rintro (old | ⟨symbol, ⟨rfl, rfl⟩ | member⟩)
        · exact .inl (.inr old)
        · exact .inl (.inl rfl)
        · exact .inr ⟨symbol, member⟩
    | mutate l change =>
      have kept : locate ∈ middle.symbols ↔ locate ∈ map.symbols := by
        simp only [RegistryCall.apply, Registry.getMut] at first
        split at first
        next => cases first; exact Iff.rfl
        next book put found =>
          cases first
          have symbols := congrFun (map.getMut_getSymbol found (change book)) locate
          unfold HashMapRegistry.getSymbol at symbols
          rw [Std.ExtTreeMap.mem_iff_isSome_getElem?, symbols,
            ← Std.ExtTreeMap.mem_iff_isSome_getElem?]
      rw [kept]
      simp

end Registered

/-- After every sequence of registrations below the capacity and writes, both registries hold the
same symbols and books. The dense one lists them in ascending order of locate, each under the
index of its slot and without overflow; the maps list the same whatever the order of the walk. -/
theorem registries_equivalent (profile : Profile) (cap : Nat) (small : cap ≤ maxCapacity)
    (calls : List RegistryCall) (fits : ∀ c ∈ calls, c.Fits cap) :
    ∃ vec map, RegistryCall.applyAll (VecRegistry.withCapacity cap) calls = some vec ∧
      RegistryCall.applyAll (HashMapRegistry.withCapacity cap) calls = some map ∧
      (∀ locate, vec.get locate = map.get locate ∧
        vec.getSymbol locate = map.getSymbol locate) ∧
      ∃ items, vec.items profile = some items ∧
        items.Pairwise (fun a b => a.1 < b.1) ∧
        (∀ locate symbol book, (locate, symbol, book) ∈ items ↔
          vec.symbols[locate]? = some (some symbol) ∧
            vec.books[locate]? = some (some book)) ∧
        (∀ locate, (∃ item ∈ items, item.1 = locate) ↔
          ∃ symbol, RegistryCall.register locate symbol ∈ calls) ∧
        ∀ walk : List (Nat × Nat), walk.Perm map.symbols.toList →
          ∃ items', map.items walk = some items' ∧ items'.Perm items := by
  obtain ⟨vec, map, dense, hashed, same⟩ := (Registered.withCapacity cap).applyAll calls fits
  have collected : vec.items profile = some (VecRegistry.slots vec.books vec.symbols 0) := by
    apply VecRegistry.collect_spec profile _ vec.iter vec.sameLength
    · have bound : vec.books.length ≤ 65535 := same.slots ▸ small
      simp only [VecRegistry.iter]
      omega
    · exact Nat.lt_succ_self _
  refine ⟨vec, map, dense, hashed, fun locate => ⟨same.books locate, same.symbols locate⟩,
    _, collected, VecRegistry.slots_ascending _ _ _, ?_, ?_, same.walk_perm⟩
  · intro locate symbol book
    rw [VecRegistry.mem_slots]
    simp
  · intro locate
    have keys := Registered.registered_iff calls _ map hashed locate
    have fresh : locate ∉ (HashMapRegistry.withCapacity cap).symbols := by
      simp [HashMapRegistry.withCapacity, HashMapRegistry.new]
    rw [or_iff_right fresh] at keys
    rw [← keys]
    constructor
    · rintro ⟨⟨l, symbol, book⟩, member, rfl⟩
      obtain ⟨stored, _⟩ := (same.mem_slots l symbol book).mp member
      rw [Std.ExtTreeMap.mem_iff_isSome_getElem?]
      exact Option.isSome_iff_exists.mpr ⟨symbol, stored⟩
    · intro key
      have key' := (map.keys locate).mpr key
      rw [Std.ExtTreeMap.mem_iff_isSome_getElem?, Option.isSome_iff_exists] at key key'
      obtain ⟨symbol, stored⟩ := key
      obtain ⟨book, present⟩ := key'
      exact ⟨(locate, symbol, book), (same.mem_slots _ _ _).mpr ⟨stored, present⟩, rfl⟩

/-- Locates 2 and 0 are registered, the first one twice, with a write through a locate that has no
book in between. -/
theorem registries_equivalent_sample :
    ∃ vec map, RegistryCall.applyAll (VecRegistry.withCapacity 3)
        [.register 2 7, .mutate 1 fun _ => OrderBook.new, .register 0 5, .register 2 9] =
          some vec ∧
      RegistryCall.applyAll (HashMapRegistry.withCapacity 3)
        [.register 2 7, .mutate 1 fun _ => OrderBook.new, .register 0 5, .register 2 9] =
          some map ∧
      (∀ locate, vec.get locate = map.get locate ∧
        vec.getSymbol locate = map.getSymbol locate) ∧
      ∃ items, vec.items .debug = some items ∧ items.Pairwise (fun a b => a.1 < b.1) ∧
        ∃ items', map.items map.symbols.toList = some items' ∧ items'.Perm items := by
  obtain ⟨vec, map, dense, hashed, same, items, collected, ascending, _, _, walks⟩ :=
    registries_equivalent .debug 3 (by decide)
      [.register 2 7, .mutate 1 fun _ => OrderBook.new, .register 0 5, .register 2 9] (by
        intro c member
        simp only [List.mem_cons, List.not_mem_nil, or_false] at member
        rcases member with rfl | rfl | rfl | rfl
        · exact (by decide : 2 < 3)
        · trivial
        · exact (by decide : 0 < 3)
        · exact (by decide : 2 < 3))
  exact ⟨vec, map, dense, hashed, same, items, collected, ascending, walks _ (List.Perm.refl _)⟩

end Hftrs.Orderbook
