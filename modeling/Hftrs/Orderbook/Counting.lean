import Mathlib.Data.List.Dedup
import Mathlib.Data.List.Perm.Subperm
import Hftrs.Orderbook.Registration

/-! What the registries and their iterators say about their size. -/
namespace Hftrs.Orderbook

/-! ### Iterators that report a size -/

section Iterators

variable {ι α : Type}

/-- The iterator yields so many more items and then ends. The outer `none` of a call is a panic,
the inner one the end. -/
inductive Remaining (next : ι → Option (Option (α × ι))) : ι → Nat → Prop
  | ended {it : ι} : next it = some none → Remaining next it 0
  | item {it rest : ι} {a : α} {n : Nat} :
    next it = some (some (a, rest)) → Remaining next rest n → Remaining next it (n + 1)

/-- A point of an iteration: the start, or what a call that yielded an item has left. -/
inductive Point (next : ι → Option (Option (α × ι))) (start : ι) : ι → Prop
  | start : Point next start start
  | item {it rest : ι} {a : α} :
    Point next start it → next it = some (some (a, rest)) → Point next start rest

/-- At every point of the iteration the reported size is the number of items to come. -/
def ExactSize (next : ι → Option (Option (α × ι))) (size : ι → Nat) (start : ι) : Prop :=
  ∀ it, Point next start it → Remaining next it (size it)

/-- An invariant of the iterators under which the first call decides gives all points. -/
theorem ExactSize.of_invariant {next : ι → Option (Option (α × ι))} {size : ι → Nat}
    {I : ι → Prop}
    (first : ∀ it, I it → (size it = 0 ∧ next it = some none) ∨
      ∃ a rest, next it = some (some (a, rest)) ∧ I rest ∧ size it = size rest + 1) {start : ι}
    (initial : I start) : ExactSize next size start := by
  have invariant (it : ι) (point : Point next start it) : I it := by
    induction point with
    | start => exact initial
    | item _ called ih =>
      rcases first _ ih with ⟨_, ended⟩ | ⟨a, rest, yielded, kept, _⟩
      · rw [ended] at called
        cases called
      · rw [yielded] at called
        cases called
        exact kept
  have counts (n : Nat) (it : ι) (kept : I it) (sized : size it = n) : Remaining next it n := by
    induction n generalizing it with
    | zero =>
      rcases first it kept with ⟨_, ended⟩ | ⟨_, _, _, _, positive⟩
      · exact .ended ended
      · rw [sized] at positive
        cases positive
    | succ n ih =>
      rcases first it kept with ⟨none, _⟩ | ⟨a, rest, yielded, kept', shorter⟩
      · rw [sized] at none
        cases none
      · exact .item yielded (ih rest kept' (by omega))
  exact fun it point => counts _ it (invariant it point) rfl

end Iterators

/-! ### Sizes -/

/-- The locates that calls register, each once. -/
def RegistryCall.registered (calls : List RegistryCall) : List Nat :=
  (calls.filterMap fun
    | .register locate _ => some locate
    | .mutate .. => none).dedup

/-- The default method of the trait. -/
def Registry.isEmpty {R : Type} [Registry R] (profile : Profile) (registry : R) : Option Bool :=
  (Registry.len profile registry).map fun len => len = 0

theorem RegistryCall.mem_registered (calls : List RegistryCall) (locate : Nat) :
    locate ∈ registered calls ↔ ∃ symbol, RegistryCall.register locate symbol ∈ calls := by
  rw [registered, List.mem_dedup, List.mem_filterMap]
  constructor
  · rintro ⟨c, member, same⟩
    cases c with
    | register l symbol =>
      cases same
      exact ⟨symbol, member⟩
    | mutate => cases same
  · rintro ⟨symbol, member⟩
    exact ⟨_, member, rfl⟩

/-- `len` and `is_empty` are about the registered locates, and the size of the iterator is right
at every point. -/
structure Counts {R ι : Type} [Registry R] (profile : Profile) (registry : R)
    (registered : List Nat) (next : ι → Option (Option (VecRegistry.Item × ι))) (size : ι → Nat)
    (start : ι) : Prop where
  len : Registry.len profile registry = some registered.length
  isEmpty : Registry.isEmpty profile registry = some (decide (registered = []))
  iter : ExactSize next size start

theorem isEmpty_of_len {R : Type} [Registry R] {profile : Profile} {registry : R}
    {registered : List Nat} (len : Registry.len profile registry = some registered.length) :
    Registry.isEmpty profile registry = some (decide (registered = [])) := by
  rw [Registry.isEmpty, len, Option.map_some, Option.some.injEq, decide_eq_decide]
  exact List.length_eq_zero_iff

/-! ### The maps -/

namespace HashMapRegistry

/-- The iterator: what is left of the walk of the symbols. -/
structure Iter where
  walk : List (Nat × Nat)
  registry : HashMapRegistry

def Iter.next (it : Iter) : Option (Option (VecRegistry.Item × Iter)) :=
  match it.walk with
  | [] => some none
  | (locate, symbol) :: walk =>
    -- `unwrap`
    (it.registry.get locate).map fun book =>
      some ((locate, symbol, book), { it with walk })

/-- `size_hint` of the walk. -/
def Iter.size (it : Iter) : Nat := it.walk.length

variable {registry : HashMapRegistry}

theorem length_registered {calls : List RegistryCall}
    (reached : RegistryCall.applyAll new calls = some registry) :
    registry.books.size = (RegistryCall.registered calls).length := by
  have same : registry.books.keys.Perm (RegistryCall.registered calls) := by
    rw [RegistryCall.registered,
      List.perm_ext_iff_of_nodup Std.ExtTreeMap.nodup_keys (List.nodup_dedup _)]
    intro locate
    have fresh : locate ∉ new.symbols := by simp [new]
    rw [Std.ExtTreeMap.mem_keys, registry.keys, Registered.registered_iff calls _ _ reached,
      or_iff_right fresh, ← RegistryCall.mem_registered, RegistryCall.registered]
  rw [← Std.ExtTreeMap.length_keys, same.length_eq]

theorem exactSize (walk : List (Nat × Nat)) (stored : ∀ entry ∈ walk, entry.1 ∈ registry.books) :
    ExactSize Iter.next Iter.size ⟨walk, registry⟩ := by
  refine ExactSize.of_invariant (I := fun it => it.registry = registry ∧
    ∀ entry ∈ it.walk, entry.1 ∈ registry.books) ?_ ⟨rfl, stored⟩
  rintro ⟨walk, _⟩ ⟨rfl, stored⟩
  cases walk with
  | nil => exact .inl ⟨rfl, rfl⟩
  | cons entry walk =>
    obtain ⟨locate, symbol⟩ := entry
    have present := stored (locate, symbol) (by simp)
    rw [Std.ExtTreeMap.mem_iff_isSome_getElem?, Option.isSome_iff_exists] at present
    obtain ⟨book, found⟩ := present
    refine .inr ⟨(locate, symbol, book), ⟨walk, _⟩, ?_,
      ⟨rfl, fun e member => stored e (by simp [member])⟩, by simp [Iter.size]⟩
    simp only [Iter.next, get, found, Option.map_some]

theorem counts (profile : Profile) {calls : List RegistryCall}
    (reached : RegistryCall.applyAll new calls = some registry) (walk : List (Nat × Nat))
    (walked : walk.Perm registry.symbols.toList) :
    Counts profile registry (RegistryCall.registered calls) Iter.next Iter.size
      ⟨walk, registry⟩ := by
  have len : Registry.len profile registry = some (RegistryCall.registered calls).length :=
    (len_isSome registry profile).trans (congrArg some (length_registered reached))
  refine ⟨len, isEmpty_of_len len, exactSize walk fun entry member => ?_⟩
  have found := walked.subset member
  rw [Std.ExtTreeMap.mem_toList_iff_getElem?_eq_some] at found
  rw [registry.keys, Std.ExtTreeMap.mem_iff_isSome_getElem?, found]
  rfl

end HashMapRegistry

/-! ### The dense registry -/

namespace VecRegistry

/-- `size_hint` of the books: the slots that are left, empty ones among them. -/
def Iter.size (it : Iter) : Nat := it.books.length

def Iter.next (profile : Profile) (it : Iter) : Option (Option (Item × Iter)) :=
  VecRegistry.next profile it.books it.symbols it.locate

variable {registry registry' : VecRegistry} {cap : Nat} {calls : List RegistryCall}

/-- In the debug profile the counter, and with it the slots that have been passed, stays within
its type. -/
theorem next_within (books : List (Option OrderBook)) (symbols : List (Option Nat)) (locate : Nat)
    (same : books.length = symbols.length) (small : locate < 2 ^ 16) :
    match VecRegistry.next .debug books symbols locate with
    | none => True
    | some none => locate + books.length < 2 ^ 16
    | some (some (_, rest)) =>
      rest.locate + rest.books.length = locate + books.length ∧ rest.locate < 2 ^ 16 ∧
        rest.books.length = rest.symbols.length := by
  induction books generalizing symbols locate with
  | nil => simpa [VecRegistry.next] using small
  | cons bookOpt books ih =>
    cases symbols with
    | nil => cases same
    | cons symbolOpt symbols =>
      have equal := Nat.succ.inj same
      by_cases fits : locate + 1 < 2 ^ 16
      · have counted : Profile.debug.add 16 locate 1 = some (locate + 1) := Profile.add_eq _ fits
        have moved : locate + 1 + books.length = locate + (bookOpt :: books).length := by
          rw [List.length_cons]
          omega
        have later := ih symbols (locate + 1) equal fits
        rw [moved] at later
        cases symbolOpt with
        | none => simpa only [VecRegistry.next, counted] using later
        | some symbol =>
          cases bookOpt with
          | none => simpa only [VecRegistry.next, counted] using later
          | some book => simpa only [VecRegistry.next, counted] using ⟨moved, fits, equal⟩
      · have overflow : Profile.debug.add 16 locate 1 = none := if_neg fits
        simp only [VecRegistry.next, overflow]

/-- An iteration that ends in the debug profile had fewer slots than its counter has values. -/
theorem remaining_within {it : Iter} {n : Nat} (remaining : Remaining (Iter.next .debug) it n)
    (same : it.books.length = it.symbols.length) (small : it.locate < 2 ^ 16) :
    it.locate + it.books.length < 2 ^ 16 := by
  induction remaining with
  | ended none =>
    have within := next_within _ _ _ same small
    rw [Iter.next] at none
    rwa [none] at within
  | item yielded _ ih =>
    have within := next_within _ _ _ same small
    rw [Iter.next] at yielded
    rw [yielded] at within
    obtain ⟨moved, small', same'⟩ := within
    exact moved ▸ ih same' small'

/-- Every slot of an iterator is taken, and its counter does not overflow. -/
structure Full (profile : Profile) (it : Iter) : Prop where
  sameLength : it.books.length = it.symbols.length
  books : ∀ book ∈ it.books, book.isSome
  symbols : ∀ symbol ∈ it.symbols, symbol.isSome
  fits : profile = .debug → it.locate + it.books.length < 2 ^ 16

/-- Without an empty slot every call takes exactly one. -/
theorem Full.exactSize {profile : Profile} {it : Iter} (full : Full profile it) :
    ExactSize (Iter.next profile) Iter.size it := by
  refine ExactSize.of_invariant (I := Full profile) ?_ full
  rintro ⟨books, symbols, locate⟩ ⟨same, allBooks, allSymbols, fits⟩
  cases books with
  | nil => exact .inl ⟨rfl, by simp [Iter.next, VecRegistry.next]⟩
  | cons bookOpt books =>
    cases symbols with
    | nil => cases same
    | cons symbolOpt symbols =>
      obtain ⟨book, rfl⟩ := Option.isSome_iff_exists.mp (allBooks bookOpt (by simp))
      obtain ⟨symbol, rfl⟩ := Option.isSome_iff_exists.mp (allSymbols symbolOpt (by simp))
      simp only [List.length_cons] at fits
      obtain ⟨counter, counted⟩ := (profile.add_isSome_iff 16 locate 1).mpr fun debug => by
        have := fits debug
        omega
      refine .inr ⟨(locate, symbol, book), ⟨books, symbols, counter⟩, ?_, ⟨Nat.succ.inj same,
        fun b member => allBooks b (by simp [member]),
        fun s member => allSymbols s (by simp [member]), ?_⟩, by simp [Iter.size]⟩
      · simp only [Iter.next, VecRegistry.next, counted]
      · intro debug
        have bound := fits debug
        rw [Profile.add_eq profile (by omega)] at counted
        cases counted
        simp only
        omega

/-- Registrations that did not panic were of locates with a slot. -/
theorem fits_of_applyAll (reached : RegistryCall.applyAll registry calls = some registry') :
    ∀ c ∈ calls, c.Fits registry.books.length := by
  induction calls generalizing registry with
  | nil => exact fun c member => by cases member
  | cons first rest ih =>
    obtain ⟨next, applied, onwards⟩ := Option.bind_eq_some_iff.mp reached
    rintro c (_ | ⟨_, member⟩)
    · cases first with
      | register locate symbol =>
        by_contra outside
        have panicked := registry.register_outside symbol (Nat.le_of_not_lt outside)
        exact Option.some_ne_none _ (applied.symm.trans panicked)
      | mutate => trivial
    · exact length_apply first applied ▸ ih onwards c member

/-- The registry of calls is full when every locate with a slot was registered. -/
theorem full_of_registered (profile : Profile)
    (reached : RegistryCall.applyAll (withCapacity cap) calls = some registry)
    (all : ∀ locate < cap, locate ∈ RegistryCall.registered calls)
    (fits : profile = .debug → cap < 2 ^ 16) : Full profile registry.iter := by
  have slots : registry.books.length = cap :=
    (length_applyAll calls reached).trans List.length_replicate
  have within := fits_of_applyAll reached
  rw [withCapacity, List.length_replicate] at within
  obtain ⟨vec, map, dense, hashed, same⟩ := (Registered.withCapacity cap).applyAll calls within
  rw [reached, Option.some.injEq] at dense
  subst dense
  -- the maps hold every registered locate, and the dense registry the same
  have key (locate : Nat) (below : locate < cap) : locate ∈ map.symbols :=
    (Registered.registered_iff calls _ map hashed locate).mpr
      (.inr ((RegistryCall.mem_registered calls locate).mp (all locate below)))
  refine ⟨registry.sameLength, ?_, ?_, fun debug => ?_⟩
  · intro book member
    obtain ⟨locate, inside, rfl⟩ := List.getElem_of_mem (show book ∈ registry.books from member)
    have stored := (map.keys locate).mpr (key locate (slots ▸ inside))
    rw [Std.ExtTreeMap.mem_iff_isSome_getElem?] at stored
    have here : registry.get locate = map.books[locate]? := same.books locate
    rw [← here, get, List.getElem?_eq_getElem inside] at stored
    exact stored
  · intro symbol member
    obtain ⟨locate, inside, rfl⟩ :=
      List.getElem_of_mem (show symbol ∈ registry.symbols from member)
    have stored := key locate (slots ▸ registry.sameLength ▸ inside)
    rw [Std.ExtTreeMap.mem_iff_isSome_getElem?] at stored
    have here : registry.getSymbol locate = map.symbols[locate]? := same.symbols locate
    rw [← here, getSymbol, List.getElem?_eq_getElem inside] at stored
    exact stored
  · simpa only [iter, slots, Nat.zero_add] using fits debug

/-- There are as many registered locates as slots exactly when these are all of them. -/
theorem length_registered_iff
    (reached : RegistryCall.applyAll (withCapacity cap) calls = some registry) :
    (RegistryCall.registered calls).length = cap ↔
      ∀ locate < cap, locate ∈ RegistryCall.registered calls := by
  have within := fits_of_applyAll reached
  rw [withCapacity, List.length_replicate] at within
  have inside : RegistryCall.registered calls ⊆ List.range cap := by
    intro locate member
    obtain ⟨symbol, called⟩ := (RegistryCall.mem_registered calls locate).mp member
    exact List.mem_range.mpr (within _ called)
  have distinct : (RegistryCall.registered calls).Nodup := List.nodup_dedup _
  constructor
  · intro equal locate below
    have same : (RegistryCall.registered calls).Perm (List.range cap) :=
      (List.subperm_of_subset distinct inside).perm_of_length_le (by rw [equal, List.length_range])
    exact same.mem_iff.mpr (List.mem_range.mpr below)
  · intro all
    have same : (RegistryCall.registered calls).Perm (List.range cap) :=
      (List.perm_ext_iff_of_nodup distinct List.nodup_range).mpr fun locate =>
        ⟨fun member => inside member, fun below => all locate (List.mem_range.mp below)⟩
    rw [same.length_eq, List.length_range]

end VecRegistry

/-- The maps always count what was registered. The dense registry counts its slots, so it is right
exactly when all of them are taken; its iterator then also needs a counter that holds their
number. -/
theorem counts_iff (profile : Profile) (cap : Nat) (calls : List RegistryCall) :
    (∀ map, RegistryCall.applyAll HashMapRegistry.new calls = some map →
      ∀ walk : List (Nat × Nat), walk.Perm map.symbols.toList →
        Counts profile map (RegistryCall.registered calls) HashMapRegistry.Iter.next
          HashMapRegistry.Iter.size ⟨walk, map⟩) ∧
    ∀ vec, RegistryCall.applyAll (VecRegistry.withCapacity cap) calls = some vec →
      (Counts profile vec (RegistryCall.registered calls) (VecRegistry.Iter.next profile)
          VecRegistry.Iter.size vec.iter ↔
        (∀ locate < cap, locate ∈ RegistryCall.registered calls) ∧
          (profile = .debug → cap < 2 ^ 16)) := by
  refine ⟨fun map reached walk => HashMapRegistry.counts profile reached walk,
    fun vec reached => ?_⟩
  have slots : vec.books.length = cap :=
    (VecRegistry.length_applyAll calls reached).trans List.length_replicate
  have len : Registry.len profile vec = some cap :=
    (VecRegistry.len_isSome profile vec).trans (congrArg some slots)
  constructor
  · intro counts
    have equal := counts.len
    rw [len, Option.some.injEq] at equal
    refine ⟨(VecRegistry.length_registered_iff reached).mp equal.symm, fun debug => ?_⟩
    subst debug
    have within := VecRegistry.remaining_within (counts.iter vec.iter .start) vec.sameLength
      (by decide : 0 < 2 ^ 16)
    simpa only [VecRegistry.iter, slots, Nat.zero_add] using within
  · rintro ⟨all, fits⟩
    rw [← (VecRegistry.length_registered_iff reached).mpr all] at len
    exact ⟨len, isEmpty_of_len len,
      (VecRegistry.full_of_registered profile reached all fits).exactSize⟩

/-- Two slots, registered from the last one on, the first twice; the maps hold both locates too. -/
theorem counts_iff_both_slots :
    (∃ map, RegistryCall.applyAll HashMapRegistry.new
        [.register 1 7, .register 0 5, .register 1 9] = some map ∧
      Counts .debug map [0, 1] HashMapRegistry.Iter.next HashMapRegistry.Iter.size
        ⟨map.symbols.toList, map⟩) ∧
    ∃ vec, RegistryCall.applyAll (VecRegistry.withCapacity 2)
        [.register 1 7, .register 0 5, .register 1 9] = some vec ∧
      Counts .debug vec [0, 1] (VecRegistry.Iter.next .debug) VecRegistry.Iter.size vec.iter := by
  have both := counts_iff .debug 2 [.register 1 7, .register 0 5, .register 1 9]
  refine ⟨⟨_, rfl, both.1 _ rfl _ (List.Perm.refl _)⟩, ⟨_, rfl, (both.2 _ rfl).mpr ?_⟩⟩
  decide

/-- The registry of `new` is not empty and counts its slots with nothing registered; with one of
two slots taken, two items are announced and one comes. -/
theorem dense_counts_slots :
    (Registry.len .debug VecRegistry.new = some 65535 ∧
      Registry.isEmpty .debug VecRegistry.new = some false) ∧
    ∃ vec, RegistryCall.applyAll (VecRegistry.withCapacity 2) [.register 0 7] = some vec ∧
      vec.iter.size = 2 ∧ Remaining (VecRegistry.Iter.next .debug) vec.iter 1 ∧
      ¬Counts .debug vec (RegistryCall.registered [.register 0 7]) (VecRegistry.Iter.next .debug)
        VecRegistry.Iter.size vec.iter := by
  have slots : Registry.len .debug VecRegistry.new = some 65535 :=
    (VecRegistry.len_isSome _ _).trans (congrArg some List.length_replicate)
  refine ⟨⟨slots, by rw [Registry.isEmpty, slots]; rfl⟩, _, rfl, rfl,
    .item (a := (0, 7, OrderBook.new)) rfl (.ended rfl), ?_⟩
  intro counts
  exact absurd counts.len (by decide)

end Hftrs.Orderbook
