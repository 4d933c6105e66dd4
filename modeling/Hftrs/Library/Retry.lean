import Mathlib.Data.List.Perm.Basic

/-! Items that are tried until they succeed, at most so many times each. They are numbered as they
enter. -/
namespace Hftrs.Library

/-- The items in the system, each with the number of its failed tries; all tries so far; and how
many items have entered. -/
structure Retries where
  held : List (Nat × Nat)
  tries : List (Nat × Bool)
  entered : Nat

namespace Retries

/-- The items in the system. -/
def items (retries : Retries) : List Nat := retries.held.map Prod.fst

/-- The outcomes of the tries of one item. -/
def outcomes (retries : Retries) (i : Nat) : List Bool :=
  retries.tries.filterMap fun (j, outcome) => if j = i then some outcome else none

/-- What can happen to the items. `departs` says when an item may leave. -/
inductive Move (limit : Nat) (departs : Nat → Nat → Prop) (before after : Retries) : Prop
  | stay (held : after.held.Perm before.held) (tries : after.tries = before.tries)
      (entered : after.entered = before.entered)
  | enter (held : after.held.Perm ((before.entered, 0) :: before.held))
      (tries : after.tries = before.tries) (entered : after.entered = before.entered + 1)
  | fail (i n : Nat) (rest : List (Nat × Nat)) (below : n < limit)
      (held : before.held.Perm ((i, n) :: rest)) (held' : after.held.Perm ((i, n + 1) :: rest))
      (tries : after.tries = before.tries ++ [(i, false)])
      (entered : after.entered = before.entered)
  | succeed (i n : Nat) (rest : List (Nat × Nat)) (below : n < limit) (leaves : departs i n)
      (held : before.held.Perm ((i, n) :: rest)) (held' : after.held.Perm rest)
      (tries : after.tries = before.tries ++ [(i, true)])
      (entered : after.entered = before.entered)
  | leave (i n : Nat) (rest : List (Nat × Nat)) (leaves : departs i n)
      (held : before.held.Perm ((i, n) :: rest)) (held' : after.held.Perm rest)
      (tries : after.tries = before.tries) (entered : after.entered = before.entered)

/-- Each item is in the system once, with the failures it had; none is tried more often than the
limit or succeeds twice. -/
structure Sound (limit : Nat) (retries : Retries) : Prop where
  distinct : retries.items.Nodup
  failures : ∀ i n, (i, n) ∈ retries.held → retries.outcomes i = List.replicate n false ∧ n ≤ limit
  limited : ∀ i, (retries.outcomes i).length ≤ limit
  once : ∀ i, (retries.outcomes i).count true ≤ 1
  numbered : ∀ i ∈ retries.items, i < retries.entered
  untried : ∀ i, retries.entered ≤ i → retries.outcomes i = []

theorem Sound.empty (limit : Nat) : Sound limit ⟨[], [], 0⟩ := by
  constructor <;> simp [items, outcomes]

theorem outcomes_concat {before after : Retries} {i : Nat} {outcome : Bool}
    (tries : after.tries = before.tries ++ [(i, outcome)]) (j : Nat) :
    after.outcomes j = before.outcomes j ++ if i = j then [outcome] else [] := by
  rw [outcomes, tries, List.filterMap_append]
  by_cases same : i = j <;> simp [outcomes, same]

variable {limit : Nat} {departs : Nat → Nat → Prop} {before after : Retries}

theorem mem_items {i n : Nat} (member : (i, n) ∈ before.held) : i ∈ before.items :=
  List.mem_map.mpr ⟨_, member, rfl⟩

/-- Without a try the outcomes stay, and with them the bounds. -/
theorem Sound.untouched (sound : before.Sound limit) (distinct : after.items.Nodup)
    (held : ∀ i n, (i, n) ∈ after.held → (i, n) ∈ before.held)
    (tries : after.tries = before.tries) (entered : after.entered = before.entered) :
    after.Sound limit := by
  have same : after.outcomes = before.outcomes := by
    funext i
    rw [outcomes, tries, outcomes]
  refine ⟨distinct, ?_, ?_, ?_, fun i member => ?_, ?_⟩
  · exact fun i n member => same ▸ sound.failures i n (held i n member)
  · exact same ▸ sound.limited
  · exact same ▸ sound.once
  · obtain ⟨⟨j, n⟩, pair, rfl⟩ := List.mem_map.mp member
    exact entered ▸ sound.numbered j (mem_items (held j n pair))
  · exact same ▸ entered ▸ sound.untried

/-- An item of the system is tried, and stays with one more failure or leaves. -/
theorem Sound.tried (sound : before.Sound limit) {i n : Nat} {rest : List (Nat × Nat)}
    {outcome : Bool} (below : n < limit) (held : before.held.Perm ((i, n) :: rest))
    (distinct : after.items.Nodup)
    (held' : ∀ j m, (j, m) ∈ after.held → (j, m) ∈ rest ∨ (j = i ∧ m = n + 1 ∧ outcome = false))
    (tries : after.tries = before.tries ++ [(i, outcome)])
    (entered : after.entered = before.entered) : after.Sound limit := by
  have member : (i, n) ∈ before.held := held.mem_iff.mpr (by simp)
  have inside := sound.numbered i (mem_items member)
  have here : after.outcomes i = List.replicate n false ++ [outcome] := by
    rw [outcomes_concat tries, if_pos rfl, (sound.failures i n member).1]
  have others (j : Nat) (apart : i ≠ j) : after.outcomes j = before.outcomes j := by
    rw [outcomes_concat tries, if_neg apart, List.append_nil]
  -- the item is not among the others
  have apart (j m : Nat) (other : (j, m) ∈ rest) : i ≠ j := by
    have distinct := (held.map Prod.fst).nodup_iff.mp sound.distinct
    rw [List.map_cons, List.nodup_cons] at distinct
    rintro rfl
    exact distinct.1 (List.mem_map.mpr ⟨_, other, rfl⟩)
  have kept (j m : Nat) (other : (j, m) ∈ rest) : (j, m) ∈ before.held :=
    held.mem_iff.mpr (List.mem_cons_of_mem _ other)
  refine ⟨distinct, fun j m present => ?_, fun j => ?_, fun j => ?_, fun j present => ?_,
    fun j beyond => ?_⟩
  · rcases held' j m present with other | ⟨rfl, rfl, rfl⟩
    · rw [others j (apart j m other)]
      exact sound.failures j m (kept j m other)
    · exact ⟨by rw [here, ← List.replicate_succ'], below⟩
  · by_cases same : i = j
    · subst same
      rw [here, List.length_append, List.length_replicate]
      exact below
    · rw [others j same]
      exact sound.limited j
  · by_cases same : i = j
    · subst same
      rw [here, List.count_append, List.count_replicate]
      cases outcome <;> simp
    · rw [others j same]
      exact sound.once j
  · obtain ⟨⟨j, m⟩, pair, rfl⟩ := List.mem_map.mp present
    rw [entered]
    rcases held' j m pair with other | ⟨rfl, _, _⟩
    · exact sound.numbered j (mem_items (kept j m other))
    · exact inside
  · rw [entered] at beyond
    rw [others j (by omega)]
    exact sound.untried j beyond

/-- One move keeps the items sound. -/
theorem Sound.move (sound : before.Sound limit) (move : Move limit departs before after) :
    after.Sound limit := by
  have nodup {i n : Nat} {rest : List (Nat × Nat)} (held : before.held.Perm ((i, n) :: rest)) :
      (i :: rest.map Prod.fst).Nodup :=
    (held.map Prod.fst).nodup_iff.mp sound.distinct
  cases move with
  | stay held tries entered =>
    exact sound.untouched ((held.map _).nodup_iff.mpr sound.distinct)
      (fun i n member => held.mem_iff.mp member) tries entered
  | enter held tries entered =>
    have new : before.entered ∉ before.items :=
      fun member => Nat.lt_irrefl _ (sound.numbered _ member)
    have same : after.outcomes = before.outcomes := by
      funext i
      rw [outcomes, tries, outcomes]
    refine ⟨(held.map _).nodup_iff.mpr (List.nodup_cons.mpr ⟨new, sound.distinct⟩),
      fun i n member => ?_, same ▸ sound.limited, same ▸ sound.once, fun i member => ?_,
      fun i beyond => ?_⟩
    · rw [same]
      rcases List.mem_cons.mp (held.mem_iff.mp member) with equal | old
      · cases equal
        exact ⟨sound.untried _ (Nat.le_refl _), Nat.zero_le _⟩
      · exact sound.failures i n old
    · rw [entered]
      rcases List.mem_cons.mp ((held.map Prod.fst).mem_iff.mp member) with rfl | old
      · exact Nat.lt_succ_self _
      · exact Nat.lt_succ_of_lt (sound.numbered i old)
    · rw [entered] at beyond
      rw [same]
      exact sound.untried i (by omega)
  | fail i n rest below held held' tries entered =>
    refine sound.tried below held ((held'.map _).nodup_iff.mpr (nodup held)) (fun j m member => ?_)
      tries entered
    rcases List.mem_cons.mp (held'.mem_iff.mp member) with equal | other
    · cases equal
      exact .inr ⟨rfl, rfl, rfl⟩
    · exact .inl other
  | succeed i n rest below leaves held held' tries entered =>
    exact sound.tried below held
      ((held'.map _).nodup_iff.mpr (List.nodup_cons.mp (nodup held)).2)
      (fun j m member => .inl (held'.mem_iff.mp member)) tries entered
  | leave i n rest leaves held held' tries entered =>
    exact sound.untouched ((held'.map _).nodup_iff.mpr (List.nodup_cons.mp (nodup held)).2)
      (fun j m member => held.mem_iff.mpr (List.mem_cons_of_mem _ (held'.mem_iff.mp member)))
      tries entered

/-- Only the item that a move takes is gone after it. -/
theorem eq_of_gone {i n j m : Nat} {rest : List (Nat × Nat)}
    (held : before.held.Perm ((j, m) :: rest)) (held' : after.held.Perm rest)
    (inside : (i, n) ∈ before.held) (gone : i ∉ after.items) : (i, n) = (j, m) := by
  rcases List.mem_cons.mp (held.mem_iff.mp inside) with equal | other
  · exact equal
  · exact absurd (mem_items (held'.mem_iff.mpr other)) gone

/-- An item that is gone after a move departed by it. -/
theorem Move.departed (move : Move limit departs before after) {i n : Nat}
    (inside : (i, n) ∈ before.held) (gone : i ∉ after.items) : departs i n := by
  cases move with
  | stay held => exact absurd (mem_items (held.mem_iff.mpr inside)) gone
  | enter held =>
    exact absurd (mem_items (held.mem_iff.mpr (List.mem_cons_of_mem _ inside))) gone
  | fail j m rest below held held' =>
    have present : i ∈ after.items := by
      rcases List.mem_cons.mp (held.mem_iff.mp inside) with equal | other
      · cases equal
        exact mem_items (held'.mem_iff.mpr (List.mem_cons_self ..))
      · exact mem_items (held'.mem_iff.mpr (List.mem_cons_of_mem _ other))
    exact absurd present gone
  | succeed j m rest below leaves held held' =>
    cases eq_of_gone held held' inside gone
    exact leaves
  | leave j m rest leaves held held' =>
    cases eq_of_gone held held' inside gone
    exact leaves

end Retries

end Hftrs.Library
