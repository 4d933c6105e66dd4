import Mathlib.Algebra.BigOperators.Group.List.Basic
import Mathlib.Algebra.Ring.Nat
import Mathlib.Data.List.Chain

/-! Lists cut greedily into groups under a limit on their weight. -/
namespace Hftrs.Library

variable {α : Type}

/-- What the elements of a group weigh together. -/
def weight (w : α → Nat) (group : List α) : Nat := (group.map w).sum

@[simp] theorem weight_nil (w : α → Nat) : weight w [] = 0 := rfl

@[simp] theorem weight_cons (w : α → Nat) (a : α) (group : List α) :
    weight w (a :: group) = w a + weight w group := by
  rw [weight, List.map_cons, List.sum_cons, weight]

@[simp] theorem weight_append (w : α → Nat) (xs ys : List α) :
    weight w (xs ++ ys) = weight w xs + weight w ys := by
  rw [weight, List.map_append, List.sum_append, weight, weight]

theorem le_weight (w : α → Nat) {a : α} {group : List α} (member : a ∈ group) :
    w a ≤ weight w group := by
  obtain ⟨before, after, rfl⟩ := List.append_of_mem member
  rw [weight_append, weight_cons]
  omega

/-- The next group starts with an element for which a group had no room. -/
def Full (w : α → Nat) (limit : Nat) (group next : List α) : Prop :=
  ∀ a ∈ next.head?, limit < weight w group + w a

/-- Groups cut greedily: none is empty, several elements in one are within the limit, and each
group but the last is full. -/
structure Greedy (w : α → Nat) (limit : Nat) (groups : List (List α)) : Prop where
  nonempty : ∀ group ∈ groups, group ≠ []
  within : ∀ group ∈ groups, 1 < group.length → weight w group ≤ limit
  full : groups.IsChain (Full w limit)

namespace Greedy

variable {w : α → Nat} {limit : Nat} {group other : List α} {groups others : List (List α)}

theorem tail (greedy : Greedy w limit (group :: groups)) : Greedy w limit groups where
  nonempty g member := greedy.nonempty g (List.mem_cons_of_mem _ member)
  within g member := greedy.within g (List.mem_cons_of_mem _ member)
  full := greedy.full.tail

/-- The first group of a greedy cut is not a proper part of that of another cut. -/
private theorem no_surplus (greedy : Greedy w limit (group :: groups))
    (greedy' : Greedy w limit (other :: others)) {surplus : List α}
    (longer : other = group ++ surplus) (rest : groups.flatten = surplus ++ others.flatten) :
    surplus = [] := by
  cases surplus with
  | nil => rfl
  | cons a surplus =>
    -- the group behind starts with the first element that is too many
    cases groups with
    | nil => cases rest
    | cons next groups =>
      have start : next.head? = some a := by
        have some_next := greedy.nonempty next (by simp)
        obtain ⟨b, bs, rfl⟩ := List.exists_cons_of_ne_nil some_next
        rw [List.flatten_cons, List.cons_append, List.cons_append, List.cons.injEq] at rest
        rw [rest.1]
        rfl
      have excess := (List.isChain_cons_cons.mp greedy.full).1 a start
      have some_group := List.length_pos_iff.mpr (greedy.nonempty group (by simp))
      have room := greedy'.within other (by simp) (by
        rw [longer, List.length_append, List.length_cons]
        omega)
      rw [longer, weight_append, weight_cons] at room
      omega

/-- A list has one greedy cut. -/
theorem unique (greedy : Greedy w limit groups) (greedy' : Greedy w limit others)
    (same : groups.flatten = others.flatten) : groups = others := by
  induction groups generalizing others with
  | nil =>
    cases others with
    | nil => rfl
    | cons other others =>
      have empty := List.append_eq_nil_iff.mp same.symm
      exact absurd empty.1 (greedy'.nonempty other (by simp))
  | cons group groups ih =>
    cases others with
    | nil =>
      have empty := List.append_eq_nil_iff.mp same
      exact absurd empty.1 (greedy.nonempty group (by simp))
    | cons other others =>
      rw [List.flatten_cons, List.flatten_cons] at same
      obtain ⟨surplus, longer, rest⟩ | ⟨surplus, longer, rest⟩ :=
        List.append_eq_append_iff.mp same
      · rw [no_surplus greedy greedy' longer rest, List.append_nil] at longer
        subst longer
        rw [ih greedy.tail greedy'.tail (List.append_cancel_left same)]
      · rw [no_surplus greedy' greedy longer rest, List.append_nil] at longer
        subst longer
        rw [ih greedy.tail greedy'.tail (List.append_cancel_left same)]

/-! ### Cutting one element after the other -/

theorem nil (w : α → Nat) (limit : Nat) : Greedy w limit [] where
  nonempty := by simp
  within := by simp
  full := .nil

theorem single (w : α → Nat) (limit : Nat) (a : α) : Greedy w limit [[a]] where
  nonempty := by simp
  within := by simp
  full := .singleton _

/-- An element without room in the last group starts the next one. -/
theorem start (greedy : Greedy w limit (groups ++ [group])) {a : α}
    (excess : limit < weight w group + w a) : Greedy w limit (groups ++ [group] ++ [[a]]) where
  nonempty := by
    intro g member
    rcases List.mem_append.mp member with old | new
    · exact greedy.nonempty g old
    · rw [List.mem_singleton.mp new]
      exact List.cons_ne_nil a []
  within := by
    intro g member several
    rcases List.mem_append.mp member with old | new
    · exact greedy.within g old several
    · rw [List.mem_singleton.mp new] at several
      exact absurd several (Nat.lt_irrefl 1)
  full := by
    refine greedy.full.append (.singleton _) ?_
    rw [List.getLast?_concat]
    rintro _ ⟨⟩ _ ⟨⟩ _ ⟨⟩
    exact excess

/-- An element that has room joins the last group. -/
theorem extend (greedy : Greedy w limit (groups ++ [group])) {a : α}
    (room : weight w group + w a ≤ limit) : Greedy w limit (groups ++ [group ++ [a]]) where
  nonempty := by
    intro g member
    rcases List.mem_append.mp member with old | new
    · exact greedy.nonempty g (List.mem_append_left _ old)
    · rw [List.mem_singleton.mp new]
      exact List.concat_ne_nil a group
  within := by
    intro g member several
    rcases List.mem_append.mp member with old | new
    · exact greedy.within g (List.mem_append_left _ old) several
    · rw [List.mem_singleton.mp new, weight_append, weight_cons, weight_nil]
      exact room
  full := by
    obtain ⟨before, _, last⟩ := List.isChain_append.mp greedy.full
    refine before.append (.singleton _) fun x member y head => ?_
    rw [List.head?_cons, Option.mem_some_iff] at head
    subst head
    intro b first
    rw [List.head?_append_of_ne_nil _ (greedy.nonempty group (by simp))] at first
    exact last x member group (by simp) b first

end Greedy

end Hftrs.Library
