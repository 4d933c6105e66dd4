import Mathlib.Algebra.BigOperators.Group.List.Basic
import Mathlib.Algebra.Ring.Nat
import Mathlib.Data.List.Perm.Basic
import Std.Data.ExtTreeMap

/-! Finite maps: equal readings, and sums over the values. -/
namespace Hftrs.Library

open Std

variable {α β γ δ : Type} {cmp : α → α → Ordering} [TransCmp cmp] [LawfulEqCmp cmp]

/-- Maps whose values read alike under every key list the same readings. -/
theorem toList_map_eq (f : β → δ) (g : γ → δ) (m : ExtTreeMap α β cmp) (m' : ExtTreeMap α γ cmp)
    (same : ∀ k : α, m[k]?.map f = m'[k]?.map g) :
    (m.toList.map fun (k, v) => (k, f v)) = m'.toList.map fun (k, v) => (k, g v) := by
  have equal : m.map (fun _ v => f v) = m'.map (fun _ v => g v) := by
    apply ExtTreeMap.ext_getElem?
    intro k
    rw [ExtTreeMap.getElem?_map, ExtTreeMap.getElem?_map, same]
  simpa only [ExtTreeMap.toList_map] using congrArg ExtTreeMap.toList equal

theorem insert_insert (m : ExtTreeMap α β cmp) (k : α) (v w : β) :
    (m.insert k v).insert k w = m.insert k w := by
  apply ExtTreeMap.ext_getElem?
  intro j
  rw [ExtTreeMap.getElem?_insert, ExtTreeMap.getElem?_insert, ExtTreeMap.getElem?_insert]
  split <;> rfl

theorem erase_insert (m : ExtTreeMap α β cmp) (k : α) (v : β) :
    (m.insert k v).erase k = m.erase k := by
  apply ExtTreeMap.ext_getElem?
  intro j
  rw [ExtTreeMap.getElem?_erase, ExtTreeMap.getElem?_insert, ExtTreeMap.getElem?_erase]
  split <;> rfl

theorem insert_erase (m : ExtTreeMap α β cmp) (k : α) (v : β) :
    (m.erase k).insert k v = m.insert k v := by
  apply ExtTreeMap.ext_getElem?
  intro j
  rw [ExtTreeMap.getElem?_insert, ExtTreeMap.getElem?_insert, ExtTreeMap.getElem?_erase]
  split <;> rfl

omit [LawfulEqCmp cmp] in
/-- A key that is stored is none of those that are not. -/
theorem ne_of_not_mem {m : ExtTreeMap α β cmp} {j k : α} {v : β} (fresh : j ∉ m)
    (stored : m[k]? = some v) : k ≠ j := by
  rintro rfl
  rw [ExtTreeMap.mem_iff_isSome_getElem?, stored] at fresh
  exact fresh rfl

/-- A new key leaves what is stored. -/
theorem getElem?_insert_fresh {m : ExtTreeMap α β cmp} {j k : α} {v : β} (fresh : j ∉ m)
    (stored : m[k]? = some v) (w : β) : (m.insert j w)[k]? = some v := by
  rw [ExtTreeMap.getElem?_insert, if_neg, stored]
  rw [LawfulEqCmp.compare_eq_iff_eq]
  exact (ne_of_not_mem fresh stored).symm

/-- The sum of a measure over the values of a map. -/
def tally (g : β → Nat) (m : ExtTreeMap α β cmp) : Nat := (m.toList.map fun (_, v) => g v).sum

theorem nodup_toList (m : ExtTreeMap α β cmp) : m.toList.Nodup := by
  apply m.distinct_keys_toList.imp
  rintro a b apart rfl
  exact apart ReflCmp.compare_self

/-- A new key adds one pair to the listing. -/
theorem toList_insert_perm (m : ExtTreeMap α β cmp) (k : α) (v : β) (fresh : k ∉ m) :
    (m.insert k v).toList.Perm ((k, v) :: m.toList) := by
  rw [ExtTreeMap.mem_iff_isSome_getElem?, Bool.not_eq_true, Option.isSome_eq_false_iff,
    Option.isNone_iff_eq_none] at fresh
  have apart : (k, v) ∉ m.toList := by simp [fresh]
  -- neither listing repeats a pair, and they have the same members
  rw [List.perm_ext_iff_of_nodup (nodup_toList _) (List.nodup_cons.mpr ⟨apart, nodup_toList m⟩)]
  rintro ⟨j, w⟩
  rw [List.mem_cons, ExtTreeMap.mem_toList_iff_getElem?_eq_some,
    ExtTreeMap.mem_toList_iff_getElem?_eq_some, ExtTreeMap.getElem?_insert]
  by_cases same : j = k
  · subst j
    simp [ReflCmp.compare_self, fresh, eq_comm]
  · simp [LawfulEqCmp.compare_eq_iff_eq, same, Ne.symm same]

omit [LawfulEqCmp cmp] in
@[simp] theorem tally_empty (g : β → Nat) : tally g (∅ : ExtTreeMap α β cmp) = 0 := by
  have none : (∅ : ExtTreeMap α β cmp).toList = [] := ExtTreeMap.toList_eq_nil_iff.mpr rfl
  rw [tally, none]
  rfl

theorem tally_insert (g : β → Nat) (m : ExtTreeMap α β cmp) (k : α) (v : β) (fresh : k ∉ m) :
    tally g (m.insert k v) = g v + tally g m := by
  have perm := (toList_insert_perm m k v fresh).map fun (_, v) => g v
  simpa only [tally, List.map_cons, List.sum_cons] using perm.sum_eq

/-- An erased key takes its value out of the sum. -/
theorem tally_erase (g : β → Nat) (m : ExtTreeMap α β cmp) (k : α) :
    tally g (m.erase k) + (m[k]?.map g).getD 0 = tally g m := by
  cases stored : m[k]? with
  | none =>
    have same : m.erase k = m := by
      apply ExtTreeMap.ext_getElem?
      intro j
      rw [ExtTreeMap.getElem?_erase]
      split
      next equal => rw [← LawfulEqCmp.eq_of_compare equal, stored]
      next => rfl
    rw [same]
    rfl
  | some v =>
    -- the map is its remainder with the pair put back
    have back : (m.erase k).insert k v = m := by
      apply ExtTreeMap.ext_getElem?
      intro j
      rw [ExtTreeMap.getElem?_insert, ExtTreeMap.getElem?_erase]
      split
      next equal => rw [← LawfulEqCmp.eq_of_compare equal, stored]
      next => rfl
    have sum := tally_insert g (m.erase k) k v (by simp)
    rw [back] at sum
    rw [sum, Option.map_some, Option.getD_some, Nat.add_comm]

/-- A stored key exchanges its old value for the new one in the sum. -/
theorem tally_insert_eq (g : β → Nat) (m : ExtTreeMap α β cmp) (k : α) (v : β) :
    tally g (m.insert k v) + (m[k]?.map g).getD 0 = tally g m + g v := by
  rw [← insert_erase, tally_insert g _ k v (by simp), Nat.add_assoc, tally_erase, Nat.add_comm]

end Hftrs.Library
