import Mathlib.Data.List.Nodup
import Std.Data.ExtTreeMap

/-! Maps that are filled entry by entry, each entry changing what is stored under its key. -/
namespace Hftrs.Library

open Std

variable {κ β γ : Type} {cmp : κ → κ → Ordering} [TransCmp cmp] [LawfulEqCmp cmp]

/-- Change what is stored under a key, or a default that is stored there first. -/
def upsert (m : ExtTreeMap κ β cmp) (key : κ) (default : β) (f : β → β) : ExtTreeMap κ β cmp :=
  m.insert key (f (m[key]?.getD default))

/-- One entry after the other. -/
def upserts (default : β) (f : γ → β → β) (m : ExtTreeMap κ β cmp) (entries : List (κ × γ)) :
    ExtTreeMap κ β cmp :=
  entries.foldl (fun m (key, value) => upsert m key default (f value)) m

variable {default : β} {f : γ → β → β} {m : ExtTreeMap κ β cmp} {entries : List (κ × γ)}

omit [LawfulEqCmp cmp] in
theorem getElem?_upsert_self (m : ExtTreeMap κ β cmp) (k : κ) (default : β) (f : β → β) :
    (upsert m k default f)[k]? = some (f (m[k]?.getD default)) := ExtTreeMap.getElem?_insert_self

theorem getElem?_upsert_of_ne (m : ExtTreeMap κ β cmp) {key k : κ} (apart : key ≠ k) (default : β)
    (f : β → β) : (upsert m key default f)[k]? = m[k]? := by
  rw [upsert, ExtTreeMap.getElem?_insert, if_neg (mt LawfulEqCmp.eq_of_compare apart)]

/-- A key without an entry stays as it was. -/
theorem getElem?_upserts_of_not_mem {k : κ} (absent : k ∉ entries.map Prod.fst) :
    (upserts default f m entries)[k]? = m[k]? := by
  induction entries generalizing m with
  | nil => rfl
  | cons entry entries ih =>
    rw [List.map_cons, List.mem_cons, not_or] at absent
    rw [upserts, List.foldl_cons, ← upserts, ih absent.2,
      getElem?_upsert_of_ne _ (Ne.symm absent.1)]

/-- The only entry of a key changes what was there. -/
theorem getElem?_upserts_of_mem (once : (entries.map Prod.fst).Nodup) {k : κ} {value : γ}
    (member : (k, value) ∈ entries) :
    (upserts default f m entries)[k]? = some (f value (m[k]?.getD default)) := by
  induction entries generalizing m with
  | nil => cases member
  | cons entry entries ih =>
    rw [List.map_cons, List.nodup_cons] at once
    rw [upserts, List.foldl_cons, ← upserts]
    rcases List.mem_cons.mp member with rfl | later
    · rw [getElem?_upserts_of_not_mem once.1, getElem?_upsert_self]
    · have apart : entry.1 ≠ k := fun same => once.1 (List.mem_map.mpr ⟨_, later, same.symm⟩)
      rw [ih once.2 later, getElem?_upsert_of_ne _ apart]

/-- Every key has an entry or none, which decides what is stored under it. -/
theorem getElem?_upserts (default : β) (f : γ → β → β) (m : ExtTreeMap κ β cmp)
    (once : (entries.map Prod.fst).Nodup) (k : κ) :
    ∃ entry : Option γ, (∀ value, entry = some value ↔ (k, value) ∈ entries) ∧
      (upserts default f m entries)[k]? =
        entry.elim m[k]? fun value => some (f value (m[k]?.getD default)) := by
  by_cases present : k ∈ entries.map Prod.fst
  · obtain ⟨⟨_, value⟩, member, rfl⟩ := List.mem_map.mp present
    refine ⟨some value, fun other => ⟨fun same => Option.some.inj same ▸ member, fun also => ?_⟩,
      getElem?_upserts_of_mem once member⟩
    exact congrArg (some ∘ Prod.snd) (List.inj_on_of_nodup_map once member also rfl)
  · refine ⟨none, fun other => ⟨by simp, fun also => ?_⟩, getElem?_upserts_of_not_mem present⟩
    exact absurd (List.mem_map_of_mem also) present

omit [LawfulEqCmp cmp] in
/-- An entry adds one key at most. -/
theorem size_upserts_le : (upserts default f m entries).size ≤ m.size + entries.length := by
  induction entries generalizing m with
  | nil => exact Nat.le_refl _
  | cons entry entries ih =>
    obtain ⟨key, value⟩ := entry
    have first : (upsert m key default (f value)).size ≤ m.size + 1 := ExtTreeMap.size_insert_le
    have others := ih (m := upsert m key default (f value))
    rw [upserts, List.foldl_cons, ← upserts, List.length_cons]
    dsimp only
    omega

/-- What a list in order has behind its first elements comes after all of them. -/
theorem mem_take_or {α : Type} {r : α → α → Prop} {l : List α} (ordered : l.Pairwise r) (n : Nat)
    {a : α} (member : a ∈ l) :
    a ∈ l.take n ∨ a ∈ l.drop n ∧ (l.take n).length = n ∧ ∀ b ∈ l.take n, r b a := by
  rw [← List.take_append_drop n l] at member ordered
  rcases List.mem_append.mp member with here | behind
  · exact .inl here
  · have long : (l.take n).length = n := by
      have some := List.length_pos_of_mem behind
      rw [List.length_drop] at some
      rw [List.length_take]
      omega
    exact .inr ⟨behind, long, fun b front => (List.pairwise_append.mp ordered).2.2 b front a behind⟩

end Hftrs.Library
