import Mathlib.Data.List.Basic
import Mathlib.Data.List.Induction
import Mathlib.Data.List.Nodup
import Mathlib.Logic.Function.Basic

/-! Doubly linked lists as rings through a sentinel.

A list with head and tail pointers is a ring: the sentinel's forward link is the head and its
backward link is the tail, so that removing and appending a node each rewrite one link in
either direction, with no case for the ends. A ring is described one direction at a time;
what holds of the forward links holds of the backward links of the reversed list. -/
namespace Hftrs.Library

variable {ι : Type}

/-- From `x`, the link `f` visits the nodes of the list in order. -/
def Path (f : ι → ι) : ι → List ι → Prop
  | _, [] => True
  | x, y :: ys => f x = y ∧ Path f y ys

/-- The nodes of `l`, linked both ways through the sentinel `s`. -/
structure Ring (next prev : ι → ι) (s : ι) (l : List ι) : Prop where
  forward : Path next s (l ++ [s])
  backward : Path prev s (l.reverse ++ [s])

@[simp] theorem path_nil (f : ι → ι) (x : ι) : Path f x [] := trivial

@[simp] theorem path_cons (f : ι → ι) (x y : ι) (ys : List ι) :
    Path f x (y :: ys) ↔ f x = y ∧ Path f y ys := Iff.rfl

theorem path_append (f : ι → ι) (x : ι) (l₁ l₂ : List ι) :
    Path f x (l₁ ++ l₂) ↔ Path f x l₁ ∧ Path f (l₁.getLastD x) l₂ := by
  induction l₁ generalizing x with
  | nil => simp
  | cons y ys ih =>
    rw [List.cons_append, path_cons, path_cons, ih, and_assoc, List.getLastD_cons]

/-- A path depends on the link only at the nodes it leaves, not at the one it ends in. -/
theorem path_congr {f g : ι → ι} {x z : ι} {l : List ι}
    (same : ∀ y ∈ x :: l, g y = f y) (path : Path f x (l ++ [z])) : Path g x (l ++ [z]) := by
  induction l generalizing x with
  | nil => exact ⟨(same x (by simp)).trans path.1, trivial⟩
  | cons y ys ih =>
    refine ⟨(same x (by simp)).trans path.1, ?_⟩
    exact ih (fun w member => same w (by simp [List.mem_cons.mp member])) path.2

/-- The path of a closed ring leaves each node for its successor in the list. -/
theorem path_at (f : ι → ι) (x z i : ι) (l₁ l₂ : List ι)
    (path : Path f x (l₁ ++ i :: l₂ ++ [z])) :
    f i = (l₂ ++ [z]).headD z := by
  rw [List.append_assoc, path_append] at path
  obtain ⟨_, _, onwards⟩ := path
  cases l₂ with
  | nil => exact onwards.1
  | cons j js => exact onwards.1

theorem getLastD_mem (x : ι) (l : List ι) : l.getLastD x ∈ x :: l := by
  induction l generalizing x with
  | nil => simp
  | cons y ys ih =>
    rw [List.getLastD_cons]
    exact List.mem_cons_of_mem x (ih y)

theorem headD_mem (x : ι) (l : List ι) : l.headD x ∈ x :: l := by
  cases l <;> simp

theorem Ring.congr {next prev next' prev' : ι → ι} {s : ι} {l : List ι}
    (ring : Ring next prev s l) (nexts : ∀ i ∈ s :: l, next' i = next i)
    (prevs : ∀ i ∈ s :: l, prev' i = prev i) : Ring next' prev' s l where
  forward := path_congr nexts ring.forward
  backward := path_congr (fun i member => prevs i (by simpa using member)) ring.backward

/-- The sentinel's forward link is the head, and the sentinel itself when there is none. -/
theorem Ring.head {next prev : ι → ι} {s : ι} {l : List ι} (ring : Ring next prev s l) :
    next s = l.headD s := by
  cases l with
  | nil => exact ring.forward.1
  | cons i l => exact ring.forward.1

/-- Seen from behind, a ring is the ring of the reversed list. -/
theorem Ring.reverse {next prev : ι → ι} {s : ι} {l : List ι} (ring : Ring next prev s l) :
    Ring prev next s l.reverse where
  forward := ring.backward
  backward := by rw [List.reverse_reverse]; exact ring.forward

/-- The sentinel's backward link is the tail, and the sentinel itself when there is none. -/
theorem Ring.tail {next prev : ι → ι} {s : ι} {l : List ι} (ring : Ring next prev s l) :
    prev s = l.getLastD s := by
  rw [ring.reverse.head]
  cases l using List.reverseRecOn <;> simp

/-- Redirecting the link into a node past it drops the node from the path. -/
theorem path_bypass [DecidableEq ι] (f : ι → ι) (x z i : ι) (l₁ l₂ : List ι)
    (nodup : (x :: (l₁ ++ i :: l₂)).Nodup) (path : Path f x (l₁ ++ i :: l₂ ++ [z])) :
    Path (Function.update f (l₁.getLastD x) (f i)) x (l₁ ++ l₂ ++ [z]) := by
  -- on the nodes before `i`: the last of them, or `x` when there is none, is redirected
  induction l₁ generalizing x with
  | nil =>
    obtain ⟨_, rest⟩ := path
    -- `x` now points where `i` pointed; the nodes after `i` differ from `x`
    have apart : x ∉ i :: l₂ := (List.nodup_cons.mp nodup).1
    cases l₂ with
    | nil => exact ⟨(Function.update_self ..).trans rest.1, trivial⟩
    | cons j js =>
      refine ⟨(Function.update_self ..).trans rest.1, path_congr (fun y member => ?_) rest.2⟩
      exact Function.update_of_ne (fun equal => apart (by simp_all)) _ _
  | cons y ys ih =>
    have tail : (y :: (ys ++ i :: l₂)).Nodup := (List.nodup_cons.mp nodup).2
    rw [List.getLastD_cons]
    -- the link out of `x` is an old one: `x` occurs once, so it is not the redirected node
    refine ⟨?_, ih y tail path.2⟩
    rw [Function.update_of_ne, path.1]
    intro equal
    have member := getLastD_mem y ys
    rw [← equal] at member
    exact (List.nodup_cons.mp nodup).1 (by simp at member ⊢; tauto)

private theorem reverse_around (l₁ l₂ : List ι) (i : ι) :
    (l₁ ++ i :: l₂).reverse = l₂.reverse ++ i :: l₁.reverse := by
  rw [List.reverse_append, List.reverse_cons, List.append_assoc, List.singleton_append]

/-- The ring around a member, seen from behind. -/
theorem Ring.mirror {next prev : ι → ι} {s i : ι} {l₁ l₂ : List ι}
    (ring : Ring next prev s (l₁ ++ i :: l₂)) :
    Ring prev next s (l₂.reverse ++ i :: l₁.reverse) :=
  reverse_around l₁ l₂ i ▸ ring.reverse

private theorem nodup_mirror {s i : ι} {l₁ l₂ : List ι} (nodup : (s :: (l₁ ++ i :: l₂)).Nodup) :
    (s :: (l₂.reverse ++ i :: l₁.reverse)).Nodup := by
  rw [← reverse_around, List.nodup_cons, List.mem_reverse, List.nodup_reverse]
  exact List.nodup_cons.mp nodup

private theorem Ring.next_member {next prev : ι → ι} {s i : ι} {l₁ l₂ : List ι}
    (ring : Ring next prev s (l₁ ++ i :: l₂)) : next i = l₂.headD s := by
  rw [path_at next s s i l₁ l₂ ring.forward]
  cases l₂ <;> simp

/-- The links of a member are its neighbours in the list, the sentinel standing at both ends. -/
theorem Ring.neighbours {next prev : ι → ι} {s i : ι} {l₁ l₂ : List ι}
    (ring : Ring next prev s (l₁ ++ i :: l₂)) :
    prev i = l₁.getLastD s ∧ next i = l₂.headD s := by
  refine ⟨?_, ring.next_member⟩
  rw [ring.mirror.next_member]
  cases l₁ using List.reverseRecOn <;> simp

/-- A member follows the sentinel exactly when the sentinel precedes it. -/
theorem Ring.head_iff {next prev : ι → ι} {s i : ι} {l₁ l₂ : List ι}
    (ring : Ring next prev s (l₁ ++ i :: l₂)) (nodup : (s :: (l₁ ++ i :: l₂)).Nodup) :
    next s = i ↔ prev i = s := by
  rw [ring.head, ring.neighbours.1]
  cases l₁ with
  | nil => simp
  | cons j js =>
    have apart : j ≠ i := by
      rintro rfl
      simp at nodup
    have inner : js.getLastD j ≠ s := by
      intro same
      have member := getLastD_mem j js
      rw [same] at member
      exact (List.nodup_cons.mp nodup).1 (List.mem_append_left _ member)
    rw [List.getLastD_cons]
    exact iff_of_false apart inner

/-- A member precedes the sentinel exactly when the sentinel follows it. -/
theorem Ring.tail_iff {next prev : ι → ι} {s i : ι} {l₁ l₂ : List ι}
    (ring : Ring next prev s (l₁ ++ i :: l₂)) (nodup : (s :: (l₁ ++ i :: l₂)).Nodup) :
    prev s = i ↔ next i = s :=
  ring.mirror.head_iff (nodup_mirror nodup)

private theorem Ring.unlink_forward [DecidableEq ι] {next prev : ι → ι} {s i : ι}
    {l₁ l₂ : List ι} (ring : Ring next prev s (l₁ ++ i :: l₂))
    (nodup : (s :: (l₁ ++ i :: l₂)).Nodup) :
    Path (Function.update next (prev i) (next i)) s (l₁ ++ l₂ ++ [s]) := by
  rw [ring.neighbours.1]
  exact path_bypass next s s i l₁ l₂ nodup ring.forward

/-- Unlinking a node of a ring: its neighbours are linked to each other. -/
theorem Ring.unlink [DecidableEq ι] {next prev : ι → ι} {s i : ι} {l₁ l₂ : List ι}
    (ring : Ring next prev s (l₁ ++ i :: l₂)) (nodup : (s :: (l₁ ++ i :: l₂)).Nodup) :
    Ring (Function.update next (prev i) (next i)) (Function.update prev (next i) (prev i))
      s (l₁ ++ l₂) where
  forward := ring.unlink_forward nodup
  backward := by
    -- the same edit, seen from behind
    rw [List.reverse_append]
    exact ring.mirror.unlink_forward (nodup_mirror nodup)

/-- Appending a new node before the sentinel, that is, at the tail. -/
theorem Ring.append [DecidableEq ι] {next prev : ι → ι} {s i : ι} {l : List ι}
    (ring : Ring next prev s l) (nodup : (s :: l).Nodup) (fresh : i ∉ s :: l) :
    Ring (Function.update (Function.update next (prev s) i) i s)
      (Function.update (Function.update prev i (prev s)) s i) s (l ++ [i]) := by
  have tail := ring.tail
  have known := getLastD_mem s l
  have last : i ≠ l.getLastD s := fun equal => fresh (equal ▸ known)
  constructor
  · rw [tail, List.append_assoc, path_append]
    have forward := (path_append _ _ _ _).mp ring.forward
    constructor
    · -- the links before the old tail are untouched
      cases l using List.reverseRecOn with
      | nil => trivial
      | append_singleton l j =>
        rw [List.getLastD_concat] at last ⊢
        refine path_congr (fun y member => ?_) forward.1
        have apart : y ≠ j := by
          rintro rfl
          simp [List.nodup_append] at nodup
          simp at member
          tauto
        have old : y ≠ i := by
          rintro rfl
          simp at fresh member
          tauto
        rw [Function.update_of_ne old, Function.update_of_ne apart]
    -- the old tail points at the new node, and the new node at the sentinel
    · refine ⟨?_, by simp, trivial⟩
      rw [Function.update_of_ne (Ne.symm last), Function.update_self]
  · rw [List.reverse_append, List.reverse_singleton, List.singleton_append, List.cons_append]
    -- backwards the new node comes first: the sentinel enters the list through it, and it takes
    -- over the sentinel's old link
    have new : i ≠ s := fun equal => fresh (by simp [equal])
    refine ⟨by simp, ?_⟩
    have entered : Function.update (Function.update prev i (prev s)) s i i = prev s := by
      rw [Function.update_of_ne new, Function.update_self]
    have backward := ring.backward
    have sentinel : s ∉ l.reverse := by
      rw [List.mem_reverse]; exact (List.nodup_cons.mp nodup).1
    have outside : i ∉ l.reverse := by simp at fresh ⊢; exact fresh.2
    cases reversed : l.reverse with
    | nil => rw [reversed] at backward; exact ⟨entered.trans backward.1, trivial⟩
    | cons j js =>
      rw [reversed] at backward sentinel outside
      refine ⟨entered.trans backward.1, path_congr (fun y member => ?_) backward.2⟩
      have notSentinel : y ≠ s := fun equal => sentinel (equal ▸ member)
      have notNew : y ≠ i := fun equal => outside (equal ▸ member)
      rw [Function.update_of_ne notSentinel, Function.update_of_ne notNew]

end Hftrs.Library
