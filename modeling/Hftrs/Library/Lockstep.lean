import Hftrs.Library.Traverse

/-! Two partial computations in lockstep: both are undefined, or both have a result and the results
are related. -/
namespace Hftrs.Library

variable {α β γ δ : Type} {P : α → β → Prop} {Q : γ → δ → Prop}

theorem rel_eq (x : Option α) : Option.Rel Eq x x := by
  cases x with
  | none => exact .none
  | some a => exact .some rfl

theorem rel_isSome {x : Option α} {y : Option β} (rel : Option.Rel P x y) :
    x.isSome = y.isSome := by
  cases rel <;> rfl

theorem rel_imp {P' : α → β → Prop} {x : Option α} {y : Option β} (rel : Option.Rel P x y)
    (implies : ∀ a b, P a b → P' a b) : Option.Rel P' x y := by
  cases rel with
  | none => exact .none
  | some related => exact .some (implies _ _ related)

theorem rel_bind {x : Option α} {y : Option β} {f : α → Option γ} {g : β → Option δ}
    (rel : Option.Rel P x y) (onwards : ∀ a b, P a b → Option.Rel Q (f a) (g b)) :
    Option.Rel Q (x.bind f) (y.bind g) := by
  cases rel with
  | none => exact .none
  | some related => exact onwards _ _ related

theorem rel_map {x : Option α} {y : Option β} {f : α → γ} {g : β → δ}
    (rel : Option.Rel P x y) (onwards : ∀ a b, P a b → Q (f a) (g b)) :
    Option.Rel Q (x.map f) (y.map g) := by
  cases rel with
  | none => exact .none
  | some related => exact .some (onwards _ _ related)

theorem rel_trans {R : α → α → Prop} (trans : ∀ a b c, R a b → R b c → R a c) {x y z : Option α}
    (first : Option.Rel R x y) (second : Option.Rel R y z) : Option.Rel R x z := by
  cases first with
  | none => exact second
  | some here =>
    cases second with
    | some there => exact .some (trans _ _ _ here there)

/-- The order of a list decides the order of what it is mapped to, and nothing else. -/
theorem mapM_perm (f : α → Option β) {l l' : List α} (perm : l.Perm l') :
    Option.Rel List.Perm (l.mapM f) (l'.mapM f) := by
  induction perm with
  | nil => exact .some .nil
  | cons a _ ih =>
    simp only [List.mapM_cons, Option.bind_eq_bind, Option.pure_def]
    cases f a with
    | none => exact .none
    | some b => exact rel_bind (P := List.Perm) ih fun bs bs' same => .some (same.cons b)
  | swap a a' l =>
    simp only [List.mapM_cons, Option.bind_eq_bind, Option.pure_def]
    cases f a <;> cases f a' <;> cases l.mapM f <;>
      first | exact .none | exact .some (List.Perm.swap ..)
  | trans _ _ first second =>
    exact rel_trans (R := List.Perm) (fun _ _ _ => List.Perm.trans) first second

end Hftrs.Library
