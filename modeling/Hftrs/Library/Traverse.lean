import Mathlib.Data.List.Forall2

/-! Partial functions mapped over lists: the map is defined when the function is defined on every
element. -/
namespace Hftrs.Library

variable {α β : Type} {f : α → Option β}

/-- A map that succeeds is the pointwise one. -/
theorem mapM_some_iff (l : List α) (bs : List β) :
    l.mapM f = some bs ↔ List.Forall₂ (fun a b => f a = some b) l bs := by
  induction l generalizing bs with
  | nil => cases bs <;> simp
  | cons a l ih =>
    rw [List.forall₂_cons_left_iff]
    simp only [List.mapM_cons, Option.bind_eq_bind, Option.bind_eq_some_iff, Option.pure_def,
      Option.some.injEq, ih]
    constructor
    · rintro ⟨b, here, bs, onwards, rfl⟩
      exact ⟨b, bs, here, onwards, rfl⟩
    · rintro ⟨b, bs, here, onwards, rfl⟩
      exact ⟨b, here, bs, onwards, rfl⟩

theorem mapM_cons_iff (a : α) (l : List α) (b : β) (bs : List β) :
    (a :: l).mapM f = some (b :: bs) ↔ f a = some b ∧ l.mapM f = some bs := by
  rw [mapM_some_iff, mapM_some_iff, List.forall₂_cons]

/-- A result is that of some element. -/
theorem mapM_some_mem {l : List α} {bs : List β} (mapped : l.mapM f = some bs) {b : β}
    (member : b ∈ bs) : ∃ a ∈ l, f a = some b := by
  have pairs := (mapM_some_iff l bs).mp mapped
  clear mapped
  induction pairs with
  | nil => cases member
  | cons here _ ih =>
    rcases List.mem_cons.mp member with rfl | later
    · exact ⟨_, List.mem_cons_self, here⟩
    · obtain ⟨a, inside, result⟩ := ih later
      exact ⟨a, List.mem_cons_of_mem _ inside, result⟩

theorem mapM_eq_some_map (f : α → Option β) (g : α → β) (l : List α)
    (each : ∀ a ∈ l, f a = some (g a)) : l.mapM f = some (l.map g) := by
  rw [mapM_some_iff, List.forall₂_map_right_iff, List.forall₂_same]
  exact each

/-- Reading what was written of each element. -/
theorem mapM_map_some {γ : Type} {h : γ → α} {g : γ → β} {l : List γ}
    (each : ∀ c ∈ l, f (h c) = some (g c)) : (l.map h).mapM f = some (l.map g) := by
  rw [mapM_some_iff, List.forall₂_map_left_iff, List.forall₂_map_right_iff, List.forall₂_same]
  exact each

theorem mapM_some_each (f : α → Option β) (l : List α) (results : List β)
    (mapped : l.mapM f = some results) : ∀ a ∈ l, ∃ b, f a = some b := by
  have pairs := (mapM_some_iff l results).mp mapped
  clear mapped
  induction pairs with
  | nil => simp
  | cons here _ ih => exact List.forall_mem_cons.mpr ⟨⟨_, here⟩, ih⟩

/-- A relation holds along a map exactly if it holds at each element. -/
theorem mapM_forall₂_iff (f : α → Option β) (R : α → β → Prop) (l : List α) :
    (∃ bs, l.mapM f = some bs ∧ List.Forall₂ R l bs) ↔ ∀ a ∈ l, ∃ b, f a = some b ∧ R a b := by
  induction l with
  | nil => exact ⟨fun _ => by simp, fun _ => ⟨[], rfl, .nil⟩⟩
  | cons a as ih =>
    rw [List.forall_mem_cons, ← ih]
    constructor
    · rintro ⟨_, mapped, related⟩
      cases related with
      | cons first rest =>
        obtain ⟨found, others⟩ := (mapM_cons_iff _ _ _ _).mp mapped
        exact ⟨⟨_, found, first⟩, _, others, rest⟩
    · rintro ⟨⟨b, found, first⟩, bs, others, rest⟩
      exact ⟨b :: bs, (mapM_cons_iff _ _ _ _).mpr ⟨found, others⟩, .cons first rest⟩

/-- A map that is defined on every element of a list. -/
theorem mapM_some {l : List α} (defined : ∀ a ∈ l, (f a).isSome) :
    ∃ bs, l.mapM f = some bs ∧ bs.map some = l.map f := by
  obtain ⟨bs, mapped, _⟩ := (mapM_forall₂_iff f (fun _ _ => True) l).mpr fun a member =>
    (Option.isSome_iff_exists.mp (defined a member)).imp fun _ here => ⟨here, trivial⟩
  refine ⟨bs, mapped, ?_⟩
  have pairs := (mapM_some_iff l bs).mp mapped
  rw [← List.forall₂_eq_eq_eq, List.forall₂_map_left_iff, List.forall₂_map_right_iff]
  exact pairs.flip.imp fun _ _ here => here.symm

/-- What each element is mapped to has a property. -/
theorem mapM_some_all {P : β → Prop} {l : List α} (each : ∀ a ∈ l, ∃ b, f a = some b ∧ P b) :
    ∃ bs, l.mapM f = some bs ∧ ∀ b ∈ bs, P b := by
  obtain ⟨bs, mapped, pairs⟩ := (mapM_forall₂_iff f (fun _ b => P b) l).mpr each
  refine ⟨bs, mapped, ?_⟩
  clear mapped
  induction pairs with
  | nil => simp
  | cons here _ ih =>
    exact List.forall_mem_cons.mpr ⟨here, ih fun a member => each a (by simp [member])⟩

end Hftrs.Library
