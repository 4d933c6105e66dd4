import Mathlib.Data.List.Basic

/-! Runs of deterministic machines that answer every input or panic. -/
namespace Hftrs.Library

variable {σ τ α β : Type}

/-- A run feeds a machine its inputs in order and collects the answers. It has no result
when some step panics (`none`). -/
def run (step : σ → α → Option (β × σ)) : σ → List α → Option (List β × σ)
  | s, [] => some ([], s)
  | s, a :: as =>
    match step s a with
    | none => none
    | some (b, s') => (run step s' as).map fun (bs, s'') => (b :: bs, s'')

/-- Every step a run takes satisfies `C`, which reads the state before the step and its input. -/
def Along (step : σ → α → Option (β × σ)) (C : σ → α → Prop) : σ → List α → Prop
  | _, [] => True
  | s, a :: as => C s a ∧ ∀ b s', step s a = some (b, s') → Along step C s' as

/-- Every state a run visits satisfies `P`, the last one included. -/
def Throughout (step : σ → α → Option (β × σ)) (P : σ → Prop) : σ → List α → Prop
  | s, [] => P s
  | s, a :: as => P s ∧ ∀ b s', step s a = some (b, s') → Throughout step P s' as

instance Throughout.decidable (step : σ → α → Option (β × σ)) (P : σ → Prop) [DecidablePred P] :
    ∀ s as, Decidable (Throughout step P s as)
  | s, [] => inferInstanceAs (Decidable (P s))
  | s, a :: as =>
    match stepped : step s a with
    | none => decidable_of_iff (P s) (by simp [Throughout, stepped])
    | some (_, s') =>
      have := Throughout.decidable step P s' as
      decidable_of_iff (P s ∧ Throughout step P s' as) (by simp [Throughout, stepped])

instance Along.decidable (step : σ → α → Option (β × σ)) (C : σ → α → Prop)
    [∀ s a, Decidable (C s a)] : ∀ s as, Decidable (Along step C s as)
  | _, [] => inferInstanceAs (Decidable True)
  | s, a :: as =>
    match stepped : step s a with
    | none => decidable_of_iff (C s a) (by simp [Along, stepped])
    | some (_, s') =>
      have := Along.decidable step C s' as
      decidable_of_iff (C s a ∧ Along step C s' as) (by simp [Along, stepped])

@[simp] theorem run_nil (step : σ → α → Option (β × σ)) (s : σ) : run step s [] = some ([], s) :=
  rfl

theorem run_cons_iff (step : σ → α → Option (β × σ)) (s s'' : σ) (a : α) (as : List α)
    (answers : List β) :
    run step s (a :: as) = some (answers, s'') ↔
      ∃ b bs s', answers = b :: bs ∧ step s a = some (b, s') ∧ run step s' as = some (bs, s'') := by
  constructor
  · intro returned
    rw [run] at returned
    split at returned
    next => cases returned
    next b s' stepped =>
      obtain ⟨⟨bs, last⟩, tail, equal⟩ := Option.map_eq_some_iff.mp returned
      cases equal
      exact ⟨b, bs, s', rfl, stepped, tail⟩
  · rintro ⟨b, bs, s', rfl, stepped, tail⟩
    simp only [run, stepped, tail, Option.map_some]

theorem run_cons_of_step (step : σ → α → Option (β × σ)) (s s' : σ) (a : α) (as : List α) (b : β)
    (stepped : step s a = some (b, s')) :
    run step s (a :: as) = (run step s' as).map fun (bs, last) => (b :: bs, last) := by
  simp only [run, stepped]

/-- A run over two lists of inputs is a run over the first and one over the second from there. -/
theorem run_append_iff (step : σ → α → Option (β × σ)) (s last : σ) (as bs : List α)
    (answers : List β) :
    run step s (as ++ bs) = some (answers, last) ↔
      ∃ xs ys s', answers = xs ++ ys ∧ run step s as = some (xs, s') ∧
        run step s' bs = some (ys, last) := by
  -- on the first list: where it ends, the answers split
  induction as generalizing s answers with
  | nil =>
    constructor
    · intro returned
      exact ⟨[], answers, s, rfl, rfl, returned⟩
    · rintro ⟨xs, ys, s', rfl, first, second⟩
      cases first
      exact second
  | cons a as ih =>
    rw [List.cons_append, run_cons_iff]
    constructor
    · rintro ⟨b, rest, s₁, rfl, stepped, returned⟩
      obtain ⟨xs, ys, s', rfl, first, second⟩ := (ih s₁ rest).mp returned
      exact ⟨b :: xs, ys, s', rfl, (run_cons_iff _ _ _ _ _ _).mpr ⟨b, xs, s₁, rfl, stepped, first⟩,
        second⟩
    · rintro ⟨xs, ys, s', rfl, first, second⟩
      obtain ⟨b, bs, s₁, rfl, stepped, returned⟩ := (run_cons_iff _ _ _ _ _ _).mp first
      exact ⟨b, bs ++ ys, s₁, rfl, stepped, (ih s₁ (bs ++ ys)).mpr
        ⟨bs, ys, s', rfl, returned, second⟩⟩

/-- The state after one more input. -/
theorem run_concat (step : σ → α → Option (β × σ)) (s : σ) (as : List α) (a : α) :
    (run step s (as ++ [a])).map Prod.snd =
      ((run step s as).map Prod.snd).bind fun s' => (step s' a).map Prod.snd := by
  -- from the front, where `run` takes its inputs
  induction as generalizing s with
  | nil =>
    rw [List.nil_append, run_nil, Option.map_some, Option.bind_some, run]
    cases step s a <;> rfl
  | cons b as ih =>
    cases stepped : step s b with
    | none => simp only [List.cons_append, run, stepped, Option.map_none, Option.bind_none]
    | some answered =>
      obtain ⟨answer, s'⟩ := answered
      have onwards := ih s'
      simp only [List.cons_append, run, stepped, Option.map_map] at onwards ⊢
      exact onwards

theorem Throughout.head {step : σ → α → Option (β × σ)} {P : σ → Prop} {s : σ} {as : List α}
    (throughout : Throughout step P s as) : P s := by
  cases as with
  | nil => exact throughout
  | cons => exact throughout.1

theorem Throughout.shorten {step : σ → α → Option (β × σ)} {P : σ → Prop} {s : σ}
    {as bs : List α} (throughout : Throughout step P s as) (initial : bs <+: as) :
    Throughout step P s bs := by
  -- on the shorter list: the longer one has a step for each of its inputs
  induction bs generalizing s as with
  | nil => exact throughout.head
  | cons b bs ih =>
    obtain ⟨rest, rfl⟩ := initial
    exact ⟨throughout.1, fun answer s' stepped => ih (throughout.2 answer s' stepped) ⟨rest, rfl⟩⟩

theorem Along.shorten {step : σ → α → Option (β × σ)} {C : σ → α → Prop} {s : σ} {as bs : List α}
    (along : Along step C s as) (initial : bs <+: as) : Along step C s bs := by
  induction bs generalizing s as with
  | nil => trivial
  | cons b bs ih =>
    obtain ⟨rest, rfl⟩ := initial
    exact ⟨along.1, fun answer s' stepped => ih (along.2 answer s' stepped) ⟨rest, rfl⟩⟩

theorem Throughout.along {step : σ → α → Option (β × σ)} {P : σ → Prop} {s : σ} {as : List α}
    (throughout : Throughout step P s as) : Along step (fun s _ => P s) s as := by
  induction as generalizing s with
  | nil => trivial
  | cons a as ih => exact ⟨throughout.1, fun b s' stepped => ih (throughout.2 b s' stepped)⟩

theorem Along.of_forall {step : σ → α → Option (β × σ)} {C : σ → α → Prop}
    (always : ∀ s a, C s a) (s : σ) (as : List α) : Along step C s as := by
  induction as generalizing s with
  | nil => trivial
  | cons a as ih => exact ⟨always s a, fun _ s' _ => ih s'⟩

theorem Along.imp {step : σ → α → Option (β × σ)} {C D : σ → α → Prop} {s : σ} {as : List α}
    (implies : ∀ s a, C s a → D s a) (along : Along step C s as) : Along step D s as := by
  induction as generalizing s with
  | nil => trivial
  | cons a as ih =>
    exact ⟨implies s a along.1, fun b s' stepped => ih (along.2 b s' stepped)⟩

theorem Along.and_inputs {step : σ → α → Option (β × σ)} {C : σ → α → Prop} {admissible : α → Prop}
    {s : σ} {as : List α} (along : Along step C s as) (inputs : ∀ a ∈ as, admissible a) :
    Along step (fun s a => C s a ∧ admissible a) s as := by
  induction as generalizing s with
  | nil => trivial
  | cons a as ih =>
    refine ⟨⟨along.1, inputs a (by simp)⟩, fun b s' stepped => ?_⟩
    exact ih (along.2 b s' stepped) fun b member => inputs b (by simp [member])

/-- An invariant of the steps is one of the runs. -/
theorem run_invariant {step : σ → α → Option (β × σ)} {P : σ → Prop}
    (preserved : ∀ s a b s', P s → step s a = some (b, s') → P s') {s last : σ} {as : List α}
    {answers : List β} (initial : P s) (returned : run step s as = some (answers, last)) :
    P last := by
  induction as generalizing s answers with
  | nil => cases returned; exact initial
  | cons a as ih =>
    obtain ⟨b, bs, s', _, stepped, onwards⟩ := (run_cons_iff _ _ _ _ _ _).mp returned
    exact ih (preserved s a b s' initial stepped) onwards

/-- A property that steps only lose holds throughout a run that ends with it. -/
theorem Throughout.of_last {step : σ → α → Option (β × σ)} {P : σ → Prop}
    (earlier : ∀ s a b s', step s a = some (b, s') → P s' → P s) {s last : σ} {as : List α}
    {answers : List β} (returned : run step s as = some (answers, last)) (final : P last) :
    Throughout step P s as := by
  induction as generalizing s answers with
  | nil => cases returned; exact final
  | cons a as ih =>
    obtain ⟨b, bs, s', _, stepped, onwards⟩ := (run_cons_iff _ _ _ _ _ _).mp returned
    have later := ih onwards
    refine ⟨earlier s a b s' stepped later.head, fun b' s'' again => ?_⟩
    rw [stepped] at again
    cases again
    exact later

/-- An invariant of the steps that meet a condition and lead to states with a property. -/
theorem Along.keeps {step : σ → α → Option (β × σ)} {C : σ → α → Prop} {R I : σ → Prop}
    (preserved : ∀ s a b s', I s → C s a → R s' → step s a = some (b, s') → I s') {s : σ}
    {as : List α} (initial : I s) (along : Along step C s as)
    (throughout : Throughout step R s as) : Throughout step I s as := by
  induction as generalizing s with
  | nil => exact initial
  | cons a as ih =>
    refine ⟨initial, fun b s' stepped => ?_⟩
    have later := throughout.2 b s' stepped
    exact ih (preserved s a b s' initial along.1 later.head stepped) (along.2 b s' stepped) later

theorem Throughout.last {step : σ → α → Option (β × σ)} {P : σ → Prop} {s last : σ} {as : List α}
    {answers : List β} (throughout : Throughout step P s as)
    (returned : run step s as = some (answers, last)) : P last := by
  induction as generalizing s answers with
  | nil => cases returned; exact throughout
  | cons a as ih =>
    obtain ⟨b, bs, s', _, stepped, onwards⟩ := (run_cons_iff _ _ _ _ _ _).mp returned
    exact ih (throughout.2 b s' stepped) onwards

/-- A state that no input leaves is the state after any run, which does not panic. -/
theorem run_final {step : σ → α → Option (β × σ)} {Q : β → Prop} {s : σ}
    (stays : ∀ a, ∃ b, step s a = some (b, s) ∧ Q b) (as : List α) :
    ∃ answers, run step s as = some (answers, s) ∧ ∀ b ∈ answers, Q b := by
  induction as with
  | nil => exact ⟨[], rfl, by simp⟩
  | cons a as ih =>
    obtain ⟨b, stepped, good⟩ := stays a
    obtain ⟨answers, returned, all⟩ := ih
    refine ⟨b :: answers, ?_, ?_⟩
    · rw [run_cons_of_step step s s a as b stepped, returned, Option.map_some]
    · intro c member
      rcases List.mem_cons.mp member with rfl | later
      · exact good
      · exact all c later

theorem Throughout.imp {step : σ → α → Option (β × σ)} {P Q : σ → Prop} {s : σ} {as : List α}
    (implies : ∀ s, P s → Q s) (throughout : Throughout step P s as) : Throughout step Q s as := by
  induction as generalizing s with
  | nil => exact implies s throughout
  | cons a as ih =>
    exact ⟨implies s throughout.1, fun b s' stepped => ih (throughout.2 b s' stepped)⟩

/-- When admissible steps do not panic and keep a property, it holds throughout. -/
theorem Along.throughout {step : σ → α → Option (β × σ)} {C : σ → α → Prop} {P : σ → Prop}
    (progress : ∀ s a, P s → C s a → ∃ b s', step s a = some (b, s') ∧ P s') {s : σ}
    {as : List α} (initial : P s) (along : Along step C s as) :
    Throughout step P s as ∧ ∃ answers last, run step s as = some (answers, last) := by
  induction as generalizing s with
  | nil => exact ⟨initial, [], s, rfl⟩
  | cons a as ih =>
    obtain ⟨b, s', stepped, kept⟩ := progress s a initial along.1
    obtain ⟨onwards, answers, last, returned⟩ := ih kept (along.2 b s' stepped)
    refine ⟨⟨initial, fun b' s'' again => ?_⟩, b :: answers, last, ?_⟩
    · rw [stepped] at again
      cases again
      exact onwards
    · rw [run_cons_of_step step s s' a as b stepped, returned, Option.map_some]

theorem Along.and {step : σ → α → Option (β × σ)} {C D : σ → α → Prop} {s : σ} {as : List α}
    (first : Along step C s as) (second : Along step D s as) :
    Along step (fun s a => C s a ∧ D s a) s as := by
  induction as generalizing s with
  | nil => trivial
  | cons a as ih =>
    exact ⟨⟨first.1, second.1⟩,
      fun b s' stepped => ih (first.2 b s' stepped) (second.2 b s' stepped)⟩

/-- A property holds throughout when it holds at the start and each step taken leads to it. -/
theorem throughout_iff {step : σ → α → Option (β × σ)} {P : σ → Prop} {s : σ} {as : List α} :
    Throughout step P s as ↔
      P s ∧ Along step (fun s a => ∀ b s', step s a = some (b, s') → P s') s as := by
  induction as generalizing s with
  | nil => exact ⟨fun now => ⟨now, trivial⟩, And.left⟩
  | cons a as ih =>
    constructor
    · rintro ⟨now, onwards⟩
      exact ⟨now, fun b s' stepped => (onwards b s' stepped).head,
        fun b s' stepped => (ih.mp (onwards b s' stepped)).2⟩
    · rintro ⟨now, next, onwards⟩
      exact ⟨now, fun b s' stepped => ih.mpr ⟨next b s' stepped, onwards b s' stepped⟩⟩

/-- Two conditions on steps that agree where an invariant holds, which both keep. -/
theorem Along.congr {step : σ → α → Option (β × σ)} {C D : σ → α → Prop} {I : σ → Prop}
    (agree : ∀ s a, I s → (C s a ↔ D s a))
    (kept : ∀ s a b s', I s → D s a → step s a = some (b, s') → I s') {s : σ} {as : List α}
    (initial : I s) : Along step C s as ↔ Along step D s as := by
  induction as generalizing s with
  | nil => exact Iff.rfl
  | cons a as ih =>
    constructor
    · rintro ⟨now, onwards⟩
      have here := (agree s a initial).mp now
      exact ⟨here, fun b s' stepped =>
        (ih (kept s a b s' initial here stepped)).mp (onwards b s' stepped)⟩
    · rintro ⟨here, onwards⟩
      exact ⟨(agree s a initial).mpr here, fun b s' stepped =>
        (ih (kept s a b s' initial here stepped)).mpr (onwards b s' stepped)⟩

theorem Along.and_iff {step : σ → α → Option (β × σ)} {C D : σ → α → Prop} {s : σ}
    {as : List α} :
    Along step (fun s a => C s a ∧ D s a) s as ↔ Along step C s as ∧ Along step D s as :=
  ⟨fun both => ⟨both.imp fun _ _ => And.left, both.imp fun _ _ => And.right⟩,
    fun ⟨first, second⟩ => first.and second⟩

theorem Along.append {step : σ → α → Option (β × σ)} {C : σ → α → Prop} {s : σ} {as bs : List α}
    (along : Along step C s as)
    (onwards : ∀ answers s', run step s as = some (answers, s') → Along step C s' bs) :
    Along step C s (as ++ bs) := by
  induction as generalizing s with
  | nil => exact onwards [] s rfl
  | cons a as ih =>
    refine ⟨along.1, fun b s' stepped => ih (along.2 b s' stepped) fun answers last returned => ?_⟩
    apply onwards (b :: answers)
    rw [run_cons_of_step _ _ _ _ _ _ stepped, returned]
    rfl

/-- The run of a machine that never panics. -/
def respond (step : τ → α → β × τ) : τ → List α → List β × τ
  | t, [] => ([], t)
  | t, a :: as =>
    let (b, t') := step t a
    let (bs, last) := respond step t' as
    (b :: bs, last)

/-- Forward simulation: when every step of the machine, from related states and on an
admissible input, answers as the abstract machine does and relates the states it leads to,
whole runs give the same answers and end in related states. In particular they do not panic. -/
theorem run_simulation (step : σ → α → Option (β × σ)) (abstract : τ → α → β × τ)
    (R : σ → τ → Prop) (admissible : σ → α → Prop)
    (simulated : ∀ s t a, R s t → admissible s a →
      ∃ s', step s a = some ((abstract t a).1, s') ∧ R s' (abstract t a).2)
    (s : σ) (t : τ) (as : List α) (related : R s t) (along : Along step admissible s as) :
    ∃ last, run step s as = some ((respond abstract t as).1, last) ∧
      R last (respond abstract t as).2 := by
  -- both machines take the first input; the states they reach are related again, and so the
  -- rest of the run is an instance of the hypothesis
  induction as generalizing s t with
  | nil => exact ⟨s, rfl, related⟩
  | cons a as ih =>
    obtain ⟨s', stepped, onwards⟩ := simulated s t a related along.1
    obtain ⟨last, returned, final⟩ := ih s' (abstract t a).2 onwards (along.2 _ s' stepped)
    refine ⟨last, ?_, final⟩
    rw [run_cons_of_step step s s' a as _ stepped, returned]
    rfl

/-! ### A machine defined on more inputs -/

/-- `y` is defined wherever `x` is, with the same value. -/
def Below (x y : Option α) : Prop := ∀ a, x = some a → y = some a

theorem Below.refl (x : Option α) : Below x x := fun _ found => found

theorem Below.none (y : Option α) : Below Option.none y := fun _ found => by cases found

theorem Below.trans {x y z : Option α} (first : Below x y) (second : Below y z) : Below x z :=
  fun a found => second a (first a found)

theorem Below.map {x y : Option α} (f : α → β) (below : Below x y) :
    Below (x.map f) (y.map f) := by
  intro b found
  obtain ⟨a, here, rfl⟩ := Option.map_eq_some_iff.mp found
  rw [below a here, Option.map_some]

theorem Below.bind {x y : Option α} {f g : α → Option β} (below : Below x y)
    (onwards : ∀ a, Below (f a) (g a)) : Below (x >>= f) (y >>= g) := by
  intro b found
  obtain ⟨a, here, there⟩ := Option.bind_eq_some_iff.mp found
  exact Option.bind_eq_some_iff.mpr ⟨a, below a here, onwards a b there⟩

theorem Below.ite {x y x' y' : Option α} (p : Prop) [Decidable p] (yes : Below x x')
    (no : Below y y') : Below (if p then x else y) (if p then x' else y') := by
  split
  · exact yes
  · exact no

theorem run_below {step step' : σ → α → Option (β × σ)}
    (below : ∀ s a, Below (step s a) (step' s a)) (s : σ) (as : List α) :
    Below (run step s as) (run step' s as) := by
  induction as generalizing s with
  | nil => exact Below.refl _
  | cons a as ih =>
    rintro ⟨answers, last⟩ returned
    obtain ⟨b, bs, s', rfl, stepped, onwards⟩ := (run_cons_iff _ _ _ _ _ _).mp returned
    exact (run_cons_iff _ _ _ _ _ _).mpr
      ⟨b, bs, s', rfl, below s a _ stepped, ih s' _ onwards⟩

theorem Along.of_below {step step' : σ → α → Option (β × σ)} {C : σ → α → Prop}
    (below : ∀ s a, Below (step s a) (step' s a)) {s : σ} {as : List α}
    (along : Along step' C s as) : Along step C s as := by
  induction as generalizing s with
  | nil => trivial
  | cons a as ih =>
    exact ⟨along.1, fun b s' stepped => ih (along.2 b s' (below s a _ stepped))⟩

end Hftrs.Library
