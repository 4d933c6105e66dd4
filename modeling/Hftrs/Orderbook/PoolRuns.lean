import Hftrs.Library.Runs
import Hftrs.Orderbook.Pool

/-! Runs of allocations and frees on the arena. -/
namespace Hftrs.Orderbook

open Hftrs.Library

inductive PoolCall (T : Type) where
  | alloc (node : Node T)
  | free (idx : Nat)

namespace Pool

variable {T : Type}

/-- An allocation answers with the index it hands out. -/
def step (profile : Profile) (pool : Pool T) : PoolCall T → Option (Option Nat × Pool T)
  | .alloc node => (pool.alloc profile node).map fun (idx, pool) => (some idx, pool)
  | .free idx => (pool.free profile idx).map fun pool => (none, pool)

/-- An allocation has an index left below the sentinel, and what is freed is occupied. -/
def Admits (pool : Pool T) : PoolCall T → Prop
  | .alloc _ => pool.HasRoom
  | .free idx => ∃ node, pool.get idx = some node

instance (pool : Pool T) : ∀ c, Decidable (pool.Admits c)
  | .alloc _ => inferInstanceAs (Decidable pool.HasRoom)
  | .free idx => decidable_of_iff ((pool.get idx).isSome = true) Option.isSome_iff_exists

/-- The number of occupied slots. -/
def occupied (pool : Pool T) : Nat := (pool.slots.filterMap Slot.node?).length

/-- The largest number of slots that are occupied at the same time in a run. -/
def peak (profile : Profile) : Pool T → List (PoolCall T) → Nat
  | pool, [] => pool.occupied
  | pool, c :: cs =>
    max pool.occupied
      (match pool.step profile c with
      | none => 0
      | some (_, pool') => peak profile pool' cs)

/-- The chain of free links ends at the sentinel and meets every free slot once, and nothing
else. -/
def FreeListed (pool : Pool T) : Prop :=
  ∃ l, FreeChain pool.slots pool.freeHead l ∧ l.Nodup ∧ NIL ∉ l ∧
    ∀ i, i ∈ l ↔ ∃ next, pool.slots[i]? = some (.free next)

/-- What a call hands out and what it leaves alone. -/
def Keeps (pool : Pool T) (answer : Option Nat) (pool' : Pool T) : PoolCall T → Prop
  | .alloc node => ∃ idx, answer = some idx ∧ idx ≠ NIL ∧ pool.get idx = none ∧
      pool'.get idx = some node ∧
      ∀ j other, pool.get j = some other → pool'.get j = some other
  | .free idx => pool'.get idx = none ∧ ∀ j, j ≠ idx → pool'.get j = pool.get j

theorem Valid.freeListed {pool : Pool T} (valid : pool.Valid) : pool.FreeListed := by
  obtain ⟨l, chain, nodup, members⟩ := valid.frees
  refine ⟨l, chain, nodup, fun sentinel => ?_, members⟩
  obtain ⟨next, found⟩ := (members NIL).mp sentinel
  exact Nat.not_lt.mpr valid.bounded (List.getElem?_eq_some_iff.mp found).1

theorem occupied_le (pool : Pool T) : pool.occupied ≤ pool.slots.length :=
  List.length_filterMap_le _ _

theorem occupied_le_peak (profile : Profile) (pool : Pool T) (calls : List (PoolCall T)) :
    pool.occupied ≤ pool.peak profile calls := by
  cases calls with
  | nil => exact Nat.le_refl _
  | cons c cs => exact Nat.le_max_left _ _

/-- Without a free slot all are occupied. -/
theorem Valid.occupied_of_noFree {pool : Pool T} (valid : pool.Valid)
    (noFree : pool.freeHead = NIL) : pool.occupied = pool.slots.length := by
  obtain ⟨l, chain, nodup, sentinel, members⟩ := valid.freeListed
  have none : l = [] := by
    cases l with
    | nil => rfl
    | cons i is =>
      obtain ⟨head, _⟩ := chain
      exact absurd (List.mem_cons_self) (noFree ▸ head ▸ sentinel)
  rw [occupied, List.filterMap_length_eq_length]
  intro slot member
  obtain ⟨i, inside, rfl⟩ := List.getElem_of_mem member
  cases shape : pool.slots[i] with
  | occupied node => rfl
  | free next =>
    have listed := (members i).mpr ⟨next, by rw [List.getElem?_eq_getElem inside, shape]⟩
    rw [none] at listed
    cases listed

/-- A call keeps the number of slots, or pushes one when all are occupied. -/
theorem step_slots {profile : Profile} {pool pool' : Pool T} {c : PoolCall T}
    {answer : Option Nat} (valid : pool.Valid)
    (stepped : pool.step profile c = some (answer, pool')) :
    pool'.slots.length = pool.slots.length ∨
      (pool'.slots.length = pool.slots.length + 1 ∧ pool'.occupied = pool'.slots.length) := by
  cases c with
  | free idx =>
    obtain ⟨freed, returned, equal⟩ := Option.map_eq_some_iff.mp stepped
    cases equal
    unfold free at returned
    split at returned
    next => cases returned
    next =>
      obtain ⟨_, _, rfl⟩ := Option.map_eq_some_iff.mp returned
      exact .inl List.length_set
  | alloc node =>
    obtain ⟨⟨idx, grown⟩, returned, equal⟩ := Option.map_eq_some_iff.mp stepped
    cases equal
    unfold alloc at returned
    split at returned
    next =>
      split at returned
      next =>
        cases returned
        exact .inl List.length_set
      next => cases returned
    next noFree =>
      obtain ⟨_, _, equal⟩ := Option.map_eq_some_iff.mp returned
      cases equal
      have full := valid.occupied_of_noFree (not_not.mp noFree)
      rw [occupied] at full
      refine .inr ⟨List.length_append, ?_⟩
      rw [occupied, List.filterMap_append, List.length_append, List.length_append, full]
      rfl

/-- An admitted call returns, keeps the pool valid and touches no other node. -/
theorem step_spec (profile : Profile) {pool : Pool T} (valid : pool.Valid) (c : PoolCall T)
    (admitted : pool.Admits c) :
    ∃ answer pool', pool.step profile c = some (answer, pool') ∧ pool'.Valid ∧
      pool.Keeps answer pool' c := by
  cases c with
  | alloc node =>
    obtain ⟨idx, pool', returned, fits⟩ := alloc_progress profile node valid admitted
    obtain ⟨valid', fresh, reads⟩ := alloc_spec valid returned fits
    have stored : pool'.get idx = some node := by rw [reads, Function.update_self]
    refine ⟨some idx, pool', by rw [step, returned, Option.map_some], valid', idx, rfl, ?_, fresh,
      stored, fun j other found => ?_⟩
    · exact Nat.ne_of_lt (valid'.lt_NIL stored)
    · have apart : j ≠ idx := by
        rintro rfl
        rw [fresh] at found
        cases found
      rw [reads, Function.update_of_ne apart, found]
  | free idx =>
    obtain ⟨node, found⟩ := admitted
    obtain ⟨pool', returned, valid', reads, _⟩ := free_spec profile valid found
    refine ⟨none, pool', by rw [step, returned, Option.map_some], valid', ?_, fun j apart => ?_⟩
    · rw [reads, Function.update_self]
    · rw [reads, Function.update_of_ne apart]

/-- The slots are as many as there were, or as were ever occupied since. -/
theorem Valid.run_slots {profile : Profile} {pool last : Pool T} {calls : List (PoolCall T)}
    {answers : List (Option Nat)} (valid : pool.Valid)
    (along : Along (step profile) Admits pool calls)
    (returned : run (step profile) pool calls = some (answers, last)) :
    last.slots.length = max pool.slots.length (pool.peak profile calls) := by
  -- on the calls: a slot is pushed when all are occupied, and then the new one is as well
  induction calls generalizing pool answers with
  | nil =>
    cases returned
    exact (Nat.max_eq_left (occupied_le _)).symm
  | cons c cs ih =>
    obtain ⟨answer, rest, pool', rfl, stepped, onwards⟩ := (run_cons_iff _ _ _ _ _ _).mp returned
    obtain ⟨answer', next, stepped', valid', _⟩ := step_spec profile valid c along.1
    rw [stepped] at stepped'
    cases stepped'
    have before := pool.occupied_le
    have after := pool'.occupied_le_peak profile cs
    rw [ih valid' (along.2 _ _ stepped) onwards]
    simp only [peak, stepped]
    rcases step_slots valid stepped with same | ⟨pushed, full⟩ <;> omega

/-- In every run of allocations, as long as an index is left, and frees of occupied slots: no call
panics, the free list is exactly the free slots at all times, an allocation hands out an index that
was not in use and stores its node there, no call touches another node, and the number of slots is
the largest number that was occupied at the same time. -/
theorem run_free_list (profile : Profile) (cap : Nat) (calls : List (PoolCall T))
    (along : Along (step profile) Admits (withCapacity cap) calls) :
    (∃ answers pool, run (step profile) (withCapacity cap) calls = some (answers, pool) ∧
      pool.capacityUsed = (withCapacity cap : Pool T).peak profile calls) ∧
    Throughout (step profile) FreeListed (withCapacity cap) calls ∧
    Along (step profile) (fun pool c => ∀ answer pool', pool.step profile c = some (answer, pool') →
      pool.Keeps answer pool' c) (withCapacity cap) calls := by
  have start := valid_withCapacity (T := T) cap
  obtain ⟨valid, answers, pool, returned⟩ := along.throughout
    (fun pool c valid admitted => by
      obtain ⟨answer, pool', stepped, valid', _⟩ := step_spec profile valid c admitted
      exact ⟨answer, pool', stepped, valid'⟩) start
  refine ⟨⟨answers, pool, returned, ?_⟩, valid.imp fun _ => Valid.freeListed, ?_⟩
  · rw [capacityUsed, start.run_slots along returned]
    exact Nat.max_eq_right (Nat.zero_le _)
  · refine (valid.along.and along).imp ?_
    rintro pool c ⟨valid, admitted⟩ answer pool' stepped
    obtain ⟨answer', next, stepped', _, keeps⟩ := step_spec profile valid c admitted
    rw [stepped] at stepped'
    cases stepped'
    exact keeps

/-- Three nodes, of which two are alive at a time. -/
theorem run_free_list_reuse :
    ∃ answers pool, run (step .release) (withCapacity 0)
        [.alloc ⟨7, NIL, NIL⟩, .alloc ⟨8, 0, NIL⟩, .free 0, .alloc ⟨9, 1, NIL⟩] =
          some (answers, pool) ∧
      pool.capacityUsed = (withCapacity 0 : Pool Nat).peak .release
        [.alloc ⟨7, NIL, NIL⟩, .alloc ⟨8, 0, NIL⟩, .free 0, .alloc ⟨9, 1, NIL⟩] :=
  (run_free_list .release 0 [.alloc ⟨7, NIL, NIL⟩, .alloc ⟨8, 0, NIL⟩, .free 0,
    .alloc ⟨9, 1, NIL⟩] (by decide)).1

end Pool

end Hftrs.Orderbook
