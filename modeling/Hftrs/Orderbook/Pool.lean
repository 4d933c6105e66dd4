import Mathlib.Data.List.Nodup
import Mathlib.Data.List.Perm.Basic
import Mathlib.Logic.Function.Basic
import Hftrs.Profile

/-! The slab arena: slots recycled through an intrusive free list. A slot index (`u32` in the
source) is a natural number. -/
namespace Hftrs.Orderbook

/-- Sentinel for "no neighbor" / end-of-list: `u32::MAX`. -/
def NIL : Nat := 4294967295

structure Node (T : Type) where
  order : T
  prev : Nat
  next : Nat
  deriving DecidableEq, Repr

inductive Slot (T : Type) where
  | occupied (node : Node T)
  | free (next : Nat)
  deriving DecidableEq, Repr

/-- The node of an occupied slot. -/
def Slot.node? {T : Type} : Slot T → Option (Node T)
  | .occupied node => some node
  | .free _ => none

structure Pool (T : Type) where
  slots : List (Slot T)
  freeHead : Nat
  deriving DecidableEq, Repr

namespace Pool

variable {T : Type}

/-- The capacity only sizes the allocation. -/
def withCapacity (_cap : Nat) : Pool T := ⟨[], NIL⟩

/-- `none` is the panic on a freed slot (`unreachable!`) or an index out of range. -/
def get (pool : Pool T) (idx : Nat) : Option (Node T) :=
  match pool.slots[idx]? with
  | some (.occupied node) => some node
  | _ => none

/-- `get_mut` and the write made through the reference it returns. -/
def getMut (pool : Pool T) (idx : Nat) (write : Node T → Node T) : Option (Pool T) :=
  match pool.slots[idx]? with
  | some (.occupied node) => some { pool with slots := pool.slots.set idx (.occupied (write node)) }
  | _ => none

def alloc (profile : Profile) (pool : Pool T) (node : Node T) : Option (Nat × Pool T) :=
  if pool.freeHead ≠ NIL then
    -- recycle the first free slot
    match pool.slots[pool.freeHead]? with
    | some (.free next) =>
      some (pool.freeHead, ⟨pool.slots.set pool.freeHead (.occupied node), next⟩)
    -- `unreachable!`: the free list pointed at an occupied slot
    | _ => none
  else
    -- `self.slots.len() as Index` keeps the low 32 bits
    let idx := pool.slots.length % 2 ^ 32
    (profile.debugAssert (idx ≠ NIL)).map fun _ =>
      (idx, { pool with slots := pool.slots ++ [.occupied node] })

def free (profile : Profile) (pool : Pool T) (idx : Nat) : Option (Pool T) :=
  match pool.slots[idx]? with
  -- an index out of range panics; freeing a free slot only trips the debug assertion
  | none => none
  | some slot =>
    (profile.debugAssert (slot matches .occupied _)).map fun _ =>
      ⟨pool.slots.set idx (.free pool.freeHead), idx⟩

/-- Number of slots ever allocated (including currently freed). -/
def capacityUsed (pool : Pool T) : Nat := pool.slots.length

/-- The slots met on the way from `start` along `link` until `NIL`. There is no result when the
walk meets a slot that is not occupied or is still under way after `fuel` steps. -/
def walk (pool : Pool T) (link : Node T → Nat) : Nat → Nat → Option (List Nat)
  | fuel, start =>
    if start = NIL then some []
    else match fuel with
      | 0 => none
      | fuel + 1 =>
        match pool.get start with
        | none => none
        | some node => (pool.walk link fuel (link node)).map (start :: ·)

/-! ### The free list -/

/-- Following the free links from `start` visits exactly the slots listed. -/
def FreeChain (slots : List (Slot T)) : Nat → List Nat → Prop
  | start, [] => start = NIL
  | start, i :: is => start = i ∧ ∃ next, slots[i]? = some (.free next) ∧ FreeChain slots next is

/-- Indices fit the sentinel's range and the free list holds exactly the free slots. -/
structure Valid (pool : Pool T) : Prop where
  bounded : pool.slots.length ≤ NIL
  frees : ∃ l, FreeChain pool.slots pool.freeHead l ∧ l.Nodup ∧
    ∀ i, i ∈ l ↔ ∃ next, pool.slots[i]? = some (.free next)

/-- One more node fits: a slot is free, or the next index is still below the sentinel. -/
def HasRoom (pool : Pool T) : Prop := pool.freeHead ≠ NIL ∨ pool.slots.length < NIL

instance (pool : Pool T) : Decidable pool.HasRoom :=
  inferInstanceAs (Decidable (pool.freeHead ≠ NIL ∨ pool.slots.length < NIL))

theorem get_iff (pool : Pool T) (idx : Nat) (node : Node T) :
    pool.get idx = some node ↔ pool.slots[idx]? = some (.occupied node) := by
  unfold get
  split
  next n found => rw [found]; simp
  next other => exact ⟨fun h => by simp at h, fun h => absurd h (other node)⟩

theorem get_lt {pool : Pool T} {idx : Nat} {node : Node T} (occupied : pool.get idx = some node) :
    idx < pool.slots.length := by
  have found := (pool.get_iff idx node).mp occupied
  exact (List.getElem?_eq_some_iff.mp found).1

theorem Valid.lt_NIL {pool : Pool T} (valid : pool.Valid) {idx : Nat} {node : Node T}
    (occupied : pool.get idx = some node) : idx < NIL :=
  Nat.lt_of_lt_of_le (get_lt occupied) valid.bounded

/-- `get` after a slot has been overwritten. -/
theorem get_set (slots : List (Slot T)) (freeHead head : Nat) (idx : Nat) (slot : Slot T)
    (inside : idx < slots.length) :
    (⟨slots.set idx slot, head⟩ : Pool T).get =
      Function.update (⟨slots, freeHead⟩ : Pool T).get idx slot.node? := by
  funext j
  by_cases same : j = idx
  · subst j
    cases slot <;> simp [get, inside, Slot.node?]
  · rw [Function.update_of_ne same]
    simp [get, List.getElem?_set_ne (Ne.symm same)]

theorem get_push (slots : List (Slot T)) (freeHead : Nat) (node : Node T) :
    (⟨slots ++ [.occupied node], freeHead⟩ : Pool T).get =
      Function.update (⟨slots, freeHead⟩ : Pool T).get slots.length (some node) := by
  funext j
  rcases Nat.lt_trichotomy j slots.length with below | rfl | above
  -- below the new slot, at it, and past the end
  · rw [Function.update_of_ne (Nat.ne_of_lt below)]
    simp [get, List.getElem?_append_left below]
  · simp [get]
  · rw [Function.update_of_ne (Nat.ne_of_gt above)]
    have outside : (slots ++ [Slot.occupied node]).length ≤ j := by
      simpa using Nat.succ_le_of_lt above
    simp [get, List.getElem?_eq_none (Nat.le_of_lt above), List.getElem?_eq_none outside]

private theorem freeChain_congr {slots slots' : List (Slot T)} {start : Nat} {l : List Nat}
    (same : ∀ i ∈ l, slots'[i]? = slots[i]?) (chain : FreeChain slots start l) :
    FreeChain slots' start l := by
  induction l generalizing start with
  | nil => exact chain
  | cons i is ih =>
    obtain ⟨equal, next, found, rest⟩ := chain
    refine ⟨equal, next, ?_, ih (fun j member => same j (by simp [member])) rest⟩
    rw [same i (by simp), found]

/-- Overwriting a slot that is not on a chain leaves the chain. -/
private theorem freeChain_set {slots : List (Slot T)} {start idx : Nat} {l : List Nat}
    (slot : Slot T) (outside : idx ∉ l) (chain : FreeChain slots start l) :
    FreeChain (slots.set idx slot) start l := by
  apply freeChain_congr _ chain
  intro i member
  have apart : idx ≠ i := fun equal => outside (equal ▸ member)
  exact List.getElem?_set_ne apart

/-- Which slots are free once one has been overwritten. -/
private theorem isFree_set (slots : List (Slot T)) (idx : Nat) (slot : Slot T)
    (inside : idx < slots.length) (i : Nat) :
    (∃ next, (slots.set idx slot)[i]? = some (.free next)) ↔
      if i = idx then slot.node? = none else ∃ next, slots[i]? = some (.free next) := by
  by_cases same : i = idx
  · subst same
    rw [if_pos rfl, List.getElem?_set_self inside]
    cases slot <;> simp [Slot.node?]
  · rw [if_neg same, List.getElem?_set_ne (Ne.symm same)]

/-- An occupied slot is not on the free list. -/
private theorem not_mem_frees {pool : Pool T} {idx : Nat} {node : Node T} {l : List Nat}
    (occupied : pool.get idx = some node)
    (members : ∀ i, i ∈ l ↔ ∃ next, pool.slots[i]? = some (.free next)) : idx ∉ l := by
  intro member
  obtain ⟨next, isFree⟩ := (members idx).mp member
  rw [(pool.get_iff idx node).mp occupied] at isFree
  cases isFree

theorem valid_withCapacity (cap : Nat) : (withCapacity cap : Pool T).Valid where
  bounded := Nat.zero_le _
  frees := ⟨[], rfl, List.nodup_nil, fun i => by simp [withCapacity]⟩

/-- What `get_mut` does to an occupied slot, and that it does nothing else. -/
theorem getMut_spec {pool : Pool T} {idx : Nat} {node : Node T} (write : Node T → Node T)
    (valid : pool.Valid) (occupied : pool.get idx = some node) :
    ∃ pool', pool.getMut idx write = some pool' ∧ pool'.Valid ∧
      pool'.get = Function.update pool.get idx (some (write node)) ∧
      pool'.slots.length = pool.slots.length := by
  have found := (pool.get_iff idx node).mp occupied
  have inside := get_lt occupied
  refine ⟨{ pool with slots := pool.slots.set idx (.occupied (write node)) },
    by simp only [getMut, found], ⟨by simpa using valid.bounded, ?_⟩,
    get_set pool.slots pool.freeHead pool.freeHead idx (.occupied (write node)) inside, by simp⟩
  obtain ⟨l, chain, nodup, members⟩ := valid.frees
  have apart := not_mem_frees occupied members
  refine ⟨l, freeChain_set _ apart chain, nodup, fun i => ?_⟩
  rw [isFree_set _ _ _ inside]
  by_cases same : i = idx
  · subst same
    simp [apart, Slot.node?]
  · rw [if_neg same, members]

/-- An allocation that keeps the pool within `u32` indices takes a slot that was not occupied
and touches no other node. -/
theorem alloc_spec {profile : Profile} {pool pool' : Pool T} {node : Node T} {idx : Nat}
    (valid : pool.Valid) (returned : pool.alloc profile node = some (idx, pool'))
    (fits : pool'.slots.length ≤ NIL) :
    pool'.Valid ∧ pool.get idx = none ∧ pool'.get = Function.update pool.get idx (some node) := by
  obtain ⟨l, chain, nodup, members⟩ := valid.frees
  unfold alloc at returned
  split at returned
  next recycled =>
    -- the free list is not empty, and its first slot is the one handed out
    cases l with
    | nil => exact absurd chain recycled
    | cons i is =>
      obtain ⟨head, next, found, rest⟩ := chain
      rw [← head] at found
      simp only [found, Option.some.injEq, Prod.mk.injEq] at returned
      obtain ⟨rfl, rfl⟩ := returned
      have inside : pool.freeHead < pool.slots.length := (List.getElem?_eq_some_iff.mp found).1
      have apart : pool.freeHead ∉ is := head ▸ (List.nodup_cons.mp nodup).1
      refine ⟨⟨by simpa using valid.bounded, is, freeChain_set _ apart rest,
        (List.nodup_cons.mp nodup).2, fun j => ?_⟩, by simp [get, found],
        get_set pool.slots pool.freeHead next _ (.occupied node) inside⟩
      rw [isFree_set _ _ _ inside]
      by_cases same : j = pool.freeHead
      · subst same
        simp [apart, Slot.node?]
      · rw [if_neg same, ← members, List.mem_cons, ← head]
        simp [same]
  next exhausted =>
    obtain ⟨_, _, equal⟩ := Option.map_eq_some_iff.mp returned
    obtain ⟨rfl, rfl⟩ := Prod.mk.injEq .. ▸ equal
    simp only [List.length_append, List.length_singleton] at fits
    -- a pushed slot; the cast to `u32` keeps its index, since the pool still fits
    have bound : pool.slots.length % 2 ^ 32 = pool.slots.length :=
      Nat.mod_eq_of_lt (by unfold NIL at fits; omega)
    rw [bound]
    refine ⟨⟨by simpa using fits, l, ?_, nodup, fun j => ?_⟩,
      by simp [get], get_push pool.slots pool.freeHead node⟩
    · refine freeChain_congr (fun j member => ?_) chain
      obtain ⟨next, found⟩ := (members j).mp member
      exact List.getElem?_append_left (List.getElem?_eq_some_iff.mp found).1
    -- the free slots are the old ones: the pushed slot is occupied
    · rw [members]
      rcases Nat.lt_trichotomy j pool.slots.length with below | rfl | above
      · rw [List.getElem?_append_left below]
      · simp
      · have outside : pool.slots.length + 1 ≤ j := above
        rw [List.getElem?_eq_none (Nat.le_of_lt above),
          List.getElem?_eq_none (by simpa using outside)]

/-- A pool with room can allocate. -/
theorem alloc_progress (profile : Profile) {pool : Pool T} (node : Node T) (valid : pool.Valid)
    (room : pool.HasRoom) :
    ∃ idx pool', pool.alloc profile node = some (idx, pool') ∧ pool'.slots.length ≤ NIL := by
  obtain ⟨l, chain, _, _⟩ := valid.frees
  unfold alloc
  split
  next recycled =>
    cases l with
    | nil => exact absurd chain recycled
    | cons i is =>
      obtain ⟨head, next, found, _⟩ := chain
      rw [← head] at found
      simp only [found]
      exact ⟨_, _, rfl, by simpa using valid.bounded⟩
  next noFree =>
    have room := room.resolve_left noFree
    have bound : pool.slots.length % 2 ^ 32 = pool.slots.length :=
      Nat.mod_eq_of_lt (by unfold NIL at room; omega)
    have asserted : decide (pool.slots.length % 2 ^ 32 ≠ NIL) = true :=
      decide_eq_true (by rw [bound]; exact Nat.ne_of_lt room)
    simp only [asserted, Profile.debugAssert_true]
    exact ⟨_, _, rfl, by simpa using Nat.succ_le_of_lt room⟩

/-- Freeing an occupied slot empties it and touches no other node. -/
theorem free_spec (profile : Profile) {pool : Pool T} {idx : Nat} {node : Node T}
    (valid : pool.Valid) (occupied : pool.get idx = some node) :
    ∃ pool', pool.free profile idx = some pool' ∧ pool'.Valid ∧
      pool'.get = Function.update pool.get idx none ∧
      pool'.slots.length = pool.slots.length := by
  have found := (pool.get_iff idx node).mp occupied
  have inside := get_lt occupied
  refine ⟨⟨pool.slots.set idx (.free pool.freeHead), idx⟩, by simp [free, found],
    ⟨by simpa using valid.bounded, ?_⟩,
    get_set pool.slots pool.freeHead idx idx (.free pool.freeHead) inside, by simp⟩
  obtain ⟨l, chain, nodup, members⟩ := valid.frees
  have apart := not_mem_frees occupied members
  -- the freed slot goes in front of the old chain
  refine ⟨idx :: l, ⟨rfl, pool.freeHead, by simp [inside], freeChain_set _ apart chain⟩,
    List.nodup_cons.mpr ⟨apart, nodup⟩, fun i => ?_⟩
  rw [isFree_set _ _ _ inside, List.mem_cons]
  by_cases same : i = idx
  · simp [same, Slot.node?]
  · simp [same, members]

/-- A slot that holds no node is free, and then the free list is not empty. -/
theorem Valid.room_of_gap {pool : Pool T} (valid : pool.Valid) {idx : Nat}
    (inside : idx < pool.slots.length) (gap : pool.get idx = none) : pool.HasRoom := by
  obtain ⟨l, chain, _, members⟩ := valid.frees
  have isFree : idx ∈ l := by
    rw [members]
    cases slot : pool.slots[idx] with
    | free next => exact ⟨next, by rw [List.getElem?_eq_getElem inside, slot]⟩
    | occupied node => simp [get, List.getElem?_eq_getElem inside, slot] at gap
  left
  intro empty
  cases l with
  | nil => cases isFree
  | cons i is =>
    obtain ⟨head, next, found, _⟩ := chain
    have below := (List.getElem?_eq_some_iff.mp found).1
    have bounded := valid.bounded
    omega

/-- With room left there are fewer nodes than indices below the sentinel. -/
theorem Valid.occupied_length_lt {pool : Pool T} (valid : pool.Valid) (room : pool.HasRoom)
    {l : List Nat} (nodup : l.Nodup) (occupied : ∀ i ∈ l, ∃ n, pool.get i = some n) :
    l.length < NIL := by
  have inside : l ⊆ List.range pool.slots.length := by
    intro i member
    obtain ⟨n, found⟩ := occupied i member
    exact List.mem_range.mpr (get_lt found)
  rcases room with recycled | below
  · -- the first free slot is one more index, and no node is there
    obtain ⟨frees, chain, _, members⟩ := valid.frees
    cases frees with
    | nil => exact absurd chain recycled
    | cons i is =>
      have first : i ∈ i :: is := List.mem_cons_self
      obtain ⟨next, found⟩ := (members i).mp first
      have apart : i ∉ l := fun member => by
        obtain ⟨n, node⟩ := occupied i member
        exact not_mem_frees node members first
      have here : i ∈ List.range pool.slots.length :=
        List.mem_range.mpr (List.getElem?_eq_some_iff.mp found).1
      have sub : i :: l ⊆ List.range pool.slots.length := List.cons_subset.mpr ⟨here, inside⟩
      have count := (List.subperm_of_subset (nodup.cons apart) sub).length_le
      rw [List.length_cons, List.length_range] at count
      exact Nat.lt_of_lt_of_le count valid.bounded
  · have count := (List.subperm_of_subset nodup inside).length_le
    rw [List.length_range] at count
    exact Nat.lt_of_le_of_lt count below

end Pool

end Hftrs.Orderbook
