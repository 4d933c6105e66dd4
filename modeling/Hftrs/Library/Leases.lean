import Mathlib.Data.List.Perm.Basic
import Mathlib.Data.List.Range

/-! A pool that lends items: with none left it creates one, and when it is full it discards what
is given back. Items are numbered as they are created, leases as they are granted. -/
namespace Hftrs.Library

structure Leases where
  free : List Nat
  -- what is lent, each item with the number of its lease
  leased : List (Nat × Nat)
  discarded : List Nat
  created : Nat
  granted : Nat
  -- the leases that have ended
  returned : List Nat

namespace Leases

/-- The items that exist. -/
def total (leases : Leases) : Nat := leases.free.length + leases.leased.length

/-- What can happen to a pool that holds `limit` items. -/
inductive Move (limit : Nat) (before after : Leases) : Prop
  | stay (free : after.free = before.free) (leased : after.leased.Perm before.leased)
      (discarded : after.discarded = before.discarded) (created : after.created = before.created)
      (granted : after.granted = before.granted) (returned : after.returned = before.returned)
  | lend (item : Nat) (free : before.free = item :: after.free)
      (leased : after.leased.Perm ((item, before.granted) :: before.leased))
      (discarded : after.discarded = before.discarded) (created : after.created = before.created)
      (granted : after.granted = before.granted + 1) (returned : after.returned = before.returned)
  | create (free : after.free = before.free)
      (leased : after.leased.Perm ((before.created, before.granted) :: before.leased))
      (discarded : after.discarded = before.discarded)
      (created : after.created = before.created + 1)
      (granted : after.granted = before.granted + 1) (returned : after.returned = before.returned)
  | giveBack (item lease : Nat) (room : before.free.length < limit)
      (free : after.free = before.free ++ [item])
      (leased : before.leased.Perm ((item, lease) :: after.leased))
      (discarded : after.discarded = before.discarded) (created : after.created = before.created)
      (granted : after.granted = before.granted)
      (returned : after.returned = before.returned ++ [lease])
  | discard (item lease : Nat) (full : limit ≤ before.free.length)
      (free : after.free = before.free)
      (leased : before.leased.Perm ((item, lease) :: after.leased))
      (discarded : after.discarded = before.discarded ++ [item])
      (created : after.created = before.created) (granted : after.granted = before.granted)
      (returned : after.returned = before.returned ++ [lease])

/-- Every item is in one place or was discarded, every lease is open or has ended once, and there
are never fewer items than the pool holds. -/
structure Sound (limit : Nat) (leases : Leases) : Prop where
  placed : (leases.free ++ leases.leased.map Prod.fst ++ leases.discarded).Perm
    (List.range leases.created)
  ended : (leases.leased.map Prod.snd ++ leases.returned).Perm (List.range leases.granted)
  bounded : leases.free.length ≤ limit
  enough : limit ≤ leases.total

theorem Sound.full (limit : Nat) : Sound limit ⟨List.range limit, [], [], limit, 0, []⟩ where
  placed := by simp
  ended := by simp
  bounded := by simp
  enough := by simp [total]

/-- Items are created and discarded one by one. -/
theorem Sound.total_add {limit : Nat} {leases : Leases} (sound : leases.Sound limit) :
    leases.total + leases.discarded.length = leases.created := by
  have length := sound.placed.length_eq
  simp only [List.length_append, List.length_map, List.length_range] at length
  rw [total, length]

variable {limit : Nat} {before after : Leases}

/-- A new lease is open. -/
theorem Sound.grant (sound : before.Sound limit) {item : Nat}
    (leased : after.leased.Perm ((item, before.granted) :: before.leased))
    (granted : after.granted = before.granted + 1) (returned : after.returned = before.returned) :
    (after.leased.map Prod.snd ++ after.returned).Perm (List.range after.granted) := by
  rw [returned, granted, List.range_succ]
  refine ((leased.map _).append_right _).trans ?_
  exact (sound.ended.cons _).trans (List.perm_append_singleton _ _).symm

/-- An open lease ends. -/
theorem Sound.end_ (sound : before.Sound limit) {item lease : Nat}
    (leased : before.leased.Perm ((item, lease) :: after.leased))
    (granted : after.granted = before.granted)
    (returned : after.returned = before.returned ++ [lease]) :
    (after.leased.map Prod.snd ++ after.returned).Perm (List.range after.granted) := by
  rw [returned, granted]
  refine List.Perm.trans ?_ sound.ended
  rw [← List.append_assoc]
  refine (List.perm_append_singleton _ _).trans ?_
  exact ((leased.map Prod.snd).append_right _).symm

/-- One move keeps the pool sound. -/
theorem Sound.move (sound : before.Sound limit) (move : Move limit before after) :
    after.Sound limit := by
  have enough := sound.enough
  unfold total at enough
  cases move with
  | stay free leased discarded created granted returned =>
    refine ⟨?_, ?_, free ▸ sound.bounded, ?_⟩
    · rw [free, discarded, created]
      exact (((leased.map _).append_left _).append_right _).trans sound.placed
    · rw [returned, granted]
      exact ((leased.map _).append_right _).trans sound.ended
    · rw [total, free, leased.length_eq]
      exact enough
  | lend item free leased discarded created granted returned =>
    have length := leased.length_eq
    rw [free, List.length_cons] at enough
    rw [List.length_cons] at length
    refine ⟨?_, sound.grant leased granted returned, ?_, ?_⟩
    · have placed := sound.placed
      rw [free, List.cons_append, List.cons_append] at placed
      rw [discarded, created]
      refine List.Perm.trans ?_ placed
      exact (((leased.map _).append_left _).trans List.perm_middle).append_right _
    · have bounded := sound.bounded
      rw [free, List.length_cons] at bounded
      omega
    · rw [total]
      omega
  | create free leased discarded created granted returned =>
    refine ⟨?_, sound.grant leased granted returned, free ▸ sound.bounded, ?_⟩
    · rw [free, discarded, created, List.range_succ]
      refine ((((leased.map _).append_left _).trans List.perm_middle).append_right _).trans ?_
      exact ((sound.placed.cons _).trans (List.perm_append_singleton _ _).symm)
    · rw [total, free, leased.length_eq, List.length_cons]
      omega
  | giveBack item lease room free leased discarded created granted returned =>
    have length := leased.length_eq
    rw [List.length_cons] at length
    refine ⟨?_, sound.end_ leased granted returned, ?_, ?_⟩
    · rw [free, discarded, created]
      refine List.Perm.trans ?_ sound.placed
      have moved := ((leased.map Prod.fst).append_left before.free).symm
      rw [List.append_assoc before.free [item]]
      exact moved.append_right _
    · rw [free, List.length_append]
      exact room
    · rw [total, free, List.length_append, List.length_singleton]
      omega
  | discard item lease full free leased discarded created granted returned =>
    refine ⟨?_, sound.end_ leased granted returned, free ▸ sound.bounded, ?_⟩
    · rw [free, discarded, created, ← List.append_assoc]
      refine List.Perm.trans ?_ sound.placed
      refine (List.perm_append_singleton _ _).trans ?_
      have moved := (leased.map Prod.fst).symm.append_left before.free
      exact (List.perm_middle.symm.trans moved).append_right _
    · rw [total, free]
      omega

/-- An item is in one place at most. -/
theorem Sound.nodup {leases : Leases} (sound : leases.Sound limit) :
    (leases.free ++ leases.leased.map Prod.fst).Nodup :=
  (List.nodup_append.mp (sound.placed.nodup_iff.mpr List.nodup_range)).1

/-- A lease ends once at most. -/
theorem Sound.returned_nodup {leases : Leases} (sound : leases.Sound limit) :
    leases.returned.Nodup :=
  (List.nodup_append.mp (sound.ended.nodup_iff.mpr List.nodup_range)).2.1

/-- With nothing lent the pool is full. -/
theorem Sound.full_of_leased {leases : Leases} (sound : leases.Sound limit)
    (none : leases.leased = []) : leases.free.length = limit := by
  have enough := sound.enough
  rw [total, none, List.length_nil, Nat.add_zero] at enough
  exact Nat.le_antisymm sound.bounded enough

end Leases

end Hftrs.Library
