import Mathlib.Data.Nat.ModEq

/-! Machine arithmetic under the two build profiles.

Unsigned integers are natural numbers. Where an operation leaves the range of its type the
debug profile panics and the release profile wraps; a panic is `none`. -/
namespace Hftrs

inductive Profile where
  | debug
  | release
  deriving DecidableEq, Repr

namespace Profile

/-- `a + b` in an unsigned type of `w` bits. -/
def add (profile : Profile) (w a b : Nat) : Option Nat :=
  if a + b < 2 ^ w then some (a + b)
  else match profile with
    | .debug => none
    | .release => some ((a + b) % 2 ^ w)

/-- `a - b` in an unsigned type of `w` bits. -/
def sub (profile : Profile) (w a b : Nat) : Option Nat :=
  if b ≤ a then some (a - b)
  else match profile with
    | .debug => none
    | .release => some ((a + 2 ^ w - b) % 2 ^ w)

/-- The exact result `x` of an operation in a signed type of `w` bits, as the type returns it. -/
def signed (profile : Profile) (w : Nat) (x : Int) : Option Int :=
  if -2 ^ (w - 1) ≤ x ∧ x < 2 ^ (w - 1) then some x
  else match profile with
    | .debug => none
    | .release => some (x.bmod (2 ^ w))

/-- `debug_assert!(condition)`: compiled out of the release profile. -/
def debugAssert (profile : Profile) (condition : Bool) : Option Unit :=
  match profile, condition with
  | .debug, false => none
  | _, _ => some ()

theorem add_eq (profile : Profile) {w a b : Nat} (fits : a + b < 2 ^ w) :
    profile.add w a b = some (a + b) := if_pos fits

theorem sub_eq (profile : Profile) {w a b : Nat} (fits : b ≤ a) :
    profile.sub w a b = some (a - b) := if_pos fits

theorem signed_eq (profile : Profile) {w : Nat} {x : Int} (low : -2 ^ (w - 1) ≤ x)
    (high : x < 2 ^ (w - 1)) : profile.signed w x = some x := if_pos ⟨low, high⟩

/-- Only the debug profile refuses a sum. -/
theorem add_isSome_iff (profile : Profile) (w a b : Nat) :
    (∃ sum, profile.add w a b = some sum) ↔ (profile = .debug → a + b < 2 ^ w) := by
  by_cases fits : a + b < 2 ^ w
  · simp [add, fits]
  · cases profile <;> simp [add, fits]

theorem add_eq_some {profile : Profile} {w a b sum : Nat} (added : profile.add w a b = some sum) :
    sum = (a + b) % 2 ^ w := by
  unfold add at added
  split at added
  next fits =>
    cases added
    exact (Nat.mod_eq_of_lt fits).symm
  next =>
    cases profile with
    | debug => cases added
    | release => exact (Option.some.inj added).symm

theorem add_lt {profile : Profile} {w a b sum : Nat} (added : profile.add w a b = some sum) :
    sum < 2 ^ w := by
  rw [add_eq_some added]
  exact Nat.mod_lt _ (Nat.two_pow_pos w)

/-- A sum and one of its terms determine the other. -/
theorem add_left_cancel {profile : Profile} {w a b c sum : Nat}
    (first : profile.add w a b = some sum) (second : profile.add w a c = some sum)
    (small : b < 2 ^ w) (small' : c < 2 ^ w) : b = c := by
  -- both sums are the result modulo the range, whether or not they wrapped
  have same : a + b ≡ a + c [MOD 2 ^ w] := (add_eq_some first).symm.trans (add_eq_some second)
  have terms : b ≡ c [MOD 2 ^ w] := Nat.ModEq.add_left_cancel' a same
  exact Nat.ModEq.eq_of_lt_of_lt terms small small'

/-- Taking something away never gives the number back, wrapped or not. -/
theorem sub_ne (profile : Profile) {w a b c : Nat} (positive : 0 < b) (fits : b < 2 ^ w)
    (returned : profile.sub w a b = some c) : c ≠ a := by
  unfold sub at returned
  split at returned
  next => cases returned; omega
  next below =>
    cases profile with
    | debug => cases returned
    | release =>
      have small : a + 2 ^ w - b < 2 ^ w := by omega
      simp only [Nat.mod_eq_of_lt small, Option.some.injEq] at returned
      omega

@[simp] theorem debugAssert_true (profile : Profile) : profile.debugAssert true = some () := by
  cases profile <;> rfl

end Profile

/-- The largest value of an unsigned type of `w` bits. -/
abbrev maxValue (w : Nat) : Nat := 2 ^ w - 1

end Hftrs
