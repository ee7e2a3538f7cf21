import Mathlib.Algebra.Group.Nat.Defs
import Mathlib.Order.Basic
import Mathlib.Order.MinMax

/-!
# Simulation time (`des-core/src/time.rs`)

A `SimTime` is a `u64` of nanoseconds; sums that leave its range saturate. A `Duration` is its
number of nanoseconds.
-/

namespace DesCartes

/-- `u64::MAX`. -/
def u64Max : Nat := 2 ^ 64 - 1

/-- Nanoseconds in a millisecond. -/
def nanosPerMilli : Nat := 1000000

/-- Nanoseconds since the start of the simulation. -/
structure SimTime where
  nanos : Nat
  le_max : nanos ≤ u64Max
deriving DecidableEq

namespace SimTime

theorem ext_nanos {a b : SimTime} (h : a.nanos = b.nanos) : a = b := by
  cases a; cases b; cases h; rfl

instance : LinearOrder SimTime := LinearOrder.lift' nanos fun _ _ => ext_nanos

theorem le_def {a b : SimTime} : a ≤ b ↔ a.nanos ≤ b.nanos := Iff.rfl

/-- The `SimTime` of a number of nanoseconds, `u64::MAX` when it does not fit. -/
def saturate (n : Nat) : SimTime := ⟨min n u64Max, Nat.min_le_right _ _⟩

/-- `SimTime::zero`. -/
def zero : SimTime := ⟨0, Nat.zero_le _⟩

/-- `SimTime::from_duration`. -/
def fromDuration (duration : Nat) : SimTime := saturate duration

/-- `SimTime::duration_since`, which is also `self - earlier`. -/
def durationSince (self earlier : SimTime) : Nat := self.nanos - earlier.nanos

/-- `Add<SimTime> for SimTime`. -/
instance : Add SimTime := ⟨fun a b => saturate (a.nanos + b.nanos)⟩

/-- `Mul<u64> for SimTime`. -/
instance : HMul SimTime Nat SimTime := ⟨fun a n => saturate (a.nanos * n)⟩

@[simp] theorem nanos_saturate (n : Nat) : (saturate n).nanos = min n u64Max := rfl
@[simp] theorem nanos_zero : zero.nanos = 0 := rfl
theorem nanos_add (a b : SimTime) : (a + b).nanos = min (a.nanos + b.nanos) u64Max := rfl

theorem le_add (a b : SimTime) : a ≤ a + b := by
  have := a.le_max
  rw [le_def, nanos_add]
  omega

theorem add_le_add {a b c d : SimTime} (hab : a ≤ b) (hcd : c ≤ d) : a + c ≤ b + d := by
  rw [le_def] at hab hcd
  rw [le_def, nanos_add, nanos_add]
  omega

theorem fromDuration_mono {m n : Nat} (h : m ≤ n) : fromDuration m ≤ fromDuration n := by
  rw [le_def, fromDuration, fromDuration, nanos_saturate, nanos_saturate]
  omega

@[simp] theorem add_zero (a : SimTime) : a + zero = a := by
  have := a.le_max
  apply ext_nanos
  rw [nanos_add, nanos_zero]
  omega

/-- The delay from `a` to a later time `b` leads to `b`. -/
theorem add_durationSince {a b : SimTime} (h : a ≤ b) : a + fromDuration (b.durationSince a) = b := by
  have := b.le_max
  rw [le_def] at h
  apply ext_nanos
  rw [nanos_add, fromDuration, nanos_saturate, durationSince]
  omega

end SimTime

end DesCartes
