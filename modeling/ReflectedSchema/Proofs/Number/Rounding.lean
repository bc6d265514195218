import Mathlib
import ReflectedSchema.Number.Binary64

/-!
# Integers that are rounded to doubles

Rounding an integer to a double keeps the leading 53 of its binary digits.  It fails for an integer of
more than 1024 digits, and for one of 1024 digits if these are rounded up to one digit more.  So an integer
is rounded to a double exactly if its size is less than half a step beyond the largest double.
-/

namespace ReflectedSchema

namespace Binary64

/-- Rounding to the nearest stays below an even number exactly if the fraction is less than a half away
from reaching it. -/
theorem divNearest_lt_iff {num half bound : Nat} (positive : 0 < half) (even : bound % 2 = 0) :
    divNearest num (2 * half) < bound ↔ num + half < bound * (2 * half) := by
  have split := Nat.div_add_mod num (2 * half)
  have small := Nat.mod_lt num (show 0 < 2 * half by omega)
  unfold divNearest
  generalize num / (2 * half) = q at split ⊢
  generalize num % (2 * half) = r at split small ⊢
  dsimp only
  rcases lt_trichotomy (q + 1) bound with below | rfl | above
  · have room : (q + 2) * (2 * half) ≤ bound * (2 * half) := Nat.mul_le_mul_right _ below
    have near : num + half < bound * (2 * half) := by
      calc num + half = 2 * half * q + r + half := by rw [split]
        _ < (q + 2) * (2 * half) := by nlinarith
        _ ≤ bound * (2 * half) := room
    refine iff_of_true ?_ near
    split_ifs <;> omega
  · have near : num + half < (q + 1) * (2 * half) ↔ r < half := by
      rw [← split]
      constructor <;> intro h <;> nlinarith
    rw [near]
    split_ifs <;> omega
  · have reached : bound * (2 * half) ≤ q * (2 * half) := Nat.mul_le_mul_right _ (by omega)
    refine iff_of_false ?_ ?_
    · split_ifs <;> omega
    · rw [Nat.mul_comm q] at reached
      omega

/-- The logarithm of a whole number. -/
theorem log2Ratio_one {num : Nat} (h : num ≠ 0) : log2Ratio num 1 = Nat.log2 num := by
  have one : Nat.log2 1 = 0 := by decide
  simp only [log2Ratio, one, scaleDown]
  simpa using Nat.log2_self_le h

/-- The exponent that a fraction is rounded to decides whether it is out of range. -/
theorem ofRatio_eq (negative : Bool) {num den : Nat} (h : num ≠ 0) {e : Int}
    (he : max (log2Ratio num den - (precision - 1)) minExponent = e) :
    ∃ m top, top = (if divNearest (scaleDown num den e).1 (scaleDown num den e).2 = 2 ^ precision
        then e + 1 else e) ∧
      ofRatio negative num den =
        if maxExponent < top then .infinite negative else .finite negative m top := by
  unfold ofRatio
  rw [if_neg h]
  simp only [he]
  by_cases full : divNearest (scaleDown num den e).1 (scaleDown num den e).2 = Nat.pow 2 precision
  · rw [if_pos full]
    exact ⟨_, e + 1, (if_pos full).symm, rfl⟩
  · rw [if_neg full]
    exact ⟨_, e, (if_neg full).symm, rfl⟩

/-- Rounding adds at most one to the whole part. -/
theorem divNearest_le (num den : Nat) : divNearest num den ≤ num / den + 1 := by
  unfold divNearest
  dsimp only
  split_ifs <;> omega

/-- Whether an integer is near enough to some double: its size is less than half a step beyond that of
the largest one, which is `2 ^ 1024 - 2 ^ 971`. -/
def InReach (n : Int) : Prop := n.natAbs + 2 ^ 970 < 2 ^ 1024

instance (n : Int) : Decidable (InReach n) :=
  inferInstanceAs (Decidable (_ < _))

/-- A number that has one binary digit more than are kept is rounded up to the next digit exactly if it is
less than half a step away. -/
theorem round_ne_iff {num k : Nat} (h : num < 2 ^ (precision + (k + 1))) :
    divNearest num (2 ^ (k + 1)) ≠ 2 ^ precision ↔ num + 2 ^ k < 2 ^ (precision + (k + 1)) := by
  have whole : 2 ^ (precision + (k + 1)) = 2 ^ precision * 2 ^ (k + 1) := Nat.pow_add 2 _ _
  have step : 2 ^ (k + 1) = 2 * 2 ^ k := Nat.pow_succ'
  have top : divNearest num (2 ^ (k + 1)) ≤ 2 ^ precision := by
    refine (divNearest_le _ _).trans (Nat.div_lt_of_lt_mul ?_)
    rwa [Nat.mul_comm, ← whole]
  have below : divNearest num (2 ^ (k + 1)) < 2 ^ precision ↔ num + 2 ^ k < 2 ^ (precision + (k + 1)) := by
    rw [whole, step]
    exact divNearest_lt_iff (Nat.two_pow_pos k) (by decide)
  rw [← below]
  exact (Nat.lt_iff_le_and_ne.trans (and_iff_right top)).symm

/-- Numbers of fewer digits are out of the way of a bound. -/
theorem add_pow_lt {num k power bound : Nat} (h : num < 2 ^ power) (hp : power < bound) (hk : k < bound) :
    num + 2 ^ k < 2 ^ bound := by
  obtain ⟨half, rfl⟩ := Nat.exists_eq_succ_of_ne_zero (Nat.ne_zero_of_lt hp)
  have first : 2 ^ power ≤ 2 ^ half := Nat.pow_le_pow_right (by decide) (Nat.le_of_lt_succ hp)
  have second : 2 ^ k ≤ 2 ^ half := Nat.pow_le_pow_right (by decide) (Nat.le_of_lt_succ hk)
  rw [Nat.pow_succ]
  omega

/-- Scaling down multiplies the denominator. -/
theorem scaleDown_natCast (num k : Nat) : scaleDown num 1 (k : Int) = (num, 2 ^ k) := by
  rw [scaleDown, if_pos (Int.natCast_nonneg k), Int.toNat_natCast, Nat.one_mul, Nat.pow_eq]

/-- **An integer is rounded to a double exactly if it is in reach of one.** -/
theorem ofInt?_isSome_iff (n : Int) : (ofInt? n).isSome = true ↔ InReach n := by
  by_cases zero : n.natAbs = 0
  · rw [ofInt?, InReach, zero]
    exact iff_of_true rfl (add_pow_lt (Nat.two_pow_pos 0) (by decide) (by decide))
  have least := Nat.log2_self_le zero
  have most := Nat.lt_log2_self (n := n.natAbs)
  have exponent : max (log2Ratio n.natAbs 1 - (precision - 1)) minExponent =
      (Nat.log2 n.natAbs : Int) - 52 := by
    rw [log2Ratio_one zero, precision, minExponent]
    omega
  obtain ⟨m, top, htop, rounded⟩ := ofRatio_eq (decide (n < 0)) zero exponent
  have decides : (ofInt? n).isSome = true ↔ top ≤ 971 := by
    rw [ofInt?, rounded, maxExponent]
    split_ifs with large
    · exact iff_of_false nofun (by omega)
    · exact iff_of_true rfl (by omega)
  rw [decides, InReach]
  generalize Nat.log2 n.natAbs = power at *
  rcases lt_trichotomy power 1023 with small | exact | large
  · refine iff_of_true ?_ (add_pow_lt most (by omega) (by decide))
    split_ifs at htop <;> omega
  -- A number of 1024 digits is out of range exactly if it is rounded up to one digit more.
  · have digits : power + 1 = precision + (970 + 1) := by rw [exact, precision]
    have steps : (power : Int) - 52 = ((970 + 1 : Nat) : Int) := by omega
    rw [steps, scaleDown_natCast] at htop
    rw [digits] at most
    have up := round_ne_iff most
    rw [show precision + (970 + 1) = 1024 from rfl] at up
    rw [← up]
    split_ifs at htop with full
    · exact iff_of_false (by omega) (not_not.mpr full)
    · exact iff_of_true (by omega) full
  · have digits : 1024 ≤ power := large
    have reached : 2 ^ 1024 ≤ 2 ^ power := by gcongr; decide
    refine iff_of_false ?_ fun h => ?_
    · split_ifs at htop <;> omega
    · exact absurd (reached.trans least) (not_le.mpr ((Nat.le_add_right _ _).trans_lt h))

end Binary64

end ReflectedSchema
