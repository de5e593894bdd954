/-
# Wk.Library.Floats -- values of a binary float, and casts of integers

The values of a floating-point format are rationals, two infinities and a value that is not
a number; the two zeros are one.  An integer is cast to the nearest value with so many
significant bits, and a value to an integer of some range by truncating, with the bounds of
the range where it would not fit.  Integers of few bits survive both (`toInt_ofInt`).  A
quotient is the nearest value with so many bits (`nearestRat`).
-/
import Mathlib

namespace Wk.Library

set_option autoImplicit false

inductive FloatValue where
  | nan
  | infinite (negative : Bool)
  | finite (x : ℚ)
  deriving DecidableEq, Repr

/-- The nearest number of `bits` significant bits, the even one of two. -/
def nearest (bits n : Nat) : Nat :=
  let unit := 2 ^ (n.size - bits)
  if unit < 2 * (n % unit) ∨ 2 * (n % unit) = unit ∧ n / unit % 2 = 1 then (n / unit + 1) * unit
  else n / unit * unit

/-- A number of few bits is its own nearest. -/
theorem nearest_of_lt {bits n : Nat} (small : n < 2 ^ bits) : nearest bits n = n := by
  have unit : n.size - bits = 0 := Nat.sub_eq_zero_of_le (Nat.size_le.2 small)
  simp [nearest, unit, Nat.mod_one]

/-- The nearest integer, the even one of two. -/
def roundEven (x : ℚ) : Int :=
  if x - ⌊x⌋ < 1 / 2 ∨ x - ⌊x⌋ = 1 / 2 ∧ ⌊x⌋ % 2 = 0 then ⌊x⌋ else ⌊x⌋ + 1

/-- The nearest rational of `bits` significant bits, the even one of two. -/
def nearestRat (bits : Nat) (x : ℚ) : ℚ :=
  if x = 0 then 0
  else
    let unit : ℚ := 2 ^ (Int.log 2 |x| + 1 - bits)
    roundEven (x / unit) * unit

theorem roundEven_int (n : Int) : roundEven n = n := by
  simp [roundEven]

/-- A binary fraction of few bits is its own nearest. -/
theorem nearestRat_exact {bits : Nat} {n : Int} {k : Nat} (small : |n| < 2 ^ bits) :
    nearestRat bits (n / 2 ^ k) = n / 2 ^ k := by
  unfold nearestRat
  by_cases zero : (n : ℚ) / 2 ^ k = 0
  · rw [if_pos zero, zero]
  · rw [if_neg zero]
    dsimp only
    have magnitude : |(n : ℚ) / 2 ^ k| < ((2 : ℕ) : ℚ) ^ ((bits : Int) - k) := by
      have less : |(n : ℚ)| < 2 ^ bits := by exact_mod_cast small
      rw [abs_div, abs_of_pos (by positivity : (0 : ℚ) < 2 ^ k), Nat.cast_two,
        zpow_sub₀ (by norm_num), zpow_natCast, zpow_natCast]
      exact div_lt_div_of_pos_right less (by positivity)
    have exponent : Int.log 2 |(n : ℚ) / 2 ^ k| < bits - k :=
      (Int.lt_zpow_iff_log_lt (by norm_num) (abs_pos.2 zero)).1 magnitude
    obtain ⟨m, shift⟩ := Int.eq_ofNat_of_zero_le
      (by omega : 0 ≤ -(k : Int) - (Int.log 2 |(n : ℚ) / 2 ^ k| + 1 - bits))
    generalize Int.log 2 |(n : ℚ) / 2 ^ k| + 1 - bits = e at shift
    have whole : (n : ℚ) / 2 ^ k / 2 ^ e = ((n * 2 ^ m : Int) : ℚ) := by
      have power : (2 : ℚ) ^ m = 2 ^ (-(k : Int)) / 2 ^ e := by
        rw [← zpow_natCast, ← zpow_sub₀ (by norm_num), shift]
      push_cast
      rw [power, zpow_neg, zpow_natCast]
      ring
    have unit : (2 : ℚ) ^ e ≠ 0 := by positivity
    rw [whole, roundEven_int, ← whole, div_mul_cancel₀ _ unit]

namespace FloatValue

/-- An integer as a value of `bits` significant bits. -/
def ofInt (bits : Nat) (n : Int) : FloatValue := .finite (n.sign * nearest bits n.natAbs : Int)

/-- The integer is a value of that many bits. -/
def Exact (bits n : Nat) : Prop := nearest bits n = n

theorem ofInt_exact {bits n : Nat} (exact : Exact bits n) : ofInt bits n = .finite (n : ℚ) := by
  have size : ((n : Int).sign * nearest bits n : Int) = n := by
    rw [exact]
    exact Int.sign_mul_natAbs n
  rw [ofInt, Int.natAbs_natCast, size]
  rfl

/-- Truncated towards zero, as an integer of the range; not a number is 0. -/
def toInt (low high : Int) : FloatValue → Int
  | nan => 0
  | infinite negative => if negative then low else high
  | finite x => max low (min high (if 0 ≤ x then ⌊x⌋ else ⌈x⌉))

theorem toInt_finite {low high : Int} {n : Nat} (inside : low ≤ n ∧ (n : Int) ≤ high) :
    (finite (n : ℚ)).toInt low high = n := by
  have whole : ⌊(n : ℚ)⌋ = n := Int.floor_natCast n
  rw [toInt, if_pos (Nat.cast_nonneg n), whole]
  omega

/-- An integer of the range that is a value survives both casts. -/
theorem toInt_ofInt {bits n : Nat} {low high : Int} (exact : Exact bits n) (inside : low ≤ n ∧ (n : Int) ≤ high) :
    (ofInt bits n).toInt low high = n := by
  rw [ofInt_exact exact, toInt_finite inside]

/-- `clamp`: not a number stays so. -/
def clamp (low high : ℚ) : FloatValue → FloatValue
  | nan => .nan
  | infinite negative => .finite (if negative then low else high)
  | finite x => .finite (max low (min x high))

theorem clamp_inside {low high x : ℚ} (inside : low ≤ x ∧ x ≤ high) : (finite x).clamp low high = .finite x := by
  rw [clamp, min_eq_left inside.2, max_eq_right inside.1]

theorem clamp_cases {low high : ℚ} (range : low ≤ high) (v : FloatValue) :
    v.clamp low high = .nan ∨ ∃ x, v.clamp low high = .finite x ∧ low ≤ x ∧ x ≤ high := by
  cases v with
  | nan => exact .inl rfl
  | infinite negative =>
    refine .inr ⟨_, rfl, ?_⟩
    split <;> simp [range]
  | finite x => exact .inr ⟨_, rfl, le_max_left _ _, max_le range (min_le_right _ _)⟩

/-- Another format's value. -/
def round (bits : Nat) : FloatValue → FloatValue
  | nan => .nan
  | infinite negative => .infinite negative
  | finite x => .finite (nearestRat bits x)

/-- A positive number divided by a value; the one zero counts as positive. -/
def divideInto (bits : Nat) (x : ℚ) : FloatValue → FloatValue
  | nan => .nan
  | infinite _ => .finite 0
  | finite y => if y = 0 then .infinite false else .finite (nearestRat bits (x / y))

/-- The comparison with a number; not a number is never at least that. -/
def atLeast (x : ℚ) : FloatValue → Bool
  | nan => false
  | infinite negative => !negative
  | finite y => x ≤ y

end FloatValue

end Wk.Library
