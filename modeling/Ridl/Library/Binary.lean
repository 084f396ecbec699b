import Mathlib.Algebra.Order.Field.Rat
import Mathlib.Data.Nat.Prime.Basic
import Mathlib.Data.Nat.Size
import Mathlib.Data.Rat.Lemmas
import Mathlib.Tactic.FieldSimp
import Mathlib.Tactic.Linarith
import Mathlib.Tactic.Positivity
import Mathlib.Tactic.Ring

/-!
# Binary Fractions and Binary Formats

A rational that is an odd number times a power of two is told by that number and the
exponent: they are read off its numerator and denominator (`num_den_of_binary`). A
finite value of a binary format is one whose odd number is not too long and whose
lowest and highest bit are in range (`isFinite_iff`).

## Main definitions

* `Format.IsFinite`: The values that its finite encodings have.

## Theorems

* `trailingZeros_two_pow_mul`: The trailing zeros of an odd number times a power of two.
* `num_den_of_binary`: The lowest terms of a binary fraction.
* `isFinite_iff`: Which rationals are finite values of a format.
-/

namespace Ridl

namespace Library

/-! ### Bits of a number -/

/-- The zero bits below the lowest set bit, in so many rounds. -/
def trailingZerosIn : Nat → Nat → Nat
  | 0, _ => 0
  | rounds + 1, n => if n % 2 = 1 then 0 else trailingZerosIn rounds (n / 2) + 1

/-- The zero bits below the lowest set bit. -/
def trailingZeros (n : Nat) : Nat := trailingZerosIn n.size n

theorem trailingZerosIn_two_pow_mul {m : Nat} (hm : m % 2 = 1) {t rounds : Nat}
    (h : t < rounds) : trailingZerosIn rounds (2 ^ t * m) = t := by
  induction t generalizing rounds with
  | zero =>
      rcases rounds with _ | rounds
      · omega
      rw [pow_zero, Nat.one_mul, trailingZerosIn, if_pos hm]
  | succ t ih =>
      rcases rounds with _ | rounds
      · omega
      have hdouble : 2 ^ (t + 1) * m = 2 * (2 ^ t * m) := by ring
      rw [hdouble, trailingZerosIn, if_neg (by omega), Nat.mul_div_cancel_left _ (by decide),
        ih (by omega)]

theorem size_two_pow_mul {m : Nat} (hm : m ≠ 0) (t : Nat) : (2 ^ t * m).size = t + m.size := by
  rw [Nat.mul_comm, ← Nat.shiftLeft_eq, Nat.size_shiftLeft hm, Nat.add_comm]

theorem size_pos {m : Nat} (hm : m ≠ 0) : 0 < m.size := Nat.size_pos.mpr (Nat.pos_of_ne_zero hm)

theorem trailingZeros_two_pow_mul {m : Nat} (hm : m % 2 = 1) (t : Nat) :
    trailingZeros (2 ^ t * m) = t := by
  have hne : m ≠ 0 := by omega
  refine trailingZerosIn_two_pow_mul hm ?_
  rw [size_two_pow_mul hne]
  have := size_pos hne
  omega

theorem exists_odd {n : Nat} (hn : n ≠ 0) : ∃ t m, m % 2 = 1 ∧ n = 2 ^ t * m := by
  induction n using Nat.strong_induction_on with
  | _ n ih =>
      by_cases hodd : n % 2 = 1
      · exact ⟨0, n, hodd, by rw [pow_zero, Nat.one_mul]⟩
      · rcases ih (n / 2) (by omega) (by omega) with ⟨t, m, hm, hhalf⟩
        refine ⟨t + 1, m, hm, ?_⟩
        have hdouble : 2 ^ (t + 1) * m = 2 * (2 ^ t * m) := by ring
        omega

/-! ### Binary fractions -/

/-- A power of two with an integer exponent is a fraction of two powers, one of which is 1. -/
theorem two_zpow (k : Int) :
    (2 : Rat) ^ k = (2 ^ k.toNat : Nat) / (2 ^ (-k).toNat : Nat) := by
  rcases Int.le_total 0 k with hk | hk
  · rcases Int.eq_ofNat_of_zero_le hk with ⟨n, rfl⟩
    have hneg : (-(n : Int)).toNat = 0 := by omega
    rw [hneg, Int.toNat_natCast, zpow_natCast]
    push_cast
    exact (div_one _).symm
  · rcases Int.eq_ofNat_of_zero_le (Int.neg_nonneg_of_nonpos hk) with ⟨n, hn⟩
    have hneg : k = -(n : Int) := by omega
    have hpos : (-(n : Int)).toNat = 0 := by omega
    rw [hneg, hpos, neg_neg, Int.toNat_natCast, zpow_neg, zpow_natCast]
    push_cast
    exact (one_div _).symm

theorem abs_eq_div (v : Rat) : |v| = (v.num.natAbs : Rat) / v.den := by
  have habs : (v.num.natAbs : Rat) = |(v.num : Rat)| := by
    rw [Nat.cast_natAbs, Int.cast_abs]
  rw [habs, ← abs_of_nonneg (Nat.cast_nonneg (α := Rat) v.den), ← abs_div, Rat.num_div_den]

theorem num_den_of_binary {v : Rat} {m : Nat} (hm : m % 2 = 1) {k : Int}
    (h : |v| = m * (2 : Rat) ^ k) :
    v.num.natAbs = 2 ^ k.toNat * m ∧ v.den = 2 ^ (-k).toNat := by
  have hodd : ∀ n, Nat.Coprime (2 ^ n) m := fun n =>
    Nat.Coprime.pow_left n (Nat.coprime_two_left.mpr (Nat.odd_iff.mpr hm))
  have hden : (v.den : Rat) ≠ 0 := Nat.cast_ne_zero.mpr v.den_nz
  have hpow : ((2 ^ (-k).toNat : Nat) : Rat) ≠ 0 :=
    Nat.cast_ne_zero.mpr (Nat.ne_of_gt (Nat.two_pow_pos _))
  have hcross : v.num.natAbs * 2 ^ (-k).toNat = 2 ^ k.toNat * m * v.den := by
    rw [abs_eq_div, two_zpow, mul_div_assoc', div_eq_div_iff hden hpow] at h
    have hnat : v.num.natAbs * 2 ^ (-k).toNat = m * 2 ^ k.toNat * v.den := by exact_mod_cast h
    rw [hnat, Nat.mul_comm m]
  have hreduced : Nat.Coprime v.den v.num.natAbs := v.reduced.symm
  rcases Int.le_total 0 k with hk | hk
  · have hneg : (-k).toNat = 0 := by omega
    rw [hneg, pow_zero, Nat.mul_one] at hcross
    have hone : v.den = 1 :=
      hreduced.eq_one_of_dvd (hcross ▸ Nat.dvd_mul_left _ _)
    rw [hone, Nat.mul_one] at hcross
    rw [hneg, pow_zero]
    exact ⟨hcross, hone⟩
  · have hpos : k.toNat = 0 := by omega
    rw [hpos, pow_zero, Nat.one_mul] at hcross ⊢
    have hleft : v.den ∣ 2 ^ (-k).toNat :=
      hreduced.dvd_of_dvd_mul_left (hcross ▸ Nat.dvd_mul_left _ _)
    have hright : 2 ^ (-k).toNat ∣ v.den :=
      (hodd _).dvd_of_dvd_mul_left (hcross ▸ Nat.dvd_mul_left _ _)
    have hdvd : v.den = 2 ^ (-k).toNat := Nat.dvd_antisymm hleft hright
    rw [hdvd] at hcross
    exact ⟨Nat.eq_of_mul_eq_mul_right (Nat.two_pow_pos _) hcross, hdvd⟩

/-! ### Formats -/

/-- A binary interchange format: the bits of the fraction, how many exponents are finite,
    and what an exponent is biased by. -/
structure Format where
  fractionBits : Nat
  exponents : Nat
  bias : Nat
  exponents_pos : 0 < exponents

namespace Format

variable (f : Format)

/-- The value of a finite encoding. Exponent 0 is that of zero and of the subnormals. -/
def value (negative : Bool) (exponent fraction : Nat) : Rat :=
  let magnitude : Rat :=
    if exponent = 0 then fraction * (2 : Rat) ^ (1 - f.bias - f.fractionBits : Int)
    else
      (2 ^ f.fractionBits + fraction : Nat) *
        (2 : Rat) ^ (exponent - f.bias - f.fractionBits : Int)
  if negative then -magnitude else magnitude

def IsFinite (v : Rat) : Prop :=
  ∃ negative exponent fraction, exponent < f.exponents ∧ fraction < 2 ^ f.fractionBits ∧
    v = f.value negative exponent fraction

/-- An odd number times a power of two, its bits all in the range of the format. -/
def InRange (m : Nat) (k : Int) : Prop :=
  m.size ≤ f.fractionBits + 1 ∧ 1 - f.bias - f.fractionBits ≤ k ∧ k + m.size + f.bias ≤ f.exponents

theorem abs_signed (negative : Bool) {x : Rat} (hx : 0 ≤ x) :
    |if negative then -x else x| = x := by
  cases negative with
  | false => exact abs_of_nonneg hx
  | true => exact (abs_neg x).trans (abs_of_nonneg hx)

theorem signed_abs (v : Rat) : v = if decide (v < 0) then -|v| else |v| := by
  by_cases hneg : v < 0
  · rw [decide_eq_true hneg, if_pos rfl, abs_of_neg hneg, neg_neg]
  · rw [decide_eq_false hneg, if_neg Bool.false_ne_true, abs_of_nonneg (not_lt.mp hneg)]

/-- A whole number of units that is not 0 is an odd number times a power of two. -/
theorem exists_odd_scaled {n : Nat} (hn : n ≠ 0) (q : Int) :
    ∃ (t m : Nat), m % 2 = 1 ∧ n.size = t + m.size ∧
      (n : Rat) * (2 : Rat) ^ q = m * (2 : Rat) ^ (q + t) := by
  rcases exists_odd hn with ⟨t, m, hm, rfl⟩
  refine ⟨t, m, hm, size_two_pow_mul (by omega) t, ?_⟩
  rw [zpow_add₀ two_ne_zero, zpow_natCast]
  push_cast
  ring

theorem inRange_of_isFinite {v : Rat} (h : f.IsFinite v) :
    v = 0 ∨ ∃ (m : Nat) (k : Int), m % 2 = 1 ∧ |v| = m * (2 : Rat) ^ k ∧ f.InRange m k := by
  rcases h with ⟨negative, exponent, fraction, hexponent, hfraction, rfl⟩
  unfold value
  dsimp only
  have hscaled : ∀ (n : Nat) (q : Int), 0 ≤ (n : Rat) * (2 : Rat) ^ q := fun n q =>
    mul_nonneg (Nat.cast_nonneg n) (zpow_nonneg (by decide) q)
  by_cases hzero : exponent = 0
  · rw [if_pos hzero, abs_signed _ (hscaled _ _)]
    by_cases hnone : fraction = 0
    · refine .inl ?_
      rw [hnone, Nat.cast_zero, zero_mul, neg_zero, ite_self]
    · rcases exists_odd_scaled hnone (1 - f.bias - f.fractionBits) with ⟨t, m, hm, hsize, heq⟩
      have hbits := Nat.size_le.mpr hfraction
      have hpos := f.exponents_pos
      exact .inr ⟨m, _, hm, heq, by omega, by omega, by omega⟩
  · rw [if_neg hzero, abs_signed _ (hscaled _ _)]
    have hne : 2 ^ f.fractionBits + fraction ≠ 0 := by
      have := Nat.two_pow_pos f.fractionBits
      omega
    rcases exists_odd_scaled hne (exponent - f.bias - f.fractionBits) with ⟨t, m, hm, hsize, heq⟩
    have hbits : (2 ^ f.fractionBits + fraction).size ≤ f.fractionBits + 1 := by
      rw [Nat.size_le, pow_succ]
      omega
    exact .inr ⟨m, _, hm, heq, by omega, by omega, by omega⟩

theorem isFinite_of_inRange {v : Rat} {m : Nat} {k : Int} (hm : m % 2 = 1)
    (hv : |v| = m * (2 : Rat) ^ k) (h : f.InRange m k) : f.IsFinite v := by
  rcases h with ⟨hsize, hlow, hhigh⟩
  have hne : m ≠ 0 := by omega
  have hpos := size_pos hne
  have hshift : ∀ (r : Nat), ((2 ^ r * m : Nat) : Rat) * (2 : Rat) ^ (k - r) = |v| := by
    intro r
    rw [hv, zpow_sub₀ two_ne_zero, zpow_natCast]
    push_cast
    field_simp
  -- The highest bit tells whether the value is normal.
  by_cases hnormal : 0 < k + m.size + f.bias - 1
  · rcases Nat.exists_eq_add_of_le hsize with ⟨r, hr⟩
    have hbits : (2 ^ r * m).size = f.fractionBits + 1 := by
      rw [size_two_pow_mul hne]
      omega
    have hfirst : 2 ^ f.fractionBits ≤ 2 ^ r * m := Nat.lt_size.mp (by omega)
    have hlast : 2 ^ r * m < 2 ^ (f.fractionBits + 1) := Nat.size_le.mp (by omega)
    rw [pow_succ] at hlast
    refine ⟨decide (v < 0), (k + m.size + f.bias - 1).toNat, 2 ^ r * m - 2 ^ f.fractionBits,
      by omega, by omega, ?_⟩
    have hcast : ((k + m.size + f.bias - 1).toNat : Int) = k + m.size + f.bias - 1 :=
      Int.toNat_of_nonneg (by omega)
    have hexponent : k + m.size + f.bias - 1 - f.bias - f.fractionBits = k - r := by omega
    have hexp : (k + m.size + f.bias - 1).toNat ≠ 0 := by omega
    unfold value
    rw [if_neg hexp, Nat.add_sub_cancel' hfirst, hcast, hexponent, hshift]
    exact signed_abs v
  · have hr : k - (k - (1 - f.bias - f.fractionBits)).toNat = 1 - f.bias - f.fractionBits := by
      omega
    have hbits : (2 ^ (k - (1 - f.bias - f.fractionBits)).toNat * m).size ≤ f.fractionBits := by
      rw [size_two_pow_mul hne]
      omega
    refine ⟨decide (v < 0), 0, 2 ^ (k - (1 - f.bias - f.fractionBits)).toNat * m,
      f.exponents_pos, Nat.size_le.mp hbits, ?_⟩
    have hmagnitude := hshift (k - (1 - f.bias - f.fractionBits)).toNat
    rw [hr] at hmagnitude
    unfold value
    rw [if_pos rfl, hmagnitude]
    exact signed_abs v

theorem isFinite_iff (v : Rat) :
    f.IsFinite v ↔
      v = 0 ∨ ∃ (m : Nat) (k : Int), m % 2 = 1 ∧ |v| = m * (2 : Rat) ^ k ∧ f.InRange m k := by
  constructor
  · exact f.inRange_of_isFinite
  · rintro (rfl | ⟨m, k, hm, hv, h⟩)
    · refine ⟨false, 0, 0, f.exponents_pos, Nat.two_pow_pos _, ?_⟩
      simp [value]
    · exact f.isFinite_of_inRange hm hv h

end Format

end Library

end Ridl
