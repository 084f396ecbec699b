import Ridl.Contract.Scalar
import Ridl.Library.Binary

/-!
# Wire Widths

The width of an integer is the first one of a table that reaches from the lower bound to
the upper one. The table goes from narrow to wide, an unsigned width before the signed one
of its size, and stops at the domain of 64 bits with a sign.

The width of a float is counted: a range with a step has so many values, and 32 bits are
enough where they are at most 2^24 and both bounds are values of that format. What lies
between the bounds does not have to be one, since a transport that needs the grid sends the
number of the step.

## Main definitions

* `deriveIntWidth`, `deriveFloatWidth`: The two derivations.
* `IntWidth.Spans`, `IntWidth.Holds`: The domain reaches over the range; both bounds are in
  the domain.

## Theorems

* `deriveIntWidth_ok_iff`, `deriveIntWidth_error_iff`: The narrowest width, or none.
* `isBinary32Representable_iff`: The exact test.
* `deriveFloatWidth_iff`: When 32 bits are answered.
* `width_derivation`: The three together.
-/

namespace Ridl

namespace Contract

open Library (Format trailingZeros)

/-! ### Integers -/

/-- The wire width of an integer. -/
inductive IntWidth
  | u8 | i8 | u16 | i16 | u32 | i32 | u64 | i64
deriving DecidableEq

/-- A range the bounds of which are both given. -/
structure IntRange where
  min : ExactValue
  max : ExactValue

/-- A bound is outside the domain of 64 bits with a sign. -/
inductive WidthError
  | outsideInt64Domain
deriving DecidableEq

/-- The domains, the narrowest first. The largest unsigned one ends with the signed one. -/
def intWidthDomains : List (IntWidth × Int × Int) :=
  [(.u8, 0, 255), (.i8, -128, 127), (.u16, 0, 65535), (.i16, -32768, 32767),
    (.u32, 0, 4294967295), (.i32, -2147483648, 2147483647), (.u64, 0, 2 ^ 63 - 1),
    (.i64, -2 ^ 63, 2 ^ 63 - 1)]

/-- The narrowest width whose domain contains the range. -/
def deriveIntWidth (r : IntRange) : Except WidthError IntWidth :=
  match intWidthDomains.find? (fun (_, lo, hi) => decide (r.min ≥ lo) && decide (r.max ≤ hi)) with
  | some (width, _) => .ok width
  | none => .error .outsideInt64Domain

/-! ### Floats -/

/-- The wire width of a float. -/
inductive FloatWidth
  | f32 | f64
deriving DecidableEq

/-- A range with a step. -/
structure FloatRange where
  min : ExactValue
  max : ExactValue
  step : Option ExactValue

/-- The exact test for a finite value of 32 bits: the value is an odd number times a power of
    two, and the bits are in range. -/
def isBinary32Representable (value : ExactValue) : Bool :=
  if value.num = 0 then true
  else
    let numer := value.num.natAbs
    let denom := value.den
    let s := trailingZeros denom
    -- Only a power of two has one bit more than it has trailing zeros.
    if denom.size ≠ s + 1 then false
    else
      let t := trailingZeros numer
      let mantissa := numer >>> t
      let k : Int := t - s
      let bitLen : Int := mantissa.size
      let high := k + bitLen - 1
      decide (bitLen ≤ 24) && decide (k ≥ -149) && decide (high ≤ 127)

def deriveFloatWidth (r : FloatRange) : FloatWidth :=
  match r.step with
  | none => .f64
  | some step =>
      if ¬ step > 0 then .f64
      else
        let span := r.max - r.min
        if span < 0 then .f64
        else
          let count := span / step + 1
          if count ≤ 2 ^ 24 ∧ isBinary32Representable r.min ∧ isBinary32Representable r.max then
            .f32
          else .f64

/-! ### The narrowest width -/

namespace IntWidth

def bits : IntWidth → Nat
  | .u8 | .i8 => 8
  | .u16 | .i16 => 16
  | .u32 | .i32 => 32
  | .u64 | .i64 => 64

def isSigned : IntWidth → Bool
  | .u8 | .u16 | .u32 | .u64 => false
  | .i8 | .i16 | .i32 | .i64 => true

/-- The smallest value of the domain. -/
def low (w : IntWidth) : Int := if w.isSigned then -2 ^ (w.bits - 1) else 0

/-- The largest value of the domain, which is one of 64 bits with a sign. -/
def high (w : IntWidth) : Int :=
  min (2 ^ 63 - 1) (if w.isSigned then 2 ^ (w.bits - 1) - 1 else 2 ^ w.bits - 1)

/-- The domain starts before the range and ends after it. -/
def Spans (w : IntWidth) (r : IntRange) : Prop := (w.low : Rat) ≤ r.min ∧ r.max ≤ (w.high : Rat)

/-- Both bounds are in the domain. -/
def Holds (w : IntWidth) (r : IntRange) : Prop :=
  ((w.low : Rat) ≤ r.min ∧ r.min ≤ (w.high : Rat)) ∧ (w.low : Rat) ≤ r.max ∧ r.max ≤ (w.high : Rat)

/-- A width has fewer bits, or as many and no sign. -/
def Before (v w : IntWidth) : Prop :=
  v.bits < w.bits ∨ v.bits = w.bits ∧ v.isSigned = false ∧ w.isSigned = true

/-- The widths in the order of the table. -/
def all : List IntWidth := [.u8, .i8, .u16, .i16, .u32, .i32, .u64, .i64]

theorem mem_all (w : IntWidth) : w ∈ all := by cases w <;> decide

theorem pairwise_all : all.Pairwise Before := by
  unfold all Before
  decide

theorem Before.asymm {v w : IntWidth} (h : v.Before w) : ¬ w.Before v := by
  rintro h'
  unfold Before at h h'
  rcases h with h | ⟨hbits, hsigned, -⟩
  · rcases h' with h' | ⟨hbits, -, -⟩ <;> omega
  · rcases h' with h' | ⟨-, -, hsigned'⟩
    · omega
    · rw [hsigned] at hsigned'
      cases hsigned'

theorem spans_iff_holds {w : IntWidth} {r : IntRange} (h : r.min ≤ r.max) :
    w.Spans r ↔ w.Holds r :=
  ⟨fun hw => ⟨⟨hw.1, h.trans hw.2⟩, hw.1.trans h, hw.2⟩, fun hw => ⟨hw.1.1, hw.2.2⟩⟩

end IntWidth

/-- A width that spans the range, all others that do coming after it. -/
def Narrowest (w : IntWidth) (r : IntRange) : Prop :=
  w.Spans r ∧ ∀ v : IntWidth, v.Spans r → v = w ∨ w.Before v

theorem intWidthDomains_eq :
    intWidthDomains = IntWidth.all.map (fun w => (w, w.low, w.high)) := by decide

/-- What is found first in a sorted list comes before all else that could be found. -/
theorem find?_eq_some_iff_first {α : Type} {lt : α → α → Prop} {l : List α} {p : α → Bool}
    (hl : l.Pairwise lt) (hasymm : ∀ {a b}, lt a b → ¬ lt b a) (a : α) :
    l.find? p = some a ↔ a ∈ l ∧ p a = true ∧ ∀ b ∈ l, p b = true → b = a ∨ lt a b := by
  have hfirst : ∀ {x}, l.find? p = some x → x ∈ l ∧ p x = true ∧
      ∀ b ∈ l, p b = true → b = x ∨ lt x b := by
    intro x hx
    refine ⟨List.mem_of_find?_eq_some hx, List.find?_some hx, fun b hb hpb => ?_⟩
    rcases (List.find?_eq_some_iff_append.mp hx).2 with ⟨front, back, rfl, hfront⟩
    rcases List.mem_append.mp hb with hb | hb
    · have := hfront b hb
      rw [hpb] at this
      cases this
    · rcases List.mem_cons.mp hb with rfl | hb
      · exact .inl rfl
      · exact .inr ((List.pairwise_cons.mp (List.pairwise_append.mp hl).2.1).1 b hb)
  constructor
  · exact hfirst
  · rintro ⟨hmem, hp, hleast⟩
    rcases hfound : l.find? p with _ | x
    · exact absurd hp (List.find?_eq_none.mp hfound a hmem)
    · rcases hfirst hfound with ⟨hx, hpx, hxleast⟩
      rcases hleast x hx hpx with rfl | hlt
      · rfl
      · rcases hxleast a hmem hp with rfl | hgt
        · rfl
        · exact absurd hgt (hasymm hlt)

theorem deriveIntWidth_eq (r : IntRange) :
    deriveIntWidth r =
      match IntWidth.all.find? (fun w => decide (r.min ≥ w.low) && decide (r.max ≤ w.high)) with
      | some w => .ok w
      | none => .error .outsideInt64Domain := by
  have hfound : intWidthDomains.find?
      (fun (_, lo, hi) => decide (r.min ≥ lo) && decide (r.max ≤ hi)) =
        (IntWidth.all.find? fun w => decide (r.min ≥ w.low) && decide (r.max ≤ w.high)).map
          (fun w => (w, w.low, w.high)) := by
    rw [intWidthDomains_eq, List.find?_map]
    rfl
  unfold deriveIntWidth
  rw [hfound]
  cases IntWidth.all.find? fun w => decide (r.min ≥ w.low) && decide (r.max ≤ w.high) <;> rfl

theorem spans_iff (w : IntWidth) (r : IntRange) :
    (decide (r.min ≥ w.low) && decide (r.max ≤ w.high)) = true ↔ w.Spans r := by
  rw [Bool.and_eq_true, decide_eq_true_eq, decide_eq_true_eq, IntWidth.Spans, ge_iff_le]

theorem deriveIntWidth_ok_iff (r : IntRange) (w : IntWidth) :
    deriveIntWidth r = .ok w ↔ Narrowest w r := by
  have hfirst := find?_eq_some_iff_first
    (p := fun w : IntWidth => decide (r.min ≥ w.low) && decide (r.max ≤ w.high))
    IntWidth.pairwise_all IntWidth.Before.asymm w
  simp only [spans_iff, IntWidth.mem_all, true_and, true_implies] at hfirst
  rw [Narrowest, ← hfirst, deriveIntWidth_eq]
  cases IntWidth.all.find? fun w => decide (r.min ≥ w.low) && decide (r.max ≤ w.high) with
  | none => exact iff_of_false (fun h => nomatch h) (fun h => nomatch h)
  | some v =>
      show Except.ok v = Except.ok w ↔ _
      rw [Except.ok.injEq, Option.some_inj]

theorem deriveIntWidth_error_iff (r : IntRange) :
    deriveIntWidth r = .error .outsideInt64Domain ↔ ∀ w : IntWidth, ¬ w.Spans r := by
  have hnone : IntWidth.all.find?
      (fun w => decide (r.min ≥ w.low) && decide (r.max ≤ w.high)) = none ↔
        ∀ w : IntWidth, ¬ w.Spans r := by
    simp only [List.find?_eq_none, spans_iff, IntWidth.mem_all, true_implies]
  rw [← hnone, deriveIntWidth_eq]
  cases IntWidth.all.find? fun w => decide (r.min ≥ w.low) && decide (r.max ≤ w.high) with
  | none => exact iff_of_true rfl rfl
  | some v => exact iff_of_false (fun h => nomatch h) (fun h => nomatch h)

/-! ### Values of 32 bits -/

/-- The format of 32 bits: 23 bits of fraction, 255 finite exponents, and a bias of 127. -/
def binary32 : Format where
  fractionBits := 23
  exponents := 255
  bias := 127
  exponents_pos := by decide

theorem eq_one_of_size {d : Nat} (hd : d % 2 = 1) : d.size = 1 ↔ d = 1 := by
  constructor
  · intro h
    have hlt := Nat.size_le.mp (Nat.le_of_eq h)
    omega
  · rintro rfl
    rfl

/-- What the test says of lowest terms, each an odd number times a power of two. -/
theorem isBinary32Representable_terms {v : ExactValue} {t s m d : Nat} (hm : m % 2 = 1)
    (hd : d % 2 = 1) (hnum : v.num.natAbs = 2 ^ t * m) (hden : v.den = 2 ^ s * d) :
    isBinary32Representable v = true ↔ d = 1 ∧ binary32.InRange m (t - s) := by
  have hne : v.num ≠ 0 := by
    intro hzero
    rw [hzero, Int.natAbs_zero] at hnum
    have := Nat.mul_pos (Nat.two_pow_pos t) (show 0 < m by omega)
    omega
  have hmantissa : (2 ^ t * m) >>> t = m := by
    rw [Nat.shiftRight_eq_div_pow, Nat.mul_div_cancel_left _ (Nat.two_pow_pos t)]
  have hsize : (2 ^ s * d).size = s + 1 ↔ d = 1 := by
    rw [Library.size_two_pow_mul (by omega), Nat.add_left_cancel_iff, eq_one_of_size hd]
  unfold isBinary32Representable
  rw [if_neg hne]
  dsimp only
  rw [hnum, hden, Library.trailingZeros_two_pow_mul hm, Library.trailingZeros_two_pow_mul hd,
    hmantissa]
  by_cases hone : d = 1
  · rw [if_neg (not_not_intro (hsize.mpr hone)), and_iff_right hone]
    simp only [Bool.and_eq_true, decide_eq_true_eq, Format.InRange, binary32]
    omega
  · rw [if_pos (fun h => hone (hsize.mp h))]
    exact iff_of_false Bool.false_ne_true (fun h => hone h.1)

theorem isBinary32Representable_iff (v : ExactValue) :
    isBinary32Representable v = true ↔ binary32.IsFinite v := by
  rw [Format.isFinite_iff]
  by_cases hzero : v = 0
  · exact iff_of_true (by rw [hzero]; rfl) (.inl hzero)
  · rw [or_iff_right hzero]
    constructor
    · intro h
      have hnum : v.num.natAbs ≠ 0 :=
        fun h => hzero (Rat.num_eq_zero.mp (Int.natAbs_eq_zero.mp h))
      rcases Library.exists_odd hnum with ⟨t, m, hm, hnumer⟩
      rcases Library.exists_odd v.den_nz with ⟨s, d, hd, hdenom⟩
      rcases (isBinary32Representable_terms hm hd hnumer hdenom).mp h with ⟨rfl, hrange⟩
      refine ⟨m, t - s, hm, ?_, hrange⟩
      rw [Library.abs_eq_div, hnumer, hdenom, zpow_sub₀ two_ne_zero, zpow_natCast, zpow_natCast]
      push_cast
      ring
    · rintro ⟨m, k, hm, hv, hrange⟩
      rcases Library.num_den_of_binary hm hv with ⟨hnumer, hdenom⟩
      have hexponent : ((k.toNat : Int) - (-k).toNat) = k := by omega
      refine (isBinary32Representable_terms hm rfl hnumer (hdenom.trans (Nat.mul_one _).symm)).mpr
        ⟨rfl, ?_⟩
      rwa [hexponent]

/-! ### The count of the values -/

/-- 32 bits are answered where a positive step makes at most 2^24 values of a range that is not
    empty, and both bounds are values of the format. -/
theorem deriveFloatWidth_iff (r : FloatRange) :
    deriveFloatWidth r = .f32 ↔ ∃ step, r.step = some step ∧ 0 < step ∧ r.min ≤ r.max ∧
      (r.max - r.min) / step + 1 ≤ 2 ^ 24 ∧ binary32.IsFinite r.min ∧ binary32.IsFinite r.max := by
  unfold deriveFloatWidth
  cases hstep : r.step with
  | none => exact iff_of_false (fun h => nomatch h) (fun ⟨_, h, _⟩ => nomatch h)
  | some step =>
      dsimp only
      simp only [Option.some_inj, exists_eq_left', ← isBinary32Representable_iff]
      by_cases hpos : 0 < step
      · rw [if_neg (not_not_intro hpos), and_iff_right hpos]
        by_cases hspan : r.max - r.min < 0
        · rw [if_pos hspan]
          exact iff_of_false (fun h => nomatch h) fun h => not_le.mpr (sub_neg.mp hspan) h.1
        · rw [if_neg hspan, and_iff_right (sub_nonneg.mp (not_lt.mp hspan))]
          split_ifs with hcount
          · exact iff_of_true rfl hcount
          · exact iff_of_false (fun h => nomatch h) hcount
      · rw [if_pos hpos]
        exact iff_of_false (fun h => nomatch h) fun h => hpos h.1

theorem gridNumber_lt {r : FloatRange} (h : deriveFloatWidth r = .f32) {step : ExactValue}
    (hstep : r.step = some step) {n : Nat} (hn : r.min + n * step ≤ r.max) : n < 2 ^ 24 := by
  rcases (deriveFloatWidth_iff r).mp h with ⟨step', hstep', hpos, -, hcount, -⟩
  cases hstep.symm.trans hstep'
  have hle : (n : Rat) ≤ (r.max - r.min) / step := by
    rw [le_div_iff₀ hpos]
    linarith
  have hlt : (n : Rat) + 1 ≤ (2 ^ 24 : Nat) := by
    push_cast
    linarith
  exact_mod_cast hlt

/-! ### The derivations -/

/-- The derived widths: an integer has the narrowest width, none where no width spans the
    range; a float has 32 bits where its values are at most 2^24, and they have numbers below
    that. -/
theorem width_derivation (r : IntRange) (w : IntWidth) (v : ExactValue) (f : FloatRange) :
    (deriveIntWidth r = .ok w ↔ Narrowest w r) ∧
    (deriveIntWidth r = .error .outsideInt64Domain ↔ ∀ w : IntWidth, ¬ w.Spans r) ∧
    (r.min ≤ r.max → (w.Spans r ↔ w.Holds r)) ∧
    (isBinary32Representable v = true ↔ binary32.IsFinite v) ∧
    (deriveFloatWidth f = .f32 ↔ ∃ step, f.step = some step ∧ 0 < step ∧ f.min ≤ f.max ∧
      (f.max - f.min) / step + 1 ≤ 2 ^ 24 ∧ binary32.IsFinite f.min ∧ binary32.IsFinite f.max) ∧
    (deriveFloatWidth f = .f32 → ∀ step, f.step = some step →
      ∀ n : Nat, f.min + n * step ≤ f.max → n < 2 ^ 24) :=
  ⟨deriveIntWidth_ok_iff r w, deriveIntWidth_error_iff r, IntWidth.spans_iff_holds,
    isBinary32Representable_iff v, deriveFloatWidth_iff f, fun h _ hstep _ => gridNumber_lt h hstep⟩

/-- A value that a rational is rounded to, whatever is done with ties. -/
def RoundsTo (v x : Rat) : Prop :=
  binary32.IsFinite x ∧ ∀ y, binary32.IsFinite y → y ≠ x → |v - x| < |v - y|

/-- Above 2^24 a value of 32 bits is even. -/
theorem le_of_isFinite_of_lt {y : Rat} (h : binary32.IsFinite y) (hy : 2 ^ 24 < y) :
    2 ^ 24 + 2 ≤ y := by
  have hpos : 0 < y := lt_trans (by positivity) hy
  rcases (binary32.isFinite_iff y).mp h with rfl | ⟨m, k, -, habs, hsize, -⟩
  · exact absurd hpos (lt_irrefl 0)
  rw [abs_of_pos hpos] at habs
  have hm : m < 2 ^ 24 := Nat.size_le.mp hsize
  have hmcast : (m : Rat) ≤ 2 ^ 24 := by
    have hle : m ≤ 2 ^ 24 := Nat.le_of_lt hm
    exact_mod_cast hle
  have hk : 0 < k := by
    by_contra hk
    have hone : (2 : Rat) ^ k ≤ 1 := zpow_le_one_of_nonpos₀ (by decide) (not_lt.mp hk)
    have hle : y ≤ m * 1 := habs ▸ mul_le_mul_of_nonneg_left hone (Nat.cast_nonneg m)
    linarith
  rcases Int.eq_succ_of_zero_lt hk with ⟨j, rfl⟩
  have heven : y = ((2 * (2 ^ j * m) : Nat) : Rat) := by
    rw [habs]
    push_cast
    rw [zpow_add_one₀ two_ne_zero, zpow_natCast]
    ring
  rw [heven] at hy ⊢
  have hnat : 2 ^ 24 < 2 * (2 ^ j * m) := by exact_mod_cast hy
  have hnext : 2 ^ 24 + 2 ≤ 2 * (2 ^ j * m) := by omega
  exact_mod_cast hnext

theorem roundsTo_of_between {v : Rat} (hlow : 2 ^ 24 ≤ v) (hhigh : v ≤ 2 ^ 24 + 1 / 2) :
    RoundsTo v (2 ^ 24) := by
  have hfinite : binary32.IsFinite (2 ^ 24) :=
    (isBinary32Representable_iff _).mp (by decide +kernel)
  refine ⟨hfinite, fun y hy hne => ?_⟩
  rw [abs_of_nonneg (sub_nonneg.mpr hlow)]
  rcases lt_or_gt_of_ne hne with hlt | hgt
  · rw [abs_of_pos (by linarith)]
    linarith
  · have hgap := le_of_isFinite_of_lt hy hgt
    rw [abs_of_neg (by linarith)]
    linarith

/-- 2^24 steps of 1 have one value too many for 32 bits, the grid points of 32 bits are not
    told apart where the step is smaller than the precision, and a width spans an inverted range
    without holding its bounds. -/
theorem widths_otherwise :
    (deriveFloatWidth ⟨0, 2 ^ 24, some 1⟩ = .f64 ∧ (2 ^ 24 - 0) / 1 ≤ (2 ^ 24 : Rat) ∧
      binary32.IsFinite 0 ∧ binary32.IsFinite (2 ^ 24)) ∧
    (deriveFloatWidth ⟨2 ^ 24, 2 ^ 24 + 2, some (1 / 2)⟩ = .f32 ∧
      RoundsTo (2 ^ 24 + (0 : Nat) * (1 / 2)) (2 ^ 24) ∧
        RoundsTo (2 ^ 24 + (1 : Nat) * (1 / 2)) (2 ^ 24)) ∧
    deriveIntWidth ⟨300, -5⟩ = .ok .u8 ∧ ¬ IntWidth.u8.Holds ⟨300, -5⟩ := by
  refine ⟨⟨by decide +kernel, by decide +kernel, ?_, ?_⟩, ⟨by decide +kernel, ?_, ?_⟩,
    by decide +kernel, ?_⟩
  · exact (isBinary32Representable_iff _).mp rfl
  · exact (isBinary32Representable_iff _).mp (by decide +kernel)
  · exact roundsTo_of_between (by norm_num) (by norm_num)
  · exact roundsTo_of_between (by norm_num) (by norm_num)
  · rintro ⟨⟨-, hhigh⟩, -⟩
    exact absurd hhigh (by decide +kernel)

end Contract

end Ridl
