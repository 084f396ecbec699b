import Ridl.Diff.Widening

/-!
# When Zero Is Legal

What `rangeHoldsZero` answers, against the rationals its texts spell.

A bound is read as a literal, so a range and its step are three rationals, any of which
may be missing. A yes is always right (`zeroInRange_of_rangeHoldsZero`). A no is right
where the lower bound is missing or zero, whatever the digits, and where the lower bound
and the step fit 128 bits once they have the same number of places
(`rangeHoldsZero_of_zeroInRange`). The two ways of answering agree where both answer, and
no operation on 128 bits leaves its domain.

## Theorems

* `zeroInRange_of_rangeHoldsZero`: A yes is right.
* `rangeHoldsZero_of_zeroInRange`: A no is right where it is decided.
* `scaledHoldsZero_of_origin`: The two ways agree.
* `checkedRangeHoldsZero_ok`: No operation overflows or divides by zero.
* `zero_legality`: The four together.
-/

namespace Ridl

namespace Diff

open Ridl.Contract (Literal digitsValue signed)

/-! ### The two ways -/

/-- The lower bound is missing or zero, and the upper bound is not negative. -/
def zeroOrigin (min max : Option String) : Bool :=
  min.all (fun min => decimalSign min == some 0) &&
    max.all (fun max => (decimalSign max).any (fun sign => decide (sign ≥ 0)))

/-- 0 is in the range by its coefficients. -/
def scaledHoldsZero (min max step : Option String) : Bool :=
  match readBound min, readBound max, readBound step with
  | some min, some max, some step =>
      if min.any (fun min => decide (min.units > 0)) ||
          max.any (fun max => decide (max.units < 0)) then false
      else
        match step, min with
        | none, _ => true
        | some step, none => decide (step.units > 0)
        | some step, some min =>
            let scale := Nat.max min.scale step.scale
            match min.rescaled scale, step.rescaled scale with
            | some min, some step => decide (step > 0) && min.tmod step == 0
            | _, _ => false
  | _, _, _ => false

theorem rangeHoldsZero_eq (min max step : Option String) :
    rangeHoldsZero min max step =
      if zeroOrigin min max then step.all (fun step => decimalSign step == some 1)
      else scaledHoldsZero min max step := rfl

/-! ### What the texts spell -/

/-- A bound that is missing, or the literal that it is. -/
def Literally : Option String → Option Literal → Prop
  | none, none => True
  | some text, some l => l.text = text.toList
  | _, _ => False

/-- The rational of a bound, when it is given. -/
def Spelled (text : Option String) (value : Option Rat) : Prop :=
  ∃ l, Literally text l ∧ l.map Literal.value = value

/-- 0 lies between the bounds, and is a whole number of steps from the lower one, which
    is 0 when it is missing. -/
structure ZeroInRange (min max step : Option Rat) : Prop where
  low : ∀ a ∈ min, a ≤ 0
  high : ∀ b ∈ max, 0 ≤ b
  positive : ∀ s ∈ step, 0 < s
  grid : ∀ s ∈ step, ∃ n : Int, 0 = min.getD 0 + n * s

/-- The coefficient of a literal at a scale. -/
def scaled (l : Literal) (scale : Nat) : Int := signed l.negative (units l scale)

/-- The coefficients are in the domain of 128 bits at the larger number of places. -/
def InDomain (min step : Option Literal) : Prop :=
  ∀ l ∈ min, ∀ r ∈ step,
    (checkedI128 (scaled l (Nat.max l.frac.length r.frac.length))).isSome ∧
      (checkedI128 (scaled r (Nat.max l.frac.length r.frac.length))).isSome

def digitCount (text : String) : Nat := text.toList.countP Char.isDigit

/-- Every text has at most 30 digits, and the lower bound and the step are in the domain of
    128 bits when they have the same number of places. -/
structure Fits (min max step : Option String) : Prop where
  short : ∀ text : String, some text ∈ [min, max, step] → digitCount text ≤ 30
  domain : ∀ l r, Literally min l → Literally step r → InDomain l r

variable {text : String} {l : Literal} {scale : Nat} {min max step : Option String}
  {low high s : Option Rat} {r : Option Literal}

theorem stripMinus_literal (h : l.text = text.toList) :
    stripMinus text = (l.negative, l.body) := by
  unfold stripMinus
  rw [← h, Literal.text]
  cases l.negative with
  | true => rfl
  | false =>
      rcases body_eq_cons l with ⟨c, rest, hbody, hminus, -⟩
      have hnosign : Ridl.Contract.sign false ++ l.body = l.body := rfl
      rw [hnosign, hbody]
      split
      · next heq => exact absurd (List.cons.inj heq).1 hminus
      · rfl

theorem all_isDigit {digits : List Char} (h : Library.IsDigits digits) :
    digits.all Char.isDigit = true := List.all_eq_true.mpr h

theorem contains_point (l : Literal) : (l.body.contains '.' && l.frac.isEmpty) = false := by
  unfold Literal.body
  split_ifs with hfrac
  · rw [List.append_nil, List.contains_eq_mem, decide_eq_false (point_not_mem l.int_digits),
      Bool.false_and]
  · rw [List.isEmpty_eq_false_iff.mpr hfrac, Bool.and_false]

theorem plainDecimal_literal (l : Literal) : plainDecimal l.body = true := by
  unfold plainDecimal
  rw [splitOnce_body]
  dsimp only
  rw [all_isDigit l.int_digits, all_isDigit l.frac_digits, contains_point,
    List.isEmpty_eq_false_iff.mpr l.int_ne_nil]
  rfl

/-- The parts make up the digits, unless the last character is a point. -/
theorem splitOnce_join {digits : List Char}
    (h : (digits.contains '.' && (splitOnce digits).2.isEmpty) = false) :
    (splitOnce digits).1 ++
      (if (splitOnce digits).2 = [] then [] else '.' :: (splitOnce digits).2) = digits := by
  have hsplit : (splitOnce digits).1 ++ digits.dropWhile (· != '.') = digits :=
    List.takeWhile_append_dropWhile
  have hfraction : (splitOnce digits).2 = (digits.dropWhile (· != '.')).drop 1 := rfl
  rcases hrest : digits.dropWhile (· != '.') with _ | ⟨c, rest⟩
  · rw [hrest] at hsplit hfraction
    have hnil : (splitOnce digits).2 = [] := hfraction
    rw [if_pos hnil, hsplit]
  · -- What is dropped starts with the point, so digits follow it.
    have hc : c = '.' := by
      have hhead := List.head?_dropWhile_not (· != '.') digits
      rw [hrest] at hhead
      simpa using hhead
    rw [hrest] at hsplit hfraction
    have hmem : '.' ∈ digits := by
      rw [← hsplit, hc]
      exact List.mem_append_right _ List.mem_cons_self
    rw [List.contains_eq_mem, decide_eq_true hmem, Bool.true_and,
      List.isEmpty_eq_false_iff] at h
    rw [if_neg h, hfraction, ← hc]
    exact hsplit

theorem exists_literal_of_plain
    (h : plainDecimal (stripMinus text).2 = true) : ∃ l : Literal, l.text = text.toList := by
  have htext : text.toList = Ridl.Contract.sign (stripMinus text).1 ++ (stripMinus text).2 := by
    unfold stripMinus
    split
    · next rest heq => rw [heq]; rfl
    · rfl
  simp only [plainDecimal, Bool.and_eq_true, Bool.not_eq_true', List.isEmpty_eq_false_iff] at h
  rcases h with ⟨⟨⟨hne, hwhole⟩, hfraction⟩, hpoint⟩
  refine ⟨⟨(stripMinus text).1, (splitOnce (stripMinus text).2).1,
    (splitOnce (stripMinus text).2).2, hne, List.all_eq_true.mp hwhole,
    List.all_eq_true.mp hfraction⟩, ?_⟩
  rw [htext, Literal.text, Literal.body]
  exact congrArg _ (splitOnce_join hpoint)

theorem magnitude_eq_zero (l : Literal) :
    l.magnitude = 0 ↔ (l.int ++ l.frac).all (· == '0') = true := by
  have hzero := Library.ofDigitChars_eq_zero l.digits
  rw [List.all_eq_true]
  simp only [beq_iff_eq]
  exact hzero

theorem decimalSign_literal (h : l.text = text.toList) :
    decimalSign text =
      some (if l.magnitude = 0 then 0 else if l.negative then -1 else 1) := by
  unfold decimalSign
  rw [stripMinus_literal h]
  dsimp only
  rw [splitOnce_body, plainDecimal_literal]
  dsimp only
  rw [Bool.not_true, if_neg Bool.false_ne_true]
  simp only [← magnitude_eq_zero, apply_ite some]

theorem parse_literal (h : l.text = text.toList) :
    Decimal.parse text =
      if l.int.length + l.frac.length > 30 then none
      else some { units := signed l.negative l.magnitude, scale := l.frac.length } := by
  unfold Decimal.parse
  rw [stripMinus_literal h]
  dsimp only
  rw [splitOnce_body, plainDecimal_literal]
  dsimp only
  rw [Bool.not_true, Bool.false_or]
  exact if_congr decide_eq_true_iff rfl rfl

theorem exists_literal_of_sign {sign : Int} (h : decimalSign text = some sign) :
    ∃ l : Literal, l.text = text.toList := by
  refine exists_literal_of_plain ?_
  by_contra hplain
  rw [decimalSign] at h
  dsimp only at h
  rw [if_pos (by rw [Bool.eq_false_iff.mpr hplain]; rfl)] at h
  cases h

theorem exists_literal_of_parse {d : Decimal} (h : Decimal.parse text = some d) :
    ∃ l : Literal, l.text = text.toList := by
  refine exists_literal_of_plain ?_
  by_contra hplain
  rw [Decimal.parse] at h
  dsimp only at h
  rw [if_pos (by rw [Bool.eq_false_iff.mpr hplain]; rfl)] at h
  cases h

/-! ### The signs of the values -/

theorem value_eq (l : Literal) :
    l.value = (signed l.negative l.magnitude : Rat) / (10 ^ l.frac.length : Nat) := by
  have h := value_eq_units (Nat.le_refl l.frac.length)
  rwa [units, Nat.sub_self, pow_zero, Nat.mul_one] at h

theorem places_pos (n : Nat) : (0 : Rat) < (10 ^ n : Nat) :=
  Nat.cast_pos.mpr (Nat.pow_pos (by decide))

theorem value_nonneg_iff (l : Literal) : 0 ≤ l.value ↔ 0 ≤ signed l.negative l.magnitude := by
  rw [value_eq, le_div_iff₀ (places_pos _), zero_mul, Int.cast_nonneg_iff]

theorem value_nonpos_iff (l : Literal) : l.value ≤ 0 ↔ signed l.negative l.magnitude ≤ 0 := by
  rw [value_eq, div_le_iff₀ (places_pos _), zero_mul, Int.cast_nonpos]

theorem value_pos_iff (l : Literal) : 0 < l.value ↔ 0 < signed l.negative l.magnitude := by
  rw [value_eq, lt_div_iff₀ (places_pos _), zero_mul, Int.cast_pos]

theorem value_eq_zero_iff (l : Literal) : l.value = 0 ↔ l.magnitude = 0 := by
  rw [value_eq, div_eq_zero_iff, or_iff_left (ne_of_gt (places_pos _)), Int.cast_eq_zero, signed]
  split_ifs <;> omega

theorem decimalSign_eq_zero_iff (h : l.text = text.toList) :
    decimalSign text = some 0 ↔ l.value = 0 := by
  rw [decimalSign_literal h, value_eq_zero_iff, Option.some_inj]
  split_ifs <;> simp_all

theorem decimalSign_eq_one_iff (h : l.text = text.toList) :
    decimalSign text = some 1 ↔ 0 < l.value := by
  rw [decimalSign_literal h, value_pos_iff, Option.some_inj, signed]
  split_ifs <;> simp <;> omega

theorem decimalSign_nonneg_iff (h : l.text = text.toList) :
    (decimalSign text).any (fun sign => decide (sign ≥ 0)) = true ↔ 0 ≤ l.value := by
  rw [decimalSign_literal h, value_nonneg_iff, Option.any_some, decide_eq_true_eq, signed]
  split_ifs <;> omega

/-! ### Coefficients at one scale -/

theorem scaled_value (h : l.frac.length ≤ scale) :
    l.value = (scaled l scale : Rat) / (10 ^ scale : Nat) := value_eq_units h

theorem rescaled_literal (h : l.frac.length ≤ scale) :
    Decimal.rescaled ⟨signed l.negative l.magnitude, l.frac.length⟩ scale =
      (checkedI128 (10 ^ (scale - l.frac.length))).bind fun _ => checkedI128 (scaled l scale) := by
  unfold Decimal.rescaled
  rw [if_neg (Nat.not_lt.mpr h)]
  refine Option.bind_congr fun power hpower => ?_
  have hvalue : power = 10 ^ (scale - l.frac.length) := by
    unfold checkedI128 at hpower
    split_ifs at hpower
    exact (Option.some.inj hpower).symm
  have hmul := Ridl.Contract.signed_mul l.negative l.magnitude (10 ^ (scale - l.frac.length))
  rw [Nat.cast_pow] at hmul
  rw [hvalue, scaled, units, ← hmul]
  rfl

theorem checkedI128_eq_some {n m : Int} (h : checkedI128 n = some m) : n = m := by
  unfold checkedI128 at h
  split_ifs at h
  exact Option.some.inj h

theorem checkedI128_pow {n : Nat} (h : n ≤ 30) : checkedI128 (10 ^ n) = some (10 ^ n) := by
  have hle : (10 : Int) ^ n ≤ 10 ^ 30 := pow_le_pow_right₀ (by decide) h
  have hpos : (0 : Int) < 10 ^ n := by positivity
  unfold checkedI128
  rw [if_pos]
  constructor <;> omega

theorem grid_iff {r : Literal} (hl : l.frac.length ≤ scale) (hr : r.frac.length ≤ scale) :
    (∃ n : Int, 0 = l.value + n * r.value) ↔ (scaled l scale).tmod (scaled r scale) = 0 := by
  rw [scaled_value hl, scaled_value hr, ← Int.dvd_iff_tmod_eq_zero]
  have hne : ((10 ^ scale : Nat) : Rat) ≠ 0 := ne_of_gt (places_pos scale)
  have hsum : ∀ n : Int, (0 : Rat) = (scaled l scale : Rat) / (10 ^ scale : Nat) +
      n * ((scaled r scale : Rat) / (10 ^ scale : Nat)) ↔
        scaled l scale = scaled r scale * (-n) := by
    intro n
    rw [← mul_div_assoc, ← add_div, eq_comm, div_eq_zero_iff, or_iff_left hne,
      ← Int.cast_mul, ← Int.cast_add, Int.cast_eq_zero, mul_neg, Int.mul_comm n]
    omega
  constructor
  · rintro ⟨n, hn⟩
    exact ⟨-n, (hsum n).mp hn⟩
  · rintro ⟨k, hk⟩
    exact ⟨-k, (hsum (-k)).mpr (by rw [hk, neg_neg])⟩

/-! ### The texts of a range -/

theorem spelled_none {value : Option Rat} : Spelled none value ↔ value = none := by
  constructor
  · rintro ⟨l, hl, rfl⟩
    cases l with
    | none => rfl
    | some l => exact hl.elim
  · rintro rfl
    exact ⟨none, trivial, rfl⟩

theorem spelled_some (h : l.text = text.toList) :
    Spelled (some text) (some l.value) := ⟨some l, h, rfl⟩

theorem exists_literal_of_spelled {value : Option Rat}
    (h : Spelled (some text) value) : ∃ l : Literal, l.text = text.toList ∧ value = l.value := by
  rcases h with ⟨_ | l, hl, rfl⟩
  · exact hl.elim
  · exact ⟨l, hl, rfl⟩

theorem digitCount_literal (h : l.text = text.toList) :
    digitCount text = l.int.length + l.frac.length := by
  have hall : ∀ {digits : List Char}, Library.IsDigits digits →
      digits.countP Char.isDigit = digits.length := fun hdigits =>
    List.countP_eq_length.mpr hdigits
  have hsign : (Ridl.Contract.sign l.negative).countP Char.isDigit = 0 := by
    cases l.negative <;> rfl
  unfold digitCount
  rw [← h, Literal.text, List.countP_append, hsign, Literal.body, List.countP_append,
    hall l.int_digits, Nat.zero_add]
  split_ifs with hfrac
  · rw [hfrac]
    rfl
  · rw [List.countP_cons_of_neg (by decide), hall l.frac_digits]

/-! ### A yes is right -/

theorem exists_spelled {text : Option String}
    (h : ∀ t ∈ text, ∃ l : Literal, l.text = t.toList) : ∃ value, Spelled text value := by
  cases text with
  | none => exact ⟨none, spelled_none.mpr rfl⟩
  | some text =>
      rcases h text rfl with ⟨l, hl⟩
      exact ⟨some l.value, spelled_some hl⟩

theorem exists_spelled_of_origin (horigin : zeroOrigin min max = true)
    (hstep : step.all (fun step => decimalSign step == some 1) = true) :
    ∃ low high s, Spelled min low ∧ Spelled max high ∧ Spelled step s := by
  rw [zeroOrigin, Bool.and_eq_true] at horigin
  have hmin : ∃ low, Spelled min low := by
    refine exists_spelled ?_
    rintro text ⟨⟩
    exact exists_literal_of_sign (beq_iff_eq.mp horigin.1)
  have hmax : ∃ high, Spelled max high := by
    refine exists_spelled ?_
    rintro text ⟨⟩
    rcases Option.any_eq_true _ _ |>.mp horigin.2 with ⟨sign, hsign, -⟩
    exact exists_literal_of_sign hsign
  have hs : ∃ s, Spelled step s := by
    refine exists_spelled ?_
    rintro text ⟨⟩
    exact exists_literal_of_sign (beq_iff_eq.mp hstep)
  rcases hmin with ⟨low, hmin⟩
  rcases hmax with ⟨high, hmax⟩
  rcases hs with ⟨s, hs⟩
  exact ⟨low, high, s, hmin, hmax, hs⟩

theorem zero_of_zeroOrigin
    (h : zeroOrigin min max = true) (hmin : Spelled min low) : low = none ∨ low = some 0 := by
  rw [zeroOrigin, Bool.and_eq_true] at h
  cases min with
  | none => exact .inl (spelled_none.mp hmin)
  | some text =>
      rcases exists_literal_of_spelled hmin with ⟨l, hl, rfl⟩
      exact .inr (congrArg some ((decimalSign_eq_zero_iff hl).mp (beq_iff_eq.mp h.1)))

theorem zeroInRange_of_origin
    (hmin : Spelled min low) (hmax : Spelled max high) (hs : Spelled step s)
    (horigin : zeroOrigin min max = true)
    (hstep : step.all (fun step => decimalSign step == some 1) = true) :
    ZeroInRange low high s := by
  have hzero : low.getD 0 = 0 := by
    rcases zero_of_zeroOrigin horigin hmin with rfl | rfl <;> rfl
  rw [zeroOrigin, Bool.and_eq_true] at horigin
  refine ⟨?_, ?_, ?_, fun x _ => ⟨0, by rw [hzero, Int.cast_zero, zero_mul, add_zero]⟩⟩
  · rintro a ⟨⟩
    exact le_of_eq hzero
  · intro b hb
    cases max with
    | none => exact nomatch (spelled_none.mp hmax).symm.trans hb
    | some text =>
        rcases exists_literal_of_spelled hmax with ⟨l, hl, rfl⟩
        cases hb
        exact (decimalSign_nonneg_iff hl).mp horigin.2
  · intro x hx
    cases step with
    | none => exact nomatch (spelled_none.mp hs).symm.trans hx
    | some text =>
        rcases exists_literal_of_spelled hs with ⟨l, hl, rfl⟩
        cases hx
        exact (decimalSign_eq_one_iff hl).mp (beq_iff_eq.mp hstep)

/-- What a literal is read as. -/
def coefficient (l : Literal) : Decimal :=
  { units := signed l.negative l.magnitude, scale := l.frac.length }

theorem literally_of_readBound {text : Option String} {d : Option Decimal}
    (h : readBound text = some d) :
    ∃ l, Literally text l ∧ d = l.map coefficient ∧
      ∀ l' ∈ l, l'.int.length + l'.frac.length ≤ 30 := by
  cases text with
  | none => exact ⟨none, trivial, (Option.some.inj h).symm, fun l hl => nomatch hl⟩
  | some text =>
      rcases Option.map_eq_some_iff.mp h with ⟨d', hparse, rfl⟩
      rcases exists_literal_of_parse hparse with ⟨l, hl⟩
      rw [parse_literal hl] at hparse
      split_ifs at hparse with hlong
      refine ⟨some l, hl, congrArg some (Option.some.inj hparse).symm, ?_⟩
      rintro l' ⟨⟩
      exact Nat.le_of_not_lt hlong

theorem readBound_of_literally {text : Option String} {l : Option Literal}
    (h : Literally text l) (hshort : ∀ t ∈ text, digitCount t ≤ 30) :
    readBound text = some (l.map coefficient) := by
  cases text with
  | none =>
      cases l with
      | none => rfl
      | some l => exact h.elim
  | some text =>
      cases l with
      | none => exact h.elim
      | some l =>
          have hlen := hshort text rfl
          rw [digitCount_literal h] at hlen
          have hparse := parse_literal h
          rw [if_neg (Nat.not_lt.mpr hlen)] at hparse
          rw [readBound, hparse]
          rfl

theorem rescaled_coefficient (h : l.frac.length ≤ scale)
    (hscale : scale ≤ 30) : (coefficient l).rescaled scale = checkedI128 (scaled l scale) := by
  rw [coefficient, rescaled_literal h, checkedI128_pow (by omega)]
  rfl

theorem scaled_pos_iff (h : l.frac.length ≤ scale) :
    0 < scaled l scale ↔ 0 < l.value := by
  rw [scaled_value h, lt_div_iff₀ (places_pos _), zero_mul, Int.cast_pos]

/-- The last question of the general way. -/
def scaledGrid (step min : Option Decimal) : Bool :=
  match step, min with
  | none, _ => true
  | some step, none => decide (step.units > 0)
  | some step, some min =>
      let scale := Nat.max min.scale step.scale
      match min.rescaled scale, step.rescaled scale with
      | some min, some step => decide (step > 0) && min.tmod step == 0
      | _, _ => false

theorem scaledHoldsZero_eq {low high s : Option Decimal}
    (hmin : readBound min = some low) (hmax : readBound max = some high)
    (hstep : readBound step = some s) :
    scaledHoldsZero min max step =
      if low.any (fun min => decide (min.units > 0)) ||
          high.any (fun max => decide (max.units < 0)) then false
      else scaledGrid s low := by
  unfold scaledHoldsZero scaledGrid
  rw [hmin, hmax, hstep]

theorem scaledGrid_iff {l : Option Literal} (hdomain : InDomain l r)
    (hl : ∀ a ∈ l, a.int.length + a.frac.length ≤ 30)
    (hr : ∀ b ∈ r, b.int.length + b.frac.length ≤ 30) :
    scaledGrid (r.map coefficient) (l.map coefficient) = true ↔
      ∀ b ∈ r, 0 < b.value ∧ ∃ n : Int, 0 = (l.map Literal.value).getD 0 + n * b.value := by
  cases r with
  | none => exact iff_of_true rfl fun b hb => nomatch hb
  | some b =>
      cases l with
      | none =>
          simp only [scaledGrid, Option.map_some, Option.map_none, Option.mem_def,
            Option.some_inj, forall_eq', Option.getD_none, decide_eq_true_eq, coefficient]
          rw [gt_iff_lt, ← value_pos_iff]
          exact ⟨fun h => ⟨h, 0, by ring⟩, And.left⟩
      | some a =>
          have ha : a.frac.length ≤ Nat.max a.frac.length b.frac.length := Nat.le_max_left _ _
          have hb : b.frac.length ≤ Nat.max a.frac.length b.frac.length := Nat.le_max_right _ _
          have hscale : Nat.max a.frac.length b.frac.length ≤ 30 :=
            Nat.max_le.mpr ⟨by have := hl a rfl; omega, by have := hr b rfl; omega⟩
          rcases hdomain a rfl b rfl with ⟨hfirst, hsecond⟩
          rcases Option.isSome_iff_exists.mp hfirst with ⟨m, hm⟩
          rcases Option.isSome_iff_exists.mp hsecond with ⟨k, hk⟩
          have hgrid : scaledGrid (some (coefficient b)) (some (coefficient a)) =
              (decide (k > 0) && m.tmod k == 0) := by
            show (match (coefficient a).rescaled (Nat.max a.frac.length b.frac.length),
                (coefficient b).rescaled (Nat.max a.frac.length b.frac.length) with
              | some min, some step => decide (step > 0) && min.tmod step == 0
              | _, _ => false) = _
            rw [rescaled_coefficient ha hscale, rescaled_coefficient hb hscale, hm, hk]
          rw [Option.map_some, Option.map_some, hgrid, Bool.and_eq_true, decide_eq_true_eq,
            beq_iff_eq, ← checkedI128_eq_some hm, ← checkedI128_eq_some hk, gt_iff_lt,
            scaled_pos_iff hb, ← grid_iff ha hb]
          simp only [Option.map_some, Option.mem_def, Option.some_inj, forall_eq', Option.getD_some]

theorem inDomain_of_scaledGrid {l : Option Literal}
    (hl : ∀ a ∈ l, a.int.length + a.frac.length ≤ 30)
    (hr : ∀ b ∈ r, b.int.length + b.frac.length ≤ 30)
    (h : scaledGrid (r.map coefficient) (l.map coefficient) = true) : InDomain l r := by
  rintro a ⟨⟩ b ⟨⟩
  have hscale : Nat.max a.frac.length b.frac.length ≤ 30 :=
    Nat.max_le.mpr ⟨by have := hl a rfl; omega, by have := hr b rfl; omega⟩
  have hgrid : (match (coefficient a).rescaled (Nat.max a.frac.length b.frac.length),
      (coefficient b).rescaled (Nat.max a.frac.length b.frac.length) with
    | some min, some step => decide (step > 0) && min.tmod step == 0
    | _, _ => false) = true := h
  rw [rescaled_coefficient (Nat.le_max_left _ _) hscale,
    rescaled_coefficient (Nat.le_max_right _ _) hscale] at hgrid
  split at hgrid
  · next hfirst hsecond => exact ⟨by rw [hfirst]; rfl, by rw [hsecond]; rfl⟩
  · cases hgrid

theorem outside_iff (l b : Option Literal) :
    ((l.map coefficient).any (fun min => decide (min.units > 0)) ||
      (b.map coefficient).any (fun max => decide (max.units < 0))) = false ↔
      (∀ a ∈ l.map Literal.value, a ≤ 0) ∧ ∀ a ∈ b.map Literal.value, 0 ≤ a := by
  rw [Bool.or_eq_false_iff]
  refine and_congr ?_ ?_
  · cases l with
    | none => exact iff_of_true rfl fun a ha => nomatch ha
    | some l =>
        simp only [Option.map_some, Option.any_some, decide_eq_false_iff_not, Option.mem_def,
          Option.some_inj, forall_eq', value_nonpos_iff, coefficient]
        omega
  · cases b with
    | none => exact iff_of_true rfl fun a ha => nomatch ha
    | some b =>
        simp only [Option.map_some, Option.any_some, decide_eq_false_iff_not, Option.mem_def,
          Option.some_inj, forall_eq', value_nonneg_iff, coefficient]
        omega

theorem zeroInRange_iff (l b r : Option Literal) :
    ZeroInRange (l.map Literal.value) (b.map Literal.value) (r.map Literal.value) ↔
      ((∀ a ∈ l.map Literal.value, a ≤ 0) ∧ ∀ a ∈ b.map Literal.value, 0 ≤ a) ∧
        ∀ a ∈ r, 0 < a.value ∧ ∃ n : Int, 0 = (l.map Literal.value).getD 0 + n * a.value := by
  have hmem : ∀ {a : Literal}, a ∈ r → a.value ∈ r.map Literal.value := by
    rintro a ⟨⟩
    rfl
  constructor
  · intro h
    exact ⟨⟨h.low, h.high⟩, fun a ha => ⟨h.positive _ (hmem ha), h.grid _ (hmem ha)⟩⟩
  · rintro ⟨⟨hlow, hhigh⟩, hgrid⟩
    refine ⟨hlow, hhigh, ?_, ?_⟩
    · intro s hs
      rcases Option.map_eq_some_iff.mp hs with ⟨a, ha, rfl⟩
      exact (hgrid a ha).1
    · intro s hs
      rcases Option.map_eq_some_iff.mp hs with ⟨a, ha, rfl⟩
      exact (hgrid a ha).2

/-- The general way, where it reads the texts and the coefficients are in the domain. -/
theorem scaledHoldsZero_iff {l b : Option Literal} (hmin : readBound min = some (l.map coefficient))
    (hmax : readBound max = some (b.map coefficient))
    (hstep : readBound step = some (r.map coefficient)) (hdomain : InDomain l r)
    (hl : ∀ a ∈ l, a.int.length + a.frac.length ≤ 30)
    (hr : ∀ a ∈ r, a.int.length + a.frac.length ≤ 30) :
    scaledHoldsZero min max step = true ↔
      ZeroInRange (l.map Literal.value) (b.map Literal.value) (r.map Literal.value) := by
  rw [scaledHoldsZero_eq hmin hmax hstep, zeroInRange_iff, ← outside_iff,
    ← scaledGrid_iff hdomain hl hr]
  split_ifs with houtside
  · simp only [houtside, Bool.true_eq_false, false_and]
  · rw [Bool.not_eq_true] at houtside
    rw [houtside, and_iff_right rfl]

theorem zeroInRange_of_scaled (h : scaledHoldsZero min max step = true) :
    ∃ low high s, Spelled min low ∧ Spelled max high ∧ Spelled step s ∧
      ZeroInRange low high s := by
  rcases hmin : readBound min with _ | low
  · simp only [scaledHoldsZero, hmin, Bool.false_eq_true] at h
  rcases hmax : readBound max with _ | high
  · simp only [scaledHoldsZero, hmin, hmax, Bool.false_eq_true] at h
  rcases hstep : readBound step with _ | s
  · simp only [scaledHoldsZero, hmin, hmax, hstep, Bool.false_eq_true] at h
  rcases literally_of_readBound hmin with ⟨l, hlit, rfl, hl⟩
  rcases literally_of_readBound hmax with ⟨b, hblit, rfl, -⟩
  rcases literally_of_readBound hstep with ⟨r, hrlit, rfl, hr⟩
  have hdomain : InDomain l r := by
    have hgrid := h
    rw [scaledHoldsZero_eq hmin hmax hstep] at hgrid
    split_ifs at hgrid
    exact inDomain_of_scaledGrid hl hr hgrid
  exact ⟨_, _, _, ⟨l, hlit, rfl⟩, ⟨b, hblit, rfl⟩, ⟨r, hrlit, rfl⟩,
    (scaledHoldsZero_iff hmin hmax hstep hdomain hl hr).mp h⟩

theorem zeroInRange_of_rangeHoldsZero (h : rangeHoldsZero min max step = true) :
    ∃ low high s, Spelled min low ∧ Spelled max high ∧ Spelled step s ∧
      ZeroInRange low high s := by
  rw [rangeHoldsZero_eq] at h
  by_cases horigin : zeroOrigin min max = true
  · rw [if_pos horigin] at h
    rcases exists_spelled_of_origin horigin h with ⟨low, high, s, hmin, hmax, hs⟩
    exact ⟨low, high, s, hmin, hmax, hs, zeroInRange_of_origin hmin hmax hs horigin h⟩
  · rw [if_neg horigin] at h
    exact zeroInRange_of_scaled h

/-! ### A no is right where it is decided -/

/-- The first way holds where 0 is in the range and the lower bound is missing or zero. -/
theorem zeroOrigin_of_zeroInRange
    (hmin : Spelled min low) (hmax : Spelled max high) (hstep : Spelled step s)
    (h : ZeroInRange low high s) (hzero : low = none ∨ low = some 0) :
    zeroOrigin min max = true ∧ step.all (fun step => decimalSign step == some 1) = true := by
  rw [zeroOrigin, Bool.and_eq_true]
  refine ⟨⟨?_, ?_⟩, ?_⟩
  · cases min with
    | none => rfl
    | some text =>
        rcases exists_literal_of_spelled hmin with ⟨l, hl, rfl⟩
        rcases hzero with hzero | hzero
        · cases hzero
        · exact beq_iff_eq.mpr ((decimalSign_eq_zero_iff hl).mpr (Option.some.inj hzero))
  · cases max with
    | none => rfl
    | some text =>
        rcases exists_literal_of_spelled hmax with ⟨l, hl, rfl⟩
        exact (decimalSign_nonneg_iff hl).mpr (h.high _ rfl)
  · cases step with
    | none => rfl
    | some text =>
        rcases exists_literal_of_spelled hstep with ⟨l, hl, rfl⟩
        exact beq_iff_eq.mpr ((decimalSign_eq_one_iff hl).mpr (h.positive _ rfl))

theorem rangeHoldsZero_of_zeroInRange
    (hmin : Spelled min low) (hmax : Spelled max high) (hstep : Spelled step s)
    (h : ZeroInRange low high s) (hdecided : low = none ∨ low = some 0 ∨ Fits min max step) :
    rangeHoldsZero min max step = true := by
  rw [rangeHoldsZero_eq]
  by_cases horigin : zeroOrigin min max = true
  · rw [if_pos horigin]
    exact (zeroOrigin_of_zeroInRange hmin hmax hstep h (zero_of_zeroOrigin horigin hmin)).2
  · rw [if_neg horigin]
    have hfits : Fits min max step := by
      rcases hdecided with hzero | hzero | hfits
      · exact absurd (zeroOrigin_of_zeroInRange hmin hmax hstep h (.inl hzero)).1 horigin
      · exact absurd (zeroOrigin_of_zeroInRange hmin hmax hstep h (.inr hzero)).1 horigin
      · exact hfits
    rcases hmin with ⟨l, hlit, rfl⟩
    rcases hmax with ⟨b, hblit, rfl⟩
    rcases hstep with ⟨r, hrlit, rfl⟩
    have hshort : ∀ {text : Option String} {l : Option Literal}, Literally text l →
        text ∈ [min, max, step] → (∀ t ∈ text, digitCount t ≤ 30) ∧
          ∀ a ∈ l, a.int.length + a.frac.length ≤ 30 := by
      intro text l hlit hmem
      have hcount : ∀ t ∈ text, digitCount t ≤ 30 := by
        rintro t ⟨⟩
        exact hfits.short t hmem
      refine ⟨hcount, ?_⟩
      rintro a ⟨⟩
      cases text with
      | none => exact hlit.elim
      | some t => exact digitCount_literal hlit ▸ hcount t rfl
    have hl := hshort hlit (by simp)
    have hb := hshort hblit (by simp)
    have hr := hshort hrlit (by simp)
    exact (scaledHoldsZero_iff (readBound_of_literally hlit hl.1)
      (readBound_of_literally hblit hb.1) (readBound_of_literally hrlit hr.1)
      (hfits.domain l r hlit hrlit) hl.2 hr.2).mpr h

/-! ### The two ways agree -/

/-- The general way answers: it reads every text, and the coefficients are in the
    domain. -/
structure Scalable (min max step : Option String) : Prop where
  min_read : (readBound min).isSome
  max_read : (readBound max).isSome
  step_read : (readBound step).isSome
  domain : ∀ l r, Literally min l → Literally step r → InDomain l r

theorem scaledHoldsZero_of_origin
    (horigin : zeroOrigin min max = true) (h : Scalable min max step) :
    scaledHoldsZero min max step = step.all (fun step => decimalSign step == some 1) := by
  rcases Option.isSome_iff_exists.mp h.min_read with ⟨low, hmin⟩
  rcases Option.isSome_iff_exists.mp h.max_read with ⟨high, hmax⟩
  rcases Option.isSome_iff_exists.mp h.step_read with ⟨s, hstep⟩
  rcases literally_of_readBound hmin with ⟨l, hlit, rfl, hl⟩
  rcases literally_of_readBound hmax with ⟨b, hblit, rfl, -⟩
  rcases literally_of_readBound hstep with ⟨r, hrlit, rfl, hr⟩
  have hlow : Spelled min (l.map Literal.value) := ⟨l, hlit, rfl⟩
  have hhigh : Spelled max (b.map Literal.value) := ⟨b, hblit, rfl⟩
  have hs : Spelled step (r.map Literal.value) := ⟨r, hrlit, rfl⟩
  rw [Bool.eq_iff_iff,
    scaledHoldsZero_iff hmin hmax hstep (h.domain l r hlit hrlit) hl hr]
  constructor
  · intro hzero
    exact (zeroOrigin_of_zeroInRange hlow hhigh hs hzero (zero_of_zeroOrigin horigin hlow)).2
  · exact zeroInRange_of_origin hlow hhigh hs horigin

/-! ### Operations on 128 bits -/

/-- What an operation on 128 bits can do wrong. -/
inductive IntegerFault
  | overflow
  | divideByZero
deriving DecidableEq

/-- The result of an operation, when it is in the domain. -/
def inDomain (n : Int) : Except IntegerFault Int :=
  if -2 ^ 127 ≤ n ∧ n < 2 ^ 127 then .ok n else .error .overflow

/-- The remainder, which is that of zero where the quotient overflows. -/
def checkedRem (a b : Int) : Except IntegerFault Int :=
  if b = 0 then .error .divideByZero
  else if a = -2 ^ 127 ∧ b = -1 then .error .overflow
  else .ok (a.tmod b)

/-- `Decimal.parse`, with the digits read and negated in the domain. -/
def Decimal.checkedParse (text : String) : Except IntegerFault (Option Decimal) :=
  let (negative, unsigned) := stripMinus text
  let (whole, fraction) := splitOnce unsigned
  if !plainDecimal unsigned || whole.length + fraction.length > 30 then .ok none
  else
    (inDomain (Nat.ofDigitChars 10 (whole ++ fraction) 0)).bind (fun units =>
      (if negative then inDomain (-units) else .ok units).map (fun units =>
        some { units, scale := fraction.length }))

/-- `Decimal.rescaled`, with the power in the domain. The product alone is refused where it
    is not. -/
def Decimal.checkedRescaled (d : Decimal) (scale : Nat) : Except IntegerFault (Option Int) :=
  if scale < d.scale then .ok none
  else (inDomain (10 ^ (scale - d.scale))).map (fun power => checkedI128 (d.units * power))

/-- `readBound`, with the faults of reading. -/
def checkedReadBound : Option String → Except IntegerFault (Option (Option Decimal))
  | none => .ok (some none)
  | some text => (Decimal.checkedParse text).map (fun d => d.map some)

/-- `scaledGrid`, with the faults of scaling and of the remainder. -/
def checkedScaledGrid (step min : Option Decimal) : Except IntegerFault Bool :=
  match step, min with
  | none, _ => .ok true
  | some step, none => .ok (decide (step.units > 0))
  | some step, some min =>
      let scale := Nat.max min.scale step.scale
      (min.checkedRescaled scale).bind (fun min =>
        (step.checkedRescaled scale).bind (fun step =>
          match min, step with
          | some min, some step =>
              if step > 0 then (checkedRem min step).map (fun rest => rest == 0) else .ok false
          | _, _ => .ok false))

/-- `rangeHoldsZero`, with the faults. -/
def checkedRangeHoldsZero (min max step : Option String) : Except IntegerFault Bool :=
  if zeroOrigin min max then .ok (step.all (fun step => decimalSign step == some 1))
  else
    (checkedReadBound min).bind (fun min =>
      (checkedReadBound max).bind (fun max =>
        (checkedReadBound step).bind (fun step =>
          match min, max, step with
          | some min, some max, some step =>
              if min.any (fun min => decide (min.units > 0)) ||
                  max.any (fun max => decide (max.units < 0)) then .ok false
              else checkedScaledGrid step min
          | _, _, _ => .ok false)))

theorem inDomain_ok {n : Int} (h : n.natAbs ≤ 10 ^ 30) : inDomain n = .ok n := by
  unfold inDomain
  rw [if_pos]
  constructor <;> omega

theorem checkedParse_ok (text : String) : Decimal.checkedParse text = .ok (Decimal.parse text) := by
  unfold Decimal.checkedParse Decimal.parse
  rcases stripMinus text with ⟨negative, unsigned⟩
  dsimp only
  by_cases hrefused : (!plainDecimal unsigned ||
      decide ((splitOnce unsigned).1.length + (splitOnce unsigned).2.length > 30)) = true
  · rw [if_pos hrefused, if_pos hrefused]
  · rw [if_neg hrefused, if_neg hrefused]
    rw [Bool.not_eq_true, Bool.or_eq_false_iff, Bool.not_eq_false',
      decide_eq_false_iff_not] at hrefused
    rcases hrefused with ⟨hplain, hlen⟩
    simp only [plainDecimal, Bool.and_eq_true, List.all_eq_true] at hplain
    have hdigits : Library.IsDigits ((splitOnce unsigned).1 ++ (splitOnce unsigned).2) :=
      Library.isDigits_append.mpr ⟨hplain.1.1.2, hplain.1.2⟩
    -- At most 30 digits spell a number below the power of 30.
    have hlt := Library.ofDigitChars_lt hdigits
    have hpow : 10 ^ ((splitOnce unsigned).1 ++ (splitOnce unsigned).2).length ≤ 10 ^ 30 := by
      refine Nat.pow_le_pow_right (by decide) ?_
      rw [List.length_append]
      omega
    generalize Nat.ofDigitChars 10 ((splitOnce unsigned).1 ++ (splitOnce unsigned).2) 0 = n at hlt
    rw [inDomain_ok (by omega)]
    cases negative with
    | false => rfl
    | true =>
        show ((if true then inDomain (-(n : Int)) else .ok (n : Int)).map _) = _
        rw [if_pos rfl, inDomain_ok (by omega)]
        rfl

theorem checkedReadBound_ok (text : Option String) :
    checkedReadBound text = .ok (readBound text) := by
  cases text with
  | none => rfl
  | some text =>
      rw [checkedReadBound, checkedParse_ok]
      rfl

theorem checkedRescaled_ok {d : Decimal} (h : scale - d.scale ≤ 30) :
    d.checkedRescaled scale = .ok (d.rescaled scale) := by
  have hle : (10 : Nat) ^ (scale - d.scale) ≤ 10 ^ 30 := Nat.pow_le_pow_right (by decide) h
  have habs : ((10 : Int) ^ (scale - d.scale)).natAbs = 10 ^ (scale - d.scale) := by
    rw [Int.natAbs_pow]
    rfl
  unfold Decimal.checkedRescaled Decimal.rescaled
  split_ifs
  · rfl
  · rw [inDomain_ok (by omega), checkedI128_pow h]
    rfl

theorem checkedRem_ok {a b : Int} (h : 0 < b) : checkedRem a b = .ok (a.tmod b) := by
  unfold checkedRem
  rw [if_neg (by omega), if_neg (by omega)]

theorem checkedScaledGrid_ok {s low : Option Decimal} (hs : ∀ d ∈ s, d.scale ≤ 30)
    (hlow : ∀ d ∈ low, d.scale ≤ 30) : checkedScaledGrid s low = .ok (scaledGrid s low) := by
  cases s with
  | none => rfl
  | some s =>
      cases low with
      | none => rfl
      | some low =>
          have hscale : Nat.max low.scale s.scale ≤ 30 := Nat.max_le.mpr ⟨hlow _ rfl, hs _ rfl⟩
          unfold checkedScaledGrid scaledGrid
          dsimp only
          rw [checkedRescaled_ok (by omega), checkedRescaled_ok (by omega)]
          cases low.rescaled (Nat.max low.scale s.scale) with
          | none => rfl
          | some m =>
              cases s.rescaled (Nat.max low.scale s.scale) with
              | none => rfl
              | some k =>
                  show (if k > 0 then _ else _) = Except.ok (decide (k > 0) && m.tmod k == 0)
                  by_cases hk : k > 0
                  · rw [if_pos hk, checkedRem_ok hk, decide_eq_true hk, Bool.true_and]
                    rfl
                  · rw [if_neg hk, decide_eq_false hk, Bool.false_and]

theorem checkedRangeHoldsZero_ok (min max step : Option String) :
    checkedRangeHoldsZero min max step = .ok (rangeHoldsZero min max step) := by
  have hscale : ∀ {text : Option String} {d : Option Decimal}, readBound text = some d →
      ∀ x ∈ d, x.scale ≤ 30 := by
    intro text d h x hx
    rcases literally_of_readBound h with ⟨l, -, rfl, hlen⟩
    rcases Option.map_eq_some_iff.mp hx with ⟨a, ha, rfl⟩
    have := hlen a ha
    exact Nat.le_trans (Nat.le_add_left _ _) this
  rw [rangeHoldsZero_eq]
  unfold checkedRangeHoldsZero
  by_cases horigin : zeroOrigin min max = true
  · rw [if_pos horigin, if_pos horigin]
  · rw [if_neg horigin, if_neg horigin, checkedReadBound_ok, checkedReadBound_ok,
      checkedReadBound_ok]
    rcases hmin : readBound min with _ | low
    · simp only [scaledHoldsZero, hmin]
      rfl
    rcases hmax : readBound max with _ | high
    · simp only [scaledHoldsZero, hmin, hmax]
      rfl
    rcases hstep : readBound step with _ | s
    · simp only [scaledHoldsZero, hmin, hmax, hstep]
      rfl
    rw [scaledHoldsZero_eq hmin hmax hstep]
    show (if _ then _ else _) = _
    split_ifs
    · rfl
    · exact checkedScaledGrid_ok (hscale hstep) (hscale hmin)

/-- Whether 0 is legal: a yes is right, a no is right where it is decided, the two ways
    agree, and no operation overflows or divides by zero. -/
theorem zero_legality (min max step : Option String) :
    (rangeHoldsZero min max step = true → ∃ low high s, Spelled min low ∧ Spelled max high ∧
      Spelled step s ∧ ZeroInRange low high s) ∧
    (∀ low high s, Spelled min low → Spelled max high → Spelled step s →
      ZeroInRange low high s → (low = none ∨ low = some 0 ∨ Fits min max step) →
        rangeHoldsZero min max step = true) ∧
    (zeroOrigin min max = true → Scalable min max step →
      scaledHoldsZero min max step = step.all (fun step => decimalSign step == some 1)) ∧
    checkedRangeHoldsZero min max step = .ok (rangeHoldsZero min max step) :=
  ⟨zeroInRange_of_rangeHoldsZero, fun _ _ _ => rangeHoldsZero_of_zeroInRange,
    scaledHoldsZero_of_origin, checkedRangeHoldsZero_ok min max step⟩

end Diff

end Ridl
