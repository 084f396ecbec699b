import Ridl.Contract.DecimalText

/-!
# The Text of a Duration

A duration that no one wrote is shown as a literal: in the largest unit that
divides it, so that the text is one that could have been written. A count that is
whole in no unit above the smallest is shown in microseconds.

Reading such a text goes back the same way (`durationUs_renderDuration`). A number
ends with a digit, and no unit does, so the unit that was written is the one that is
cut off again.

## Theorems

* `durationUs_intText`: A number with a unit is read as so many of the unit.
* `durationUs_renderDuration`: A whole count that is shown is read back.
* `durationUs_whole`: What is read as a whole number of units is a whole count.
* `durationUs_token`: A duration token is read as what it says, if as a whole number.
-/

namespace Ridl

namespace Timing

open Contract
open Library (Text)

/-! ### Writing -/

/-- The units above the smallest one, the largest first. -/
def RENDER_UNITS : List (String × Nat) :=
  [("h", 3600000000), ("min", 60000000), ("s", 1000000), ("ms", 1000)]

/-- A count of microseconds in the largest unit that divides it. -/
def renderDuration (value : ExactValue) : Text :=
  match RENDER_UNITS.find? (fun unit => (value / (unit.2 : Rat)).den = 1) with
  | some (suffix, factor) => intText (value / (factor : Rat)).num ++ suffix.toList
  | none => value.toDecimalString ++ "us".toList

/-! ### Reading -/

/-- A text says so many microseconds: digits, and one of the units right after
    them. -/
def Writes (text : Text) (micros : Nat) : Prop :=
  ∃ digits unit factor, IsInteger digits ∧ (unit, factor) ∈ TIME_UNITS ∧
    text = digits ++ unit.toList ∧ micros = digitsValue digits * factor

variable {unit : String} {factor : Nat}

/-- No unit ends with a digit and none is a part of another after one, so the unit
    after a digit is cut off whole. -/
theorem splitUnit_digit (front : Text) {d : Char} (hd : d.isDigit = true)
    (hunit : (unit, factor) ∈ TIME_UNITS) :
    splitUnit (front ++ [d] ++ unit.toList) = some (front ++ [d], factor) := by
  have hu : d ≠ 'u' := fun heq => by rw [heq] at hd; cases hd
  have hm : d ≠ 'm' := fun heq => by rw [heq] at hd; cases hd
  simp only [TIME_UNITS, List.mem_cons, Prod.mk.injEq, List.not_mem_nil, or_false] at hunit
  rcases hunit with ⟨rfl, rfl⟩ | ⟨rfl, rfl⟩ | ⟨rfl, rfl⟩ | ⟨rfl, rfl⟩ | ⟨rfl, rfl⟩ <;>
    simp [splitUnit, TIME_UNITS, stripSuffix, List.dropPrefix?, hu, hm]

theorem trim_number {front number : Text} {c : Char} (hfront : number = c :: front)
    (hc : isWhiteSpace c = false)
    (hunit : (unit, factor) ∈ TIME_UNITS) :
    trim (number ++ unit.toList) = number ++ unit.toList := by
  rcases isWhiteSpace_of_unit (List.mem_map_of_mem hunit) with ⟨rest, last, hunitText, hlast⟩
  have hhead : number ++ unit.toList = c :: (front ++ unit.toList) := by
    rw [hfront, List.cons_append]
  have hback : number ++ unit.toList = number ++ rest ++ [last] := by
    rw [hunitText, List.append_assoc]
  exact trim_of_ends hhead hback hc hlast

/-- A number is read with its unit, as so many of the unit. -/
theorem durationUs_literal (l : Literal) (hunit : (unit, factor) ∈ TIME_UNITS) :
    durationUs (l.text ++ unit.toList) =
      (ExactValue.parse l.text).map (fun value =>
        { us := value * (factor : Rat), whole := '.' ∉ l.text }) := by
  have hhead : ∃ c front, l.text = c :: front ∧ isWhiteSpace c = false := by
    rcases exists_head l.isNumber with ⟨c, front, hbody, hc⟩
    unfold Literal.text Contract.sign
    split_ifs
    · exact ⟨'-', l.body, rfl, rfl⟩
    · exact ⟨c, front, hbody, isWhiteSpace_of_isDigit hc⟩
  rcases hhead with ⟨c, front, hfront, hc⟩
  rcases exists_last l.isNumber with ⟨back, d, hbody, hd⟩
  have hback : l.text = Contract.sign l.negative ++ back ++ [d] := by
    rw [Literal.text, hbody, List.append_assoc]
  have htrim := trim_number hfront hc hunit
  have hsplit := splitUnit_digit (Contract.sign l.negative ++ back) hd hunit
  rw [← hback] at hsplit
  rw [durationUs, htrim, hsplit]

theorem dot_not_mem_text (l : Literal) : '.' ∉ l.text ↔ l.frac = [] := by
  have hsign : '.' ∉ Contract.sign l.negative := by
    unfold Contract.sign
    split_ifs <;> decide
  have hint : '.' ∉ l.int := not_mem_of_digits rfl l.int_digits
  unfold Literal.text Literal.body
  by_cases hfrac : l.frac = []
  · simp only [hfrac, if_true, List.append_nil, List.mem_append, hsign, hint, or_self,
      not_false_eq_true]
  · simp only [hfrac, if_false, List.mem_append, List.mem_cons, true_or, or_true, not_true_eq_false]

theorem parse_whole {l : Literal} (hfrac : l.frac = []) :
    ExactValue.parse l.text = some ((signed l.negative l.magnitude : Int) : Rat) := by
  rw [l.parse_literal, hfrac, List.length_nil, Nat.zero_mod, pow_zero, Rat.mkRat_one]

theorem durationUs_intText (n : Int) (hunit : (unit, factor) ∈ TIME_UNITS) :
    durationUs (intText n ++ unit.toList) =
      some { us := (n : Rat) * (factor : Rat), whole := true } := by
  rcases intText_literal n with ⟨l, -, hvalue, htext⟩
  have hdot : '.' ∉ intText n := by
    have hdigits : '.' ∉ Nat.toDigits 10 n.natAbs :=
      not_mem_of_digits rfl (Library.isDigits_toDigits _)
    have hsign : '.' ∉ Contract.sign (decide (n < 0)) := by
      unfold Contract.sign
      split_ifs <;> decide
    rw [intText, List.mem_append]
    exact not_or_intro hsign hdigits
  have hfrac : l.frac = [] := (dot_not_mem_text l).mp (htext ▸ hdot)
  -- The value of the literal is the one it is read as, since it has no places.
  have hparse : ExactValue.parse l.text = some (n : Rat) := by
    rw [Literal.value, hfrac, List.length_nil, pow_zero, Rat.mkRat_one, Rat.mkRat_one] at hvalue
    rw [parse_whole hfrac, hvalue]
  have hread := durationUs_literal l hunit
  rw [hparse, htext, Option.map_some, decide_eq_true hdot] at hread
  exact hread

/-! ### A duration that is shown is read back -/

/-- A count is shown as so many of a unit. -/
theorem renderDuration_unit (n : Int) :
    ∃ (m : Int) (unit : String) (factor : Nat), (unit, factor) ∈ TIME_UNITS ∧
      renderDuration n = intText m ++ unit.toList ∧ m * factor = n := by
  unfold renderDuration
  cases hfind : RENDER_UNITS.find? (fun unit => ((n : ExactValue) / (unit.2 : Rat)).den = 1) with
  | some entry =>
      rcases entry with ⟨unit, factor⟩
      have hunits : ∀ entry ∈ RENDER_UNITS, entry ∈ TIME_UNITS ∧ entry.2 ≠ 0 := by decide
      rcases hunits _ (List.mem_of_find?_eq_some hfind) with ⟨hunit, hpos⟩
      have hden := List.find?_some hfind
      rw [decide_eq_true_eq] at hden
      refine ⟨_, unit, factor, hunit, rfl, ?_⟩
      have hfactor : (factor : Rat) ≠ 0 := Nat.cast_ne_zero.mpr hpos
      have hmul : (((n : Rat) / factor).num : Rat) * factor = n := by
        rw [Rat.coe_int_num_of_den_eq_one hden, div_mul_cancel₀ _ hfactor]
      exact_mod_cast hmul
  | none => exact ⟨n, "us", 1, by decide, rfl, Int.mul_one n⟩

theorem durationUs_renderDuration (n : Int) :
    durationUs (renderDuration n) = some { us := n, whole := true } := by
  rcases renderDuration_unit n with ⟨m, unit, factor, hunit, htext, hvalue⟩
  rw [htext, durationUs_intText m hunit, ← hvalue]
  push_cast
  rfl

/-! ### What a whole duration is -/

theorem durationUs_whole {text : Text} {duration : Duration}
    (hread : durationUs text = some duration) (hwhole : duration.whole = true) :
    ∃ n : Int, duration.us = n := by
  unfold durationUs at hread
  cases hunit : splitUnit (trim text) with
  | none =>
      rw [hunit] at hread
      cases hread
  | some cut =>
      rcases cut with ⟨digits, factor⟩
      simp only [hunit, Option.map_eq_some_iff] at hread
      rcases hread with ⟨value, hvalue, rfl⟩
      rcases exists_literal hvalue with ⟨l, rfl⟩
      have hfrac := (dot_not_mem_text l).mp (of_decide_eq_true hwhole)
      rw [parse_whole hfrac, Option.some.injEq] at hvalue
      refine ⟨signed l.negative l.magnitude * factor, ?_⟩
      rw [← hvalue]
      push_cast
      rfl

theorem durationUs_token {text : Text} (h : IsDuration text) :
    ∃ duration, durationUs text = some duration ∧
      (duration.whole = true → ∃ micros, Writes text micros ∧ duration.us = (micros : Nat)) := by
  rcases h with ⟨number, hnumber, unit, hunit, rfl⟩
  rcases List.mem_map.mp hunit with ⟨⟨name, factor⟩, hentry, rfl⟩
  have hliteral : ∃ l : Literal, l.negative = false ∧ l.text = number := by
    rcases hnumber with hint | ⟨int, frac, hint, hfrac, rfl⟩
    · exact ⟨⟨false, number, [], hint.1, hint.2, List.forall_mem_nil _⟩, rfl,
        List.append_nil number⟩
    · exact ⟨⟨false, int, frac, hint.1, hint.2, hfrac.2⟩, rfl,
        congrArg (int ++ ·) (if_neg hfrac.1)⟩
  rcases hliteral with ⟨l, hpositive, rfl⟩
  rw [durationUs_literal l hentry, l.parse_literal]
  refine ⟨_, rfl, fun hwhole => ?_⟩
  have hfrac := (dot_not_mem_text l).mp (of_decide_eq_true hwhole)
  have htext : l.text = l.int := by
    rw [Literal.text, Literal.body, hpositive, hfrac]
    exact List.append_nil l.int
  refine ⟨l.magnitude * factor, ⟨l.int, name, factor, ⟨l.int_ne_nil, l.int_digits⟩, hentry,
    by rw [htext], by rw [Literal.magnitude, hfrac, List.append_nil]⟩, ?_⟩
  simp only [hpositive, hfrac, List.length_nil, Nat.zero_mod, pow_zero, Rat.mkRat_one, signed,
    Bool.false_eq_true, if_false]
  push_cast
  rfl

end Timing

end Ridl
