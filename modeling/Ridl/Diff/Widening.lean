import Ridl.Contract.DecimalText
import Ridl.Diff.Classify

/-!
# Widening a Constraint

A constraint that the classifier does not call narrowed admits every value that it
admitted before. The bounds are canonical decimals, so the order of their texts is
the order of their values (`cmpDecimal_literal`), and two origins the grid of which
is one differ by whole steps (`sameGrid_origin`).

Comparing two fractions pads the shorter one with a width that is a format
argument. Such an argument holds 16 bits, and a larger one panics: `cmpDecimal` is
what a comparison answers, and `checkedCmpDecimal` says when it answers.

## Main definitions

* `Bound`, `GridOrigin`, `OnGrid`: What the texts of a constraint say.

## Theorems

* `cmpDecimal_literal`: Canonical decimals are ordered as their values.
* `sameGrid_origin`: Origins of one grid differ by whole steps.
* `admitted_of_not_narrows`: What does not narrow only widens.
* `constraint_widening`: The three together, and when a comparison answers.
-/

namespace Ridl

namespace Diff

open Ridl.Contract (Literal IsCanonicalText digitsValue signed)

/-! ### Comparisons that may panic -/

/-- A panic while a text is formatted. -/
inductive FormatPanic
  | width
deriving DecidableEq

/-- The largest width that a format argument holds. -/
def FORMAT_WIDTH_MAX : Nat := 65535

def checkedPad (width : Nat) (digits : List Char) : Except FormatPanic (List Char) :=
  if width ≤ FORMAT_WIDTH_MAX then .ok (padTo width digits) else .error .width

/-- `cmpMagnitude`, which pads the fractions only where the integer parts agree. -/
def checkedCmpMagnitude (left right : List Char) : Except FormatPanic Ordering :=
  let (leftInt, leftFrac) := splitOnce left
  let (rightInt, rightFrac) := splitOnce right
  let leftInt := leftInt.dropWhile (· == '0')
  let rightInt := rightInt.dropWhile (· == '0')
  let width := max leftFrac.length rightFrac.length
  match (compare leftInt.length rightInt.length).then (compare leftInt rightInt) with
  | .eq =>
      (checkedPad width leftFrac).bind (fun leftFrac =>
        (checkedPad width rightFrac).map (fun rightFrac => compare leftFrac rightFrac))
  | byInt => .ok byInt

/-- `cmpDecimal`, with the panic. -/
def checkedCmpDecimal (left right : String) : Except FormatPanic (Option Ordering) :=
  match splitSign left, splitSign right with
  | some (leftNegative, leftDigits), some (rightNegative, rightDigits) =>
      if leftNegative ≠ rightNegative then .ok (some (if leftNegative then .lt else .gt))
      else
        (checkedCmpMagnitude leftDigits rightDigits).map (fun magnitude =>
          some (if leftNegative then magnitude.swap else magnitude))
  | _, _ => .ok none

/-- A bound was added, or moved the way that narrows. -/
def checkedMoved (narrower : Ordering) : Option String → Option String → Except FormatPanic Bool
  | none, some _ => .ok true
  | some old, some new => (checkedCmpDecimal new old).map (fun order => order.all (· == narrower))
  | _, _ => .ok false

/-- `narrows`, with the panic. The bounds are compared one after the other until one
    narrows. -/
def checkedNarrows : Option Constraint → Option Constraint → Except FormatPanic Bool
  | some old, some new =>
      (checkedMoved .gt old.min new.min).bind (fun raised =>
        if raised then .ok true
        else
          (checkedMoved .lt old.max new.max).map (fun lowered =>
            lowered || narrows (some old) (some new)))
  | old, new => .ok (narrows old new)

variable {width : Nat} {l r : Literal} {digits : List Char} {left right : String}

theorem checkedPad_ok (h : width ≤ FORMAT_WIDTH_MAX) (digits : List Char) :
    checkedPad width digits = .ok (padTo width digits) := if_pos h

/-- The order of the integer parts. -/
def cmpInt (left right : List Char) : Ordering :=
  let leftInt := (splitOnce left).1.dropWhile (· == '0')
  let rightInt := (splitOnce right).1.dropWhile (· == '0')
  (compare leftInt.length rightInt.length).then (compare leftInt rightInt)

/-- The count that the shorter fraction is padded to. -/
def fracWidth (left right : List Char) : Nat :=
  max (splitOnce left).2.length (splitOnce right).2.length

/-- A comparison answers if the integer parts decide or the fractions can be padded. -/
theorem checkedCmpMagnitude_eq (left right : List Char) :
    checkedCmpMagnitude left right =
      if cmpInt left right = .eq ∧ FORMAT_WIDTH_MAX < fracWidth left right then .error .width
      else .ok (cmpMagnitude left right) := by
  have hmagnitude : cmpMagnitude left right = (cmpInt left right).then
      (compare (padTo (fracWidth left right) (splitOnce left).2)
        (padTo (fracWidth left right) (splitOnce right).2)) := rfl
  have hchecked : checkedCmpMagnitude left right =
      match cmpInt left right with
      | .eq =>
          (checkedPad (fracWidth left right) (splitOnce left).2).bind (fun leftFrac =>
            (checkedPad (fracWidth left right) (splitOnce right).2).map (fun rightFrac =>
              compare leftFrac rightFrac))
      | byInt => .ok byInt := rfl
  rw [hchecked, hmagnitude]
  cases hint : cmpInt left right with
  | lt => rfl
  | gt => rfl
  | eq =>
      by_cases hwide : FORMAT_WIDTH_MAX < fracWidth left right
      · rw [if_pos ⟨rfl, hwide⟩, checkedPad, if_neg (Nat.not_le.mpr hwide)]
        rfl
      · rw [if_neg fun h => hwide h.2]
        simp only [checkedPad_ok (Nat.le_of_not_lt hwide)]
        rfl

/-- The computation panics or answers with this value. -/
def Answers {α : Type} (x : Except FormatPanic α) (a : α) : Prop := ∀ b, x = .ok b → b = a

namespace Answers

variable {α β : Type} {x : Except FormatPanic α} {a : α}

theorem ok : Answers (.ok a) a := fun _ h => (Except.ok.inj h).symm

theorem map (h : Answers x a) (f : α → β) : Answers (x.map f) (f a) := by
  intro b hb
  cases x with
  | error e => cases hb
  | ok a' =>
      rw [← h a' rfl]
      exact (Except.ok.inj hb).symm

theorem bind (h : Answers x a) {f : α → Except FormatPanic β} {b : β} (hf : Answers (f a) b) :
    Answers (x.bind f) b := by
  intro b' hb
  cases x with
  | error e => cases hb
  | ok a' =>
      rw [h a' rfl] at hb
      exact hf b' hb

end Answers

theorem answers_cmpDecimal (left right : String) :
    Answers (checkedCmpDecimal left right) (cmpDecimal left right) := by
  unfold checkedCmpDecimal cmpDecimal
  cases splitSign left with
  | none => exact .ok
  | some l =>
      cases splitSign right with
      | none => exact .ok
      | some r =>
          dsimp only [Option.bind_eq_bind, Option.bind_some]
          by_cases hsign : l.1 = r.1
          · rw [if_neg (not_not_intro hsign), if_neg (not_not_intro hsign), checkedCmpMagnitude_eq]
            by_cases hpanic : cmpInt l.2 r.2 = .eq ∧ FORMAT_WIDTH_MAX < fracWidth l.2 r.2
            · rw [if_pos hpanic]
              exact fun b hb => nomatch hb
            · rw [if_neg hpanic]
              exact Answers.ok.map _
          · rw [if_pos hsign, if_pos hsign]
            exact .ok

theorem answers_raised (old new : Option String) :
    Answers (checkedMoved .gt old new) (raised old new) := by
  cases old <;> cases new <;> first | exact .ok | exact (answers_cmpDecimal _ _).map _

theorem answers_lowered (old new : Option String) :
    Answers (checkedMoved .lt old new) (lowered old new) := by
  cases old <;> cases new <;> first | exact .ok | exact (answers_cmpDecimal _ _).map _

/-- Where the rule answers, it answers as `narrows` does. -/
theorem answers_narrows (old new : Option Constraint) :
    Answers (checkedNarrows old new) (narrows old new) := by
  cases old with
  | none => exact .ok
  | some old =>
      cases new with
      | none => exact .ok
      | some new =>
          refine (answers_raised old.min new.min).bind ?_
          by_cases hraised : raised old.min new.min = true
          · rw [if_pos hraised]
            have hnarrows : narrows (some old) (some new) = true := by
              simp only [narrows, hraised, Bool.true_or]
            rw [hnarrows]
            exact .ok
          · rw [if_neg hraised]
            have hnarrows : narrows (some old) (some new) =
                (lowered old.max new.max || narrows (some old) (some new)) := by
              cases hlowered : lowered old.max new.max with
              | false => rw [Bool.false_or]
              | true => simp only [narrows, hlowered, Bool.or_true, Bool.true_or]
            have hlast := (answers_lowered old.max new.max).map
              (fun lowered => lowered || narrows (some old) (some new))
            rwa [← hnarrows] at hlast

/-! ### What the texts of a constraint say -/

def Bound (text : String) (value : Rat) : Prop := IsCanonicalText value text.toList

/-- The grid starts at the lower bound, or at zero where there is none. -/
def GridOrigin (min : Option String) (origin : Rat) : Prop :=
  match min with
  | none => origin = 0
  | some text => Bound text origin

/-- A whole number of steps from the origin. -/
def OnGrid (origin step value : Rat) : Prop := ∃ k : Int, value - origin = k * step

/-- A number, or a string or bytes with their length. -/
inductive Value (α : Type)
  | number (value : Rat)
  | sized (length : Nat) (content : α)

/-- What a constraint asks of a value. The text of a pattern is the one that a named
    pattern was resolved to. -/
def Admits {α : Type} (Matches : String → α → Prop) (c : Constraint) : Value α → Prop
  | .number value =>
      (∀ text low, c.min = some text → Bound text low → low ≤ value) ∧
        (∀ text high, c.max = some text → Bound text high → value ≤ high) ∧
        ∀ text step origin, c.step = some text → Bound text step → GridOrigin c.min origin →
          OnGrid origin step value
  | .sized length content =>
      (∀ n, c.lenMin = some n → n ≤ length) ∧ (∀ n, c.lenMax = some n → length ≤ n) ∧
        ∀ text, c.pattern = some text → Matches text content

/-- A value without a constraint is admitted. -/
def AdmittedBy {α : Type} (Matches : String → α → Prop) (c : Option Constraint)
    (value : Value α) : Prop :=
  ∀ c', c = some c' → Admits Matches c' value

/-- The bounds are canonical decimals, and the step is a positive one. -/
structure Constraint.Canonical (c : Constraint) : Prop where
  min : ∀ text, c.min = some text → ∃ value, Bound text value
  max : ∀ text, c.max = some text → ∃ value, Bound text value
  step : ∀ text, c.step = some text → ∃ value, Bound text value ∧ 0 < value

/-! ### The order of canonical decimals -/

theorem digit_or_point {c : Char} (hc : c ∈ l.body) : c.isDigit = true ∨ c = '.' := by
  unfold Literal.body at hc
  rcases List.mem_append.mp hc with hint | hfrac
  · exact .inl (l.int_digits c hint)
  · split_ifs at hfrac
    · cases hfrac
    · rcases List.mem_cons.mp hfrac with rfl | hfrac
      · exact .inr rfl
      · exact .inl (l.frac_digits c hfrac)

theorem point_not_mem (h : Library.IsDigits digits) : '.' ∉ digits :=
  fun hmem => nomatch h '.' hmem

theorem count_point_le (l : Literal) : l.body.count '.' ≤ 1 := by
  unfold Literal.body
  rw [List.count_append, List.count_eq_zero_of_not_mem (point_not_mem l.int_digits)]
  split_ifs
  · exact Nat.zero_le 1
  · rw [List.count_cons_self, List.count_eq_zero_of_not_mem (point_not_mem l.frac_digits)]

theorem body_eq_cons (l : Literal) : ∃ c rest, l.body = c :: rest ∧ c ≠ '-' ∧ c ≠ '+' := by
  rcases hint : l.int with _ | ⟨c, rest⟩
  · exact absurd hint l.int_ne_nil
  · have hc := l.int_digits c (by rw [hint]; exact List.mem_cons_self)
    refine ⟨c, _, by rw [Literal.body, hint, List.cons_append], ?_, ?_⟩ <;> rintro rfl <;> cases hc

theorem splitSign_literal {text : String} (h : l.text = text.toList) :
    splitSign text = some (l.negative, l.body) := by
  have hall : l.body.all (fun c => c.isDigit || c == '.') = true := by
    rw [List.all_eq_true]
    intro c hc
    rw [Bool.or_eq_true, beq_iff_eq]
    exact digit_or_point hc
  have hne : l.body.isEmpty = false := by
    rcases body_eq_cons l with ⟨c, rest, hbody, -⟩
    rw [hbody]
    rfl
  have hcount : ¬ l.body.count '.' > 1 := Nat.not_lt.mpr (count_point_le l)
  unfold splitSign
  rw [← h, Literal.text]
  cases l.negative with
  | true =>
      simp only [Ridl.Contract.sign, if_true, List.singleton_append, hne, hall, Bool.not_true,
        Bool.or_false, Bool.false_eq_true, if_false, hcount]
  | false =>
      rcases body_eq_cons l with ⟨c, rest, hbody, hminus, hplus⟩
      have hnosign : Ridl.Contract.sign false ++ l.body = l.body := rfl
      rw [hnosign]
      -- The body starts with a digit, so no sign comes off.
      split
      rename_i negative rest' hsplit
      rw [hbody] at hsplit
      split at hsplit
      · exact absurd (List.cons.inj ‹_›).1 hminus
      · exact absurd (List.cons.inj ‹_›).1 hplus
      · cases hsplit
        rw [← hbody]
        simp only [hne, hall, Bool.not_true, Bool.or_false, Bool.false_eq_true, if_false, hcount]

theorem splitOnce_body (l : Literal) : splitOnce l.body = (l.int, l.frac) := by
  have hne : ∀ c ∈ l.int, (c != '.') = true := by
    intro c hc
    rw [bne_iff_ne]
    rintro rfl
    exact point_not_mem l.int_digits hc
  unfold splitOnce Literal.body
  rw [List.takeWhile_append_of_pos hne, List.dropWhile_append_of_pos hne]
  split_ifs with hfrac
  · rw [hfrac]
    simp
  · simp

theorem cmpInt_literal (l r : Literal) :
    cmpInt l.body r.body = compare (digitsValue l.int) (digitsValue r.int) := by
  have hdigits : ∀ l : Literal, Library.IsDigits (l.int.dropWhile (· == '0')) :=
    fun l c hc => l.int_digits c ((List.dropWhile_sublist _).mem hc)
  unfold cmpInt
  rw [splitOnce_body, splitOnce_body]
  dsimp only
  rw [Library.compare_trimmed (hdigits l) (hdigits r) (Library.head?_dropWhile_zero _)
    (Library.head?_dropWhile_zero _), Library.ofDigitChars_dropWhile_zero,
    Library.ofDigitChars_dropWhile_zero]
  rfl

theorem ofDigitChars_padTo (digits : List Char) :
    Nat.ofDigitChars 10 (padTo width digits) 0 =
      10 ^ (width - digits.length) * Nat.ofDigitChars 10 digits 0 := by
  rw [padTo, List.rightpad, Library.ofDigitChars_append, List.length_replicate,
    Nat.ofDigitChars_replicate_zero, Nat.mul_zero, Nat.add_zero]

theorem isDigits_padTo (h : Library.IsDigits digits) (width : Nat) :
    Library.IsDigits (padTo width digits) :=
  Library.isDigits_append.mpr ⟨h, Library.isDigits_replicate _⟩

theorem length_padTo (h : digits.length ≤ width) :
    (padTo width digits).length = width := by
  rw [padTo, List.length_rightpad, Nat.max_eq_left h]

/-- What a literal counts at a number of places that is not smaller than its own. -/
def units (l : Literal) (places : Nat) : Nat := l.magnitude * 10 ^ (places - l.frac.length)

theorem units_eq {places : Nat} (h : l.frac.length ≤ places) :
    units l places = 10 ^ places * digitsValue l.int +
      Nat.ofDigitChars 10 (padTo places l.frac) 0 := by
  have hmagnitude : l.magnitude =
      10 ^ l.frac.length * digitsValue l.int + Nat.ofDigitChars 10 l.frac 0 :=
    Library.ofDigitChars_append l.int l.frac
  have hpow : 10 ^ places = 10 ^ (places - l.frac.length) * 10 ^ l.frac.length := by
    rw [← pow_add, Nat.sub_add_cancel h]
  rw [units, hmagnitude, ofDigitChars_padTo, hpow]
  ring

theorem cmpMagnitude_literal (l r : Literal) :
    cmpMagnitude l.body r.body =
      compare (units l (fracWidth l.body r.body)) (units r (fracWidth l.body r.body)) := by
  have hmagnitude : cmpMagnitude l.body r.body = (cmpInt l.body r.body).then
      (compare (padTo (fracWidth l.body r.body) (splitOnce l.body).2)
        (padTo (fracWidth l.body r.body) (splitOnce r.body).2)) := rfl
  have hleft : l.frac.length ≤ fracWidth l.body r.body := by
    rw [fracWidth, splitOnce_body]
    exact Nat.le_max_left _ _
  have hright : r.frac.length ≤ fracWidth l.body r.body := by
    rw [fracWidth, splitOnce_body, splitOnce_body]
    exact Nat.le_max_right _ _
  have hlt : ∀ {l : Literal} {width : Nat}, l.frac.length ≤ width →
      Nat.ofDigitChars 10 (padTo width l.frac) 0 < 10 ^ width := by
    intro l width h
    have := Library.ofDigitChars_lt (isDigits_padTo l.frac_digits width)
    rwa [length_padTo h] at this
  rw [hmagnitude, cmpInt_literal, splitOnce_body, splitOnce_body, units_eq hleft, units_eq hright,
    Library.compare_high_low _ _ (hlt hleft) (hlt hright),
    Library.compare_digits (isDigits_padTo l.frac_digits _) (isDigits_padTo r.frac_digits _)
      ((length_padTo hleft).trans (length_padTo hright).symm)]

/-! ### The order of the values -/

theorem value_eq_units {places : Nat} (h : l.frac.length ≤ places) :
    l.value = (signed l.negative (units l places) : Rat) / (10 ^ places : Nat) := by
  have hpos : ∀ n, (10 ^ n : Nat) ≠ 0 := fun n => Nat.ne_of_gt (Nat.pow_pos (by decide))
  rw [← Rat.mkRat_eq_div, Literal.value, Rat.mkRat_eq_iff (hpos _) (hpos _),
    Ridl.Contract.signed_mul, Ridl.Contract.signed_mul, units]
  congr 1
  rw [Nat.mul_assoc, ← pow_add, Nat.sub_add_cancel h]

theorem compareOfLessAndEq_div (a b : Int) {N : Nat} (hN : 0 < N) :
    compareOfLessAndEq ((a : Rat) / N) (b / N) = compareOfLessAndEq a b := by
  have hpos : (0 : Rat) < N := Nat.cast_pos.mpr hN
  have hlt : (a : Rat) / N < b / N ↔ a < b := by
    rw [div_lt_div_iff_of_pos_right hpos, Int.cast_lt]
  have heq : (a : Rat) / N = b / N ↔ a = b := by
    rw [div_left_inj' (ne_of_gt hpos), Int.cast_inj]
  unfold compareOfLessAndEq
  simp only [hlt, heq]

theorem compareOfLessAndEq_signed (negative : Bool) (m n : Nat) :
    compareOfLessAndEq (signed negative m) (signed negative n) =
      if negative then (compare m n).swap else compare m n := by
  unfold signed compareOfLessAndEq
  rw [Nat.compare_eq_ite_lt]
  cases negative with
  | false =>
      simp only [Bool.false_eq_true, if_false]
      split_ifs <;> first | rfl | omega
  | true =>
      simp only [if_true]
      split_ifs <;> first | rfl | omega

theorem value_neg (h : l.Canonical) (hnegative : l.negative = true) :
    l.value < 0 := by
  have hmagnitude : 0 < l.magnitude :=
    Nat.pos_of_ne_zero fun hzero => h.sign ⟨hnegative, hzero⟩
  rw [Literal.value, Rat.mkRat_eq_div, hnegative]
  refine div_neg_of_neg_of_pos ?_ (by positivity)
  show ((-(l.magnitude : Int) : Int) : Rat) < 0
  exact_mod_cast Int.neg_neg_of_pos (by omega)

theorem value_nonneg (hnegative : l.negative = false) : 0 ≤ l.value := by
  rw [Literal.value, Rat.mkRat_eq_div, hnegative]
  refine div_nonneg ?_ (by positivity)
  show (0 : Rat) ≤ ((l.magnitude : Int) : Rat)
  exact_mod_cast Int.natCast_nonneg _

theorem cmpDecimal_literal (hl : l.Canonical)
    (hr : r.Canonical) (hleft : l.text = left.toList) (hright : r.text = right.toList) :
    cmpDecimal left right = some (compareOfLessAndEq l.value r.value) := by
  unfold cmpDecimal
  rw [splitSign_literal hleft, splitSign_literal hright]
  dsimp only [Option.bind_eq_bind, Option.bind_some]
  by_cases hsign : l.negative = r.negative
  · rw [if_neg (not_not_intro hsign), cmpMagnitude_literal]
    have hL : l.frac.length ≤ fracWidth l.body r.body := by
      rw [fracWidth, splitOnce_body]
      exact Nat.le_max_left _ _
    have hR : r.frac.length ≤ fracWidth l.body r.body := by
      rw [fracWidth, splitOnce_body, splitOnce_body]
      exact Nat.le_max_right _ _
    rw [value_eq_units hL, value_eq_units hR,
      compareOfLessAndEq_div _ _ (Nat.pow_pos (by decide)), hsign, compareOfLessAndEq_signed]
  · rw [if_pos hsign]
    congr 1
    unfold compareOfLessAndEq
    cases hnegative : l.negative with
    | true =>
        have hother : r.negative = false := by
          cases hr' : r.negative with
          | false => rfl
          | true => exact absurd (hnegative.trans hr'.symm) hsign
        rw [if_pos (lt_of_lt_of_le (value_neg hl hnegative) (value_nonneg hother))]
        rfl
    | false =>
        have hother : r.negative = true := by
          cases hr' : r.negative with
          | true => rfl
          | false => exact absurd (hnegative.trans hr'.symm) hsign
        have hlt := lt_of_lt_of_le (value_neg hr hother) (value_nonneg hnegative)
        rw [if_neg (not_lt_of_gt hlt), if_neg (ne_of_gt hlt)]
        rfl

example : cmpDecimal "-1.5" "-1.50001" = some .gt := by decide +kernel

/-! ### Grids -/

theorem readGrid_literal {text : String} (h : l.text = text.toList) :
    readGrid text = some (signed l.negative l.magnitude, l.frac.length) := by
  have hpoint : (l.int.isEmpty || l.body.contains '.' && l.frac.isEmpty) = false := by
    have hint : l.int.isEmpty = false := List.isEmpty_eq_false_iff.mpr l.int_ne_nil
    rw [hint, Bool.false_or]
    by_cases hfrac : l.frac = []
    · have hcontains : l.body.contains '.' = false := by
        rw [Literal.body, if_pos hfrac, List.append_nil, List.contains_eq_mem,
          decide_eq_false_iff_not]
        exact point_not_mem l.int_digits
      rw [hcontains, Bool.false_and]
    · rw [List.isEmpty_eq_false_iff.mpr hfrac, Bool.and_false]
  unfold readGrid
  rw [splitSign_literal h]
  dsimp only [Option.bind_eq_bind, Option.bind_some]
  rw [splitOnce_body]
  dsimp only
  rw [hpoint]
  rfl

theorem GridOrigin.literal {min : Option String} {origin : Rat} (h : GridOrigin min origin) :
    ∃ l : Literal, l.text = (min.getD "0").toList ∧ l.value = origin := by
  cases min with
  | none =>
      rcases Ridl.Contract.intText_literal 0 with ⟨l, -, hvalue, htext⟩
      refine ⟨l, htext, hvalue.trans ?_⟩
      rw [Rat.zero_mkRat]
      exact h.symm
  | some text =>
      rcases h with ⟨l, -, hvalue, htext⟩
      exact ⟨l, htext, hvalue⟩

theorem rescale_value {scale : Nat} (hscale : l.frac.length ≤ scale) {n : Int}
    (h : rescale scale (signed l.negative l.magnitude, l.frac.length) = some n) :
    l.value = (n : Rat) / (10 ^ scale : Nat) := by
  rcases Option.ite_none_right_eq_some.mp h with ⟨-, heq⟩
  rw [value_eq_units hscale, ← Option.some.inj heq, units, ← Ridl.Contract.signed_mul, Nat.cast_pow]
  rfl

theorem sameGrid_origin {old new : Option String} {step : String} {o o' s : Rat}
    (hold : GridOrigin old o) (hnew : GridOrigin new o') (hstep : Bound step s)
    (h : sameGrid old new step = true) : ∃ k : Int, o - o' = k * s := by
  rcases hold.literal with ⟨l, hl, rfl⟩
  rcases hnew.literal with ⟨l', hl', rfl⟩
  rcases hstep with ⟨l'', -, rfl, hl''⟩
  unfold sameGrid at h
  rw [readGrid_literal hl, readGrid_literal hl', readGrid_literal hl''] at h
  dsimp only at h
  have hscale : l.frac.length ≤ Nat.max (Nat.max l.frac.length l'.frac.length) l''.frac.length :=
    Nat.le_trans (Nat.le_max_left _ _) (Nat.le_max_left _ _)
  have hscale' : l'.frac.length ≤ Nat.max (Nat.max l.frac.length l'.frac.length) l''.frac.length :=
    Nat.le_trans (Nat.le_max_right _ _) (Nat.le_max_left _ _)
  have hscale'' : l''.frac.length ≤
      Nat.max (Nat.max l.frac.length l'.frac.length) l''.frac.length := Nat.le_max_right _ _
  generalize Nat.max (Nat.max l.frac.length l'.frac.length) l''.frac.length = scale at *
  split at h
  · rename_i a b c ha hb hc
    rw [Bool.and_eq_true, beq_iff_eq] at h
    -- The steps between the scaled origins are the steps between the origins.
    rcases Int.dvd_of_tmod_eq_zero h.2 with ⟨k, hk⟩
    refine ⟨k, ?_⟩
    rw [rescale_value hscale ha, rescale_value hscale' hb, rescale_value hscale'' hc, ← sub_div,
      ← Int.cast_sub, hk, Int.cast_mul, mul_comm (c : Rat), mul_div_assoc]
  · cases h

theorem OnGrid.same {old new : Option String} {step : String} {o o' s x : Rat}
    (hold : GridOrigin old o) (hnew : GridOrigin new o') (hstep : Bound step s)
    (h : sameGrid old new step = true) (hx : OnGrid o s x) : OnGrid o' s x := by
  rcases sameGrid_origin hold hnew hstep h with ⟨k, hk⟩
  rcases hx with ⟨j, hj⟩
  refine ⟨j + k, ?_⟩
  calc x - o' = x - o + (o - o') := by ring
    _ = j * s + k * s := by rw [hj, hk]
    _ = (j + k : Int) * s := by rw [Int.cast_add, add_mul]

/-! ### What does not narrow -/

theorem le_of_not_raised {old new : String} {low low' : Rat} (hold : Bound old low)
    (hnew : Bound new low') (h : raised (some old) (some new) = false) : low' ≤ low := by
  rcases hold with ⟨l, hl, rfl, htext⟩
  rcases hnew with ⟨l', hl', rfl, htext'⟩
  replace h : (cmpDecimal new old).all (· == .gt) = false := h
  rw [cmpDecimal_literal hl' hl htext' htext, Option.all_some, beq_eq_false_iff_ne] at h
  by_contra hlt
  refine h ?_
  unfold compareOfLessAndEq
  rw [if_neg (not_lt_of_gt (lt_of_not_ge hlt)), if_neg (ne_of_gt (lt_of_not_ge hlt))]

theorem le_of_not_lowered {old new : String} {high high' : Rat} (hold : Bound old high)
    (hnew : Bound new high') (h : lowered (some old) (some new) = false) : high ≤ high' := by
  rcases hold with ⟨l, hl, rfl, htext⟩
  rcases hnew with ⟨l', hl', rfl, htext'⟩
  replace h : (cmpDecimal new old).all (· == .lt) = false := h
  rw [cmpDecimal_literal hl' hl htext' htext, Option.all_some, beq_eq_false_iff_ne] at h
  by_contra hlt
  refine h ?_
  unfold compareOfLessAndEq
  rw [if_pos (lt_of_not_ge hlt)]

/-- What each facet says where the rule answers that nothing narrows. -/
structure Wider (old new : Constraint) : Prop where
  min : raised old.min new.min = false
  max : lowered old.max new.max = false
  lenMin : raisedU64 old.lenMin new.lenMin = false
  lenMax : loweredU64 old.lenMax new.lenMax = false
  step : ∀ step, new.step = some step → old.step = some step
  grid : ∀ step, new.step = some step → old.min = new.min ∨ sameGrid old.min new.min step = true
  pattern : ∀ pattern, new.pattern = some pattern → old.pattern = some pattern

theorem wider_of_not_narrows {old new : Constraint} (h : narrows (some old) (some new) = false) :
    Wider old new := by
  simp only [narrows, Bool.or_eq_false_iff] at h
  rcases h with ⟨⟨⟨⟨⟨⟨⟨hmin, hmax⟩, hlenMin⟩, hlenMax⟩, hstep⟩, hgrid⟩, hpattern⟩, -⟩
  refine ⟨hmin, hmax, hlenMin, hlenMax, fun step hnew => ?_, fun step hnew => ?_,
    fun pattern hnew => ?_⟩
  · rw [hnew, Option.isSome_some, Bool.true_and, bne_eq_false_iff_eq] at hstep
    exact hstep
  · rw [hnew, Option.any_some, Bool.and_eq_false_iff, bne_eq_false_iff_eq,
      Bool.not_eq_false'] at hgrid
    exact hgrid
  · rw [hnew, Option.isSome_some, Bool.true_and, bne_eq_false_iff_eq] at hpattern
    exact hpattern

theorem Constraint.Canonical.exists_origin {c : Constraint} (h : c.Canonical) :
    ∃ origin, GridOrigin c.min origin := by
  cases hmin : c.min with
  | none => exact ⟨0, rfl⟩
  | some text => exact h.min text hmin

namespace Wider

variable {α : Type} {Matches : String → α → Prop} {old new : Constraint}

theorem number (h : Wider old new) (hold : old.Canonical) {value : Rat}
    (hvalue : Admits Matches old (.number value)) : Admits Matches new (.number value) := by
  rcases hvalue with ⟨hmin, hmax, hgrid⟩
  refine ⟨fun text' low' htext' hlow' => ?_, fun text' high' htext' hhigh' => ?_,
    fun step s origin' hstep hs horigin' => ?_⟩
  · -- A bound that was not there before narrows.
    have hraised := h.min
    rw [htext'] at hraised
    cases htext : old.min with
    | none =>
        rw [htext] at hraised
        cases hraised
    | some text =>
        rw [htext] at hraised
        rcases hold.min text htext with ⟨low, hlow⟩
        exact le_trans (le_of_not_raised hlow hlow' hraised) (hmin text low htext hlow)
  · have hlowered := h.max
    rw [htext'] at hlowered
    cases htext : old.max with
    | none =>
        rw [htext] at hlowered
        cases hlowered
    | some text =>
        rw [htext] at hlowered
        rcases hold.max text htext with ⟨high, hhigh⟩
        exact le_trans (hmax text high htext hhigh) (le_of_not_lowered hhigh hhigh' hlowered)
  · have hstepOld := h.step step hstep
    rcases h.grid step hstep with hsame | hsame
    · exact hgrid step s origin' hstepOld hs (hsame ▸ horigin')
    · rcases hold.exists_origin with ⟨origin, horigin⟩
      exact OnGrid.same horigin horigin' hs hsame (hgrid step s origin hstepOld hs horigin)

theorem sized (h : Wider old new) {length : Nat} {content : α}
    (hvalue : Admits Matches old (.sized length content)) :
    Admits Matches new (.sized length content) := by
  rcases hvalue with ⟨hmin, hmax, hpattern⟩
  refine ⟨fun n hn => ?_, fun n hn => ?_,
    fun pattern hnew => hpattern pattern (h.pattern pattern hnew)⟩
  · have hraised := h.lenMin
    rw [hn] at hraised
    cases hold : old.lenMin with
    | none =>
        rw [hold] at hraised
        cases hraised
    | some m =>
        rw [hold] at hraised
        have hle : ¬ n > m := of_decide_eq_false hraised
        have := hmin m hold
        omega
  · have hlowered := h.lenMax
    rw [hn] at hlowered
    cases hold : old.lenMax with
    | none =>
        rw [hold] at hlowered
        cases hlowered
    | some m =>
        rw [hold] at hlowered
        have hle : ¬ n < m := of_decide_eq_false hlowered
        have := hmax m hold
        omega

end Wider

theorem admitted_of_not_narrows {α : Type} {Matches : String → α → Prop}
    {old new : Option Constraint} (hold : ∀ c, old = some c → c.Canonical)
    (h : narrows old new = false) {value : Value α} (hvalue : AdmittedBy Matches old value) :
    AdmittedBy Matches new value := by
  rintro new' rfl
  cases old with
  | none => cases h
  | some old' =>
      have hwider := wider_of_not_narrows h
      cases value with
      | number value => exact hwider.number (hold old' rfl) (hvalue old' rfl)
      | sized length content => exact hwider.sized (hvalue old' rfl)

/-! ### When a comparison answers -/

/-- The fractions are not compared, or not padded to a width that panics. -/
def Paddable (left right : String) : Prop :=
  ∀ l r : Literal, l.text = left.toList → r.text = right.toList → l.negative = r.negative →
    digitsValue l.int = digitsValue r.int →
      l.frac.length ≤ FORMAT_WIDTH_MAX ∧ r.frac.length ≤ FORMAT_WIDTH_MAX

theorem paddable_literal (hl : l.text = left.toList) (hr : r.text = right.toList) :
    Paddable left right ↔ (l.negative = r.negative → cmpInt l.body r.body = .eq →
      fracWidth l.body r.body ≤ FORMAT_WIDTH_MAX) := by
  rw [cmpInt_literal, Nat.compare_eq_eq, fracWidth, splitOnce_body, splitOnce_body, Nat.max_le]
  refine ⟨fun h => h l r hl hr, fun h l' r' hl' hr' => ?_⟩
  -- The text of a literal has its sign and its digits.
  have hleft := (splitSign_literal hl).symm.trans (splitSign_literal hl')
  have hright := (splitSign_literal hr).symm.trans (splitSign_literal hr')
  simp only [Option.some.injEq, Prod.mk.injEq] at hleft hright
  have hlparts := splitOnce_body l'
  have hrparts := splitOnce_body r'
  rw [← hleft.2, splitOnce_body, Prod.mk.injEq] at hlparts
  rw [← hright.2, splitOnce_body, Prod.mk.injEq] at hrparts
  rw [← hleft.1, ← hright.1, ← hlparts.1, ← hrparts.1, ← hlparts.2, ← hrparts.2]
  exact h

theorem checkedCmpDecimal_literal (hl : l.text = left.toList) (hr : r.text = right.toList) :
    checkedCmpDecimal left right = .error .width ↔ ¬ Paddable left right := by
  rw [paddable_literal hl hr, checkedCmpDecimal, splitSign_literal hl, splitSign_literal hr]
  dsimp only
  by_cases hsign : l.negative = r.negative
  · rw [if_neg (not_not_intro hsign), checkedCmpMagnitude_eq]
    by_cases hpanic : cmpInt l.body r.body = .eq ∧ FORMAT_WIDTH_MAX < fracWidth l.body r.body
    · rw [if_pos hpanic]
      exact iff_of_true rfl fun h => Nat.not_lt.mpr (h hsign hpanic.1) hpanic.2
    · rw [if_neg hpanic]
      refine iff_of_false (fun h => nomatch h) (not_not_intro fun _ hint => ?_)
      exact Nat.le_of_not_lt fun hwide => hpanic ⟨hint, hwide⟩
  · rw [if_pos hsign]
    exact iff_of_false (fun h => nomatch h) (not_not_intro fun h => absurd h hsign)

theorem answers_iff {v w : Rat} (hleft : Bound left v) (hright : Bound right w) :
    checkedCmpDecimal left right = .ok (some (compareOfLessAndEq v w)) ↔ Paddable left right := by
  rcases hleft with ⟨l, hl, rfl, hltext⟩
  rcases hright with ⟨r, hr, rfl, hrtext⟩
  rw [← cmpDecimal_literal hl hr hltext hrtext]
  constructor
  · intro h
    by_contra hpad
    rw [(checkedCmpDecimal_literal hltext hrtext).mpr hpad] at h
    cases h
  · intro hpad
    cases hchecked : checkedCmpDecimal left right with
    | ok order => rw [answers_cmpDecimal left right order hchecked]
    | error e =>
        cases e
        exact absurd hpad ((checkedCmpDecimal_literal hltext hrtext).mp hchecked)

/-- Widening is sound: what the rule answers not to narrow admits every value that
    was admitted. Decimals are ordered as their values if and only if the fractions
    can be padded, and points of a grid are points of every grid called the same. -/
theorem constraint_widening {α : Type} (Matches : String → α → Prop)
    (old new : Option Constraint) (value : Value α) (left right : String) (v w : Rat)
    (oldMin newMin : Option String) (step : String) (o o' s x : Rat) :
    ((∀ c, old = some c → c.Canonical) → (∀ c, new = some c → c.Canonical) →
        checkedNarrows old new = .ok false → AdmittedBy Matches old value →
          AdmittedBy Matches new value) ∧
      (Bound left v → Bound right w →
        (checkedCmpDecimal left right = .ok (some (compareOfLessAndEq v w)) ↔
          Paddable left right)) ∧
      (GridOrigin oldMin o → GridOrigin newMin o' → Bound step s →
        sameGrid oldMin newMin step = true → OnGrid o s x → OnGrid o' s x) := by
  refine ⟨fun hold _ h hvalue => ?_, answers_iff, fun ho ho' hs => OnGrid.same ho ho' hs⟩
  exact admitted_of_not_narrows hold (answers_narrows old new false h).symm hvalue

/-- A small fraction with one digit more than a format argument can count. -/
def tiny : Literal where
  negative := false
  int := ['0']
  frac := List.replicate FORMAT_WIDTH_MAX '0' ++ ['1']
  int_ne_nil := Contract.zero_ne_nil
  int_digits := Contract.isDigits_zero
  frac_digits := Contract.isDigits_small _

/-- Comparing the fraction with itself panics. -/
theorem tiny_panics : Bound (String.ofList tiny.text) tiny.value ∧
    checkedCmpDecimal (String.ofList tiny.text) (String.ofList tiny.text) = .error .width := by
  have htext : tiny.text = (String.ofList tiny.text).toList := (String.toList_ofList).symm
  have hcanonical : tiny.Canonical := by
    refine ⟨.inl rfl, ?_, fun h => nomatch h.1⟩
    show (List.replicate FORMAT_WIDTH_MAX '0' ++ ['1']).getLast? ≠ some '0'
    rw [List.getLast?_append_of_ne_nil _ (List.cons_ne_nil _ _)]
    decide
  refine ⟨⟨tiny, hcanonical, rfl, htext⟩, ?_⟩
  rw [checkedCmpDecimal_literal htext htext]
  intro h
  have hlength : tiny.frac.length = FORMAT_WIDTH_MAX + 1 := by
    show (List.replicate FORMAT_WIDTH_MAX '0' ++ ['1']).length = _
    rw [List.length_append, List.length_replicate, List.length_singleton]
  have hle := (h tiny tiny htext htext rfl rfl).1
  omega

end Diff

end Ridl
