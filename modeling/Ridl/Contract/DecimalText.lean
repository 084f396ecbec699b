import Ridl.Contract.Scalar
import Ridl.Library.Digits
import Mathlib.Data.Nat.Factorization.Basic
import Mathlib.Data.Rat.Lemmas
import Mathlib.Tactic.Linarith
import Mathlib.Tactic.Positivity
import Mathlib.Tactic.Ring

/-!
# The Text of an Exact Scalar

An exact value is written as a decimal text when it has one. How many digits stand
after the point is counted from the factors of the denominator, the value is
scaled by that power of ten, and the digits are cut at the point.

What can be read is described by `Literal`: a sign, digits and digits after a
point, the value of which is stated over the rationals. A literal is canonical when
it has no superfluous zero on either side and is not a negative zero. A value has
at most one canonical text (`canonical_unique`), and no text of it is shorter
(`canonical_shortest`).

Both directions count digits in 32 bits, as a release build does: reading casts the
count of the digits after the point, and writing counts the factors.

## Main definitions

* `toDecimalString`: The text of a value.
* `Literal.Canonical`, `IsCanonicalText`: The one text of a value.

## Theorems

* `exists_literal`: Every text that is read is a literal.
* `canonical_unique`, `canonical_shortest`: The canonical text of a value.
* `toDecimalString_canonical`: A value is written in its canonical text.
* `exact_scalar_text`: When reading and writing are exact.
-/

namespace Ridl

namespace Contract

open Library (Text IsDigits Plain)

/-! ### Writing -/

/-- A factor taken out of a number until it divides no more, and how often it
    did. The number bounds the rounds, and the count wraps at 32 bits. -/
def takeOut (p : Nat) : Nat → Nat → Nat → Nat × Nat
  | 0, remaining, count => (remaining, count)
  | rounds + 1, remaining, count =>
      if remaining % p = 0 then takeOut p rounds (remaining / p) ((count + 1) % U32_COUNT)
      else (remaining, count)

/-- How many digits stand after the point in the expansion of a fraction with this
    denominator, if it ends. -/
def terminatingDecimalPlaces (denom : Nat) : Option Nat :=
  let (remaining, twos) := takeOut 2 denom denom 0
  let (remaining, fives) := takeOut 5 remaining remaining 0
  if remaining = 1 then some (max twos fives) else none

/-- The minus sign of a negative number. -/
def sign (negative : Bool) : Text := if negative then ['-'] else []

/-- The text of an integer. -/
def intText (n : Int) : Text := sign (decide (n < 0)) ++ Nat.toDigits 10 n.natAbs

/-- At least one digit more than there are places. -/
def padded (digits : Text) (places : Nat) : Text :=
  if digits.length ≤ places then List.replicate (places + 1 - digits.length) '0' ++ digits
  else digits

/-- A value as text, given the value times the power of ten of the places. -/
def formatScaledDecimal (scaled : Int) (places : Nat) : Text :=
  let digits := padded (Nat.toDigits 10 scaled.natAbs) places
  let split := digits.length - places
  sign (decide (scaled < 0)) ++ digits.take split ++ '.' :: digits.drop split

/-- The text of a value. A value without a decimal text is written as a fraction. -/
def ExactValue.toDecimalString (value : ExactValue) : Text :=
  if value.den = 1 then intText value.num
  else
    match terminatingDecimalPlaces value.den with
    | some places => formatScaledDecimal ((value.num * pow10 places).tdiv value.den) places
    | none => intText value.num ++ '/' :: Nat.toDigits 10 value.den

theorem pow10_eq (exp : Nat) : pow10 exp = 10 ^ exp := by
  show Nat.ofDigitChars 10 (['1'] ++ List.replicate exp '0') 0 = 10 ^ exp
  rw [Library.ofDigitChars_append, List.length_replicate, Nat.ofDigitChars_replicate_zero]
  exact Nat.mul_one _

theorem takeOut_pow {p m : Nat} (hp : 0 < p) (hm : ¬ p ∣ m) {a rounds : Nat} (ha : a ≤ rounds)
    (count : Nat) :
    takeOut p rounds (p ^ a * m) (count % U32_COUNT) = (m, (count + a) % U32_COUNT) := by
  induction a generalizing rounds count with
  | zero =>
      rw [pow_zero, Nat.one_mul, Nat.add_zero]
      cases rounds with
      | zero => rfl
      | succ rounds => exact if_neg fun h => hm (Nat.dvd_of_mod_eq_zero h)
  | succ a ih =>
      rcases rounds with _ | rounds
      · omega
      have hfactor : p ^ (a + 1) * m = p * (p ^ a * m) := by ring
      rw [hfactor, takeOut, if_pos (Nat.mul_mod_right p _), Nat.mul_div_cancel_left _ hp,
        Nat.mod_add_mod, ih (by omega), Nat.add_right_comm, Nat.add_assoc]

theorem terminatingDecimalPlaces_eq {a b : Nat} (ha : a < U32_COUNT) (hb : b < U32_COUNT) :
    terminatingDecimalPlaces (2 ^ a * 5 ^ b) = some (max a b) := by
  have htwo : ¬ 2 ∣ 5 ^ b := fun h => by
    have := Nat.prime_two.dvd_of_dvd_pow h
    omega
  have hrounds : a ≤ 2 ^ a * 5 ^ b :=
    Nat.le_trans (Nat.le_of_lt Nat.lt_two_pow_self) (Nat.le_mul_of_pos_right _ (by positivity))
  have hfives : b ≤ 5 ^ b := Nat.le_of_lt (Nat.lt_pow_self (by decide))
  have htwos := takeOut_pow (by decide) htwo hrounds 0
  have hrest := takeOut_pow (p := 5) (m := 1) (by decide) (by decide) hfives 0
  rw [Nat.zero_mod, Nat.zero_add, Nat.mod_eq_of_lt ha] at htwos
  rw [Nat.zero_mod, Nat.zero_add, Nat.mod_eq_of_lt hb, Nat.mul_one] at hrest
  simp only [terminatingDecimalPlaces, htwos, hrest, if_true]

/-! ### Texts that are read -/

/-- A sign, digits, and digits after a point if there are any. -/
structure Literal where
  negative : Bool
  int : Text
  frac : Text
  int_ne_nil : int ≠ []
  int_digits : IsDigits int
  frac_digits : IsDigits frac

/-- A number with its sign. -/
def signed (negative : Bool) (n : Nat) : Int := if negative then -n else n

@[simp] theorem natAbs_signed (negative : Bool) (n : Nat) : (signed negative n).natAbs = n := by
  unfold signed
  split_ifs
  · rw [Int.natAbs_neg, Int.natAbs_natCast]
  · rw [Int.natAbs_natCast]

theorem signed_natAbs (n : Int) : signed (decide (n < 0)) n.natAbs = n := by
  unfold signed
  split_ifs with h
  · rw [decide_eq_true_eq] at h
    omega
  · rw [decide_eq_true_eq] at h
    omega

theorem signed_mul (negative : Bool) (n k : Nat) :
    signed negative n * k = signed negative (n * k) := by
  unfold signed
  split_ifs
  · rw [Nat.cast_mul, Int.neg_mul]
  · rw [Nat.cast_mul]

theorem signed_inj {negative negative' : Bool} {m n : Nat} (hm : m ≠ 0)
    (h : signed negative m = signed negative' n) : negative = negative' := by
  unfold signed at h
  cases negative <;> cases negative' <;> simp only [if_true, if_false, Bool.false_eq_true] at h <;>
    first | rfl | omega

namespace Literal

variable {l l' : Literal}

/-- The text after the sign. -/
def body (l : Literal) : Text := l.int ++ if l.frac = [] then [] else '.' :: l.frac

def text (l : Literal) : Text := sign l.negative ++ l.body

/-- The number that all the digits spell. -/
def magnitude (l : Literal) : Nat := digitsValue (l.int ++ l.frac)

def value (l : Literal) : ExactValue :=
  mkRat (signed l.negative l.magnitude) (10 ^ l.frac.length)

theorem digits (l : Literal) : IsDigits (l.int ++ l.frac) :=
  Library.isDigits_append.mpr ⟨l.int_digits, l.frac_digits⟩

theorem isNumber (l : Literal) : IsInteger l.body ∨ IsDecimal l.body := by
  unfold body
  split_ifs with hfrac
  · rw [List.append_nil]
    exact .inl ⟨l.int_ne_nil, l.int_digits⟩
  · exact .inr ⟨l.int, l.frac, ⟨l.int_ne_nil, l.int_digits⟩, ⟨hfrac, l.frac_digits⟩, rfl⟩

theorem parseBody (l : Literal) : ExactValue.parseBody l.body =
    some (mkRat l.magnitude (10 ^ (l.frac.length % U32_COUNT))) := by
  unfold body magnitude
  split_ifs with hfrac
  · have hint : IsInteger l.int := ⟨l.int_ne_nil, l.int_digits⟩
    rw [hfrac, List.append_nil, hint.parseBody, List.length_nil, Nat.zero_mod, pow_zero]
  · rw [IsDecimal.parseBody ⟨l.int_ne_nil, l.int_digits⟩ ⟨hfrac, l.frac_digits⟩, pow10_eq]

theorem parse_literal (l : Literal) : ExactValue.parse l.text =
    some (mkRat (signed l.negative l.magnitude) (10 ^ (l.frac.length % U32_COUNT))) := by
  have hbody := l.parseBody
  unfold text sign signed
  cases l.negative with
  | false =>
      simp only [Bool.false_eq_true, if_false, List.nil_append]
      rw [parse_eq_parseBody l.isNumber, hbody]
  | true =>
      simp only [if_true, List.singleton_append, ExactValue.parse]
      rw [hbody, Option.map_some, Rat.neg_mkRat]

end Literal

theorem exists_body {body : Text} {value : ExactValue}
    (h : ExactValue.parseBody body = some value) (negative : Bool) :
    ∃ l : Literal, l.negative = negative ∧ l.body = body := by
  unfold ExactValue.parseBody at h
  by_cases hdot : '.' ∈ body
  · rcases List.eq_append_cons_of_mem hdot with ⟨int, frac, rfl, hfirst⟩
    rw [splitOnce_append hfirst, Option.getD_some] at h
    dsimp only at h
    split_ifs at h with hint hfrac hintDigits hfracDigits
    rw [Bool.not_eq_false, List.all_eq_true] at hintDigits hfracDigits
    have hne := fun hnil => hfrac ⟨hdot, hnil⟩
    exact ⟨⟨negative, int, frac, hint, hintDigits, hfracDigits⟩, rfl,
      congrArg (int ++ ·) (if_neg hne)⟩
  · rw [splitOnce_of_not_mem hdot, Option.getD_none] at h
    dsimp only at h
    split_ifs at h with hint hfrac hintDigits hfracDigits
    rw [Bool.not_eq_false, List.all_eq_true] at hintDigits
    exact ⟨⟨negative, body, [], hint, hintDigits, List.forall_mem_nil _⟩, rfl,
      List.append_nil body⟩

theorem exists_literal {text : Text} {value : ExactValue} (h : ExactValue.parse text = some value) :
    ∃ l : Literal, l.text = text := by
  unfold ExactValue.parse at h
  split at h
  · rename_i rest
    rcases Option.map_eq_some_iff.mp h with ⟨value', hvalue, -⟩
    rcases exists_body hvalue true with ⟨l, hsign, hbody⟩
    exact ⟨l, by rw [Literal.text, hsign, hbody]; rfl⟩
  · rcases exists_body h false with ⟨l, hsign, hbody⟩
    exact ⟨l, by rw [Literal.text, hsign, hbody]; rfl⟩

/-! ### The canonical text -/

namespace Literal

variable {l l' : Literal}

/-- No superfluous zero on either side of the point, no point without digits, and
    no negative zero. -/
structure Canonical (l : Literal) : Prop where
  int : l.int = ['0'] ∨ l.int.head? ≠ some '0'
  frac : l.frac.getLast? ≠ some '0'
  sign : ¬ (l.negative = true ∧ l.magnitude = 0)

theorem Canonical.plain (h : l.Canonical) : Plain l.int := ⟨l.int_ne_nil, l.int_digits, h.int⟩

theorem Canonical.not_dvd (h : l.Canonical) (hfrac : l.frac ≠ []) : ¬ 10 ∣ l.magnitude := by
  rcases List.eq_nil_or_concat l.frac with hnil | ⟨front, c, heq⟩
  · exact absurd hnil hfrac
  rw [List.concat_eq_append] at heq
  have hc : c.isDigit = true := l.frac_digits c (by rw [heq]; simp)
  have hlt := Library.toNat_sub_lt hc
  have hmagnitude : l.magnitude =
      10 * Nat.ofDigitChars 10 (l.int ++ front) 0 + (c.toNat - '0'.toNat) := by
    show Nat.ofDigitChars 10 (l.int ++ l.frac) 0 = _
    rw [heq, ← List.append_assoc, Library.ofDigitChars_concat]
  intro hdvd
  have hzero : c = '0' := Library.digit_inj hc rfl (by
    rw [Nat.sub_self]
    omega)
  refine h.frac ?_
  rw [heq, hzero, List.getLast?_append_of_ne_nil _ (List.cons_ne_nil _ _), List.getLast?_singleton]

theorem cross_of_value_eq (h : l.value = l'.value) :
    l.magnitude * 10 ^ l'.frac.length = l'.magnitude * 10 ^ l.frac.length ∧
      (l.magnitude ≠ 0 → l.negative = l'.negative) := by
  have hpos : ∀ n, (10 ^ n : Nat) ≠ 0 := fun n => Nat.ne_of_gt (Nat.pow_pos (by decide))
  rw [value, value, Rat.mkRat_eq_iff (hpos _) (hpos _), signed_mul, signed_mul] at h
  refine ⟨?_, fun hne => signed_inj (Nat.mul_ne_zero hne (hpos _)) h⟩
  rw [← natAbs_signed l.negative (l.magnitude * _), h, natAbs_signed]

/-- A canonical literal has no more digits after the point than another one of its
    value. -/
theorem Canonical.length_frac_le (h : l.Canonical) {m n : Nat}
    (hcross : l.magnitude * 10 ^ n = m * 10 ^ l.frac.length) : l.frac.length ≤ n := by
  by_contra hlt
  have hfrac : l.frac ≠ [] := by
    intro hnil
    rw [hnil] at hlt
    exact hlt (Nat.zero_le n)
  -- The power on the right would leave a factor of ten to the digits.
  rcases Nat.exists_eq_add_of_lt (Nat.lt_of_not_le hlt) with ⟨k, hk⟩
  have hsplit : m * 10 ^ l.frac.length = 10 * (m * 10 ^ k) * 10 ^ n := by
    rw [hk]
    ring
  rw [hsplit] at hcross
  have hmagnitude := Nat.eq_of_mul_eq_mul_right (Nat.pow_pos (by decide)) hcross
  exact h.not_dvd hfrac (hmagnitude ▸ Nat.dvd_mul_right 10 _)

theorem magnitude_div (l : Literal) : l.magnitude / 10 ^ l.frac.length = digitsValue l.int :=
  Library.ofDigitChars_div l.frac_digits

theorem magnitude_mod (l : Literal) : l.magnitude % 10 ^ l.frac.length = digitsValue l.frac :=
  Library.ofDigitChars_mod l.frac_digits

/-- The digits before the point spell the whole part, which is the same for every
    literal of the value. -/
theorem digitsValue_int_eq
    (hcross : l.magnitude * 10 ^ l'.frac.length = l'.magnitude * 10 ^ l.frac.length) :
    digitsValue l.int = digitsValue l'.int := by
  have hpos : ∀ n, 0 < (10 ^ n : Nat) := fun n => Nat.pow_pos (by decide)
  rw [← l.magnitude_div, ← l'.magnitude_div,
    ← Nat.mul_div_mul_right l.magnitude (10 ^ l.frac.length) (hpos l'.frac.length), hcross,
    Nat.mul_comm (10 ^ l.frac.length), Nat.mul_div_mul_right _ _ (hpos l.frac.length)]

end Literal

def IsCanonicalText (value : ExactValue) (text : Text) : Prop :=
  ∃ l : Literal, l.Canonical ∧ l.value = value ∧ l.text = text

theorem canonical_unique {l l' : Literal} (h : l.Canonical) (h' : l'.Canonical)
    (hvalue : l.value = l'.value) : l.text = l'.text := by
  rcases Literal.cross_of_value_eq hvalue with ⟨hcross, hsign⟩
  have hlen : l.frac.length = l'.frac.length :=
    Nat.le_antisymm (h.length_frac_le hcross) (h'.length_frac_le hcross.symm)
  have hmagnitude : l.magnitude = l'.magnitude := by
    rw [hlen] at hcross
    exact Nat.eq_of_mul_eq_mul_right (Nat.pow_pos (by decide)) hcross
  have hint : l.int = l'.int := by
    have heq := Literal.digitsValue_int_eq hcross
    rw [← Library.toDigits_ofDigitChars h.plain, ← Library.toDigits_ofDigitChars h'.plain]
    exact congrArg (Nat.toDigits 10) heq
  have hfrac : l.frac = l'.frac := by
    refine Library.ofDigitChars_inj l.frac_digits l'.frac_digits hlen ?_
    have hmod := l.magnitude_mod
    rw [hmagnitude, hlen, l'.magnitude_mod] at hmod
    exact hmod.symm
  have hnegative : l.negative = l'.negative := by
    by_cases hzero : l.magnitude = 0
    · rw [Bool.eq_false_iff.mpr fun hn => h.sign ⟨hn, hzero⟩,
        Bool.eq_false_iff.mpr fun hn => h'.sign ⟨hn, hmagnitude ▸ hzero⟩]
    · exact hsign hzero
  rw [Literal.text, Literal.text, Literal.body, Literal.body, hnegative, hint, hfrac]

theorem length_sign_le {negative negative' : Bool} (h : negative = true → negative' = true) :
    (sign negative).length ≤ (sign negative').length := by
  cases negative with
  | false => exact Nat.zero_le _
  | true => rw [h rfl]

theorem canonical_shortest {l l' : Literal} (h : l.Canonical) (hvalue : l.value = l'.value) :
    l.text.length ≤ l'.text.length := by
  rcases Literal.cross_of_value_eq hvalue with ⟨hcross, hsign⟩
  have hfrac := h.length_frac_le hcross
  have hint : l.int.length ≤ l'.int.length := by
    rw [← Library.toDigits_ofDigitChars h.plain]
    have heq : Nat.ofDigitChars 10 l.int 0 = Nat.ofDigitChars 10 l'.int 0 :=
      Literal.digitsValue_int_eq hcross
    rw [heq]
    exact Library.length_toDigits_le l'.int_digits l'.int_ne_nil
  have hminus : (sign l.negative).length ≤ (sign l'.negative).length := by
    refine length_sign_le fun hnegative => ?_
    rw [← hsign fun hzero => h.sign ⟨hnegative, hzero⟩]
    exact hnegative
  have hpoint : (if l.frac = [] then [] else '.' :: l.frac).length ≤
      (if l'.frac = [] then [] else '.' :: l'.frac).length := by
    split_ifs with hnil hnil' hnil'
    · exact Nat.le_refl _
    · exact Nat.zero_le _
    · rw [hnil', List.length_nil, Nat.le_zero, List.length_eq_zero_iff] at hfrac
      exact absurd hfrac hnil
    · rw [List.length_cons, List.length_cons]
      omega
  rw [Literal.text, Literal.text, Literal.body, Literal.body]
  simp only [List.length_append]
  omega

/-! ### A value is written in its canonical text -/

theorem intText_literal (n : Int) :
    ∃ l : Literal, l.Canonical ∧ l.value = mkRat n 1 ∧ l.text = intText n := by
  have hplain := Library.plain_toDigits n.natAbs
  let l : Literal := ⟨decide (n < 0), Nat.toDigits 10 n.natAbs, [], hplain.1, hplain.2.1,
    List.forall_mem_nil _⟩
  have hmagnitude : l.magnitude = n.natAbs := by
    show Nat.ofDigitChars 10 (Nat.toDigits 10 n.natAbs ++ []) 0 = n.natAbs
    rw [List.append_nil, Nat.ofDigitChars_ten_toDigits]
  refine ⟨l, ⟨hplain.2.2, by simp [l], ?_⟩, ?_, ?_⟩
  · rintro ⟨hnegative, hzero⟩
    have hneg : n < 0 := of_decide_eq_true hnegative
    omega
  · rw [Literal.value, hmagnitude]
    exact congrArg (mkRat · 1) (signed_natAbs n)
  · show sign _ ++ (_ ++ []) = _
    rw [List.append_nil, intText]

theorem ofDigitChars_padded (n places : Nat) :
    Nat.ofDigitChars 10 (padded (Nat.toDigits 10 n) places) 0 = n := by
  unfold padded
  split_ifs
  · rw [Library.ofDigitChars_zeros, Nat.ofDigitChars_ten_toDigits]
  · exact Nat.ofDigitChars_ten_toDigits

theorem isDigits_padded {digits : Text} (h : IsDigits digits) (places : Nat) :
    IsDigits (padded digits places) := by
  unfold padded
  split_ifs
  · exact Library.isDigits_append.mpr ⟨Library.isDigits_replicate _, h⟩
  · exact h

theorem length_padded (digits : Text) (places : Nat) :
    places < (padded digits places).length := by
  unfold padded
  split_ifs with h
  · rw [List.length_append, List.length_replicate]
    omega
  · omega

/-- What is padded has a single zero before the point, and what is not has the
    leading digits of the number. -/
theorem plain_take_padded (n places : Nat) :
    Plain ((padded (Nat.toDigits 10 n) places).take
      ((padded (Nat.toDigits 10 n) places).length - places)) := by
  have hplain := Library.plain_toDigits n
  unfold padded
  split_ifs with h
  · have hcount : (List.replicate (places + 1 - (Nat.toDigits 10 n).length) '0' ++
        Nat.toDigits 10 n).length - places = 1 := by
      rw [List.length_append, List.length_replicate]
      omega
    rw [hcount]
    have hpad : places + 1 - (Nat.toDigits 10 n).length =
        places - (Nat.toDigits 10 n).length + 1 := by omega
    rw [hpad, List.replicate_succ, List.cons_append, List.take_succ_cons, List.take_zero]
    exact ⟨List.cons_ne_nil _ _, Library.isDigits_replicate 1, .inl rfl⟩
  · have hsplit := List.take_append_drop ((Nat.toDigits 10 n).length - places) (Nat.toDigits 10 n)
    rw [← hsplit] at hplain
    refine hplain.front fun hnil => ?_
    have hlen := congrArg List.length hnil
    rw [List.length_take, List.length_nil] at hlen
    omega

/-- The value times a power of ten is cut at the point. -/
theorem formatScaledDecimal_literal {scaled : Int} {places : Nat} (hplaces : 0 < places)
    (hlast : ¬ 10 ∣ scaled.natAbs) :
    ∃ l : Literal, l.Canonical ∧ l.value = mkRat scaled (10 ^ places) ∧
      l.text = formatScaledDecimal scaled places := by
  have hplain := plain_take_padded scaled.natAbs places
  have hlength := length_padded (Nat.toDigits 10 scaled.natAbs) places
  have hnumber := ofDigitChars_padded scaled.natAbs places
  have hdigits := isDigits_padded (Library.isDigits_toDigits scaled.natAbs) places
  unfold formatScaledDecimal
  generalize padded (Nat.toDigits 10 scaled.natAbs) places = digits at *
  have hcut := List.take_append_drop (digits.length - places) digits
  have hfracDigits : IsDigits (digits.drop (digits.length - places)) :=
    fun c hc => hdigits c (List.mem_of_mem_drop hc)
  have hfracLength : (digits.drop (digits.length - places)).length = places := by
    rw [List.length_drop]
    omega
  have hfrac : digits.drop (digits.length - places) ≠ [] := fun hnil => by
    rw [hnil, List.length_nil] at hfracLength
    omega
  let l : Literal := ⟨decide (scaled < 0), digits.take (digits.length - places),
    digits.drop (digits.length - places), hplain.1, hplain.2.1, hfracDigits⟩
  have hmagnitude : l.magnitude = scaled.natAbs := by
    show Nat.ofDigitChars 10 (digits.take _ ++ digits.drop _) 0 = _
    rw [hcut, hnumber]
  refine ⟨l, ⟨hplain.2.2, fun hzero => ?_, ?_⟩, ?_, ?_⟩
  · -- A last digit zero is a factor of ten.
    rcases List.getLast?_eq_some_iff.mp hzero with ⟨front, heq⟩
    refine hlast ⟨Nat.ofDigitChars 10 (l.int ++ front) 0, ?_⟩
    rw [← hmagnitude]
    show Nat.ofDigitChars 10 (l.int ++ l.frac) 0 = _
    rw [heq, ← List.append_assoc, Library.ofDigitChars_concat, Nat.sub_self, Nat.add_zero]
  · rintro ⟨hnegative, hzero⟩
    have hneg : scaled < 0 := of_decide_eq_true hnegative
    omega
  · rw [Literal.value, hmagnitude]
    show mkRat (signed _ _) (10 ^ (digits.drop _).length) = _
    rw [hfracLength, signed_natAbs]
  · show sign _ ++ (_ ++ if digits.drop _ = [] then [] else '.' :: digits.drop _) = _
    rw [if_neg hfrac, List.append_assoc]

/-- The places of a denominator are what its powers of two and five lack to a power
    of ten, and no fewer places do. -/
theorem scaled_places {num : Int} {a b : Nat} (hred : num.natAbs.Coprime (2 ^ a * 5 ^ b))
    (hpos : 0 < max a b) :
    ∃ scaled : Int, num * (10 ^ max a b : Nat) = scaled * (2 ^ a * 5 ^ b : Nat) ∧
      ¬ 10 ∣ scaled.natAbs := by
  refine ⟨num * (2 ^ (max a b - a) * 5 ^ (max a b - b) : Nat), ?_, ?_⟩
  · have hten : (10 ^ max a b : Nat) =
        2 ^ (max a b - a) * 5 ^ (max a b - b) * (2 ^ a * 5 ^ b) := by
      have htwo : (2 ^ max a b : Nat) = 2 ^ (max a b - a) * 2 ^ a := by
        rw [← pow_add, Nat.sub_add_cancel (Nat.le_max_left a b)]
      have hfive : (5 ^ max a b : Nat) = 5 ^ (max a b - b) * 5 ^ b := by
        rw [← pow_add, Nat.sub_add_cancel (Nat.le_max_right a b)]
      rw [show (10 : Nat) = 2 * 5 from rfl, Nat.mul_pow, htwo, hfive]
      ring
    rw [hten, Nat.cast_mul, Int.mul_assoc]
  · rw [Int.natAbs_mul, Int.natAbs_natCast]
    intro hdvd
    -- The larger exponent is the one of a prime that nothing is added to.
    by_cases hle : b ≤ a
    · rw [Nat.max_eq_left hle, Nat.sub_self, pow_zero, Nat.one_mul] at hdvd
      rw [Nat.max_eq_left hle] at hpos
      have htwo : 2 ∣ num.natAbs * 5 ^ (a - b) := Nat.dvd_trans ⟨5, rfl⟩ hdvd
      rcases (Nat.Prime.dvd_mul Nat.prime_two).mp htwo with hnum | hfive
      · have hden : 2 ∣ 2 ^ a * 5 ^ b := Nat.dvd_mul_right_of_dvd (dvd_pow_self 2 (by omega)) _
        exact absurd (Nat.dvd_gcd hnum hden) (by rw [hred]; decide)
      · have := Nat.prime_two.dvd_of_dvd_pow hfive
        omega
    · have hmax : max a b = b := Nat.max_eq_right (by omega)
      rw [hmax, Nat.sub_self, pow_zero, Nat.mul_one] at hdvd
      have hfive : 5 ∣ num.natAbs * 2 ^ (b - a) := Nat.dvd_trans ⟨2, rfl⟩ hdvd
      rcases (Nat.Prime.dvd_mul Nat.prime_five).mp hfive with hnum | htwo
      · have hden : 5 ∣ 2 ^ a * 5 ^ b := Nat.dvd_mul_left_of_dvd (dvd_pow_self 5 (by omega)) _
        exact absurd (Nat.dvd_gcd hnum hden) (by rw [hred]; decide)
      · have := Nat.prime_five.dvd_of_dvd_pow htwo
        omega

theorem toDecimalString_canonical {value : ExactValue} {a b : Nat}
    (hden : value.den = 2 ^ a * 5 ^ b) (ha : a < U32_COUNT) (hb : b < U32_COUNT) :
    IsCanonicalText value value.toDecimalString := by
  unfold ExactValue.toDecimalString
  split_ifs with hone
  · rcases intText_literal value.num with ⟨l, hcanonical, hvalue, htext⟩
    refine ⟨l, hcanonical, hvalue.trans ?_, htext⟩
    rw [← hone, Rat.mkRat_self]
  · have hpos : 0 < max a b := by
      rw [hden] at hone
      refine Nat.pos_of_ne_zero fun hzero => hone ?_
      have hab : a = 0 ∧ b = 0 := by omega
      rw [hab.1, hab.2]
      rfl
    have hred := value.reduced
    rw [hden] at hred
    rcases scaled_places hred hpos with ⟨scaled, hscaled, hlast⟩
    have hdenPos : value.den ≠ 0 := value.den_nz
    have hquotient : (value.num * pow10 (max a b)).tdiv value.den = scaled := by
      rw [pow10_eq, hscaled, ← hden, Int.mul_tdiv_cancel _ (by exact_mod_cast hdenPos)]
    rw [hden, terminatingDecimalPlaces_eq ha hb, ← hden]
    dsimp only
    rw [hquotient]
    rcases formatScaledDecimal_literal hpos hlast with ⟨l, hcanonical, hvalue, htext⟩
    refine ⟨l, hcanonical, hvalue.trans ?_, htext⟩
    have hself : mkRat scaled (10 ^ max a b) = mkRat value.num value.den := by
      rw [Rat.mkRat_eq_iff (Nat.ne_of_gt (Nat.pow_pos (by decide))) hdenPos, hden, hscaled]
    rw [hself, Rat.mkRat_self]

/-! ### Reading and writing are exact -/

/-- The denominator has no prime factors but two and five. -/
def Terminating (value : ExactValue) : Prop := ∀ p, p.Prime → p ∣ value.den → p = 2 ∨ p = 5

/-- The digits of the value after the point are counted in 32 bits. -/
def FewPlaces (value : ExactValue) : Prop := ∃ n, n < U32_COUNT ∧ value.den ∣ 10 ^ n

/-- The digits of the literal after the point are counted in 32 bits, or there is
    nothing to scale. -/
def Literal.Counted (l : Literal) : Prop := l.frac.length < U32_COUNT ∨ l.magnitude = 0

/-- The text of the value is the canonical one, the shortest one, and is read as the
    value. -/
structure Rendered (value : ExactValue) : Prop where
  canonical : IsCanonicalText value value.toDecimalString
  shortest : ∀ l : Literal, l.value = value → value.toDecimalString.length ≤ l.text.length
  parse : ExactValue.parse value.toDecimalString = some value

/-- The literal is read as its exact value, which is written in its canonical
    text. -/
def ReadExactly (l : Literal) : Prop :=
  ∃ value, ExactValue.parse l.text = some value ∧ value = l.value ∧
    IsCanonicalText l.value value.toDecimalString

theorem exists_exponents {d n : Nat} (h : d ∣ 10 ^ n) :
    ∃ a b, d = 2 ^ a * 5 ^ b ∧ a ≤ n ∧ b ≤ n := by
  rw [show (10 : Nat) = 2 * 5 from rfl, Nat.mul_pow] at h
  rcases Nat.dvd_mul.mp h with ⟨x, y, hx, hy, rfl⟩
  rcases (Nat.dvd_prime_pow Nat.prime_two).mp hx with ⟨a, ha, rfl⟩
  rcases (Nat.dvd_prime_pow Nat.prime_five).mp hy with ⟨b, hb, rfl⟩
  exact ⟨a, b, rfl, ha, hb⟩

theorem den_mkRat_dvd (n : Int) {d : Nat} (hd : d ≠ 0) : (mkRat n d).den ∣ d := by
  rw [Rat.den_mkRat, if_neg hd]
  exact Nat.div_dvd_of_dvd (Nat.gcd_dvd_left d _)

theorem pow_ten_ne_zero (n : Nat) : (10 ^ n : Nat) ≠ 0 := Nat.ne_of_gt (Nat.pow_pos (by decide))

theorem FewPlaces.canonical {value : ExactValue} (h : FewPlaces value) :
    IsCanonicalText value value.toDecimalString := by
  rcases h with ⟨n, hn, hdvd⟩
  rcases exists_exponents hdvd with ⟨a, b, hden, ha, hb⟩
  exact toDecimalString_canonical hden (by omega) (by omega)

/-- A canonical literal has no more digits after the point than the value needs. -/
theorem Literal.Canonical.length_frac_le_of_dvd {l : Literal} (h : l.Canonical) {n : Nat}
    (hdvd : l.value.den ∣ 10 ^ n) : l.frac.length ≤ n := by
  rcases hdvd with ⟨k, hk⟩
  have hvalue : mkRat l.value.num l.value.den =
      mkRat (signed l.negative l.magnitude) (10 ^ l.frac.length) := Rat.mkRat_self l.value
  rw [Rat.mkRat_eq_iff l.value.den_nz (pow_ten_ne_zero _)] at hvalue
  have hmagnitude := congrArg Int.natAbs hvalue
  rw [signed_mul, natAbs_signed, Int.natAbs_mul, Int.natAbs_natCast] at hmagnitude
  refine h.length_frac_le (m := l.value.num.natAbs * k) ?_
  calc l.magnitude * 10 ^ n
    _ = l.magnitude * l.value.den * k := by rw [hk, Nat.mul_assoc]
    _ = l.value.num.natAbs * 10 ^ l.frac.length * k := by rw [← hmagnitude]
    _ = l.value.num.natAbs * k * 10 ^ l.frac.length := Nat.mul_right_comm _ _ _

theorem fewPlaces_of_parse {text : Text} {value : ExactValue}
    (h : ExactValue.parse text = some value) : FewPlaces value := by
  rcases exists_literal h with ⟨l, rfl⟩
  rw [Literal.parse_literal, Option.some.injEq] at h
  rw [← h]
  exact ⟨l.frac.length % U32_COUNT, Nat.mod_lt _ (by decide), den_mkRat_dvd _ (pow_ten_ne_zero _)⟩

theorem Literal.Counted.parse {l : Literal} (h : l.Counted) :
    ExactValue.parse l.text = some l.value := by
  rw [l.parse_literal, value]
  rcases h with hlt | hzero
  · rw [Nat.mod_eq_of_lt hlt]
  · have hsigned : signed l.negative l.magnitude = 0 := by
      rw [hzero]
      cases l.negative <;> rfl
    rw [hsigned, Rat.zero_mkRat, Rat.zero_mkRat]

theorem rendered_iff (value : ExactValue) : Rendered value ↔ FewPlaces value := by
  constructor
  · exact fun h => fewPlaces_of_parse h.parse
  · intro h
    have hcanonical := h.canonical
    rcases hcanonical with ⟨l, hl, hvalue, htext⟩
    refine ⟨h.canonical, fun l' hl' => ?_, ?_⟩
    · rw [← htext]
      exact canonical_shortest hl (hvalue.trans hl'.symm)
    · rcases h with ⟨n, hn, hdvd⟩
      rw [← hvalue] at hdvd
      have hcounted : l.Counted := .inl (Nat.lt_of_le_of_lt (hl.length_frac_le_of_dvd hdvd) hn)
      rw [← htext, hcounted.parse, hvalue]

theorem readExactly_iff (l : Literal) : ReadExactly l ↔ l.Counted := by
  constructor
  · rintro ⟨value, hparse, hvalue, -⟩
    rw [l.parse_literal, Option.some.injEq, hvalue, Literal.value,
      Rat.mkRat_eq_iff (pow_ten_ne_zero _) (pow_ten_ne_zero _)] at hparse
    by_cases hzero : l.magnitude = 0
    · exact .inr hzero
    · -- Two powers of ten scale digits that are not all zeros the same only if they
      -- are one.
      have hcross := congrArg Int.natAbs hparse
      rw [signed_mul, signed_mul, natAbs_signed, natAbs_signed] at hcross
      have hpow := Nat.eq_of_mul_eq_mul_left (Nat.pos_of_ne_zero hzero) hcross
      have hmod := Nat.pow_right_injective (Nat.le_succ_of_le (by decide : 2 ≤ 9)) hpow
      refine .inl ?_
      rw [hmod]
      exact Nat.mod_lt _ (by decide)
  · intro h
    exact ⟨l.value, h.parse, rfl, (fewPlaces_of_parse h.parse).canonical⟩

/-- When values and texts are exact. A value that terminates has an exact text if
    and only if it has few places. The texts that are read are the literals, and one
    is read exactly if and only if its digits after the point are counted or all
    its digits are zeros. The canonical text of a value is one, so literals denote
    one number if and only if their canonical texts are the same. -/
theorem exact_scalar_text (value : ExactValue) (text text' : Text) (l l' : Literal) :
    (Terminating value → (Rendered value ↔ FewPlaces value)) ∧
      ((∃ value, ExactValue.parse text = some value) ↔ ∃ l : Literal, l.text = text) ∧
      (ReadExactly l ↔ l.Counted) ∧
      (IsCanonicalText value text → IsCanonicalText value text' → text = text') ∧
      (l.Counted → l'.Counted →
        (l.value = l'.value ↔
          (ExactValue.parse l.text).map ExactValue.toDecimalString =
            (ExactValue.parse l'.text).map ExactValue.toDecimalString)) := by
  refine ⟨fun _ => rendered_iff value, ⟨?_, ?_⟩, readExactly_iff l, ?_, ?_⟩
  · rintro ⟨value, h⟩
    exact exists_literal h
  · rintro ⟨l, rfl⟩
    exact ⟨_, l.parse_literal⟩
  · rintro ⟨l, hl, hvalue, rfl⟩ ⟨l', hl', hvalue', rfl⟩
    exact canonical_unique hl hl' (hvalue.trans hvalue'.symm)
  · intro h h'
    rw [h.parse, h'.parse, Option.map_some, Option.map_some]
    constructor
    · intro heq
      rw [heq]
    · -- A text has one value, since it is read as the value it was written for.
      intro heq
      have hback := ((rendered_iff l.value).mpr (fewPlaces_of_parse h.parse)).parse
      rw [Option.some.inj heq,
        ((rendered_iff l'.value).mpr (fewPlaces_of_parse h'.parse)).parse] at hback
      exact (Option.some.inj hback).symm

example : (ExactValue.parse "-00.1250".toList).map ExactValue.toDecimalString =
    some "-0.125".toList := by decide +kernel

theorem zero_ne_nil : ['0'] ≠ [] := List.cons_ne_nil _ _

theorem isDigits_zero : Library.IsDigits ['0'] := Library.isDigits_replicate 1

theorem isDigits_small (n : Nat) : Library.IsDigits (List.replicate n '0' ++ ['1']) := by
  refine Library.isDigits_append.mpr ⟨Library.isDigits_replicate _, fun c hc => ?_⟩
  rw [List.mem_singleton.mp hc]
  rfl

/-- A one at the last of more places than 32 bits count. -/
def farOne : Literal where
  negative := false
  int := ['0']
  frac := List.replicate (U32_COUNT - 1) '0' ++ ['1']
  int_ne_nil := zero_ne_nil
  int_digits := isDigits_zero
  frac_digits := isDigits_small _

/-- The count of the places is cast to none, and the text is read as one. -/
theorem far_one_is_one : ExactValue.parse farOne.text = some 1 ∧ farOne.value ≠ 1 := by
  have hlength : farOne.frac.length = U32_COUNT := by
    show (List.replicate (U32_COUNT - 1) '0' ++ ['1']).length = U32_COUNT
    rw [List.length_append, List.length_replicate, List.length_singleton]
    exact Nat.sub_add_cancel (by decide)
  have hmagnitude : farOne.magnitude = 1 := by
    show Nat.ofDigitChars 10 (List.replicate 1 '0' ++
      (List.replicate (U32_COUNT - 1) '0' ++ ['1'])) 0 = 1
    rw [Library.ofDigitChars_zeros, Library.ofDigitChars_zeros]
    rfl
  have hnot : ¬ farOne.Counted := by
    rintro (hlt | hzero)
    · omega
    · rw [hmagnitude] at hzero
      cases hzero
  have hparse : ExactValue.parse farOne.text = some 1 := by
    rw [farOne.parse_literal, hmagnitude, hlength, Nat.mod_self]
    rfl
  refine ⟨hparse, fun hvalue => hnot ((readExactly_iff farOne).mp ⟨1, hparse, hvalue.symm, ?_⟩)⟩
  rw [hvalue]
  exact (fewPlaces_of_parse hparse).canonical

end Contract

end Ridl
