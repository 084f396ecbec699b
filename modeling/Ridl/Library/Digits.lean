import Ridl.Library.Lines
import Mathlib.Algebra.Order.Ring.Nat
import Mathlib.Data.List.Induction

/-!
# Decimal Digits

Digits and the number they spell, which is `Nat.ofDigitChars 10 digits 0`.

Every number is spelled by digits without a leading zero in one way
(`toDigits_ofDigitChars`), which is the shortest (`length_toDigits_le`). With the
count of the digits fixed, leading zeros do not matter either
(`ofDigitChars_inj`).

## Theorems

* `ofDigitChars_lt`: Digits spell less than the power of their count.
* `toDigits_ofDigitChars`: Plain digits are the ones of their number.
* `length_toDigits_le`: No digits of a number are fewer than the plain ones.
* `ofDigitChars_inj`: Digits of one count that spell one number are the same.
* `compare_digits`: Digits of one count are ordered as their numbers.
* `compare_trimmed`: Digits without leading zeros are ordered by their count and
  then by the digits.
-/

namespace Ridl

namespace Library

/-- Every character is a decimal digit. -/
def IsDigits (digits : Text) : Prop := ∀ c ∈ digits, c.isDigit = true

/-- Digits without a superfluous leading zero. -/
def Plain (digits : Text) : Prop :=
  digits ≠ [] ∧ IsDigits digits ∧ (digits = ['0'] ∨ digits.head? ≠ some '0')

theorem isDigits_append {front back : Text} :
    IsDigits (front ++ back) ↔ IsDigits front ∧ IsDigits back := List.forall_mem_append

theorem isDigits_toDigits (n : Nat) : IsDigits (Nat.toDigits 10 n) :=
  fun _ hc => Nat.isDigit_of_mem_toDigits (by decide) (Nat.le_refl 10) hc

theorem isDigits_replicate (n : Nat) : IsDigits (List.replicate n '0') := by
  intro c hc
  rw [List.eq_of_mem_replicate hc]
  rfl

theorem toNat_sub_lt {c : Char} (hc : c.isDigit = true) : c.toNat - '0'.toNat < 10 := by
  simp only [Char.isDigit, Bool.and_eq_true, decide_eq_true_eq] at hc
  have hhigh : c.toNat ≤ 57 := hc.2
  have hzero : '0'.toNat = 48 := rfl
  omega

theorem digitChar_toNat_sub {c : Char} (hc : c.isDigit = true) :
    (c.toNat - '0'.toNat).digitChar = c := by
  simp only [Char.isDigit, Bool.and_eq_true, decide_eq_true_eq] at hc
  have hlow : 48 ≤ c.toNat := hc.1
  have hhigh : c.toNat ≤ 57 := hc.2
  have hchar : c = Char.ofNat c.toNat := (Char.ofNat_toNat c).symm
  generalize c.toNat = n at hlow hhigh hchar
  rw [hchar]
  have hcases : n = 48 ∨ n = 49 ∨ n = 50 ∨ n = 51 ∨ n = 52 ∨ n = 53 ∨ n = 54 ∨ n = 55 ∨
      n = 56 ∨ n = 57 := by omega
  rcases hcases with rfl | rfl | rfl | rfl | rfl | rfl | rfl | rfl | rfl | rfl <;> rfl

theorem digit_inj {c d : Char} (hc : c.isDigit = true) (hd : d.isDigit = true)
    (h : c.toNat - '0'.toNat = d.toNat - '0'.toNat) : c = d := by
  rw [← digitChar_toNat_sub hc, ← digitChar_toNat_sub hd, h]

/-! ### The number of a list of digits -/

theorem ofDigitChars_append (front back : Text) :
    Nat.ofDigitChars 10 (front ++ back) 0 =
      10 ^ back.length * Nat.ofDigitChars 10 front 0 + Nat.ofDigitChars 10 back 0 := by
  rw [Nat.ofDigitChars_append, Nat.ofDigitChars_eq_ofDigitChars_zero]

theorem ofDigitChars_concat (front : Text) (c : Char) :
    Nat.ofDigitChars 10 (front ++ [c]) 0 =
      10 * Nat.ofDigitChars 10 front 0 + (c.toNat - '0'.toNat) := by
  rw [Nat.ofDigitChars_append, Nat.ofDigitChars_cons, Nat.ofDigitChars_nil]

theorem ofDigitChars_zeros (n : Nat) (digits : Text) :
    Nat.ofDigitChars 10 (List.replicate n '0' ++ digits) 0 = Nat.ofDigitChars 10 digits 0 := by
  rw [Nat.ofDigitChars_append, Nat.ofDigitChars_replicate_zero, Nat.mul_zero]

theorem ofDigitChars_lt {digits : Text} (h : IsDigits digits) :
    Nat.ofDigitChars 10 digits 0 < 10 ^ digits.length := by
  induction digits using List.reverseRecOn with
  | nil =>
      rw [Nat.ofDigitChars_nil]
      exact Nat.one_pos
  | append_singleton front c ih =>
      have hfront := ih (isDigits_append.mp h).1
      have hlast := toNat_sub_lt (h c (by simp))
      rw [ofDigitChars_concat, List.length_append, List.length_singleton, pow_succ]
      omega

theorem ofDigitChars_div {front back : Text} (h : IsDigits back) :
    Nat.ofDigitChars 10 (front ++ back) 0 / 10 ^ back.length = Nat.ofDigitChars 10 front 0 := by
  rw [ofDigitChars_append, Nat.mul_add_div (Nat.pow_pos (by decide)),
    Nat.div_eq_of_lt (ofDigitChars_lt h), Nat.add_zero]

theorem ofDigitChars_mod {front back : Text} (h : IsDigits back) :
    Nat.ofDigitChars 10 (front ++ back) 0 % 10 ^ back.length = Nat.ofDigitChars 10 back 0 := by
  rw [ofDigitChars_append, Nat.mul_add_mod, Nat.mod_eq_of_lt (ofDigitChars_lt h)]

theorem ofDigitChars_inj {a b : Text} (ha : IsDigits a) (hb : IsDigits b)
    (hlen : a.length = b.length)
    (h : Nat.ofDigitChars 10 a 0 = Nat.ofDigitChars 10 b 0) : a = b := by
  induction a using List.reverseRecOn generalizing b with
  | nil => exact (List.length_eq_zero_iff.mp hlen.symm).symm
  | append_singleton front c ih =>
      rcases List.eq_nil_or_concat b with rfl | ⟨front', d, rfl⟩
      · simp at hlen
      · rw [List.concat_eq_append] at hb hlen h ⊢
        rw [List.length_append, List.length_append, List.length_singleton,
          List.length_singleton] at hlen
        rw [ofDigitChars_concat, ofDigitChars_concat] at h
        have hc := ha c (by simp)
        have hd := hb d (by simp)
        -- The last digit is the number modulo ten, the front the rest.
        have hcd : c = d := by
          refine digit_inj hc hd ?_
          have := toNat_sub_lt hc
          have := toNat_sub_lt hd
          omega
        subst hcd
        rw [ih (isDigits_append.mp ha).1 (isDigits_append.mp hb).1 (by omega) (by omega)]

theorem ofDigitChars_eq_zero {digits : Text} (h : IsDigits digits) :
    Nat.ofDigitChars 10 digits 0 = 0 ↔ ∀ c ∈ digits, c = '0' := by
  have hzeros : Nat.ofDigitChars 10 (List.replicate digits.length '0') 0 = 0 := by
    rw [Nat.ofDigitChars_replicate_zero, Nat.mul_zero]
  constructor
  · intro hzero
    have heq := ofDigitChars_inj h (isDigits_replicate digits.length) (by simp)
      (hzero.trans hzeros.symm)
    intro c hc
    rw [heq] at hc
    exact List.eq_of_mem_replicate hc
  · intro hall
    rw [List.eq_replicate_of_mem hall]
    exact hzeros

/-! ### Plain digits -/

theorem plain_toDigits (n : Nat) : Plain (Nat.toDigits 10 n) := by
  refine ⟨Nat.toDigits_ne_nil, isDigits_toDigits n, ?_⟩
  by_cases hn : n = 0
  · rw [hn]
    exact .inl (Nat.toDigits_zero 10)
  · exact .inr (head?_toDigits (Nat.pos_of_ne_zero hn))

theorem Plain.front {front back : Text} (h : Plain (front ++ back)) (hne : front ≠ []) :
    Plain front := by
  refine ⟨hne, (isDigits_append.mp h.2.1).1, ?_⟩
  rcases h.2.2 with hzero | hhead
  · rcases List.append_eq_singleton_iff.mp hzero with ⟨hnil, -⟩ | ⟨hfront, -⟩
    · exact absurd hnil hne
    · exact .inl hfront
  · rw [List.head?_append_of_ne_nil _ hne] at hhead
    exact .inr hhead

theorem Plain.pos {front : Text} {c : Char} (h : Plain (front ++ [c])) (hne : front ≠ []) :
    0 < Nat.ofDigitChars 10 front 0 := by
  rcases h.2.2 with hzero | hhead
  · rcases List.append_eq_singleton_iff.mp hzero with ⟨hnil, -⟩ | ⟨-, hnil⟩
    · exact absurd hnil hne
    · cases hnil
  · rw [List.head?_append_of_ne_nil _ hne] at hhead
    refine Nat.pos_of_ne_zero fun hzero => ?_
    rcases front with _ | ⟨d, front⟩
    · exact hne rfl
    · have hd := (ofDigitChars_eq_zero (isDigits_append.mp h.2.1).1).mp hzero d (by simp)
      rw [hd] at hhead
      exact hhead rfl

theorem toDigits_ofDigitChars {digits : Text} (h : Plain digits) :
    Nat.toDigits 10 (Nat.ofDigitChars 10 digits 0) = digits := by
  induction digits using List.reverseRecOn with
  | nil => exact absurd rfl h.1
  | append_singleton front c ih =>
      have hc := h.2.1 c (by simp)
      have hlt := toNat_sub_lt hc
      by_cases hne : front = []
      · subst hne
        rw [List.nil_append, Nat.ofDigitChars_cons, Nat.ofDigitChars_nil, Nat.mul_zero,
          Nat.zero_add, Nat.toDigits_of_lt_base hlt, digitChar_toNat_sub hc]
      · have hpos := h.pos hne
        rw [ofDigitChars_concat, ← Nat.toDigits_append_toDigits (by decide) hpos hlt,
          ih (h.front hne), Nat.toDigits_of_lt_base hlt, digitChar_toNat_sub hc]

theorem length_toDigits_le {digits : Text} (h : IsDigits digits) (hne : digits ≠ []) :
    (Nat.toDigits 10 (Nat.ofDigitChars 10 digits 0)).length ≤ digits.length :=
  (Nat.length_toDigits_le_iff (by decide) (List.length_pos_iff.mpr hne)).mpr (ofDigitChars_lt h)

/-! ### The order of digits -/

theorem ofDigitChars_cons (c : Char) (digits : Text) :
    Nat.ofDigitChars 10 (c :: digits) 0 =
      10 ^ digits.length * (c.toNat - '0'.toNat) + Nat.ofDigitChars 10 digits 0 := by
  rw [Nat.ofDigitChars_cons, Nat.mul_zero, Nat.zero_add, Nat.ofDigitChars_eq_ofDigitChars_zero]

theorem compare_high_low {N : Nat} (a b : Nat) {x y : Nat} (hx : x < N) (hy : y < N) :
    compare (N * a + x) (N * b + y) = (compare a b).then (compare x y) := by
  rcases Nat.lt_trichotomy a b with hlt | rfl | hgt
  · have hprod : N * (a + 1) ≤ N * b := Nat.mul_le_mul_left N hlt
    rw [Nat.mul_succ] at hprod
    rw [Nat.compare_eq_lt.mpr hlt, Nat.compare_eq_lt.mpr (by omega)]
    rfl
  · rw [Nat.compare_eq_eq.mpr rfl]
    show _ = compare x y
    rcases Nat.lt_trichotomy x y with hlt | rfl | hgt
    · rw [Nat.compare_eq_lt.mpr hlt, Nat.compare_eq_lt.mpr (by omega)]
    · rw [Nat.compare_eq_eq.mpr rfl, Nat.compare_eq_eq.mpr rfl]
    · rw [Nat.compare_eq_gt.mpr hgt, Nat.compare_eq_gt.mpr (by omega)]
  · have hprod : N * (b + 1) ≤ N * a := Nat.mul_le_mul_left N hgt
    rw [Nat.mul_succ] at hprod
    rw [Nat.compare_eq_gt.mpr hgt, Nat.compare_eq_gt.mpr (by omega)]
    rfl

theorem compare_digit {c d : Char} (hc : c.isDigit = true) (hd : d.isDigit = true) :
    compare c d = compare (c.toNat - '0'.toNat) (d.toNat - '0'.toNat) := by
  show compareOfLessAndEq c d = compareOfLessAndEq _ _
  unfold compareOfLessAndEq
  have hlt : c < d ↔ c.toNat - '0'.toNat < d.toNat - '0'.toNat := by
    simp only [Char.isDigit, Bool.and_eq_true, decide_eq_true_eq] at hc hd
    have hclow : 48 ≤ c.toNat := hc.1
    have hdlow : 48 ≤ d.toNat := hd.1
    have hzero : '0'.toNat = 48 := rfl
    have hchar : c < d ↔ c.toNat < d.toNat := Iff.rfl
    rw [hchar, hzero]
    omega
  have heq : c = d ↔ c.toNat - '0'.toNat = d.toNat - '0'.toNat :=
    ⟨fun h => by rw [h], digit_inj hc hd⟩
  simp only [hlt, heq]

theorem compare_digits {a b : Text} (ha : IsDigits a) (hb : IsDigits b)
    (hlen : a.length = b.length) :
    compare a b = compare (Nat.ofDigitChars 10 a 0) (Nat.ofDigitChars 10 b 0) := by
  induction a generalizing b with
  | nil =>
      rw [List.length_eq_zero_iff.mp hlen.symm]
      exact (Nat.compare_eq_eq.mpr rfl).symm
  | cons c a ih =>
      rcases b with _ | ⟨d, b⟩
      · cases hlen
      · have htail : a.length = b.length := Nat.succ.inj hlen
        have ha' : IsDigits a := fun x hx => ha x (List.mem_cons_of_mem c hx)
        have hb' : IsDigits b := fun x hx => hb x (List.mem_cons_of_mem d hx)
        rw [ofDigitChars_cons, ofDigitChars_cons, htail,
          compare_high_low _ _ (htail ▸ ofDigitChars_lt ha') (ofDigitChars_lt hb'),
          ← compare_digit (ha c List.mem_cons_self) (hb d List.mem_cons_self), ← ih ha' hb' htail]
        exact List.compareLex_cons_cons

theorem ofDigitChars_pos {c : Char} {digits : Text} (h : IsDigits (c :: digits)) (hc : c ≠ '0') :
    10 ^ digits.length ≤ Nat.ofDigitChars 10 (c :: digits) 0 := by
  have hpos : 0 < c.toNat - '0'.toNat := by
    refine Nat.pos_of_ne_zero fun hzero => hc ?_
    exact digit_inj (h c List.mem_cons_self) rfl (by rw [hzero, Nat.sub_self])
  rw [ofDigitChars_cons]
  exact Nat.le_trans (Nat.le_mul_of_pos_right _ hpos) (Nat.le_add_right _ _)

/-- Of two lists of digits without a leading zero, the one with more digits spells
    the larger number. -/
theorem ofDigitChars_lt_of_length_lt {a b : Text} (ha : IsDigits a) (hb : IsDigits b)
    (hhead : b.head? ≠ some '0') (hlen : a.length < b.length) :
    Nat.ofDigitChars 10 a 0 < Nat.ofDigitChars 10 b 0 := by
  rcases b with _ | ⟨d, b⟩
  · exact absurd hlen (Nat.not_lt_zero _)
  · have hd : d ≠ '0' := fun h => hhead (by rw [h]; rfl)
    calc Nat.ofDigitChars 10 a 0
      _ < 10 ^ a.length := ofDigitChars_lt ha
      _ ≤ 10 ^ b.length := Nat.pow_le_pow_right (by decide) (Nat.le_of_lt_succ hlen)
      _ ≤ Nat.ofDigitChars 10 (d :: b) 0 := ofDigitChars_pos hb hd

theorem compare_trimmed {a b : Text} (ha : IsDigits a) (hb : IsDigits b)
    (hahead : a.head? ≠ some '0') (hbhead : b.head? ≠ some '0') :
    (compare a.length b.length).then (compare a b) =
      compare (Nat.ofDigitChars 10 a 0) (Nat.ofDigitChars 10 b 0) := by
  rcases Nat.lt_trichotomy a.length b.length with hlt | heq | hgt
  · rw [Nat.compare_eq_lt.mpr hlt,
      Nat.compare_eq_lt.mpr (ofDigitChars_lt_of_length_lt ha hb hbhead hlt)]
    rfl
  · rw [Nat.compare_eq_eq.mpr heq, ← compare_digits ha hb heq]
    rfl
  · rw [Nat.compare_eq_gt.mpr hgt,
      Nat.compare_eq_gt.mpr (ofDigitChars_lt_of_length_lt hb ha hahead hgt)]
    rfl

theorem head?_dropWhile_zero (digits : Text) :
    (digits.dropWhile (· == '0')).head? ≠ some '0' := by
  induction digits with
  | nil => exact fun h => nomatch h
  | cons c digits ih =>
      by_cases hc : c = '0'
      · rw [hc]
        exact ih
      · rw [List.dropWhile_cons_of_neg (by rwa [beq_iff_eq])]
        exact fun h => hc (Option.some.inj h)

theorem ofDigitChars_dropWhile_zero (digits : Text) :
    Nat.ofDigitChars 10 (digits.dropWhile (· == '0')) 0 = Nat.ofDigitChars 10 digits 0 := by
  induction digits with
  | nil => rfl
  | cons c digits ih =>
      by_cases hc : c = '0'
      · rw [hc, ofDigitChars_cons, Nat.sub_self, Nat.mul_zero, Nat.zero_add]
        exact ih
      · rw [List.dropWhile_cons_of_neg (by rwa [beq_iff_eq])]

end Library

end Ridl
