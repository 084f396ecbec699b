import Mathlib.Algebra.Ring.Nat
import Mathlib.Data.List.Basic
import Mathlib.Data.Rat.Defs

/-!
# Exact Scalars

Literal values are exact rationals, read from the text of a literal. A duration
literal is a number with a time unit, and its value is a count of microseconds.

The lexer spells a number as digits, with digits after a point or without
(`IsInteger`, `IsDecimal`), and a duration as a number and a unit right after it
(`IsDuration`). Each such text is read.

## Main definitions

* `ExactValue.parse`: The value of an integer or decimal literal.

## Theorems

* `parse_of_isInteger`: The digits of an integer literal are read as an integer.
* `parse_of_isDecimal`: A decimal literal is read.
-/

namespace Ridl

namespace Contract

/-- An exact literal value. -/
abbrev ExactValue := Rat

/-- The text before the first occurrence of a character, and the text after. -/
def splitOnce (c : Char) (text : List Char) : Option (List Char × List Char) :=
  if c ∈ text then some (text.takeWhile (· ≠ c), (text.dropWhile (· ≠ c)).drop 1) else none

variable {c : Char} {text number : List Char}

theorem splitOnce_append {front : List Char} (hfront : c ∉ front) (back : List Char) :
    splitOnce c (front ++ c :: back) = some (front, back) := by
  have hne : ∀ a ∈ front, decide (a ≠ c) = true :=
    fun a ha => decide_eq_true (fun h => hfront (h ▸ ha))
  rw [splitOnce, if_pos (List.mem_append_right _ List.mem_cons_self),
    List.takeWhile_append_of_pos hne, List.dropWhile_append_of_pos hne]
  simp only [ne_eq, not_true_eq_false, decide_false, Bool.false_eq_true, not_false_eq_true,
    List.takeWhile_cons_of_neg, List.dropWhile_cons_of_neg, List.append_nil, List.drop_one,
    List.tail_cons]

theorem splitOnce_of_not_mem (h : c ∉ text) :
    splitOnce c text = none := if_neg h

/-- The number that decimal digits denote. -/
def digitsValue (digits : List Char) : Nat :=
  digits.foldl (fun value digit => 10 * value + (digit.toNat - '0'.toNat)) 0

/-- How many values a 32-bit count has. -/
def U32_COUNT : Nat := 2 ^ 32

/-- A power of ten, read from its text. -/
def pow10 (exp : Nat) : Nat := digitsValue ('1' :: List.replicate exp '0')

theorem pow10_zero : pow10 0 = 1 := rfl

namespace ExactValue

/-- The value of the text of a number without its sign. -/
def parseBody (body : List Char) : Option ExactValue :=
  let (int, frac) := (splitOnce '.' body).getD (body, [])
  if int = [] then none
  else if '.' ∈ body ∧ frac = [] then none
  else if int.all Char.isDigit = false then none
  else if frac.all Char.isDigit = false then none
  -- The cast keeps the low 32 bits of the count of fractional digits.
  else some (mkRat (digitsValue (int ++ frac)) (pow10 (frac.length % U32_COUNT)))

/-- The value of an integer or decimal literal, which may have a sign. -/
def parse (text : List Char) : Option ExactValue :=
  match text with
  | '-' :: rest => (parseBody rest).map (fun value => -value)
  | body => parseBody body

end ExactValue

/-! ### Durations -/

/-- The units and what one is in microseconds. A unit that ends in another one
    stands before it. -/
def TIME_UNITS : List (String × Nat) :=
  [("us", 1), ("ms", 1000), ("min", 60000000), ("s", 1000000), ("h", 3600000000)]

def stripSuffix (suffix text : List Char) : Option (List Char) :=
  (text.reverse.dropPrefix? suffix.reverse).map List.reverse

def isWhiteSpace (c : Char) : Bool :=
  (9 ≤ c.toNat ∧ c.toNat ≤ 13) ∨ (0x2000 ≤ c.toNat ∧ c.toNat ≤ 0x200A) ∨
    c.toNat ∈ [0x20, 0x85, 0xA0, 0x1680, 0x2028, 0x2029, 0x202F, 0x205F, 0x3000]

def trim (text : List Char) : List Char :=
  ((text.dropWhile isWhiteSpace).reverse.dropWhile isWhiteSpace).reverse

/-- What a duration literal says, and whether its number is a whole one. -/
structure Duration where
  us : ExactValue
  whole : Bool
deriving DecidableEq

/-- The text before the unit, and what the unit is in microseconds. -/
def splitUnit (text : List Char) : Option (List Char × Nat) :=
  TIME_UNITS.findSome? (fun entry =>
    (stripSuffix entry.1.toList text).map (fun digits => (digits, entry.2)))

/-- The duration that a number with a time unit denotes. -/
def durationUs (text : List Char) : Option Duration :=
  match splitUnit (trim text) with
  | some (digits, factor) =>
      (ExactValue.parse digits).map (fun value =>
        { us := value * (factor : Rat), whole := '.' ∉ digits })
  | none => none

/-- The microseconds of a duration literal. -/
def durationLiteralUs (text : List Char) : Option ExactValue :=
  (durationUs text).map Duration.us

/-! ### How literals are spelled -/

/-- Digits, one at least. -/
def IsInteger (text : List Char) : Prop := text ≠ [] ∧ ∀ c ∈ text, c.isDigit = true

/-- Digits around one point. -/
def IsDecimal (text : List Char) : Prop :=
  ∃ int frac, IsInteger int ∧ IsInteger frac ∧ text = int ++ '.' :: frac

/-- A number with a unit right after it. -/
def IsDuration (text : List Char) : Prop :=
  ∃ number, (IsInteger number ∨ IsDecimal number) ∧
    ∃ unit ∈ TIME_UNITS.map Prod.fst, text = number ++ unit.toList

theorem not_mem_of_digits (hc : c.isDigit = false)
    (h : ∀ a ∈ text, a.isDigit = true) : c ∉ text := by
  intro hmem
  rw [h c hmem] at hc
  cases hc

theorem IsInteger.parseBody (h : IsInteger text) :
    ExactValue.parseBody text = some (mkRat (digitsValue text) 1) := by
  have hdot : '.' ∉ text := not_mem_of_digits rfl h.2
  have hall : text.all Char.isDigit = true := List.all_eq_true.mpr h.2
  simp only [ExactValue.parseBody, splitOnce_of_not_mem hdot, Option.getD_none, h.1, hdot,
    false_and, hall, List.all_nil, Bool.true_eq_false, if_false, List.append_nil, List.length_nil,
    Nat.zero_mod, pow10_zero]

theorem IsDecimal.parseBody {int frac : List Char} (hint : IsInteger int)
    (hfrac : IsInteger frac) : ExactValue.parseBody (int ++ '.' :: frac) =
      some (mkRat (digitsValue (int ++ frac)) (pow10 (frac.length % U32_COUNT))) := by
  have hdot : '.' ∉ int := not_mem_of_digits rfl hint.2
  have hintAll : int.all Char.isDigit = true := List.all_eq_true.mpr hint.2
  have hfracAll : frac.all Char.isDigit = true := List.all_eq_true.mpr hfrac.2
  simp only [ExactValue.parseBody, splitOnce_append hdot, Option.getD_some, hint.1, hfrac.1,
    and_false, hintAll, hfracAll, Bool.true_eq_false, if_false]

theorem exists_head (h : IsInteger number ∨ IsDecimal number) :
    ∃ c rest, number = c :: rest ∧ c.isDigit = true := by
  have hint : ∀ text, IsInteger text → ∃ c rest, text = c :: rest ∧ c.isDigit = true := by
    rintro (_ | ⟨c, rest⟩) htext
    · exact absurd rfl htext.1
    · exact ⟨c, rest, rfl, htext.2 c List.mem_cons_self⟩
  rcases h with h | ⟨int, frac, h, -, rfl⟩
  · exact hint number h
  · rcases hint int h with ⟨c, rest, rfl, hc⟩
    exact ⟨c, rest ++ '.' :: frac, rfl, hc⟩

theorem exists_last (h : IsInteger number ∨ IsDecimal number) :
    ∃ rest c, number = rest ++ [c] ∧ c.isDigit = true := by
  have hint : ∀ text, IsInteger text → ∃ rest c, text = rest ++ [c] ∧ c.isDigit = true := by
    intro text htext
    rcases List.eq_nil_or_concat text with rfl | ⟨rest, c, rfl⟩
    · exact absurd rfl htext.1
    · exact ⟨rest, c, List.concat_eq_append, htext.2 c (by simp)⟩
  rcases h with h | ⟨int, frac, -, h, rfl⟩
  · exact hint number h
  · rcases hint frac h with ⟨rest, c, rfl, hc⟩
    exact ⟨int ++ '.' :: rest, c, by rw [List.append_assoc, List.cons_append], hc⟩

theorem parse_eq_parseBody (h : IsInteger number ∨ IsDecimal number) :
    ExactValue.parse number = ExactValue.parseBody number := by
  rcases exists_head h with ⟨c, rest, rfl, hc⟩
  have hsign : c ≠ '-' := fun heq => by rw [heq] at hc; cases hc
  unfold ExactValue.parse
  split
  · exact absurd (List.cons.inj ‹_›).1 hsign
  · rfl

theorem parse_of_isInteger (h : IsInteger text) :
    ∃ value : Nat, ExactValue.parse text = some (mkRat value 1) :=
  ⟨_, (parse_eq_parseBody (.inl h)).trans h.parseBody⟩

theorem parse_of_isDecimal (h : IsDecimal text) :
    ∃ value, ExactValue.parse text = some value := by
  rw [parse_eq_parseBody (.inr h)]
  rcases h with ⟨int, frac, hint, hfrac, rfl⟩
  exact ⟨_, IsDecimal.parseBody hint hfrac⟩

/-! ### Duration literals are read -/

theorem isWhiteSpace_of_isDigit (h : c.isDigit = true) : isWhiteSpace c = false := by
  simp only [Char.isDigit, Bool.and_eq_true, decide_eq_true_eq] at h
  have hlow : 48 ≤ c.toNat := h.1
  have hhigh : c.toNat ≤ 57 := h.2
  simp only [isWhiteSpace, List.mem_cons, List.not_mem_nil, or_false, decide_eq_false_iff_not]
  omega

theorem trim_of_ends {d : Char} {front back : List Char}
    (hfront : text = c :: front) (hback : text = back ++ [d]) (hc : isWhiteSpace c = false)
    (hd : isWhiteSpace d = false) : trim text = text := by
  have hleft : text.dropWhile isWhiteSpace = text := by
    rw [hfront, List.dropWhile_cons_of_neg (by rw [hc]; exact Bool.false_ne_true)]
  have hright : text.reverse.dropWhile isWhiteSpace = text.reverse := by
    rw [hback, List.reverse_append, List.reverse_singleton, List.singleton_append,
      List.dropWhile_cons_of_neg (by rw [hd]; exact Bool.false_ne_true)]
  rw [trim, hleft, hright, List.reverse_reverse]

theorem splitUnit_append (h : IsInteger number ∨ IsDecimal number)
    {unit : String} (hunit : unit ∈ TIME_UNITS.map Prod.fst) :
    ∃ factor, splitUnit (number ++ unit.toList) = some (number, factor) := by
  rcases exists_last h with ⟨rest, d, rfl, hd⟩
  -- The last character of the number is not one of a unit.
  have hu : d ≠ 'u' := fun heq => by rw [heq] at hd; cases hd
  have hm : d ≠ 'm' := fun heq => by rw [heq] at hd; cases hd
  simp only [TIME_UNITS, List.map_cons, List.map_nil, List.mem_cons, List.not_mem_nil,
    or_false] at hunit
  rcases hunit with rfl | rfl | rfl | rfl | rfl <;>
    simp [splitUnit, TIME_UNITS, stripSuffix, List.dropPrefix?, hu, hm]

theorem isWhiteSpace_of_unit {unit : String} (hunit : unit ∈ TIME_UNITS.map Prod.fst) :
    ∃ rest c, unit.toList = rest ++ [c] ∧ isWhiteSpace c = false := by
  simp only [TIME_UNITS, List.map_cons, List.map_nil, List.mem_cons, List.not_mem_nil,
    or_false] at hunit
  rcases hunit with rfl | rfl | rfl | rfl | rfl
  · exact ⟨['u'], 's', rfl, rfl⟩
  · exact ⟨['m'], 's', rfl, rfl⟩
  · exact ⟨['m', 'i'], 'n', rfl, rfl⟩
  · exact ⟨[], 's', rfl, rfl⟩
  · exact ⟨[], 'h', rfl, rfl⟩

theorem durationLiteralUs_of_isDuration (h : IsDuration text) :
    ∃ value, durationLiteralUs text = some value := by
  rcases h with ⟨number, hnumber, unit, hunit, rfl⟩
  rcases exists_head hnumber with ⟨c, front, hfront, hc⟩
  rcases isWhiteSpace_of_unit hunit with ⟨back, d, hback, hd⟩
  have hhead : number ++ unit.toList = c :: (front ++ unit.toList) := by
    rw [hfront, List.cons_append]
  have hlast : number ++ unit.toList = number ++ back ++ [d] := by
    rw [hback, List.append_assoc]
  have htrim := trim_of_ends hhead hlast (isWhiteSpace_of_isDigit hc) hd
  rcases splitUnit_append hnumber hunit with ⟨factor, hunits⟩
  have hvalue : ∃ value, ExactValue.parse number = some value := by
    rcases hnumber with hint | hdecimal
    · rcases parse_of_isInteger hint with ⟨value, hvalue⟩
      exact ⟨_, hvalue⟩
    · exact parse_of_isDecimal hdecimal
  rcases hvalue with ⟨value, hvalue⟩
  refine ⟨value * factor, ?_⟩
  rw [durationLiteralUs, durationUs, htrim, hunits]
  simp only [hvalue, Option.map_some]

end Contract

end Ridl
