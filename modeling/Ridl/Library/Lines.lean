import Mathlib.Algebra.Order.Ring.Int
import Mathlib.Data.List.Basic

/-!
# Lines of Text

Text cut into lines and fields, and numbers as text.

A line keeps its terminator, so the lines of a text written line by line are those
lines (`splitInclusive_line`). White space at the end of a line is trimmed, which
leaves a line that ends in another character as it was (`trimEnd_line`). A
number is written in decimal without a leading zero, and is read back only in that
form (`parseNumber_toDigits`).

## Main definitions

* `trimEnd`, `trimStart`: A text without white space at an end.

## Theorems

* `splitInclusive_line`: A terminated line comes off the front.
* `trimEnd_line`: Trimming takes the terminator off.
* `parseNumber_toDigits`: A positive number is read back.
-/

namespace Ridl

namespace Library

/-- A text, as its characters. -/
abbrev Text := List Char

/-- How many bytes a text takes. -/
def byteLen (text : Text) : Nat := (text.map Char.utf8Size).sum

/-- The lines of a text, each with its terminator. -/
def splitInclusive : Text → List Text
  | [] => []
  | c :: text =>
      if c = '\n' then [c] :: splitInclusive text
      else
        match splitInclusive text with
        | [] => [[c]]
        | line :: lines => (c :: line) :: lines

theorem splitInclusive_line {line : Text} (h : '\n' ∉ line) (text : Text) :
    splitInclusive (line ++ '\n' :: text) = (line ++ ['\n']) :: splitInclusive text := by
  induction line with
  | nil => rw [List.nil_append, splitInclusive, if_pos rfl, List.nil_append]
  | cons c line ih =>
      have hc : c ≠ '\n' := fun heq => h (heq ▸ List.mem_cons_self)
      have hline : '\n' ∉ line := fun hmem => h (List.mem_cons_of_mem c hmem)
      rw [List.cons_append, splitInclusive, if_neg hc, ih hline]
      rfl

theorem splitInclusive_flatMap (lines : List Text) (h : ∀ line ∈ lines, '\n' ∉ line) :
    splitInclusive (lines.flatMap (· ++ ['\n'])) = lines.map (· ++ ['\n']) := by
  induction lines with
  | nil => rfl
  | cons line lines ih =>
      rcases List.forall_mem_cons.1 h with ⟨hline, hlines⟩
      rw [List.flatMap_cons, List.append_assoc, List.singleton_append, splitInclusive_line hline,
        ih hlines, List.map_cons]

/-! ### Characters -/

/-- A character of the Unicode property `White_Space`. -/
def isWhitespace (c : Char) : Bool :=
  (9 ≤ c.toNat && c.toNat ≤ 13) || c.toNat = 32 || c.toNat = 0x85 || c.toNat = 0xA0 ||
    c.toNat = 0x1680 || (0x2000 ≤ c.toNat && c.toNat ≤ 0x200A) || c.toNat = 0x2028 ||
    c.toNat = 0x2029 || c.toNat = 0x202F || c.toNat = 0x205F || c.toNat = 0x3000

variable {c : Char} {n : Nat}

theorem toNat_of_isDigit (h : c.isDigit = true) : 48 ≤ c.toNat ∧ c.toNat ≤ 57 := by
  rcases (Bool.and_eq_true _ _).mp h with ⟨hlow, hhigh⟩
  exact ⟨of_decide_eq_true hlow, of_decide_eq_true hhigh⟩

theorem toNat_of_isAlpha (h : c.isAlpha = true) :
    65 ≤ c.toNat ∧ c.toNat ≤ 90 ∨ 97 ≤ c.toNat ∧ c.toNat ≤ 122 := by
  rcases (Bool.or_eq_true _ _).mp h with h | h
  · exact .inl (of_decide_eq_true h)
  · rcases (Bool.and_eq_true _ _).mp h with ⟨hlow, hhigh⟩
    exact .inr ⟨of_decide_eq_true hlow, of_decide_eq_true hhigh⟩

theorem toNat_of_isAlphanum (h : c.isAlphanum = true) :
    (65 ≤ c.toNat ∧ c.toNat ≤ 90 ∨ 97 ≤ c.toNat ∧ c.toNat ≤ 122) ∨
      48 ≤ c.toNat ∧ c.toNat ≤ 57 :=
  ((Bool.or_eq_true _ _).mp h).imp toNat_of_isAlpha toNat_of_isDigit

/-! ### Trimming -/

def trimStart (text : Text) : Text := text.dropWhile isWhitespace

def trimEnd (text : Text) : Text := (text.reverse.dropWhile isWhitespace).reverse

theorem trimEnd_line {line : Text} (hc : isWhitespace c = false) :
    trimEnd (line ++ [c] ++ ['\n']) = line ++ [c] := by
  have hnewline : isWhitespace '\n' = true := by decide
  rw [trimEnd, List.reverse_append, List.reverse_append, List.reverse_singleton,
    List.singleton_append, List.reverse_singleton, List.singleton_append,
    List.dropWhile_cons_of_pos hnewline, List.dropWhile_cons_of_neg (by simp [hc])]
  rw [List.reverse_cons, List.reverse_reverse]

theorem trimStart_cons (hc : isWhitespace c = false) (text : Text) :
    trimStart (c :: text) = c :: text :=
  List.dropWhile_cons_of_neg (by simp [hc])

def NUMBER_MAX : Nat := 2 ^ 32 - 1

/-- The number that decimal digits without a leading zero spell, within `u32`. -/
def parseNumber (text : Text) : Option Nat :=
  if text = [] ∨ text.head? = some '0' ∨ ¬ text.all Char.isDigit then none
  else
    let number := Nat.ofDigitChars 10 text 0
    if number ≤ NUMBER_MAX then some number else none

theorem digitChar_ne_zero (hpos : 0 < n) (hlt : n < 10) : n.digitChar ≠ '0' := by
  rcases n with _ | _ | _ | _ | _ | _ | _ | _ | _ | _ | n
  · omega
  all_goals first | decide | omega

theorem head?_toDigits (hpos : 0 < n) : (Nat.toDigits 10 n).head? ≠ some '0' := by
  induction n using Nat.strongRecOn with
  | ind n ih =>
      by_cases hlt : n < 10
      · rw [Nat.toDigits_of_lt_base hlt]
        exact fun h => digitChar_ne_zero hpos hlt (Option.some.inj h)
      · rw [Nat.toDigits_of_base_le (by decide) (Nat.le_of_not_lt hlt),
          List.head?_append_of_ne_nil _ Nat.toDigits_ne_nil]
        exact ih (n / 10) (Nat.div_lt_self hpos (by decide)) (by omega)

theorem parseNumber_toDigits (hpos : 0 < n) (hle : n ≤ NUMBER_MAX) :
    parseNumber (Nat.toDigits 10 n) = some n := by
  have hdigits : (Nat.toDigits 10 n).all Char.isDigit = true :=
    List.all_eq_true.2 fun c hc => Nat.isDigit_of_mem_toDigits (by decide) (Nat.le_refl 10) hc
  unfold parseNumber
  rw [if_neg, Nat.ofDigitChars_ten_toDigits]
  · exact if_pos hle
  · rintro (hnil | hzero | hnot)
    · exact Nat.toDigits_ne_nil hnil
    · exact head?_toDigits hpos hzero
    · exact hnot hdigits

theorem le_ofDigitChars (text : Text) (init : Nat) : init ≤ Nat.ofDigitChars 10 text init := by
  induction text generalizing init with
  | nil =>
      exact Nat.le_of_eq Nat.ofDigitChars_nil.symm
  | cons c text ih =>
      rw [Nat.ofDigitChars_cons]
      exact Nat.le_trans (by omega) (ih _)

theorem parseNumber_pos {text : Text} (h : parseNumber text = some n) :
    1 ≤ n ∧ n ≤ NUMBER_MAX := by
  unfold parseNumber at h
  rcases Option.ite_none_left_eq_some.1 h with ⟨hshape, hrest⟩
  rcases Option.ite_none_right_eq_some.1 hrest with ⟨hle, heq⟩
  cases heq
  refine ⟨?_, hle⟩
  cases text with
  | nil => exact absurd (.inl rfl) hshape
  | cons c text =>
      have hdigit : c.isDigit = true := by
        by_contra hnot
        refine hshape (.inr (.inr fun hall => hnot ?_))
        exact List.all_eq_true.1 hall c List.mem_cons_self
      have hzero : c ≠ '0' := fun heq => hshape (.inr (.inl (congrArg some heq)))
      have hne : c.toNat ≠ 48 := fun heq => hzero (Char.toNat_inj.1 heq)
      have hge := (Char.isDigit_iff_toNat.1 hdigit).1
      have hvalue := le_ofDigitChars text (10 * 0 + (c.toNat - '0'.toNat))
      rw [Nat.ofDigitChars_cons]
      have hchar : '0'.toNat = 48 := rfl
      omega

end Library

end Ridl
