import Ridl.Contract.Scalar
import Ridl.Syntax.Lexer

/-!
# How the Lexer Spells Numbers

What the text of a number token can be, from the patterns that the lexer matches. A
number starts with a digit and nothing else does (`rawToken_number`,
`rawToken_other`), no word becomes a number when the words are looked up, and a
duration is made of a number and the unit right after it.

## Theorems

* `lex_duration`: The durations that the lexer finds are numbers with a unit.
* `lex_ne_nil`: No token is empty.
-/

namespace Ridl

namespace Syntax

open Contract (IsInteger IsDecimal IsDuration TIME_UNITS)

/-! ### Raw tokens -/

/-- The kinds of a number, and of a number with its unit. -/
def isNumeric : SyntaxKind → Bool
  | .intNumber | .floatNumber | .duration => true
  | _ => false

theorem isDigit_eq (c : Char) : isDigit c = c.isDigit := by
  simp [isDigit, Char.isDigit, Char.le_def]

variable {c : Char} {token : Token} {profile : Profile}

theorem rawToken_other (hc : isDigit c = false) (rest : List Char) :
    isNumeric (rawToken c rest).1 = false := by
  unfold rawToken
  rw [hc]
  simp only [Bool.false_eq_true, if_false]
  split_ifs
  · rfl
  · rfl
  · split
    · split <;> rfl
    · rfl
    · rfl
    · unfold lexBlockComment
      dsimp only
      split
      · split <;> rfl
      · rfl
    all_goals rfl

theorem isInteger_takeWhile (hc : isDigit c = true) (rest : List Char) :
    IsInteger (c :: rest.take (rest.takeWhile isDigit).length) := by
  refine ⟨List.cons_ne_nil _ _, fun d hd => ?_⟩
  rw [← List.prefix_iff_eq_take.mp (List.takeWhile_prefix _)] at hd
  rcases List.mem_cons.mp hd with rfl | hd
  · rw [← isDigit_eq]
    exact hc
  · rw [← isDigit_eq]
    exact List.all_eq_true.mp List.all_takeWhile d hd

/-- How a number is spelled. -/
theorem rawToken_number (hc : isDigit c = true) (rest : List Char) :
    (rawToken c rest).1 = .intNumber ∧ IsInteger (c :: rest.take (rawToken c rest).2) ∨
      (rawToken c rest).1 = .floatNumber ∧ IsDecimal (c :: rest.take (rawToken c rest).2) := by
  have hletter : isLetter c = false := by
    simp only [isDigit, isLetter, Bool.and_eq_true, decide_eq_true_eq, Char.le_def,
      Bool.or_eq_false_iff, Bool.and_eq_false_iff, decide_eq_false_iff_not,
      UInt32.le_iff_toNat_le] at hc ⊢
    have hnine : '9'.val.toNat = 57 := rfl
    have hA : 'A'.val.toNat = 65 := rfl
    have ha : 'a'.val.toNat = 97 := rfl
    omega
  have hint := isInteger_takeWhile hc rest
  unfold rawToken
  rw [hletter, hc]
  simp only [Bool.false_eq_true, if_false, if_true]
  split
  · rename_i d fraction hdrop
    split_ifs with hd
    · refine .inr ⟨rfl, c :: rest.take (rest.takeWhile isDigit).length,
        d :: fraction.take (fraction.takeWhile isDigit).length, hint,
        isInteger_takeWhile hd fraction, ?_⟩
      have htake : rest.take ((rest.takeWhile isDigit).length + 2 +
          (fraction.takeWhile isDigit).length) =
            rest.take (rest.takeWhile isDigit).length ++
              '.' :: d :: fraction.take (fraction.takeWhile isDigit).length := by
        rw [Nat.add_assoc, List.take_add, hdrop, Nat.add_comm 2, List.take_succ_cons,
          List.take_succ_cons]
      rw [htake, List.cons_append]
    · exact .inl ⟨rfl, hint⟩
  · exact .inl ⟨rfl, hint⟩

/-- How a raw token is spelled that is a number. -/
def Spells (token : Token) : Prop :=
  (isNumeric token.kind = true → IsInteger token.text ∨ IsDecimal token.text) ∧
    token.kind ≠ .duration

theorem scanRegex_numeric (rest : List Char) : isNumeric (scanRegex rest).1 = false := by
  fun_induction scanRegex rest with
  | case1 => rfl
  | case2 => rfl
  | case3 => rfl
  | case4 _ _ _ ih => exact ih
  | case5 => rfl
  | case6 => rfl
  | case7 _ _ _ _ _ ih => exact ih

theorem spells_other (h : isNumeric token.kind = false) : Spells token := by
  refine ⟨fun hkind => ?_, fun hkind => ?_⟩
  · rw [h] at hkind
    cases hkind
  · rw [hkind] at h
    cases h

theorem nextRaw_spells (prev : Option Token) (c : Char) (rest : List Char) :
    Spells (nextRaw prev c rest) := by
  unfold nextRaw
  split_ifs with hregex
  · exact spells_other (scanRegex_numeric rest)
  · by_cases hc : isDigit c = true
    · rcases rawToken_number hc rest with ⟨hkind, htext⟩ | ⟨hkind, htext⟩
      · exact ⟨fun _ => .inl htext, by rw [hkind]; nofun⟩
      · exact ⟨fun _ => .inr htext, by rw [hkind]; nofun⟩
    · exact spells_other (rawToken_other (Bool.eq_false_iff.mpr hc) rest)

/-! ### Refined tokens -/

theorem keyword_numeric {table : List (String × SyntaxKind)}
    (htable : table.all (fun entry => !isNumeric entry.2) = true) {text : String}
    {kind : SyntaxKind} (h : keyword table text = some kind) : isNumeric kind = false := by
  rcases Option.map_eq_some_iff.mp h with ⟨entry, hentry, rfl⟩
  have hnot := List.all_eq_true.mp htable entry (List.mem_of_find?_eq_some hentry)
  rwa [Bool.not_eq_true'] at hnot

theorem wordKind_numeric (profile : Profile) (text : List Char) :
    isNumeric (wordKind profile text) = false := by
  have htypl : ∀ {text kind}, typlKeyword text = some kind → isNumeric kind = false :=
    keyword_numeric (by decide)
  unfold wordKind
  cases hkind : keywordIn profile (String.ofList text) with
  | none =>
      rw [Option.getD_none]
      split_ifs <;> rfl
  | some kind =>
      rw [Option.getD_some]
      cases profile with
      | typl => exact htypl hkind
      | ridl =>
          rcases Option.or_eq_some_iff.mp hkind with h | ⟨-, h⟩
          · exact htypl h
          · exact keyword_numeric (by decide) h
      | rsdl =>
          rcases Option.or_eq_some_iff.mp hkind with h | ⟨-, h⟩
          · exact htypl h
          · exact keyword_numeric (by decide) h

theorem refineToken_duration {raw : Token} (h : Spells raw) :
    (refineToken profile raw).kind ≠ .duration := by
  unfold refineToken
  split_ifs
  · intro hkind
    have hnone := wordKind_numeric profile raw.text
    rw [show wordKind profile raw.text = .duration from hkind] at hnone
    cases hnone
  · exact h.2

theorem isDuration_spells {raw next : Token} (hraw : Spells raw)
    (h : isDuration raw next = true) : IsDuration (raw.text ++ next.text) := by
  simp only [isDuration, Bool.and_eq_true, Bool.or_eq_true, decide_eq_true_eq] at h
  rcases h with ⟨⟨hkind, -⟩, hunit⟩
  have hnumeric : isNumeric raw.kind = true := by
    rcases hkind with hkind | hkind <;> rw [hkind] <;> rfl
  have hatoms : ∀ unit ∈ ["us", "ms", "s", "min", "h"], unit ∈ TIME_UNITS.map Prod.fst := by decide
  refine ⟨raw.text, hraw.1 hnumeric, String.ofList next.text, hatoms _ ?_, ?_⟩
  · exact List.contains_iff_mem.mp hunit
  · rw [String.toList_ofList]

theorem refine_spells (profile : Profile) (raws : List Token) (hraws : ∀ raw ∈ raws, Spells raw) :
    ∀ token ∈ refine profile raws, token.kind = .duration → IsDuration token.text := by
  induction raws using refine.induct with
  | case1 => exact fun token htoken => absurd htoken List.not_mem_nil
  | case2 raw =>
      intro token htoken hkind
      rw [refine, List.mem_singleton] at htoken
      rw [htoken] at hkind
      exact absurd hkind (refineToken_duration (hraws raw List.mem_cons_self))
  | case3 raw next raws hduration ih =>
      intro token htoken hkind
      rw [refine, if_pos hduration] at htoken
      rcases List.mem_cons.mp htoken with rfl | htoken
      · exact isDuration_spells (hraws raw List.mem_cons_self) hduration
      · exact ih (fun raw h => hraws raw (List.mem_cons_of_mem _ (List.mem_cons_of_mem _ h))) token
          htoken hkind
  | case4 raw next raws hduration ih =>
      intro token htoken hkind
      rw [refine, if_neg hduration] at htoken
      rcases List.mem_cons.mp htoken with rfl | htoken
      · exact absurd hkind (refineToken_duration (hraws raw List.mem_cons_self))
      · exact ih (fun raw h => hraws raw (List.mem_cons_of_mem _ h)) token htoken hkind

theorem rawTokensFrom_spells (fuel : Nat) (prev : Option Token) (input : List Char) :
    ∀ raw ∈ rawTokensFrom fuel prev input, Spells raw ∧ raw.text ≠ [] := by
  induction fuel generalizing prev input with
  | zero => exact fun raw h => absurd h List.not_mem_nil
  | succ fuel ih =>
      cases input with
      | nil => exact fun raw h => absurd h List.not_mem_nil
      | cons c rest =>
          intro raw hraw
          rcases List.mem_cons.mp hraw with rfl | hraw
          · exact ⟨nextRaw_spells prev c rest,
              List.ne_nil_of_length_pos (nextRaw_length prev c rest)⟩
          · exact ih _ _ raw hraw

theorem lex_duration {input : List Char}
    (htoken : token ∈ lex input profile) (hkind : token.kind = .duration) :
    IsDuration token.text :=
  refine_spells profile _ (fun raw h => (rawTokensFrom_spells _ _ _ raw h).1) token htoken hkind

theorem refine_ne_nil (profile : Profile) (raws : List Token)
    (hraws : ∀ raw ∈ raws, raw.text ≠ []) :
    ∀ token ∈ refine profile raws, token.text ≠ [] := by
  induction raws using refine.induct with
  | case1 => exact fun token htoken => absurd htoken List.not_mem_nil
  | case2 raw =>
      intro token htoken
      rw [refine, List.mem_singleton] at htoken
      rw [htoken, refineToken_text]
      exact hraws raw List.mem_cons_self
  | case3 raw next raws hduration ih =>
      intro token htoken
      rw [refine, if_pos hduration] at htoken
      rcases List.mem_cons.mp htoken with rfl | htoken
      · exact List.append_ne_nil_of_left_ne_nil (hraws raw List.mem_cons_self) _
      · exact ih (fun raw h => hraws raw (List.mem_cons_of_mem _ (List.mem_cons_of_mem _ h))) token
          htoken
  | case4 raw next raws hduration ih =>
      intro token htoken
      rw [refine, if_neg hduration] at htoken
      rcases List.mem_cons.mp htoken with rfl | htoken
      · rw [refineToken_text]
        exact hraws raw List.mem_cons_self
      · exact ih (fun raw h => hraws raw (List.mem_cons_of_mem _ h)) token htoken

theorem lex_ne_nil {input : List Char} (htoken : token ∈ lex input profile) : token.text ≠ [] :=
  refine_ne_nil profile _ (fun raw h => (rawTokensFrom_spells _ _ _ raw h).2) token htoken

end Syntax

end Ridl
