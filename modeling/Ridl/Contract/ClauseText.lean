import Ridl.Contract.Clauses
import Ridl.Contract.Environment
import Ridl.Contract.Typing
import Mathlib.Data.List.TakeWhile

/-!
# The Texts of Comparisons

A text of the narrow form is that of one comparison. The comparison symbols of the
text stand in one block, since neither a name nor a number has any of their
characters, and a rendering puts spaces around every operator: so the block is the
operator at the root, and what stands before and behind it are the operands.

The types are needed where the characters are not enough: `5.e3` is a number to
floating-point parsing, and as an expression a field of one, which has no type.

## Main definitions

* `Expr.Compares`: One comparison of a name with a number, in any parentheses.

## Theorems

* `ident_shape`: An identifier is the text of a name or of a truth value.
* `numeral_shape`: A number is the text of a number.
* `compares_of_parse`: A text of the narrow form is of one comparison.
* `parse_of_compares`: A comparison has a text of the narrow form.
-/

namespace Ridl

namespace Contract

open Ridl.Syntax
open Library (Text splitInfix)

namespace Clauses

/-! ### Comparisons -/

def comparisonOf : SyntaxKind → Option ComparisonOp
  | .le => some .le
  | .ge => some .ge
  | .eqEq => some .eq
  | .neq => some .ne
  | .lt => some .lt
  | .gt => some .gt
  | _ => none

/-- What a comparison says of two numbers. -/
def ComparisonOp.holds (op : ComparisonOp) (left right : ExactValue) : Bool :=
  match op with
  | .le => left ≤ right
  | .ge => left ≥ right
  | .eq => left = right
  | .ne => left ≠ right
  | .lt => left < right
  | .gt => left > right

/-- The text of a number. -/
def numeralText (negated : Bool) (literal : Token) : Text :=
  sign negated ++ normalizeLiteral literal.kind literal.text.toList

end Clauses

open Clauses

namespace Expr

/-- A number, in any parentheses and with a sign or none. -/
def IsNumeral (expr : Expr) (negated : Bool) (literal : Token) : Prop :=
  (literal.kind = .intNumber ∨ literal.kind = .floatNumber) ∧
    match negated with
    | false => ∃ range, expr.bare = .literal range (some literal)
    | true => ∃ range op operand inner, expr.bare = .prefixed range (some op) operand ∧
        op.kind = .minus ∧ operand.bare = .literal inner (some literal)

/-- One comparison of a name on the left with a number on the right, in any
    parentheses. -/
def Compares (expr : Expr) (name : Token) (op : ComparisonOp) (negated : Bool)
    (literal : Token) : Prop :=
  ∃ range lhs symbol rhs inner, expr.bare = .binary range lhs (some symbol) rhs ∧
    comparisonOf symbol.kind = some op ∧ lhs.bare = .path inner (some name) ∧
    rhs.IsNumeral negated literal

end Expr

namespace Clauses

/-! ### Characters -/

section Characters

/-- The characters of comparison symbols. -/
def isSymbolChar (c : Char) : Bool := c == '<' || c == '>' || c == '=' || c == '!'

variable {text : Text} {c : Char}

theorem mem_trim (h : c ∈ text) :
    isWhiteSpace c = true ∨ c ∈ trim text := by
  by_cases hspace : isWhiteSpace c = true
  · exact .inl hspace
  · refine .inr ?_
    have hkeep : ∀ list : Text, c ∈ list → c ∈ list.dropWhile isWhiteSpace := by
      intro list hmem
      rw [← List.takeWhile_append_dropWhile (p := isWhiteSpace) (l := list)] at hmem
      rcases List.mem_append.mp hmem with htake | hdrop
      · exact absurd (List.mem_takeWhile_imp htake) hspace
      · exact hdrop
    rw [trim, List.mem_reverse]
    exact hkeep _ (List.mem_reverse.mpr (hkeep _ h))

theorem isIdentifier_iff : isIdentifier text = true ↔
    ∃ first rest, text = first :: rest ∧ (first.isAlpha = true ∨ first = '_') ∧
      ∀ c ∈ rest, c.isAlphanum = true ∨ c = '_' := by
  cases text with
  | nil =>
      refine ⟨fun h => absurd h Bool.false_ne_true, ?_⟩
      rintro ⟨first, rest, h, -⟩
      cases h
  | cons first rest =>
      rw [isIdentifier, Bool.and_eq_true, Bool.or_eq_true, beq_iff_eq, List.all_eq_true]
      simp only [Bool.or_eq_true, beq_iff_eq, List.cons.injEq]
      constructor
      · exact fun h => ⟨first, rest, ⟨rfl, rfl⟩, h⟩
      · rintro ⟨_, _, ⟨rfl, rfl⟩, h⟩
        exact h

theorem isAlphanum_of_identifier (h : isIdentifier text = true) :
    ∀ c ∈ text, c.isAlphanum = true ∨ c = '_' := by
  rcases isIdentifier_iff.mp h with ⟨first, rest, rfl, hfirst, hrest⟩
  intro c hc
  rcases List.mem_cons.mp hc with rfl | hc
  · rcases hfirst with hfirst | hfirst
    · exact .inl (by rw [Char.isAlphanum, hfirst, Bool.true_or])
    · exact .inr hfirst
  · exact hrest c hc

theorem isIdentifier_of_name (h : IsName text) : isIdentifier text = true := by
  rcases h with ⟨first, rest, rfl, hfirst, hrest⟩
  exact isIdentifier_iff.mpr ⟨first, rest, rfl, .inl hfirst, hrest⟩

theorem not_alphanum (hc : c ∈ ['<', '>', '=', '!', '&', '|', '(', ' ', '.', '\"', '-']) :
    ¬ (c.isAlphanum = true ∨ c = '_') := by
  simp only [List.mem_cons, List.not_mem_nil, or_false] at hc
  rcases hc with rfl | rfl | rfl | rfl | rfl | rfl | rfl | rfl | rfl | rfl | rfl <;> decide

theorem isSymbolChar_mem (h : isSymbolChar c = true) : c ∈ ['<', '>', '=', '!'] := by
  simp only [isSymbolChar, Bool.or_eq_true, beq_iff_eq] at h
  simp only [List.mem_cons, List.not_mem_nil, or_false]
  rcases h with ((h | h) | h) | h
  · exact .inl h
  · exact .inr (.inl h)
  · exact .inr (.inr (.inl h))
  · exact .inr (.inr (.inr h))

theorem isSymbolChar_of_name (h : c.isAlphanum = true ∨ c = '_') :
    isSymbolChar c = false := by
  rw [Bool.eq_false_iff]
  intro hsymbol
  refine not_alphanum ?_ h
  exact List.mem_append_left ['&', '|', '(', ' ', '.', '\"', '-'] (isSymbolChar_mem hsymbol)

theorem isSymbolChar_of_space (h : isWhiteSpace c = true) : isSymbolChar c = false := by
  rw [Bool.eq_false_iff]
  intro hsymbol
  have hmem := isSymbolChar_mem hsymbol
  simp only [List.mem_cons, List.not_mem_nil, or_false] at hmem
  rcases hmem with rfl | rfl | rfl | rfl <;> exact absurd h (by decide)

theorem isSymbolChar_of_number (h : isNumberChar c = true) :
    isSymbolChar c = false := by
  rw [Bool.eq_false_iff]
  intro hsymbol
  have hmem := isSymbolChar_mem hsymbol
  simp only [List.mem_cons, List.not_mem_nil, or_false] at hmem
  rcases hmem with rfl | rfl | rfl | rfl <;> exact absurd h (by decide)

end Characters

/-! ### Numbers -/

section Numbers

variable {text : Text} {c : Char}

theorem isNumber_iff : isNumber text = true ↔
    text ≠ [] ∧ (∀ c ∈ text, isNumberChar c = true) ∧ parsesAsFloat text = true := by
  rw [isNumber, Bool.and_eq_true, Bool.and_eq_true, List.all_eq_true, Bool.not_eq_true',
    List.isEmpty_eq_false_iff, and_assoc]

theorem isMantissa_head (h : isMantissa text = true) :
    ∃ c rest, text = c :: rest ∧ (c.isDigit = true ∨ c = '.') := by
  cases text with
  | nil => exact absurd h (by decide)
  | cons c rest =>
      refine ⟨c, rest, rfl, ?_⟩
      by_cases hc : c = '.'
      · exact .inr hc
      refine .inl ?_
      unfold isMantissa at h
      by_cases hdot : '.' ∈ c :: rest
      · rcases List.eq_append_cons_of_mem hdot with ⟨int, frac, heq, hfirst⟩
        rw [heq, splitOnce_append hfirst, Option.getD_some] at h
        simp only [Bool.and_eq_true, List.all_eq_true] at h
        cases int with
        | nil => exact absurd (List.cons.inj heq).1 hc
        | cons d int =>
            rw [(List.cons.inj heq).1]
            exact h.1.1 d List.mem_cons_self
      · rw [splitOnce_of_not_mem hdot, Option.getD_none] at h
        simp only [Bool.and_eq_true, List.all_eq_true] at h
        exact h.1.1 c List.mem_cons_self

theorem parsesAsFloat_head (h : parsesAsFloat text = true) :
    ∃ c rest, stripSign text = c :: rest ∧ (c.isDigit = true ∨ c = '.') := by
  unfold parsesAsFloat at h
  dsimp only at h
  split at h
  · exact isMantissa_head h
  · simp only [Bool.and_eq_true] at h
    rcases isMantissa_head h.1.1 with ⟨c, rest, htake, hc⟩
    have hprefix := List.takeWhile_prefix (fun c => !isExponentMark c) (l := stripSign text)
    rw [htake] at hprefix
    rcases hprefix with ⟨back, hback⟩
    exact ⟨c, rest ++ back, hback.symm, hc⟩

theorem not_isDigit_of_alpha (hc : c.isAlpha = true) : c.isDigit = false := by
  rw [Bool.eq_false_iff]
  intro hdigit
  have hletter := Library.toNat_of_isAlpha hc
  have hrange := Library.toNat_of_isDigit hdigit
  omega

theorem not_parsesAsFloat_of_name (hc : c.isAlpha = true) (rest : Text) :
    parsesAsFloat (c :: rest) = false := by
  have hdigit := not_isDigit_of_alpha hc
  have hne : ∀ d : Char, d.isAlpha = false → c ≠ d := by
    rintro d hd rfl
    rw [hc] at hd
    cases hd
  rw [Bool.eq_false_iff]
  intro h
  rcases parsesAsFloat_head h with ⟨d, rest', hstrip, hd⟩
  have hsame : stripSign (c :: rest) = c :: rest := by
    unfold stripSign
    split
    · rename_i heq
      exact absurd (List.cons.inj heq).1 (hne '+' rfl)
    · rename_i heq
      exact absurd (List.cons.inj heq).1 (hne '-' rfl)
    · rfl
  rw [hsame] at hstrip
  rw [← (List.cons.inj hstrip).1] at hd
  rcases hd with hd | hd
  · exact absurd (hdigit.symm.trans hd) Bool.false_ne_true
  · exact hne '.' rfl hd

theorem isMantissa_body (l : Literal) : isMantissa l.body = true := by
  have hint : '.' ∉ l.int := not_mem_of_digits rfl l.int_digits
  have hne : (l.int ++ l.frac).isEmpty = false := by
    rw [List.isEmpty_eq_false_iff]
    exact fun h => l.int_ne_nil (List.append_eq_nil_iff.mp h).1
  have hints : l.int.all Char.isDigit = true := List.all_eq_true.mpr l.int_digits
  have hfracs : l.frac.all Char.isDigit = true := List.all_eq_true.mpr l.frac_digits
  rw [isMantissa, Literal.body]
  by_cases hfrac : l.frac = []
  · rw [hfrac, List.append_nil] at hne
    rw [if_pos hfrac, List.append_nil, splitOnce_of_not_mem hint]
    simp only [Option.getD_none, List.append_nil, hints, hne, List.all_nil, Bool.not_false,
      Bool.and_self]
  · rw [if_neg hfrac, splitOnce_append hint]
    simp only [Option.getD_some, hints, hfracs, hne, Bool.not_false, Bool.and_self]

theorem stripSign_text (l : Literal) : stripSign l.text = l.body := by
  rw [Literal.text]
  cases l.negative with
  | true => rfl
  | false =>
      show stripSign l.body = l.body
      rcases exists_head l.isNumber with ⟨c, rest, hbody, hc⟩
      rw [hbody]
      unfold stripSign
      split
      · rename_i heq
        rw [(List.cons.inj heq).1] at hc
        cases hc
      · rename_i heq
        rw [(List.cons.inj heq).1] at hc
        cases hc
      · rfl

theorem isNumberChar_of_digit (h : c.isDigit = true ∨ c = '.') :
    isNumberChar c = true ∧ isExponentMark c = false := by
  rcases h with h | rfl
  · refine ⟨by simp only [isNumberChar, h, Bool.true_or], ?_⟩
    rw [Bool.eq_false_iff]
    intro hmark
    simp only [isExponentMark, Bool.or_eq_true, beq_iff_eq] at hmark
    rcases hmark with rfl | rfl <;> cases h
  · exact ⟨by decide, by decide⟩

theorem isNumber_text (l : Literal) : isNumber l.text = true := by
  have hbody : ∀ c ∈ l.body, isNumberChar c = true ∧ isExponentMark c = false :=
    fun c hc => isNumberChar_of_digit (number_forall_mem l.isNumber c hc)
  refine isNumber_iff.mpr ⟨?_, fun c hc => ?_, ?_⟩
  · rw [Literal.text]
    exact fun h => l.body_ne_nil (List.append_eq_nil_iff.mp h).2
  · rw [Literal.text] at hc
    rcases List.mem_append.mp hc with hsign | hc
    · cases hneg : l.negative with
      | false =>
          rw [hneg] at hsign
          cases hsign
      | true =>
          rw [hneg] at hsign
          rw [List.mem_singleton.mp hsign]
          decide
    · exact (hbody c hc).1
  · have hmarks : l.body.dropWhile (fun c => !isExponentMark c) = [] := by
      rw [List.dropWhile_eq_nil_iff]
      intro c hc
      rw [(hbody c hc).2]
      rfl
    rw [parsesAsFloat, stripSign_text]
    dsimp only
    rw [hmarks]
    exact isMantissa_body l

theorem literalMatches_text (l : Literal) {scalar : ScalarClass}
    (hscalar : scalar = .integer ∨ scalar = .float) :
    literalMatches l.text scalar = true ↔ l.frac = [] ∨ scalar = .float := by
  rcases hscalar with rfl | rfl
  · have hmark : ∀ c ∈ l.text, isExponentMark c = false := by
      intro c hc
      rw [Literal.text] at hc
      rcases List.mem_append.mp hc with hsign | hc
      · cases hneg : l.negative with
        | false =>
            rw [hneg] at hsign
            cases hsign
        | true =>
            rw [hneg] at hsign
            rw [List.mem_singleton.mp hsign]
            decide
      · exact (isNumberChar_of_digit (number_forall_mem l.isNumber c hc)).2
    have hpoint := l.point_mem_text
    rw [literalMatches, Bool.not_eq_true', List.any_eq_false]
    constructor
    · intro h
      refine .inl (by_contra fun hfrac => h '.' (hpoint.mpr hfrac) rfl)
    · rintro (hfrac | hfloat) c hc
      · have hc' := hmark c hc
        simp only [isExponentMark, Bool.or_eq_false_iff, beq_eq_false_iff_ne] at hc'
        simp only [Bool.or_eq_true, beq_iff_eq, hc'.1, hc'.2, or_false]
        rintro rfl
        exact hpoint.mp hc hfrac
      · cases hfloat
  · exact ⟨fun _ => .inr rfl, fun _ => rfl⟩

end Numbers

/-! ### The shape of operands -/

section Shapes

theorem mem_wrapped {c : Char} {text : Text} (h : c ∈ text) (wrap : Bool) :
    c ∈ wrapped wrap text := by
  cases wrap with
  | false => exact h
  | true => exact List.mem_append_left _ (List.mem_cons_of_mem _ h)

theorem parenthesis_mem_wrapped (text : Text) : '(' ∈ wrapped true text := List.mem_cons_self

theorem space_mem_render_binary {range : TextRange} {lhs rhs : Expr} (found : Token) (min : Nat) :
    ' ' ∈ render (.binary range lhs (some found) rhs) min :=
  mem_wrapped (List.mem_append_right _ List.mem_cons_self) _

theorem not_name_of_number {number : Text} (h : IsInteger number ∨ IsDecimal number)
    (rest : Text) :
    ∃ c front, number ++ rest = c :: front ∧ ¬ (c.isAlpha = true ∨ c = '_') := by
  rcases exists_head h with ⟨c, front, rfl, hc⟩
  refine ⟨c, front ++ rest, rfl, ?_⟩
  rintro (halpha | rfl)
  · exact absurd ((not_isDigit_of_alpha halpha).symm.trans hc) Bool.false_ne_true
  · cases hc

theorem literal_head {token : Token} (h : token.IsLiteral) :
    token.kind = .trueKw ∨ token.kind = .falseKw ∨
      ∃ c front, normalizeLiteral token.kind token.text.toList = c :: front ∧
        ¬ (c.isAlpha = true ∨ c = '_') := by
  rcases normalizeLiteral_cases h with
    ⟨l, -, hsign, htext⟩ | ⟨-, hduration⟩ | ⟨hkind, -⟩ | ⟨-, content, hstring⟩
  · rw [htext, l.text_unsigned hsign]
    rcases not_name_of_number l.isNumber [] with ⟨c, front, heq, hc⟩
    rw [List.append_nil] at heq
    exact .inr (.inr ⟨c, front, heq, hc⟩)
  · rcases hduration with ⟨number, hnumber, unit, -, heq⟩
    rw [heq]
    exact .inr (.inr (not_name_of_number hnumber unit.toList))
  · rcases hkind with hkind | hkind
    · exact .inl hkind
    · exact .inr (.inl hkind)
  · rw [hstring]
    exact .inr (.inr ⟨_, _, rfl, by decide⟩)

variable {expr : Expr} {min : Nat} {scope : ContractScope}

theorem ident_shape (h : expr.Parsed) (hident : isIdentifier (render expr min) = true) :
    (∃ range name, expr.bare = .path range (some name) ∧ name.text.toList = render expr min) ∨
      ∃ range token, expr.bare = .literal range (some token) ∧
        (token.kind = .trueKw ∨ token.kind = .falseKw) := by
  have hchars := isAlphanum_of_identifier hident
  rcases isIdentifier_iff.mp hident with ⟨first, rest, hfirst, hname, -⟩
  have hparsed := h.bare
  rw [← render_bare] at hchars hfirst ⊢
  cases hbare : expr.bare with
  | missing =>
      rw [hbare] at hparsed
      exact hparsed.elim
  | paren range inner =>
      exact absurd hbare (expr.bare_ne_paren range inner)
  | literal range token =>
      rw [hbare] at hparsed hfirst
      rcases hparsed with ⟨found, rfl, hliteral⟩
      refine .inr ⟨range, found, rfl, ?_⟩
      rcases literal_head hliteral with hkind | hkind | ⟨c, front, heq, hc⟩
      · exact .inl hkind
      · exact .inr hkind
      · have hsame : first = c := by
          have hcons : normalizeLiteral found.kind found.text.toList = first :: rest := hfirst
          rw [heq] at hcons
          exact (List.cons.inj hcons).1.symm
        exact absurd (hsame ▸ hname) hc
  | path range name =>
      rw [hbare] at hparsed hchars
      rcases hparsed with ⟨found, rfl, -⟩
      refine .inl ⟨range, found, rfl, ?_⟩
      rw [render]
      cases hwrap : (decide (PRIMARY_PRECEDENCE < min)) with
      | false => rfl
      | true =>
          rw [render, hwrap] at hchars
          exact absurd (hchars '(' (parenthesis_mem_wrapped _)) (not_alphanum (by decide))
  | prefixed range op operand =>
      rw [hbare] at hparsed hchars
      rcases hparsed with ⟨⟨found, rfl, hop⟩, -⟩
      have hsymbol : '!' ∈ found.text.toList ∨ '-' ∈ found.text.toList := by
        simp only [prefixOperators, List.mem_cons, Prod.mk.injEq, List.not_mem_nil,
          or_false] at hop
        rcases hop with ⟨-, htext⟩ | ⟨-, htext⟩ <;> rw [htext]
        · exact .inl List.mem_cons_self
        · exact .inr List.mem_cons_self
      rcases hsymbol with hsymbol | hsymbol <;>
        exact absurd (hchars _ (mem_wrapped (List.mem_append_left _ hsymbol) _))
          (not_alphanum (by decide))
  | member range base name =>
      rw [hbare] at hchars
      have hdot : '.' ∈ render (.member range base name) min :=
        mem_wrapped (List.mem_append_right _ List.mem_cons_self) _
      exact absurd (hchars '.' hdot) (not_alphanum (by decide))
  | binary range lhs op rhs =>
      rw [hbare] at hparsed hchars
      rcases hparsed with ⟨-, ⟨found, rfl, -⟩, -⟩
      exact absurd (hchars ' ' (space_mem_render_binary found min)) (not_alphanum (by decide))

/-- Only a name is a tuple. -/
theorem bare_path_of_tuple {encoded : String} (h : (infer scope expr).1 = some (.tuple encoded)) :
    ∃ range token, expr.bare = .path range (some token) := by
  rw [← infer_bare] at h
  cases hbare : expr.bare with
  | missing =>
      rw [hbare] at h
      cases h
  | paren range inner => exact absurd hbare (expr.bare_ne_paren range inner)
  | literal range token =>
      rw [hbare] at h
      cases token with
      | none => cases h
      | some token =>
          simp only [infer, inferLiteral] at h
          split at h <;> cases h
  | path range name =>
      rw [hbare] at h
      rcases inferPath_eq_some h with ⟨found, rfl, -⟩
      exact ⟨range, found, rfl⟩
  | prefixed range op operand =>
      rw [hbare] at h
      simp only [infer, inferPrefix] at h
      split at h
      · split at h
        · split_ifs at h
          cases h
        · split at h
          · cases h
          · cases h
        · cases h
      · cases h
  | member range base name =>
      rw [hbare] at h
      rcases inferMember_eq_some h with
        ⟨-, token, -, ⟨-, declared, -, -, htype⟩ | ⟨-, inner, -, hfield, -⟩⟩
      · cases htype
      · exact absurd hfield (ExprType.tupleField_ne_tuple inner token.text encoded)
  | binary range lhs op rhs =>
      rw [hbare] at h
      rcases inferBinary_eq_some h with ⟨token, left, right, -, -, -, htype⟩
      by_cases hshort : isShortCircuit token.kind = true
      · cases (inferOperator_connective hshort htype).2.2
      · rw [Bool.not_eq_true] at hshort
        by_cases harith : token.kind ∈ [SyntaxKind.plus, .minus, .star, .slash, .percent]
        · rcases inferOperator_arithmetic harith htype with ⟨reference, backing, -, heq, -⟩
          cases heq
        · cases (inferOperator_comparison hshort harith htype).1

/-- What is not a number of the characters of one starts as a name does, or with a
    sign. -/
theorem unsigned_shape (h : expr.Parsed) {type : ExprType}
    (htype : (infer scope expr).1 = some type)
    (hchars : ∀ c ∈ render expr min, isNumberChar c = true)
    (hhead : ∀ c rest, render expr min = c :: rest → c.isAlpha = false) :
    (∃ range token, expr.bare = .literal range (some token) ∧
        (token.kind = .intNumber ∨ token.kind = .floatNumber)) ∨
      ∃ range op operand, expr.bare = .prefixed range (some op) operand ∧ op.kind = .minus ∧
        render expr min = '-' :: render operand POSTFIX_PRECEDENCE := by
  have hparsed := h.bare
  have hopen (text : Text) (wrap : Bool) (hall : ∀ c ∈ wrapped wrap text, isNumberChar c = true) :
      wrapped wrap text = text := by
    cases wrap with
    | false => rfl
    | true => exact absurd (hall '(' (parenthesis_mem_wrapped text)) (by decide)
  rw [← render_bare] at hchars hhead ⊢
  rw [← infer_bare] at htype
  cases hbare : expr.bare with
  | missing =>
      rw [hbare] at hparsed
      exact hparsed.elim
  | paren range inner => exact absurd hbare (expr.bare_ne_paren range inner)
  | literal range token =>
      rw [hbare] at hparsed hchars
      rcases hparsed with ⟨found, rfl, hliteral⟩
      refine .inl ⟨range, found, rfl, ?_⟩
      have hwritten : ∀ c ∈ normalizeLiteral found.kind found.text.toList,
          isNumberChar c = true := hchars
      rcases normalizeLiteral_cases hliteral with
        ⟨l, hkind, -⟩ | ⟨-, hduration⟩ | ⟨-, hword⟩ | ⟨-, content, hstring⟩
      · exact hkind
      · rcases hduration with ⟨number, -, unit, hunit, heq⟩
        simp only [TIME_UNITS, List.map_cons, List.map_nil, List.mem_cons, List.not_mem_nil,
          or_false] at hunit
        -- Each unit ends in a letter that no number has.
        have hlast : ∃ c ∈ unit.toList, isNumberChar c = false := by
          rcases hunit with rfl | rfl | rfl | rfl | rfl
          · exact ⟨'s', by decide, by decide⟩
          · exact ⟨'s', by decide, by decide⟩
          · exact ⟨'n', by decide, by decide⟩
          · exact ⟨'s', by decide, by decide⟩
          · exact ⟨'h', by decide, by decide⟩
        rcases hlast with ⟨c, hc, hnot⟩
        have hyes := hwritten c (heq ▸ List.mem_append_right number hc)
        exact absurd (hnot.symm.trans hyes) Bool.false_ne_true
      · simp only [List.mem_cons, List.not_mem_nil, or_false] at hword
        rcases hword with hword | hword
        · exact absurd (hwritten 't' (hword ▸ by decide)) (by decide)
        · exact absurd (hwritten 'f' (hword ▸ by decide)) (by decide)
      · exact absurd (hwritten '\"' (hstring ▸ List.mem_cons_self)) (by decide)
  | path range name =>
      rw [hbare] at hparsed hchars hhead
      rcases hparsed with ⟨found, rfl, first, rest, htext, hfirst, -⟩
      have hrender := hopen _ _ hchars
      have halpha := hhead first rest (hrender.trans htext)
      exact absurd (halpha.symm.trans hfirst) Bool.false_ne_true
  | prefixed range op operand =>
      rw [hbare] at hparsed hchars
      rcases hparsed with ⟨⟨found, rfl, hop⟩, -⟩
      have hrender := hopen _ _ hchars
      simp only [prefixOperators, List.mem_cons, Prod.mk.injEq, List.not_mem_nil,
        or_false] at hop
      rcases hop with ⟨-, htext⟩ | ⟨hkind, htext⟩
      · have hmem : '!' ∈ found.text.toList := htext ▸ List.mem_cons_self
        exact absurd (hchars '!' (mem_wrapped (List.mem_append_left _ hmem) _)) (by decide)
      · refine .inr ⟨range, found, operand, rfl, hkind, ?_⟩
        rw [htext] at hrender
        rw [render, htext]
        exact hrender
  | member range base name =>
      rw [hbare] at hparsed hchars hhead htype
      rcases hparsed with ⟨hbase, -⟩
      have hrender := hopen _ _ hchars
      have hpath : ∃ range token, base.bare = .path range (some token) := by
        rcases inferMember_eq_some htype with
          ⟨-, token, -, ⟨-, declared, hdeclared, -⟩ | ⟨-, encoded, hencoded, -⟩⟩
        · rcases enumTypeHead_eq_some hdeclared with ⟨range, head, rfl, -⟩
          exact ⟨range, head, rfl⟩
        · exact bare_path_of_tuple hencoded
      rcases hpath with ⟨pathRange, token, hbasePath⟩
      have hname := hbase.bare
      rw [hbasePath] at hname
      rcases hname with ⟨found, hfound, first, rest, htext, hfirst, -⟩
      cases hfound
      have hbaseText : render base POSTFIX_PRECEDENCE = first :: rest := by
        rw [← render_bare, hbasePath]
        exact htext
      have hwhole : render (.member range base name) min =
          first :: (rest ++ '.' :: tokenText name) := by
        rw [render, hrender, hbaseText, List.cons_append]
      have halpha := hhead first _ hwhole
      exact absurd (halpha.symm.trans hfirst) Bool.false_ne_true
  | binary range lhs op rhs =>
      rw [hbare] at hparsed hchars
      rcases hparsed with ⟨-, ⟨found, rfl, -⟩, -⟩
      exact absurd (hchars ' ' (space_mem_render_binary found min)) (by decide)

theorem numeral_shape (h : expr.Parsed) {type : ExprType} (htype : (infer scope expr).1 = some type)
    (hnumber : isNumber (render expr min) = true) :
    ∃ negated literal, expr.IsNumeral negated literal ∧
      render expr min = numeralText negated literal := by
  rcases isNumber_iff.mp hnumber with ⟨-, hchars, hfloat⟩
  have hhead : ∀ c rest, render expr min = c :: rest → c.isAlpha = false := by
    intro c rest heq
    rw [Bool.eq_false_iff]
    intro halpha
    rw [heq, not_parsesAsFloat_of_name halpha] at hfloat
    cases hfloat
  rcases unsigned_shape h htype hchars hhead with
    ⟨range, token, hbare, hkind⟩ | ⟨range, op, operand, hbare, hop, hrender⟩
  · refine ⟨false, token, ⟨hkind, range, hbare⟩, ?_⟩
    rw [← render_bare, hbare]
    rfl
  · -- What is behind the sign starts with a digit or a point.
    rw [hrender] at hchars hfloat
    rcases parsesAsFloat_head hfloat with ⟨d, back, hd, hdigit⟩
    have hstrip : render operand POSTFIX_PRECEDENCE = d :: back := hd
    have hoperand : operand.Parsed ∧ ∃ found, (infer scope operand).1 = some found := by
      have hparsed := h.bare
      rw [hbare] at hparsed
      rw [← infer_bare, hbare] at htype
      rcases inferPrefix_eq_some htype with ⟨-, found, -, hfound⟩
      exact ⟨hparsed.2, found, hfound⟩
    rcases hoperand with ⟨hparsed, found, hfound⟩
    have hfirst : ∀ c rest, render operand POSTFIX_PRECEDENCE = c :: rest → c.isAlpha = false := by
      intro c rest heq
      rw [hstrip] at heq
      rw [← (List.cons.inj heq).1, Bool.eq_false_iff]
      intro halpha
      rcases hdigit with hdigit | rfl
      · exact absurd ((not_isDigit_of_alpha halpha).symm.trans hdigit) Bool.false_ne_true
      · cases halpha
    rcases unsigned_shape hparsed hfound
        (fun c hc => hchars c (List.mem_cons_of_mem _ hc)) hfirst with
      ⟨inner, token, hinner, hkind⟩ | ⟨_, _, _, _, _, hminus⟩
    · refine ⟨true, token, ⟨hkind, range, op, operand, inner, hbare, hop, hinner⟩, ?_⟩
      rw [hrender, ← render_bare, hinner]
      rfl
    · rw [hstrip] at hminus
      rw [(List.cons.inj hminus).1] at hdigit
      rcases hdigit with hdigit | hdigit <;> cases hdigit

/-- A number has a numeric type. -/
theorem infer_numeral (scope : ContractScope) {negated : Bool} {literal : Token}
    (h : expr.IsNumeral negated literal) :
    ∃ backing, (infer scope expr).1 = some (.numeric "" backing) := by
  have hliteral : ∃ backing, (inferLiteral (some literal)).1 = some (.numeric "" backing) := by
    rcases h.1 with hkind | hkind <;> simp only [inferLiteral, hkind]
    · exact ⟨.integer, rfl⟩
    · exact ⟨.float, rfl⟩
  rcases hliteral with ⟨backing, hbacking⟩
  refine ⟨backing, ?_⟩
  rw [← infer_bare]
  cases negated with
  | false =>
      rcases h.2 with ⟨range, hbare⟩
      rw [hbare]
      exact hbacking
  | true =>
      rcases h.2 with ⟨range, op, operand, inner, hbare, hop, hinner⟩
      have hoperand : (infer scope operand).1 = some (.numeric "" backing) := by
        rw [← infer_bare, hinner]
        exact hbacking
      rw [hbare, infer]
      generalize infer scope operand = inferred at hoperand ⊢
      rcases inferred with ⟨type, reported⟩
      cases hoperand
      simp only [inferPrefix, hop]

end Shapes

/-! ### Texts and comparisons -/

section Texts

theorem symbol_chars {symbol : Text} {op : ComparisonOp} (h : (symbol, op) ∈ comparisons) :
    symbol ≠ [] ∧ ∀ c ∈ symbol, isSymbolChar c = true := by
  simp only [comparisons, List.mem_cons, Prod.mk.injEq, List.not_mem_nil, or_false] at h
  rcases h with ⟨rfl, -⟩ | ⟨rfl, -⟩ | ⟨rfl, -⟩ | ⟨rfl, -⟩ | ⟨rfl, -⟩ | ⟨rfl, -⟩ <;>
    exact ⟨List.cons_ne_nil _ _, List.all_iff_forall_prop.mp (by decide)⟩

theorem comparisonOf_iff {kind : SyntaxKind} {symbol : Text}
    (hop : (kind, symbol) ∈ binaryOperators) (op : ComparisonOp) : comparisonOf kind = some op ↔ (symbol, op) ∈ comparisons := by
  simp only [binaryOperators, List.mem_cons, Prod.mk.injEq, List.not_mem_nil, or_false] at hop
  rcases hop with ⟨rfl, rfl⟩ | ⟨rfl, rfl⟩ | ⟨rfl, rfl⟩ | ⟨rfl, rfl⟩ | ⟨rfl, rfl⟩ | ⟨rfl, rfl⟩ |
    ⟨rfl, rfl⟩ | ⟨rfl, rfl⟩ | ⟨rfl, rfl⟩ | ⟨rfl, rfl⟩ | ⟨rfl, rfl⟩ | ⟨rfl, rfl⟩ | ⟨rfl, rfl⟩ <;>
    cases op <;> decide

theorem trim_head {c : Char} (hc : isWhiteSpace c = false) (text : Text) :
    ∃ rest, trim (c :: text) = c :: rest := by
  have hnot : ¬ isWhiteSpace c = true := by rw [hc]; exact Bool.false_ne_true
  have hdrop : ∀ list : Text,
      (list ++ [c]).dropWhile isWhiteSpace = list.dropWhile isWhiteSpace ++ [c] := by
    intro list
    induction list with
    | nil => exact List.dropWhile_cons_of_neg hnot
    | cons d list ih =>
        by_cases hd : isWhiteSpace d = true
        · rw [List.cons_append, List.dropWhile_cons_of_pos hd, List.dropWhile_cons_of_pos hd, ih]
        · rw [List.cons_append, List.dropWhile_cons_of_neg hd, List.dropWhile_cons_of_neg hd]
          rfl
  refine ⟨(text.reverse.dropWhile isWhiteSpace).reverse, ?_⟩
  rw [trim, List.dropWhile_cons_of_neg hnot, List.reverse_cons, hdrop, List.reverse_append]
  rfl

/-- A text of the narrow form, around its symbol. -/
structure Narrow (text front symbol back : Text) (op : ComparisonOp) : Prop where
  text_eq : text = front ++ (symbol ++ back)
  symbol_mem : (symbol, op) ∈ comparisons
  identifier : isIdentifier (trim front) = true
  number : isNumber (trim back) = true

theorem narrow_of_parse {source subject literal : Text} {op : ComparisonOp}
    (hsource : Trimmed source) (h : parse source = .ok (subject, op, literal)) :
    ∃ front symbol back, Narrow source front symbol back op ∧ subject = trim front ∧
      literal = trim back := by
  rw [parse, hsource.trim_eq] at h
  dsimp only at h
  split at h
  next left found right hfound =>
    split_ifs at h with haccepted
    cases h
    rw [Bool.and_eq_true] at haccepted
    rcases List.exists_of_findSome?_eq_some hfound with ⟨⟨symbol, found⟩, hmem, hsplit⟩
    rcases Option.map_eq_some_iff.mp hsplit with ⟨⟨front, back⟩, hcut, heq⟩
    cases heq
    refine ⟨front, symbol, back, ⟨?_, hmem, haccepted.1, haccepted.2⟩, rfl, rfl⟩
    rw [Library.splitInfix_eq_some hcut, List.append_assoc]
  next => cases h

namespace Narrow

variable {text front symbol back : Text} {op : ComparisonOp}

theorem front_kinds (h : Narrow text front symbol back op) :
    ∀ c ∈ front, isWhiteSpace c = true ∨ c.isAlphanum = true ∨ c = '_' := by
  intro c hc
  rcases mem_trim hc with hspace | hmem
  · exact .inl hspace
  · exact .inr (isAlphanum_of_identifier h.identifier c hmem)

theorem back_kinds (h : Narrow text front symbol back op) :
    ∀ c ∈ back, isWhiteSpace c = true ∨ isNumberChar c = true := by
  intro c hc
  rcases mem_trim hc with hspace | hmem
  · exact .inl hspace
  · exact .inr ((isNumber_iff.mp h.number).2.1 c hmem)

theorem front_chars (h : Narrow text front symbol back op) :
    ∀ c ∈ front, isSymbolChar c = false := by
  intro c hc
  rcases h.front_kinds c hc with hspace | hname
  · exact isSymbolChar_of_space hspace
  · exact isSymbolChar_of_name hname

theorem back_chars (h : Narrow text front symbol back op) :
    ∀ c ∈ back, isSymbolChar c = false := by
  intro c hc
  rcases h.back_kinds c hc with hspace | hnumber
  · exact isSymbolChar_of_space hspace
  · exact isSymbolChar_of_number hnumber

theorem kinds (h : Narrow text front symbol back op) :
    ∀ c ∈ text, isWhiteSpace c = true ∨ (c.isAlphanum = true ∨ c = '_') ∨
      isSymbolChar c = true ∨ isNumberChar c = true := by
  intro c hc
  rw [h.text_eq] at hc
  rcases List.mem_append.mp hc with hc | hc
  · rcases h.front_kinds c hc with hspace | hname
    · exact .inl hspace
    · exact .inr (.inl hname)
  · rcases List.mem_append.mp hc with hc | hc
    · exact .inr (.inr (.inl ((symbol_chars h.symbol_mem).2 c hc)))
    · rcases h.back_kinds c hc with hspace | hnumber
      · exact .inl hspace
      · exact .inr (.inr (.inr hnumber))

theorem not_plain (h : Narrow text front symbol back op)
    (hplain : ∀ c ∈ text, isSymbolChar c = false) : False := by
  rcases symbol_chars h.symbol_mem with ⟨hne, hchars⟩
  rcases List.exists_mem_of_ne_nil symbol hne with ⟨c, hc⟩
  have hmem : c ∈ text := by
    rw [h.text_eq]
    exact List.mem_append_right front (List.mem_append_left back hc)
  exact Bool.false_ne_true ((hplain c hmem).symm.trans (hchars c hc))

theorem head (h : Narrow text front symbol back op) (htext : Trimmed text) {c : Char}
    {rest : Text} (hc : text = c :: rest) : c.isAlpha = true ∨ c = '_' := by
  rcases htext.first with ⟨d, tail, hd, hspace⟩
  rw [hc] at hd
  rw [← (List.cons.inj hd).1] at hspace
  have heq := h.text_eq
  have hident := h.identifier
  cases front with
  | nil => cases hident
  | cons e front =>
      rw [hc, List.cons_append] at heq
      rw [← (List.cons.inj heq).1] at hident
      rcases trim_head hspace front with ⟨after, hafter⟩
      rw [hafter] at hident
      rcases isIdentifier_iff.mp hident with ⟨first, others, hfirst, hname, -⟩
      rw [(List.cons.inj hfirst).1]
      exact hname

end Narrow

theorem comparison_of_boolean {range : TextRange} {token : Token} {lhs rhs : ExprType}
    (h : (inferOperator range token lhs rhs).1 = some .boolean) :
    isShortCircuit token.kind = true ∨
      ∃ op, comparisonOf token.kind = some op ∧ precedence token.kind = 3 ∧
        (unifies lhs rhs = true ∨ isOrdered lhs rhs = true) := by
  by_cases hshort : isShortCircuit token.kind = true
  · exact .inl hshort
  rw [Bool.not_eq_true] at hshort
  by_cases harith : token.kind ∈ [SyntaxKind.plus, .minus, .star, .slash, .percent]
  · rcases inferOperator_arithmetic harith h with ⟨reference, backing, -, heq, -⟩
    cases heq
  · rcases (inferOperator_comparison hshort harith h).2 with ⟨hkind, htypes⟩ | ⟨hkind, htypes⟩
    · rcases hkind with hkind | hkind <;> rw [hkind]
      · exact .inr ⟨.eq, rfl, rfl, .inl htypes⟩
      · exact .inr ⟨.ne, rfl, rfl, .inl htypes⟩
    · rcases hkind with hkind | hkind | hkind | hkind <;> rw [hkind]
      · exact .inr ⟨.lt, rfl, rfl, .inr htypes⟩
      · exact .inr ⟨.le, rfl, rfl, .inr htypes⟩
      · exact .inr ⟨.gt, rfl, rfl, .inr htypes⟩
      · exact .inr ⟨.ge, rfl, rfl, .inr htypes⟩

/-- No literal has a text of the narrow form: a truth value has no symbol, and the others
    do not start as a name does. -/
theorem not_narrow_literal {token : Token} (h : token.IsLiteral) {front symbol back : Text}
    {op : ComparisonOp} :
    ¬ Narrow (normalizeLiteral token.kind token.text.toList) front symbol back op := by
  intro hnarrow
  rcases literal_head h with hkind | hkind | ⟨d, rest, heq, hd⟩
  · rw [Token.IsLiteral, hkind] at h
    rw [hkind, normalizeLiteral_other (by decide) (by decide), h] at hnarrow
    exact hnarrow.not_plain (List.all_iff_forall_prop.mp (by decide))
  · rw [Token.IsLiteral, hkind] at h
    rw [hkind, normalizeLiteral_other (by decide) (by decide), h] at hnarrow
    exact hnarrow.not_plain (List.all_iff_forall_prop.mp (by decide))
  · exact hd (hnarrow.head (trimmed_literal h) heq)

variable {scope : ContractScope} {expr : Expr} {negated : Bool} {literal : Token}

/-- No field of a tuple has one: it is two names. -/
theorem not_narrow_field {base : Expr} (hbase : base.Parsed)
    {encoded : String} (htuple : (infer scope base).1 = some (.tuple encoded))
    {name front symbol back : Text} (hname : IsName name) {op : ComparisonOp} :
    ¬ Narrow (render base POSTFIX_PRECEDENCE ++ '.' :: name) front symbol back op := by
  intro hnarrow
  rcases bare_path_of_tuple htuple with ⟨range, token, hpath⟩
  have hparsed := hbase.bare
  rw [hpath] at hparsed
  rcases hparsed with ⟨head, hhead, hheadName⟩
  cases hhead
  have hbaseText : render base POSTFIX_PRECEDENCE = token.text.toList := by
    rw [← render_bare, hpath]
    rfl
  rw [hbaseText] at hnarrow
  refine hnarrow.not_plain fun c hc => ?_
  rcases List.mem_append.mp hc with hc | hc
  · exact isSymbolChar_of_name (hheadName.forall_mem c hc)
  · rcases List.mem_cons.mp hc with rfl | hc
    · decide
    · exact isSymbolChar_of_name (hname.forall_mem c hc)

theorem binary_of_narrow (h : expr.Parsed)
    (htype : (infer scope expr).1 = some .boolean) {front symbol back : Text}
    {op : ComparisonOp} (hnarrow : Narrow (render expr 0) front symbol back op) :
    ∃ range lhs found rhs, expr.bare = .binary range lhs (some found) rhs := by
  have hparsed := h.bare
  rw [← render_bare] at hnarrow
  rw [← infer_bare] at htype
  cases hbare : expr.bare with
  | missing =>
      rw [hbare] at hparsed
      exact hparsed.elim
  | paren range inner => exact absurd hbare (expr.bare_ne_paren range inner)
  | literal range token =>
      rw [hbare] at hparsed hnarrow
      rcases hparsed with ⟨found, rfl, hspelled⟩
      exact absurd hnarrow (not_narrow_literal hspelled)
  | path range name =>
      rw [hbare] at hparsed hnarrow
      rcases hparsed with ⟨found, rfl, hname⟩
      exact (hnarrow.not_plain fun c hc => isSymbolChar_of_name (hname.forall_mem c hc)).elim
  | prefixed range op operand =>
      rw [hbare] at hparsed hnarrow
      have htrimmed := trimmed_render hparsed 0
      rcases hparsed with ⟨⟨found, rfl, hop⟩, -⟩
      have hhead : ∀ (c : Char) (rest : Text),
          render (.prefixed range (some found) operand) 0 = c :: rest →
            c.isAlpha = true ∨ c = '_' := fun c rest heq => hnarrow.head htrimmed heq
      simp only [prefixOperators, List.mem_cons, Prod.mk.injEq, List.not_mem_nil, or_false] at hop
      rcases hop with ⟨-, hsign⟩ | ⟨-, hsign⟩
      · have hfirst : render (.prefixed range (some found) operand) 0 =
            '!' :: render operand POSTFIX_PRECEDENCE := by
          rw [render, hsign]
          rfl
        exact absurd (hhead _ _ hfirst) (by decide)
      · have hfirst : render (.prefixed range (some found) operand) 0 =
            '-' :: render operand POSTFIX_PRECEDENCE := by
          rw [render, hsign]
          rfl
        exact absurd (hhead _ _ hfirst) (by decide)
  | member range base name =>
      rw [hbare] at hparsed hnarrow htype
      rcases hparsed with ⟨hbase, found, rfl, hname⟩
      rcases inferMember_eq_some htype with
        ⟨-, token, -, ⟨-, declared, -, -, heq⟩ | ⟨-, encoded, hencoded, -⟩⟩
      · cases heq
      · exact absurd hnarrow (not_narrow_field hbase hencoded hname)
  | binary range lhs op rhs =>
      rw [hbare] at hparsed
      rcases hparsed with ⟨-, ⟨found, rfl, -⟩, -⟩
      exact ⟨range, lhs, found, rhs, rfl⟩

/-- A connective has a character that is in no text of the narrow form. -/
theorem not_narrow_connective {text front symbol back : Text} {op : ComparisonOp}
    (hnarrow : Narrow text front symbol back op) {found : Token}
    (hop : (found.kind, found.text.toList) ∈ binaryOperators)
    (hsubset : found.text.toList ⊆ text) : isShortCircuit found.kind = false := by
  rw [Bool.eq_false_iff]
  intro hshort
  have hconnective : '|' ∈ found.text.toList ∨ '&' ∈ found.text.toList := by
    simp only [binaryOperators, List.mem_cons, Prod.mk.injEq, List.not_mem_nil, or_false] at hop
    rcases of_decide_eq_true hshort with hkind | hkind <;> rw [hkind] at hop <;>
      simp only [reduceCtorEq, false_and, false_or, or_false, true_and] at hop <;> rw [hop]
    · exact .inr List.mem_cons_self
    · exact .inl List.mem_cons_self
  rcases hconnective with hmem | hmem
  · exact absurd (hnarrow.kinds '|' (hsubset hmem)) (by decide)
  · exact absurd (hnarrow.kinds '&' (hsubset hmem)) (by decide)

theorem not_truth_of_numeral {lhs rhs : Expr} {left right : ExprType}
    (hleft : (infer scope lhs).1 = some left) (hright : (infer scope rhs).1 = some right)
    (htypes : unifies left right = true ∨ isOrdered left right = true)
    (hnumeral : rhs.IsNumeral negated literal) {range : TextRange}
    {truth : Token} (htruth : lhs.bare = .literal range (some truth)) :
    ¬ (truth.kind = .trueKw ∨ truth.kind = .falseKw) := by
  intro hkinds
  have hboolean : left = .boolean := by
    rw [← infer_bare, htruth] at hleft
    rcases hkinds with hkind | hkind <;>
      · simp only [infer, inferLiteral, hkind, Option.some.injEq] at hleft
        exact hleft.symm
  rcases infer_numeral scope hnumeral with ⟨backing, hnumeric⟩
  rw [hright, Option.some.injEq] at hnumeric
  rw [hboolean, hnumeric] at htypes
  rcases htypes with htypes | htypes <;> cases htypes

theorem compares_of_parse (h : expr.Parsed)
    (htype : (infer scope expr).1 = some .boolean) {subject literal : Text} {op : ComparisonOp}
    (hparse : parse (canonicalExprText expr) = .ok (subject, op, literal)) :
    ∃ name negated token, expr.Compares name op negated token ∧ name.text.toList = subject ∧
      numeralText negated token = literal := by
  rcases narrow_of_parse (trimmed_render h 0) hparse with
    ⟨front, symbol, back, hnarrow, rfl, rfl⟩
  rcases binary_of_narrow h htype hnarrow with ⟨range, lhs, found, rhs, hbare⟩
  have hparsed := h.bare
  rw [← render_bare, hbare] at hnarrow
  rw [← infer_bare, hbare] at htype
  rw [hbare] at hparsed
  rcases hparsed with ⟨hlhs, ⟨token, htoken, hop⟩, hrhs⟩
  cases htoken
  rcases inferBinary_eq_some htype with ⟨token, left, right, htoken, hleft, hright, hroot⟩
  cases htoken
  have hshort : isShortCircuit found.kind = false := by
    refine not_narrow_connective hnarrow hop fun c hc => ?_
    exact mem_wrapped (List.mem_append_right _ (List.mem_cons_of_mem _
      (List.mem_append_left _ hc))) _
  rcases comparison_of_boolean hroot with hconnective | ⟨op', hop', hpower, htypes⟩
  · exact absurd (hshort.symm.trans hconnective) Bool.false_ne_true
  -- The symbol of the text is the operator, with a space on either side.
  rcases symbol_chars ((comparisonOf_iff hop op').mp hop') with ⟨hopNe, hopChars⟩
  have hwhole : render (.binary range lhs (some found) rhs) 0 =
      render lhs 3 ++ [' '] ++ (found.text.toList ++ ' ' :: render rhs 4) := by
    rw [render]
    simp only [hpower, wrapped]
    rw [List.append_assoc]
    rfl
  rcases Library.block_unique hnarrow.front_chars (symbol_chars hnarrow.symbol_mem).2
    hnarrow.back_chars hopNe hopChars (by decide) (by decide)
    (hnarrow.text_eq.symm.trans hwhole) with ⟨hfront, hsame, hback⟩
  have hidentifier := hnarrow.identifier
  have hnumber := hnarrow.number
  rw [hfront, (trimmed_render hlhs 3).trim_concat] at hidentifier ⊢
  rw [hback, (trimmed_render hrhs 4).trim_cons] at hnumber ⊢
  rcases numeral_shape hrhs hright hnumber with ⟨negated, token, hnumeral, htext⟩
  have hkind : comparisonOf found.kind = some op :=
    (comparisonOf_iff hop op).mpr (hsame ▸ hnarrow.symbol_mem)
  rcases ident_shape hlhs hidentifier with ⟨inner, name, hname, hnameText⟩ |
    ⟨inner, truth, htruth, htruthKind⟩
  · exact ⟨name, negated, token, ⟨range, lhs, found, rhs, inner, hbare, hkind, hname, hnumeral⟩,
      hnameText, htext.symm⟩
  · exact absurd htruthKind (not_truth_of_numeral hleft hright htypes hnumeral htruth)

theorem exists_literal_of_numeral (h : expr.Parsed) (hnumeral : expr.IsNumeral negated literal) :
    ∃ l : Literal, ∃ value, l.text = numeralText negated literal ∧
      (l.frac = [] ↔ literal.kind = .intNumber) ∧
      ExactValue.parse literal.text.toList = some value ∧
      l.value = (if negated then -value else value) ∧
      render expr 4 = numeralText negated literal := by
  rcases hnumeral with ⟨hkind, hshape⟩
  have hparsed := h.bare
  cases negated with
  | false =>
      rcases hshape with ⟨range, hbare⟩
      rw [hbare] at hparsed
      rcases hparsed with ⟨found, hfound, hspelled⟩
      cases hfound
      rcases normalizeLiteral_spec hkind hspelled with ⟨l, value, -, htext, hvalue, hl, hfrac⟩
      refine ⟨l, value, htext.symm, hfrac, hvalue, hl, ?_⟩
      rw [← render_bare, hbare]
      rfl
  | true =>
      rcases hshape with ⟨range, op, operand, inner, hbare, hop, hoperand⟩
      rw [hbare] at hparsed
      rcases hparsed with ⟨⟨sign, hsign, hmem⟩, hparsed⟩
      cases hsign
      have hminus : op.text.toList = ['-'] := by
        simp only [prefixOperators, List.mem_cons, Prod.mk.injEq, List.not_mem_nil, or_false,
          hop, reduceCtorEq, false_and, true_and, false_or] at hmem
        exact hmem
      have hspelled := hparsed.bare
      rw [hoperand] at hspelled
      rcases hspelled with ⟨found, hfound, hspelled⟩
      cases hfound
      rcases normalizeLiteral_spec hkind hspelled with ⟨l, value, hneg, htext, hvalue, hl, hfrac⟩
      refine ⟨l.negated, value, ?_, hfrac, hvalue, ?_, ?_⟩
      · rw [Literal.text_negated hneg, numeralText, htext]
        rfl
      · rw [Literal.value_negated hneg, hl]
        rfl
      · have hinner : render operand POSTFIX_PRECEDENCE =
            normalizeLiteral literal.kind literal.text.toList := by
          rw [← render_bare, hoperand]
          rfl
        rw [← render_bare, hbare, render, hminus, hinner]
        rfl

/-- A symbol is found where it stands, and none that is looked for before it. -/
theorem first_symbol {symbol : Text} {op : ComparisonOp} (h : (symbol, op) ∈ comparisons) :
    ∃ before behind, comparisons = before ++ (symbol, op) :: behind ∧
      (∀ entry ∈ before, splitInfix entry.1 symbol = none) ∧
      splitInfix symbol symbol = some ([], []) := by
  simp only [comparisons, List.mem_cons, Prod.mk.injEq, List.not_mem_nil, or_false] at h
  rcases h with ⟨rfl, rfl⟩ | ⟨rfl, rfl⟩ | ⟨rfl, rfl⟩ | ⟨rfl, rfl⟩ | ⟨rfl, rfl⟩ | ⟨rfl, rfl⟩
  · exact ⟨comparisons.take 0, comparisons.drop 1, rfl, by decide, by decide⟩
  · exact ⟨comparisons.take 1, comparisons.drop 2, rfl, by decide, by decide⟩
  · exact ⟨comparisons.take 2, comparisons.drop 3, rfl, by decide, by decide⟩
  · exact ⟨comparisons.take 3, comparisons.drop 4, rfl, by decide, by decide⟩
  · exact ⟨comparisons.take 4, comparisons.drop 5, rfl, by decide, by decide⟩
  · exact ⟨comparisons.take 5, comparisons.drop 6, rfl, by decide, by decide⟩

theorem trimmed_text (l : Literal) : Trimmed l.text := by
  refine .of_forall (isNumber_iff.mp (isNumber_text l)).1 fun c hc => ?_
  rw [Literal.text] at hc
  rcases List.mem_append.mp hc with hsign | hc
  · cases hneg : l.negative with
    | false =>
        rw [hneg] at hsign
        cases hsign
    | true =>
        rw [hneg] at hsign
        rw [List.mem_singleton.mp hsign]
        decide
  · exact isWhiteSpace_of_number (number_forall_mem l.isNumber c hc)

theorem findSome?_first {α β : Type} {f : α → Option β} {before behind list : List α} {a : α}
    {b : β} (hlist : list = before ++ a :: behind) (hbefore : ∀ entry ∈ before, f entry = none)
    (hself : f a = some b) : list.findSome? f = some b := by
  rw [hlist, List.findSome?_append, List.findSome?_eq_none_iff.mpr hbefore, Option.none_or,
    List.findSome?_cons, hself]

theorem parse_of_compares (h : expr.Parsed) {name : Token}
    {op : ComparisonOp} (hcompares : expr.Compares name op negated literal) :
    parse (canonicalExprText expr) = .ok (name.text.toList, op, numeralText negated literal) := by
  rcases hcompares with ⟨range, lhs, symbol, rhs, inner, hbare, hop, hname, hnumeral⟩
  have hparsed := h.bare
  rw [hbare] at hparsed
  rcases hparsed with ⟨hlhs, ⟨found, hfound, hspelled⟩, hrhs⟩
  cases hfound
  have hpath := hlhs.bare
  rw [hname] at hpath
  rcases hpath with ⟨found, hfound, hnameText⟩
  cases hfound
  rcases exists_literal_of_numeral hrhs hnumeral with ⟨l, value, htext, -, -, -, hrender⟩
  have hleft : render lhs 3 = name.text.toList := by
    rw [← render_bare, hname]
    rfl
  have hsymbol := (comparisonOf_iff hspelled op).mp hop
  have hpower : precedence symbol.kind = 3 := by
    unfold comparisonOf at hop
    split at hop <;> simp only [precedence, reduceCtorEq, *] at *
  have hwhole : canonicalExprText expr =
      name.text.toList ++ [' '] ++ (symbol.text.toList ++ ' ' :: numeralText negated literal) := by
    rw [canonicalExprText, ← render_bare, hbare, render, hpower, hleft, hrender,
      List.append_assoc]
    rfl
  have hnumber : isNumber (numeralText negated literal) = true := htext ▸ isNumber_text l
  have hfrontChars : ∀ c ∈ name.text.toList ++ [' '], isSymbolChar c = false := by
    intro c hc
    rcases List.mem_append.mp hc with hc | hc
    · exact isSymbolChar_of_name (hnameText.forall_mem c hc)
    · rw [List.mem_singleton.mp hc]
      decide
  have hbackChars : ∀ c ∈ ' ' :: numeralText negated literal, isSymbolChar c = false := by
    intro c hc
    rcases List.mem_cons.mp hc with rfl | hc
    · decide
    · exact isSymbolChar_of_number ((isNumber_iff.mp hnumber).2.1 c hc)
  have hsplit : ∀ entry ∈ comparisons, splitInfix entry.1 (canonicalExprText expr) =
      (splitInfix entry.1 symbol.text.toList).map (fun split =>
        (name.text.toList ++ [' '] ++ split.1, split.2 ++ ' ' :: numeralText negated literal)) := by
    intro entry hentry
    rw [hwhole]
    have hentry' : (entry.1, entry.2) ∈ comparisons := hentry
    rcases symbol_chars hentry' with ⟨hne, hchars⟩
    exact Library.splitInfix_block hne hchars hfrontChars symbol.text.toList hbackChars
  rcases first_symbol hsymbol with ⟨before, behind, hlist, hbefore, hself⟩
  have hcut : splitInfix symbol.text.toList (canonicalExprText expr) =
      some (name.text.toList ++ [' '], ' ' :: numeralText negated literal) := by
    have hentry := hsplit _ hsymbol
    dsimp only at hentry
    rw [hentry, hself, Option.map_some, List.append_nil, List.nil_append]
  rw [parse, (show trim (canonicalExprText expr) = canonicalExprText expr from
    (trimmed_render h 0).trim_eq)]
  have hnone : ∀ entry ∈ before, splitInfix entry.1 (canonicalExprText expr) = none := by
    intro entry hentry
    have hmem : entry ∈ comparisons := hlist ▸ List.mem_append_left _ hentry
    rw [hsplit entry hmem, hbefore entry hentry]
    rfl
  rw [findSome?_first (b := (name.text.toList, op, numeralText negated literal)) hlist ?_ ?_]
  · dsimp only
    rw [isIdentifier_of_name hnameText, hnumber]
    rfl
  · intro entry hentry
    dsimp only
    rw [hnone entry hentry]
    rfl
  · dsimp only
    rw [hcut]
    dsimp only [Option.map_some]
    rw [hnameText.trimmed.trim_concat, (htext ▸ trimmed_text l :
      Trimmed (numeralText negated literal)).trim_cons]

end Texts

end Clauses

end Contract

end Ridl
