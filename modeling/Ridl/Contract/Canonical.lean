import Ridl.Contract.DecimalText
import Ridl.Contract.Inversion
import Mathlib.Data.Bool.AllAny

/-!
# The Canonical Text of a Clause

A clause is written with single spaces around each binary operator and with the
parentheses that precedence asks for, so the text is that of the tree and not of the
file. A number is written in the canonical text of its value, with a point where it
was written with one.

The texts of operands are told apart by their characters. The text of a name has no
space in it, that of a sum has, and in neither is a space at an end
(`trimmed_render`).

## Main definitions

* `render`, `canonicalExprText`: The text of an expression.
* `Expr.Parsed`: What the parser builds where it reports nothing.
* `Expr.bare`: An expression without the parentheses around it.

## Theorems

* `normalizeLiteral_spec`: A number is written as a literal of its value.
* `trimmed_render`: A text has no white space around it.
* `render_bare`: The parentheses around an expression leave no trace.
-/

namespace Ridl

namespace Contract

open Ridl.Syntax
open Library (Text)

/-! ### Rendering -/

/-- Binding power, the loosest the least. -/
def precedence : SyntaxKind → Nat
  | .pipePipe => 1
  | .ampAmp => 2
  | .eqEq | .neq | .lt | .le | .gt | .ge => 3
  | .plus | .minus => 4
  | .star | .slash | .percent => 5
  | _ => 0

def PREFIX_PRECEDENCE : Nat := 6

def POSTFIX_PRECEDENCE : Nat := 7

def PRIMARY_PRECEDENCE : Nat := 8

/-- The canonical spelling of a literal. -/
def normalizeLiteral (kind : SyntaxKind) (text : Text) : Text :=
  if kind ≠ .intNumber ∧ kind ≠ .floatNumber then text
  else
    match ExactValue.parse text with
    | none => text
    | some value =>
        let rendered := value.toDecimalString
        if '.' ∈ text ∧ '.' ∉ rendered then rendered ++ ['.', '0'] else rendered

/-- Parentheses, where they are wanted. -/
def wrapped (wrap : Bool) (text : Text) : Text := if wrap then '(' :: text ++ [')'] else text

/-- The text of a token, where there is one. -/
def tokenText (token : Option Token) : Text :=
  match token with
  | some token => token.text.toList
  | none => []

/-- The text of an expression in a position that asks for a binding power. -/
def render : Expr → Nat → Text
  | .missing, _ => []
  | .paren _ inner, min => render inner min
  | .binary _ lhs op rhs, min =>
      match op with
      | none => []
      | some token =>
          let power := precedence token.kind
          -- Every operator associates to the left.
          wrapped (power < min)
            (render lhs power ++ ' ' :: (token.text.toList ++ ' ' :: render rhs (power + 1)))
  | .prefixed _ op operand, min =>
      match op with
      | none => []
      | some token =>
          -- A prefix in a prefix keeps its parentheses.
          wrapped (PREFIX_PRECEDENCE < min)
            (token.text.toList ++ render operand POSTFIX_PRECEDENCE)
  | .member _ base name, min =>
      wrapped (POSTFIX_PRECEDENCE < min) (render base POSTFIX_PRECEDENCE ++ '.' :: tokenText name)
  | .path _ name, min => wrapped (PRIMARY_PRECEDENCE < min) (tokenText name)
  | .literal _ token, _ =>
      match token with
      | none => []
      | some token => normalizeLiteral token.kind token.text.toList

def canonicalExprText (expr : Expr) : Text := render expr 0

/-! ### Parsed expressions -/

/-- How an identifier is spelled. -/
def IsName (text : Text) : Prop :=
  ∃ first rest, text = first :: rest ∧ first.isAlpha = true ∧
    ∀ c ∈ rest, c.isAlphanum = true ∨ c = '_'

/-- The operators between operands. -/
def binaryOperators : List (SyntaxKind × Text) :=
  [(.pipePipe, ['|', '|']), (.ampAmp, ['&', '&']), (.eqEq, ['=', '=']), (.neq, ['!', '=']),
    (.lt, ['<']), (.le, ['<', '=']), (.gt, ['>']), (.ge, ['>', '=']), (.plus, ['+']),
    (.minus, ['-']), (.star, ['*']), (.slash, ['/']), (.percent, ['%'])]

def prefixOperators : List (SyntaxKind × Text) := [(.bang, ['!']), (.minus, ['-'])]

/-- How a literal of an expression is spelled. -/
def Token.IsLiteral (token : Token) : Prop :=
  match token.kind with
  | .intNumber => IsInteger token.text.toList
  | .floatNumber => IsDecimal token.text.toList
  | .duration => IsDuration token.text.toList
  | .trueKw => token.text = "true"
  | .falseKw => token.text = "false"
  | .string => ∃ content, token.text.toList = '\"' :: content ++ ['\"']
  | _ => False

namespace Expr

/-- An expression that the parser reports nothing about: no part of it is missing, and
    each token is spelled as the lexer spells it. -/
def Parsed : Expr → Prop
  | .missing => False
  | .literal _ token => ∃ found, token = some found ∧ found.IsLiteral
  | .paren _ inner => inner.Parsed
  | .path _ name => ∃ found, name = some found ∧ IsName found.text.toList
  | .prefixed _ op operand =>
      (∃ found, op = some found ∧ (found.kind, found.text.toList) ∈ prefixOperators) ∧
        operand.Parsed
  | .member _ base name =>
      base.Parsed ∧ ∃ found, name = some found ∧ IsName found.text.toList
  | .binary _ lhs op rhs =>
      lhs.Parsed ∧
        (∃ found, op = some found ∧ (found.kind, found.text.toList) ∈ binaryOperators) ∧
        rhs.Parsed

/-- The expression in all the parentheses around it. -/
def bare : Expr → Expr
  | .paren _ inner => inner.bare
  | expr => expr

end Expr

/-! ### Numbers -/

namespace Literal

/-- The literal with a sign before it. -/
def negated (l : Literal) : Literal := { l with negative := true }

variable {l : Literal}

theorem value_negated (h : l.negative = false) : l.negated.value = -l.value := by
  rw [value, value, Rat.neg_mkRat, h]
  rfl

theorem text_negated (h : l.negative = false) : l.negated.text = '-' :: l.text := by
  rw [text, text, h]
  rfl

theorem Canonical.unsigned (h : l.Canonical) (hvalue : 0 ≤ l.value) :
    l.negative = false := by
  cases hneg : l.negative with
  | false => rfl
  | true =>
      have hzero : l.magnitude ≠ 0 := fun hzero => h.sign ⟨hneg, hzero⟩
      have hpos : (0 : ℚ) < l.magnitude := by exact_mod_cast Nat.pos_of_ne_zero hzero
      have hscale : (0 : ℚ) < ((10 ^ l.frac.length : Nat) : ℚ) := by positivity
      rw [value, hneg, Rat.mkRat_eq_div] at hvalue
      have hlt : ((signed true l.magnitude : Int) : ℚ) / ((10 ^ l.frac.length : Nat) : ℚ) < 0 := by
        refine div_neg_of_neg_of_pos ?_ hscale
        simp only [signed, if_true, Int.cast_neg, Int.cast_natCast]
        linarith
      exact absurd hvalue (not_le.mpr hlt)

/-- A point and a zero behind an integer. -/
def withPoint (l : Literal) : Literal :=
  { l with
    frac := ['0']
    frac_digits := fun c hc => by
      rw [List.mem_singleton.mp hc]
      rfl }

theorem withPoint_spec (h : l.frac = []) :
    l.withPoint.text = l.text ++ ['.', '0'] ∧ l.withPoint.value = l.value := by
  constructor
  · show sign l.negative ++ (l.int ++ ['.', '0']) = l.text ++ ['.', '0']
    rw [text, body, if_pos h, List.append_nil, List.append_assoc]
  · have hmagnitude : l.withPoint.magnitude = 10 * l.magnitude := by
      rw [magnitude, magnitude, h, List.append_nil]
      show digitsValue (l.int ++ ['0']) = 10 * digitsValue l.int
      rw [digitsValue, List.foldl_append]
      rfl
    rw [value, value, hmagnitude, h, Rat.mkRat_eq_iff (pow_ten_ne_zero _) (pow_ten_ne_zero _)]
    show signed l.negative (10 * l.magnitude) * ((10 ^ 0 : Nat) : Int) =
      signed l.negative l.magnitude * ((10 ^ 1 : Nat) : Int)
    rw [signed_mul, signed_mul, pow_zero, pow_one, Nat.mul_one, Nat.mul_comm]

theorem point_mem_text (l : Literal) : '.' ∈ l.text ↔ l.frac ≠ [] := by
  have hsign : '.' ∉ sign l.negative := by
    cases l.negative <;> decide
  have hint : '.' ∉ l.int := not_mem_of_digits rfl l.int_digits
  rw [text, body, List.mem_append, List.mem_append]
  by_cases hfrac : l.frac = []
  · simp only [hsign, hint, hfrac, if_true, List.not_mem_nil, or_self, ne_eq, not_true_eq_false]
  · simp only [hfrac, if_false, List.mem_cons_self, or_true, ne_eq, not_false_eq_true]

end Literal

theorem value_nonneg_of_parseBody {body : Text} {value : ExactValue}
    (h : ExactValue.parseBody body = some value) : 0 ≤ value := by
  rcases exists_body h false with ⟨l, hsign, rfl⟩
  rw [l.parseBody, Option.some.injEq] at h
  rw [← h, Rat.mkRat_eq_div]
  positivity

variable {token : Token} {text : Text}

theorem normalizeLiteral_spec
    (hkind : token.kind = .intNumber ∨ token.kind = .floatNumber) (h : token.IsLiteral) :
    ∃ l : Literal, ∃ value, l.negative = false ∧
      normalizeLiteral token.kind token.text.toList = l.text ∧
      ExactValue.parse token.text.toList = some value ∧ l.value = value ∧
      (l.frac = [] ↔ token.kind = .intNumber) := by
  have hnumber : IsInteger token.text.toList ∨ IsDecimal token.text.toList := by
    rcases hkind with hkind | hkind <;> rw [Token.IsLiteral, hkind] at h
    · exact .inl h
    · exact .inr h
  have hparse : ∃ value, ExactValue.parse token.text.toList = some value := by
    rcases hnumber with hint | hdecimal
    · rcases parse_of_isInteger hint with ⟨value, hvalue⟩
      exact ⟨_, hvalue⟩
    · exact parse_of_isDecimal hdecimal
  rcases hparse with ⟨value, hvalue⟩
  have hnonneg : 0 ≤ value := by
    rw [parse_eq_parseBody hnumber] at hvalue
    exact value_nonneg_of_parseBody hvalue
  rcases (fewPlaces_of_parse hvalue).canonical with ⟨l, hl, hlvalue, htext⟩
  have hsign := hl.unsigned (hlvalue ▸ hnonneg)
  rcases hkind with hkind | hkind
  · -- An integer is read as one, which has no digits behind a point.
    rw [Token.IsLiteral, hkind] at h
    have hpoint : '.' ∉ token.text.toList := not_mem_of_digits rfl h.2
    have hden : l.value.den ∣ 10 ^ 0 := by
      rcases parse_of_isInteger h with ⟨n, hn⟩
      rw [hvalue, Option.some.injEq] at hn
      rw [hlvalue, hn]
      exact den_mkRat_dvd _ Nat.one_ne_zero
    have hfrac : l.frac = [] :=
      List.length_eq_zero_iff.mp (Nat.le_zero.mp (hl.length_frac_le_of_dvd hden))
    refine ⟨l, value, hsign, ?_, hvalue, hlvalue, fun _ => hkind, fun _ => hfrac⟩
    rw [normalizeLiteral, if_neg (fun hnot => hnot.1 hkind), hvalue]
    dsimp only
    rw [if_neg (fun hboth => hpoint hboth.1), htext]
  · have hnot : token.kind ≠ .intNumber := by
      rw [hkind]
      decide
    have hpoint : '.' ∈ token.text.toList := by
      rw [Token.IsLiteral, hkind] at h
      rcases h with ⟨int, frac, -, -, heq⟩
      rw [heq]
      exact List.mem_append_right int List.mem_cons_self
    have hnormal : normalizeLiteral token.kind token.text.toList =
        if '.' ∉ l.text then l.text ++ ['.', '0'] else l.text := by
      rw [normalizeLiteral, if_neg (fun hnot => hnot.2 hkind), hvalue]
      dsimp only
      rw [← htext]
      simp only [hpoint, true_and]
    rw [hnormal]
    by_cases hfrac : l.frac = []
    · have hspec := Literal.withPoint_spec hfrac
      have habsent : '.' ∉ l.text := fun hmem => (l.point_mem_text.mp hmem) hfrac
      refine ⟨l.withPoint, value, hsign, ?_, hvalue, hspec.2.trans hlvalue, ?_, ?_⟩
      · rw [if_pos habsent, hspec.1]
      · exact fun hnil => absurd hnil (List.cons_ne_nil _ _)
      · exact fun hint => absurd hint hnot
    · have hpresent : ¬ '.' ∉ l.text := fun habsent => habsent (l.point_mem_text.mpr hfrac)
      refine ⟨l, value, hsign, ?_, hvalue, hlvalue, fun hnil => absurd hnil hfrac, ?_⟩
      · rw [if_neg hpresent]
      · exact fun hint => absurd hint hnot

/-! ### The ends of a text -/

/-- A text without white space at its ends. -/
structure Trimmed (text : Text) : Prop where
  first : ∃ c front, text = c :: front ∧ isWhiteSpace c = false
  last : ∃ back d, text = back ++ [d] ∧ isWhiteSpace d = false

namespace Trimmed

variable {text : Text}

theorem trim_eq (h : Trimmed text) : trim text = text := by
  rcases h.first with ⟨c, front, hfront, hc⟩
  rcases h.last with ⟨back, d, hback, hd⟩
  exact trim_of_ends hfront hback hc hd

theorem trim_cons (h : Trimmed text) : trim (' ' :: text) = text := by
  have hspace : isWhiteSpace ' ' = true := by decide
  have hdrop : (' ' :: text).dropWhile isWhiteSpace = text.dropWhile isWhiteSpace := by
    rw [List.dropWhile_cons_of_pos hspace]
  rw [trim, hdrop]
  exact h.trim_eq

theorem trim_concat (h : Trimmed text) : trim (text ++ [' ']) = text := by
  have hspace : isWhiteSpace ' ' = true := by decide
  rcases h.first with ⟨c, front, hfront, hc⟩
  have hleft : (text ++ [' ']).dropWhile isWhiteSpace = text ++ [' '] := by
    rw [hfront, List.cons_append, List.dropWhile_cons_of_neg (by rw [hc]; exact Bool.false_ne_true)]
  have hright : text.dropWhile isWhiteSpace = text := by
    rw [hfront, List.dropWhile_cons_of_neg (by rw [hc]; exact Bool.false_ne_true)]
  have htrim := h.trim_eq
  rw [trim, hright] at htrim
  rw [trim, hleft, List.reverse_append, List.reverse_singleton, List.singleton_append,
    List.dropWhile_cons_of_pos hspace, htrim]

theorem of_forall (hne : text ≠ []) (h : ∀ c ∈ text, isWhiteSpace c = false) :
    Trimmed text := by
  rcases List.exists_cons_of_ne_nil hne with ⟨c, front, rfl⟩
  refine ⟨⟨c, front, rfl, h c List.mem_cons_self⟩, ?_⟩
  rcases List.eq_nil_or_concat (c :: front) with hnil | ⟨back, d, heq⟩
  · cases hnil
  · rw [List.concat_eq_append] at heq
    exact ⟨back, d, heq, h d (by rw [heq]; exact List.mem_append_right _ List.mem_cons_self)⟩

theorem append {left right : Text} (hleft : Trimmed left) (hright : Trimmed right)
    (middle : Text) : Trimmed (left ++ (middle ++ right)) := by
  rcases hleft.first with ⟨c, front, rfl, hc⟩
  rcases hright.last with ⟨back, d, rfl, hd⟩
  refine ⟨⟨c, front ++ (middle ++ (back ++ [d])), rfl, hc⟩,
    ⟨c :: front ++ (middle ++ back), d, ?_, hd⟩⟩
  simp only [List.append_assoc]

theorem quoted {c : Char} (hc : isWhiteSpace c = false) {d : Char} (hd : isWhiteSpace d = false)
    (content : Text) : Trimmed (c :: content ++ [d]) :=
  ⟨⟨c, content ++ [d], rfl, hc⟩, c :: content, d, rfl, hd⟩

end Trimmed

theorem isWhiteSpace_of_alphanum {c : Char} (h : c.isAlphanum = true ∨ c = '_') :
    isWhiteSpace c = false := by
  rcases h with h | rfl
  · have hrange := Library.toNat_of_isAlphanum h
    simp only [isWhiteSpace, List.mem_cons, List.not_mem_nil, or_false, decide_eq_false_iff_not]
    omega
  · decide

theorem IsName.forall_mem (h : IsName text) :
    ∀ c ∈ text, c.isAlphanum = true ∨ c = '_' := by
  rcases h with ⟨first, rest, rfl, hfirst, hrest⟩
  intro c hc
  rcases List.mem_cons.mp hc with rfl | hc
  · exact .inl (by rw [Char.isAlphanum, hfirst, Bool.true_or])
  · exact hrest c hc

theorem IsName.trimmed (h : IsName text) : Trimmed text := by
  refine .of_forall ?_ fun c hc => isWhiteSpace_of_alphanum (h.forall_mem c hc)
  rcases h with ⟨first, rest, rfl, -⟩
  exact List.cons_ne_nil _ _

theorem number_forall_mem {number : Text} (h : IsInteger number ∨ IsDecimal number) :
    ∀ c ∈ number, c.isDigit = true ∨ c = '.' := by
  intro c hc
  rcases h with ⟨-, h⟩ | ⟨int, frac, hint, hfrac, rfl⟩
  · exact .inl (h c hc)
  · rcases List.mem_append.mp hc with hc | hc
    · exact .inl (hint.2 c hc)
    · rcases List.mem_cons.mp hc with rfl | hc
      · exact .inr rfl
      · exact .inl (hfrac.2 c hc)

theorem Literal.body_ne_nil (l : Literal) : l.body ≠ [] := by
  rw [Literal.body]
  exact fun h => l.int_ne_nil (List.append_eq_nil_iff.mp h).1

theorem isWhiteSpace_of_number {c : Char} (h : c.isDigit = true ∨ c = '.') :
    isWhiteSpace c = false := by
  rcases h with h | rfl
  · exact isWhiteSpace_of_isDigit h
  · decide

theorem Literal.text_unsigned {l : Literal} (h : l.negative = false) : l.text = l.body := by
  rw [Literal.text, h]
  rfl

theorem trimmed_body (l : Literal) : Trimmed l.body :=
  .of_forall l.body_ne_nil fun c hc => isWhiteSpace_of_number (number_forall_mem l.isNumber c hc)

theorem trimmed_duration (h : IsDuration text) : Trimmed text := by
  rcases h with ⟨number, hnumber, unit, hunit, rfl⟩
  have hne : number ≠ [] := by
    rcases exists_head hnumber with ⟨c, rest, rfl, -⟩
    exact List.cons_ne_nil _ _
  have hunits : ∀ c ∈ unit.toList, isWhiteSpace c = false := by
    simp only [TIME_UNITS, List.map_cons, List.map_nil, List.mem_cons, List.not_mem_nil,
      or_false] at hunit
    rcases hunit with rfl | rfl | rfl | rfl | rfl <;>
      exact List.all_iff_forall_prop.mp (by decide)
  refine .of_forall (fun h => hne (List.append_eq_nil_iff.mp h).1) fun c hc => ?_
  rcases List.mem_append.mp hc with hc | hc
  · exact isWhiteSpace_of_number (number_forall_mem hnumber c hc)
  · exact hunits c hc

theorem normalizeLiteral_other {kind : SyntaxKind} (hint : kind ≠ .intNumber)
    (hfloat : kind ≠ .floatNumber) (text : Text) : normalizeLiteral kind text = text :=
  if_pos ⟨hint, hfloat⟩

/-- The kinds of the literals of an expression, with what is written for each. -/
theorem normalizeLiteral_cases (h : token.IsLiteral) :
    (∃ l : Literal, (token.kind = .intNumber ∨ token.kind = .floatNumber) ∧
        l.negative = false ∧ normalizeLiteral token.kind token.text.toList = l.text) ∨
      token.kind = .duration ∧
        IsDuration (normalizeLiteral token.kind token.text.toList) ∨
      (token.kind = .trueKw ∨ token.kind = .falseKw) ∧
        normalizeLiteral token.kind token.text.toList ∈ ["true".toList, "false".toList] ∨
      token.kind = .string ∧ ∃ content,
        normalizeLiteral token.kind token.text.toList = '\"' :: content ++ ['\"'] := by
  have hspelled := h
  rw [Token.IsLiteral] at hspelled
  split at hspelled
  next hkind =>
    rcases normalizeLiteral_spec (.inl hkind) h with ⟨l, value, hsign, htext, -⟩
    exact .inl ⟨l, .inl hkind, hsign, htext⟩
  next hkind =>
    rcases normalizeLiteral_spec (.inr hkind) h with ⟨l, value, hsign, htext, -⟩
    exact .inl ⟨l, .inr hkind, hsign, htext⟩
  next hkind =>
    rw [hkind, normalizeLiteral_other (by decide) (by decide)]
    exact .inr (.inl ⟨rfl, hspelled⟩)
  next hkind =>
    rw [hkind, normalizeLiteral_other (by decide) (by decide), hspelled]
    exact .inr (.inr (.inl ⟨.inl rfl, by decide⟩))
  next hkind =>
    rw [hkind, normalizeLiteral_other (by decide) (by decide), hspelled]
    exact .inr (.inr (.inl ⟨.inr rfl, by decide⟩))
  next hkind =>
    rw [hkind, normalizeLiteral_other (by decide) (by decide)]
    exact .inr (.inr (.inr ⟨rfl, hspelled⟩))
  next => exact hspelled.elim

theorem trimmed_literal (h : token.IsLiteral) :
    Trimmed (normalizeLiteral token.kind token.text.toList) := by
  rcases normalizeLiteral_cases h with
    ⟨l, -, hsign, htext⟩ | ⟨-, hduration⟩ | ⟨-, hword⟩ | ⟨-, content, hstring⟩
  · rw [htext, l.text_unsigned hsign]
    exact trimmed_body l
  · exact trimmed_duration hduration
  · simp only [List.mem_cons, List.not_mem_nil, or_false] at hword
    rcases hword with hword | hword <;>
      · rw [hword]
        exact .of_forall (by decide) (List.all_iff_forall_prop.mp (by decide))
  · rw [hstring]
    exact .quoted (by decide) (by decide) content

theorem trimmed_wrapped (wrap : Bool) (h : Trimmed text) :
    Trimmed (wrapped wrap text) := by
  cases wrap with
  | false => exact h
  | true => exact .quoted (by decide) (by decide) text

theorem trimmed_render {expr : Expr} (h : expr.Parsed) (min : Nat) :
    Trimmed (render expr min) := by
  induction expr generalizing min with
  | missing => exact h.elim
  | literal range token =>
      rcases h with ⟨found, rfl, hliteral⟩
      exact trimmed_literal hliteral
  | paren range inner ih => exact ih h min
  | path range name =>
      rcases h with ⟨found, rfl, hname⟩
      exact trimmed_wrapped _ hname.trimmed
  | prefixed range op operand ih =>
      rcases h with ⟨⟨found, rfl, hop⟩, hoperand⟩
      have hsymbol : Trimmed found.text.toList := by
        simp only [prefixOperators, List.mem_cons, Prod.mk.injEq, List.not_mem_nil,
          or_false] at hop
        rcases hop with ⟨-, htext⟩ | ⟨-, htext⟩ <;>
          · rw [htext]
            exact .of_forall (by decide) (List.all_iff_forall_prop.mp (by decide))
      have hboth := hsymbol.append (ih hoperand POSTFIX_PRECEDENCE) []
      exact trimmed_wrapped _ hboth
  | member range base name ih =>
      rcases h with ⟨hbase, found, rfl, hname⟩
      exact trimmed_wrapped _ ((ih hbase POSTFIX_PRECEDENCE).append hname.trimmed ['.'])
  | binary range lhs op rhs ihl ihr =>
      rcases h with ⟨hlhs, ⟨found, rfl, -⟩, hrhs⟩
      have hboth := (ihl hlhs (precedence found.kind)).append
        (ihr hrhs (precedence found.kind + 1)) (' ' :: (found.text.toList ++ [' ']))
      rw [List.cons_append, List.append_assoc, List.singleton_append] at hboth
      exact trimmed_wrapped _ hboth

/-! ### Parentheses -/

theorem render_bare (expr : Expr) (min : Nat) : render expr.bare min = render expr min := by
  induction expr with
  | paren range inner ih => exact ih
  | _ => rfl

theorem Expr.Parsed.bare {expr : Expr} (h : expr.Parsed) : expr.bare.Parsed := by
  induction expr with
  | paren range inner ih => exact ih h
  | _ => exact h

theorem infer_bare (scope : ContractScope) (expr : Expr) :
    infer scope expr.bare = infer scope expr := by
  induction expr with
  | paren range inner ih => exact ih
  | _ => rfl

theorem Expr.bare_ne_paren (expr : Expr) (range : TextRange) (inner : Expr) :
    expr.bare ≠ .paren range inner := by
  induction expr with
  | paren range inner ih => exact ih
  | _ => nofun

end Contract

end Ridl
