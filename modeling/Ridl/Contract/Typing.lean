import Ridl.Contract.Eval
import Mathlib.Data.Rat.Lemmas

/-!
# Values of a Type

What it means that a value is of a type, and what the operators of the evaluator
make of operands of the types that the checker asks for.

An evaluation is of a type when it answers a value of the type, or meets a zero
divisor. That is kept by sequencing (`Types.bind`), so that a proof about an
expression follows the evaluation step by step.

## Main definitions

* `Types`: An evaluation that is of a type.
* `EvalEnv.Matches`: What a scope declares, an environment binds.

## Theorems

* `Types.bind`: A sequence is of a type if each step is.
* `evalOperator_types`: A binary operator over operands of the right types.
* `evalPrefix_types`: A unary operator over an operand of the right type.
* `evalLiteral_types`: A literal is of the type of its spelling.
-/

namespace Ridl

namespace Contract

open Ridl.Syntax

/-! ### Types of values -/

/-- A value of a type that is not a tuple. -/
def HasDomain : Value → ExprType → Prop
  | .bool _, .boolean => True
  | .num value backing, .numeric _ declared =>
      backing = declared ∧ (declared = .integer → value.den = 1)
  | .dur _, .duration => True
  | .enumVal reference _, .enumType declared => reference = declared
  | _, _ => False

/-- A type that an expression can have. -/
def ExprType.IsSupported (type : ExprType) : Prop := ∀ declared, type ≠ .unsupported declared

/-- A value of a type. A tuple has a value for each field that can be named. -/
def HasType (value : Value) : ExprType → Prop
  | .tuple encoded =>
      ∃ fields, value = .tuple fields ∧
        ∀ name field, ExprType.tupleField encoded name = some field → field.IsSupported →
          ∃ held, lookup fields name = some held ∧ HasDomain held field
  | type => HasDomain value type

theorem HasDomain.hasType {value : Value} {type : ExprType} (h : HasDomain value type) :
    HasType value type := by
  cases type with
  | tuple encoded => cases value <;> exact h.elim
  | _ => exact h

/-- An evaluation that answers a value of the type, or divides by zero. -/
def Yields {α : Type} (P : α → Prop) (result : Evaluated α) : Prop :=
  (∃ value, result = .ok value ∧ P value) ∨ result = .error .divisionByZero

abbrev Types (type : ExprType) (result : Evaluated Value) : Prop :=
  Yields (fun value => HasType value type) result

theorem Yields.pure {α : Type} {P : α → Prop} {value : α} (h : P value) :
    Yields P (.ok value) := .inl ⟨value, rfl, h⟩

theorem Yields.bind {α β : Type} {P : α → Prop} {Q : β → Prop} {result : Evaluated α}
    {next : α → Evaluated β} (h : Yields P result) (hnext : ∀ value, P value → Yields Q (next value)) :
    Yields Q (result >>= next) := by
  rcases h with ⟨value, rfl, hvalue⟩ | rfl
  · exact hnext value hvalue
  · exact .inr rfl

/-! ### Inversion -/

theorem hasType_boolean {value : Value} (h : HasType value .boolean) :
    ∃ held, value = .bool held := by
  cases value with
  | bool held => exact ⟨held, rfl⟩
  | _ => exact h.elim

theorem hasType_numeric {value : Value} {reference : String} {backing : NumericBacking}
    (h : HasType value (.numeric reference backing)) :
    ∃ held, value = .num held backing ∧ (backing = .integer → held.den = 1) := by
  cases value with
  | num held carried =>
      rcases h with ⟨rfl, hint⟩
      exact ⟨held, rfl, hint⟩
  | _ => exact h.elim

theorem hasType_duration {value : Value} (h : HasType value .duration) :
    ∃ us, value = .dur us := by
  cases value with
  | dur us => exact ⟨us, rfl⟩
  | _ => exact h.elim

theorem hasType_enumType {value : Value} {reference : String}
    (h : HasType value (.enumType reference)) : ∃ member, value = .enumVal reference member := by
  cases value with
  | enumVal carried member =>
      exact ⟨member, by rw [show carried = reference from h]⟩
  | _ => exact h.elim

/-! ### Operators -/

theorem equality_ok {lhs rhs : ExprType} {left right : Value} (op : String)
    (h : unifies lhs rhs = true) (hleft : HasType left lhs) (hright : HasType right rhs) :
    ∃ held, equality op left right = .ok held := by
  cases lhs <;> cases rhs <;> first | exact absurd h Bool.false_ne_true | skip
  case boolean.boolean =>
    rcases hasType_boolean hleft with ⟨left, rfl⟩
    rcases hasType_boolean hright with ⟨right, rfl⟩
    exact ⟨_, rfl⟩
  case numeric.numeric =>
    rcases hasType_numeric hleft with ⟨left, rfl, -⟩
    rcases hasType_numeric hright with ⟨right, rfl, -⟩
    exact ⟨_, rfl⟩
  case duration.duration =>
    rcases hasType_duration hleft with ⟨left, rfl⟩
    rcases hasType_duration hright with ⟨right, rfl⟩
    exact ⟨_, rfl⟩
  case enumType.enumType left right =>
    have hsame : left = right := of_decide_eq_true h
    rcases hasType_enumType hleft with ⟨m, rfl⟩
    rcases hasType_enumType hright with ⟨n, rfl⟩
    exact ⟨m == n, by simp only [equality, hsame, ne_eq, not_true_eq_false, if_false]⟩

theorem orderedPair_ok {lhs rhs : ExprType} {left right : Value} (op : String)
    (h : isOrdered lhs rhs = true) (hleft : HasType left lhs) (hright : HasType right rhs) :
    ∃ pair, orderedPair op left right = .ok pair := by
  cases lhs <;> cases rhs <;> first | exact absurd h Bool.false_ne_true | skip
  case numeric.numeric =>
    rcases hasType_numeric hleft with ⟨left, rfl, -⟩
    rcases hasType_numeric hright with ⟨right, rfl, -⟩
    exact ⟨_, rfl⟩
  case duration.duration =>
    rcases hasType_duration hleft with ⟨left, rfl⟩
    rcases hasType_duration hright with ⟨right, rfl⟩
    exact ⟨_, rfl⟩

/-- The operands of an arithmetic operator, as its type says. -/
theorem numericPair_ok {lhs rhs : ExprType} {left right : Value} (op : String)
    {reference : String} {backing : NumericBacking}
    (h : unifyArithmetic lhs rhs = some (reference, backing)) (hleft : HasType left lhs)
    (hright : HasType right rhs) :
    ∃ l r, numericPair op left right = .ok (l, r, backing) ∧
      (backing = .integer → l.den = 1 ∧ r.den = 1) := by
  cases lhs <;> cases rhs <;> first | cases h | skip
  case numeric.numeric left' leftBacking right' rightBacking =>
    rcases hasType_numeric hleft with ⟨l, rfl, hl⟩
    rcases hasType_numeric hright with ⟨r, rfl, hr⟩
    rcases Option.map_eq_some_iff.mp h with ⟨unified, -, hpair⟩
    rcases Prod.mk.inj hpair with ⟨-, rfl⟩
    refine ⟨l, r, rfl, fun hint => ?_⟩
    cases leftBacking with
    | float => cases hint
    | integer =>
        cases rightBacking with
        | float => cases hint
        | integer => exact ⟨hl rfl, hr rfl⟩

theorem hasType_num {value : ExactValue} {reference : String} {backing : NumericBacking}
    (h : backing = .integer → ∃ n : Int, value = n) :
    HasType (.num value backing) (.numeric reference backing) := by
  refine ⟨rfl, fun hint => ?_⟩
  rcases h hint with ⟨n, rfl⟩
  exact Rat.den_intCast n

theorem exists_int {value : ExactValue} (h : value.den = 1) : ∃ n : Int, value = n :=
  ⟨value.num, (Rat.coe_int_num_of_den_eq_one h).symm⟩

theorem inferOperator_arithmetic {range : TextRange} {token : Token} {lhs rhs type : ExprType}
    (hkind : token.kind ∈ [SyntaxKind.plus, .minus, .star, .slash, .percent])
    (h : (inferOperator range token lhs rhs).1 = some type) :
    ∃ reference backing, unifyArithmetic lhs rhs = some (reference, backing) ∧
      type = .numeric reference backing ∧ (token.kind = .percent → backing = .integer) := by
  have hbody : ((unifyArithmetic lhs rhs).bind fun pair =>
      if token.kind = .percent ∧ pair.2 ≠ .integer then none
      else some (.numeric pair.1 pair.2)) = some type := by
    rw [← h]
    simp only [List.mem_cons, List.not_mem_nil, or_false] at hkind
    rcases hkind with hkind | hkind | hkind | hkind | hkind <;>
      · simp only [inferOperator, hkind]
        cases unifyArithmetic lhs rhs with
        | none => dsimp only; split <;> rfl
        | some pair => dsimp only [Option.bind_some]; split <;> rfl
  cases hunify : unifyArithmetic lhs rhs with
  | none =>
      rw [hunify] at hbody
      cases hbody
  | some pair =>
      rw [hunify] at hbody
      rw [Option.bind_some] at hbody
      split_ifs at hbody with hpercent
      cases hbody
      exact ⟨_, _, rfl, rfl, fun hkind => by
        by_contra hne
        exact hpercent ⟨hkind, hne⟩⟩

section Arithmetic

variable {token : Token} {lhs rhs : ExprType} {left right : Value} {reference : String}
  {backing : NumericBacking}

theorem evalOperator_ring (f : ExactValue → ExactValue → ExactValue)
    (hf : ∀ m n : Int, ∃ k : Int, f m n = k)
    (hpair : ∃ l r, numericPair token.text left right = .ok (l, r, backing) ∧
      (backing = .integer → l.den = 1 ∧ r.den = 1)) :
    Types (.numeric reference backing) (do
      let (left, right, backing) ← numericPair token.text left right
      return .num (f left right) backing) := by
  rcases hpair with ⟨l, r, hpair, hint⟩
  rw [hpair]
  refine Yields.pure (hasType_num (fun hbacking => ?_))
  rcases exists_int (hint hbacking).1 with ⟨m, rfl⟩
  rcases exists_int (hint hbacking).2 with ⟨n, rfl⟩
  exact hf m n

theorem integralPair_ok (op : String) {l r : ExactValue} (hl : l.den = 1) (hr : r.den = 1) :
    integralPair op l r = .ok (l.num, r.num) := by
  rw [integralPair, if_neg]
  exact fun h => h.elim (fun hne => hne hl) (fun hne => hne hr)

theorem evalOperator_slash (hkind : token.kind = .slash)
    (hpair : ∃ l r, numericPair token.text left right = .ok (l, r, backing) ∧
      (backing = .integer → l.den = 1 ∧ r.den = 1)) :
    Types (.numeric reference backing) (evalOperator token left right) := by
  rcases hpair with ⟨l, r, hpair, hint⟩
  simp only [evalOperator, hkind, hpair]
  by_cases hzero : r = 0
  · exact .inr (by rw [hzero]; rfl)
  · cases backing with
    | float =>
        refine .inl ⟨.num (l / r) .float, ?_, rfl, nofun⟩
        simp only [bind, Except.bind, hzero, if_false, reduceCtorEq, pure, Except.pure]
    | integer =>
        refine .inl ⟨.num (l.num.tdiv r.num : Int) .integer, ?_, hasType_num fun _ => ⟨_, rfl⟩⟩
        simp only [bind, Except.bind, hzero, if_false, if_true, pure, Except.pure,
          integralPair_ok token.text (hint rfl).1 (hint rfl).2]

theorem evalOperator_percent (hkind : token.kind = .percent)
    (hpair : ∃ l r, numericPair token.text left right = .ok (l, r, NumericBacking.integer) ∧
      l.den = 1 ∧ r.den = 1) :
    Types (.numeric reference .integer) (evalOperator token left right) := by
  rcases hpair with ⟨l, r, hpair, hl, hr⟩
  simp only [evalOperator, hkind, hpair]
  by_cases hzero : r = 0
  · exact .inr (by rw [hzero]; rfl)
  · refine .inl ⟨.num (l.num.tmod r.num : Int) .integer, ?_, hasType_num fun _ => ⟨_, rfl⟩⟩
    simp only [bind, Except.bind, hzero, if_false, pure, Except.pure, ne_eq, not_true_eq_false,
      integralPair_ok token.text hl hr]

end Arithmetic

section Operators

variable {range : TextRange} {token : Token} {lhs rhs type : ExprType} {left right : Value}

theorem inferOperator_comparison (hshort : isShortCircuit token.kind = false)
    (harith : token.kind ∉ [SyntaxKind.plus, .minus, .star, .slash, .percent])
    (h : (inferOperator range token lhs rhs).1 = some type) :
    type = .boolean ∧
      ((token.kind = .eqEq ∨ token.kind = .neq) ∧ unifies lhs rhs = true ∨
        (token.kind = .lt ∨ token.kind = .le ∨ token.kind = .gt ∨ token.kind = .ge) ∧
          isOrdered lhs rhs = true) := by
  unfold inferOperator at h
  split at h
  next hkind => exact absurd hshort (by rw [hkind]; decide)
  next hkind => exact absurd hshort (by rw [hkind]; decide)
  next hkind =>
    split_ifs at h with hunifies <;> cases h
    exact ⟨rfl, .inl ⟨.inl hkind, hunifies⟩⟩
  next hkind =>
    split_ifs at h with hunifies <;> cases h
    exact ⟨rfl, .inl ⟨.inr hkind, hunifies⟩⟩
  next hkind =>
    split_ifs at h with hord <;> cases h
    exact ⟨rfl, .inr ⟨.inl hkind, hord⟩⟩
  next hkind =>
    split_ifs at h with hord <;> cases h
    exact ⟨rfl, .inr ⟨.inr (.inl hkind), hord⟩⟩
  next hkind =>
    split_ifs at h with hord <;> cases h
    exact ⟨rfl, .inr ⟨.inr (.inr (.inl hkind)), hord⟩⟩
  next hkind =>
    split_ifs at h with hord <;> cases h
    exact ⟨rfl, .inr ⟨.inr (.inr (.inr hkind)), hord⟩⟩
  next hkind => exact absurd (by rw [hkind]; decide) harith
  next hkind => exact absurd (by rw [hkind]; decide) harith
  next hkind => exact absurd (by rw [hkind]; decide) harith
  next hkind => exact absurd (by rw [hkind]; decide) harith
  next hkind => exact absurd (by rw [hkind]; decide) harith
  next => cases h

theorem inferOperator_connective (hshort : isShortCircuit token.kind = true)
    (h : (inferOperator range token lhs rhs).1 = some type) :
    lhs = .boolean ∧ rhs = .boolean ∧ type = .boolean := by
  rcases of_decide_eq_true hshort with hkind | hkind <;>
    · simp only [inferOperator, hkind] at h
      split_ifs at h with hboolean
      · cases h
        exact ⟨hboolean.1, hboolean.2, rfl⟩
      · cases h

theorem evalOperator_types (hshort : isShortCircuit token.kind = false)
    (h : (inferOperator range token lhs rhs).1 = some type) (hleft : HasType left lhs)
    (hright : HasType right rhs) : Types type (evalOperator token left right) := by
  by_cases harith : token.kind ∈ [SyntaxKind.plus, .minus, .star, .slash, .percent]
  · rcases inferOperator_arithmetic harith h with ⟨reference, backing, hunify, rfl, hpercent⟩
    have hpair := numericPair_ok token.text hunify hleft hright
    simp only [List.mem_cons, List.not_mem_nil, or_false] at harith
    rcases harith with hkind | hkind | hkind | hkind | hkind
    · simp only [evalOperator, hkind]
      exact evalOperator_ring (· + ·) (fun m n => ⟨m + n, (Rat.intCast_add m n).symm⟩) hpair
    · simp only [evalOperator, hkind]
      exact evalOperator_ring (· - ·) (fun m n => ⟨m - n, (Rat.intCast_sub m n).symm⟩) hpair
    · simp only [evalOperator, hkind]
      exact evalOperator_ring (· * ·) (fun m n => ⟨m * n, (Rat.intCast_mul m n).symm⟩) hpair
    · exact evalOperator_slash hkind hpair
    · obtain rfl := hpercent hkind
      rcases hpair with ⟨l, r, hpair, hint⟩
      exact evalOperator_percent hkind ⟨l, r, hpair, hint rfl⟩
  · -- What is left compares, and answers a boolean.
    rcases inferOperator_comparison hshort harith h with ⟨rfl, ⟨hkind, hunifies⟩ | ⟨hkind, hord⟩⟩
    · rcases equality_ok token.text hunifies hleft hright with ⟨held, heq⟩
      rcases hkind with hkind | hkind <;>
        · simp only [evalOperator, hkind, heq]
          exact Yields.pure trivial
    · rcases orderedPair_ok token.text hord hleft hright with ⟨pair, hpair⟩
      rcases hkind with hkind | hkind | hkind | hkind <;>
        · simp only [evalOperator, hkind, hpair]
          exact Yields.pure trivial

theorem evalPrefix_types {operand : Inferred} {value : Value}
    (h : (inferPrefix range (some token) operand).1 = some type)
    (hoperand : ∀ found, operand.1 = some found → HasType value found) :
    Types type (evalPrefix token value) := by
  unfold inferPrefix at h
  cases hfound : operand.1 with
  | none =>
      rw [hfound] at h
      cases h
  | some found =>
      have hvalue := hoperand found hfound
      simp only [hfound] at h
      split at h
      next hkind =>
        -- Negation of a boolean.
        split_ifs at h with hboolean
        · cases h
          rcases hasType_boolean (hboolean ▸ hvalue) with ⟨held, rfl⟩
          simp only [evalPrefix, hkind]
          exact Yields.pure trivial
      next hkind =>
        -- The sign of a number keeps its backing.
        cases found with
        | numeric reference backing =>
            cases h
            rcases hasType_numeric hvalue with ⟨held, rfl, hint⟩
            simp only [evalPrefix, hkind]
            refine Yields.pure (hasType_num (fun hbacking => ?_))
            rcases exists_int (hint hbacking) with ⟨n, rfl⟩
            exact ⟨-n, (Rat.intCast_neg n).symm⟩
        | _ => cases h
      next => cases h

theorem evalLiteral_types {literal : Option Token} (hspelled : ∀ t ∈ literal, t.Spelled)
    (h : (inferLiteral literal).1 = some type) : Types type (evalLiteral literal) := by
  cases literal with
  | none => cases h
  | some token =>
      have htoken : token.Spelled := hspelled token rfl
      unfold inferLiteral at h
      dsimp only at h
      split at h
      next hkind =>
        cases h
        have hint : IsInteger token.text.toList := by simpa only [Token.Spelled, hkind] using htoken
        rcases parse_of_isInteger hint with ⟨value, hvalue⟩
        simp only [evalLiteral, hkind, hvalue]
        exact Yields.pure (hasType_num (fun _ => ⟨value, Rat.mkRat_one _⟩))
      next hkind =>
        cases h
        have hdec : IsDecimal token.text.toList := by simpa only [Token.Spelled, hkind] using htoken
        rcases parse_of_isDecimal hdec with ⟨value, hvalue⟩
        simp only [evalLiteral, hkind, hvalue]
        exact Yields.pure (hasType_num nofun)
      next hkind =>
        cases h
        have hdur : IsDuration token.text.toList := by
          simpa only [Token.Spelled, hkind] using htoken
        rcases durationLiteralUs_of_isDuration hdur with ⟨us, hus⟩
        simp only [evalLiteral, hkind, hus]
        exact Yields.pure trivial
      next hkind =>
        cases h
        simp only [evalLiteral, hkind]
        exact Yields.pure trivial
      next hkind =>
        cases h
        simp only [evalLiteral, hkind]
        exact Yields.pure trivial
      all_goals cases h

end Operators

end Contract

end Ridl
