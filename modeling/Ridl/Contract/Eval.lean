import Ridl.Contract.Check

/-!
# The Contract Evaluator

Every expression either has a value in an environment or is refused. A number
carries the backing of the type that it came from, because `/` and `%` are about
the types of their operands: integers are divided towards zero, and floats
exactly. A zero divisor is the one fault that a well-typed expression can meet.

A node that a broken parse left without a child is refused before anything of it
is evaluated.

## Main definitions

* `Value`, `EvalEnv`: Values, and what names are bound to.
* `eval`: The value of an expression at a depth.
-/

namespace Ridl

namespace Contract

open Ridl.Syntax

inductive Value
  | bool (held : Bool)
  | num (value : ExactValue) (backing : NumericBacking)
  | dur (us : ExactValue)
  | enumVal (reference : String) (value : Int)
  | tuple (fields : List (String × Value))

/-- What names are bound to. A constant is bound under its name, and an enum
    member under its name after that of the enum and a dot. -/
structure EvalEnv where
  params : List (String × Value)
  result : Option Value
  consts : String → Option Value

inductive EvalError
  | unboundRef (name : String)
  | typeMismatch (what : String)
  | divisionByZero
deriving DecidableEq, Repr

abbrev Evaluated (α : Type) := Except EvalError α

/-- The deepest nesting that is evaluated. -/
def MAX_DEPTH : Nat := 128

def malformed {α : Type} (what : String) : Evaluated α :=
  .error (.typeMismatch (what ++ " — the expression did not parse"))

def Value.describe : Value → String
  | .bool _ => "a boolean"
  | .num _ _ => "a number"
  | .dur _ => "a duration"
  | .enumVal reference _ => "`" ++ reference ++ "`"
  | .tuple _ => "a tuple"

def domainMismatch {α : Type} (op expected : String) (left right : Value) : Evaluated α :=
  .error (.typeMismatch ("`" ++ op ++ "` requires " ++ expected ++ ", found " ++ left.describe ++
    " and " ++ right.describe))

/-! ### Literals and names -/

def evalLiteral (token : Option Token) : Evaluated Value :=
  match token with
  | none => malformed "a literal with no token"
  | some token =>
    let number (backing : NumericBacking) : Evaluated Value :=
      match ExactValue.parse token.text.toList with
      | some value => .ok (.num value backing)
      | none => .error (.typeMismatch ("`" ++ token.text ++ "` is not an exact decimal literal"))
    match token.kind with
    | .intNumber => number .integer
    | .floatNumber => number .float
    | .duration =>
        match durationLiteralUs token.text.toList with
        | some us => .ok (.dur us)
        | none => .error (.typeMismatch ("`" ++ token.text ++ "` is not a duration literal"))
    | .trueKw => .ok (.bool true)
    | .falseKw => .ok (.bool false)
    | .string | .regex =>
        .error (.typeMismatch ("a string or regex literal — no operator of the guaranteed subset " ++
          "works over strings or bytes (expr-core §5.3)"))
    | _ => .error (.typeMismatch ("`" ++ token.text ++
        "` is not a literal of the guaranteed subset"))

def evalPath (token : Option Token) (env : EvalEnv) : Evaluated Value :=
  match token with
  | none => malformed "a path with no name"
  | some token =>
    match lookup env.params token.text with
    | some value => .ok value
    | none =>
      if token.text = "result" then
        match env.result with
        | some value => .ok value
        | none => .error (.unboundRef "result")
      else
        match env.consts token.text with
        | some value => .ok value
        | none => .error (.unboundRef token.text)

/-- What the environment answers for the whole of a dotted name whose head no
    parameter and no query result shadows. -/
def dottedName (base : Expr) (name : String) (env : EvalEnv) : Option Value :=
  match base with
  | .path _ (some head) =>
      if (lookup env.params head.text).isSome || head.text == "result" then none
      else env.consts (head.text ++ "." ++ name)
  | _ => none

def evalField (name : String) : Value → Evaluated Value
  | .tuple fields =>
      match lookup fields name with
      | some value => .ok value
      | none => .error (.unboundRef ("result." ++ name))
  | other => .error (.typeMismatch ("field access `." ++ name ++ "` on " ++ other.describe ++
      " — the guaranteed subset admits field access on a tuple-typed `result` only"))

/-! ### Operators -/

def evalPrefix (token : Token) : Value → Evaluated Value
  | value =>
    match token.kind with
    | .bang =>
        match value with
        | .bool held => .ok (.bool !held)
        | other => .error (.typeMismatch ("`!` requires a boolean operand, found " ++
            other.describe))
    | .minus =>
        match value with
        | .num held backing => .ok (.num (-held) backing)
        | other => .error (.typeMismatch ("unary `-` requires a numeric operand, found " ++
            other.describe))
    | _ => malformed "an unknown prefix operator"

def expectBool (op : String) : Value → Evaluated Bool
  | .bool held => .ok held
  | other => .error (.typeMismatch ("`" ++ op ++ "` requires boolean operands, found " ++
      other.describe))

/-- Equality within one domain. Numbers are equal as numbers, whatever backs
    them. -/
def equality (op : String) (left right : Value) : Evaluated Bool :=
  match left, right with
  | .bool left, .bool right => .ok (left == right)
  | .num left _, .num right _ => .ok (left == right)
  | .dur left, .dur right => .ok (left == right)
  | .enumVal leftType leftValue, .enumVal rightType rightValue =>
      if leftType ≠ rightType then
        .error (.typeMismatch ("`" ++ op ++ "` compares `" ++ leftType ++ "` with `" ++
          rightType ++ "` — enum equality is within one enum type"))
      else .ok (leftValue == rightValue)
  | left, right => domainMismatch op "operands of one domain" left right

def orderedPair (op : String) (left right : Value) : Evaluated (ExactValue × ExactValue) :=
  match left, right with
  | .num left _, .num right _ => .ok (left, right)
  | .dur left, .dur right => .ok (left, right)
  | left, right => domainMismatch op "operands of one ordered domain" left right

/-- The operands of an arithmetic operator, and the backing of the result. -/
def numericPair (op : String) (left right : Value) :
    Evaluated (ExactValue × ExactValue × NumericBacking) :=
  match left, right with
  | .num left leftBacking, .num right rightBacking =>
      .ok (left, right, unifyBacking leftBacking rightBacking)
  | left, right => domainMismatch op "numeric operands" left right

/-- The integers that two integer-backed operands hold. -/
def integralPair (op : String) (left right : ExactValue) : Evaluated (Int × Int) :=
  if left.den ≠ 1 ∨ right.den ≠ 1 then
    .error (.typeMismatch ("`" ++ op ++ "` has an integer-backed operand holding a " ++
      "non-integral value"))
  else .ok (left.num, right.num)

def compares (kind : SyntaxKind) (left right : ExactValue) : Bool :=
  match kind with
  | .lt => left < right
  | .le => left ≤ right
  | .gt => left > right
  | _ => left ≥ right

def evalOperator (token : Token) (left right : Value) : Evaluated Value := do
  let op := token.text
  match token.kind with
  | .eqEq => return .bool (← equality op left right)
  | .neq => return .bool (!(← equality op left right))
  | .lt | .le | .gt | .ge =>
      let (left, right) ← orderedPair op left right
      return .bool (compares token.kind left right)
  | .plus =>
      let (left, right, backing) ← numericPair op left right
      return .num (left + right) backing
  | .minus =>
      let (left, right, backing) ← numericPair op left right
      return .num (left - right) backing
  | .star =>
      let (left, right, backing) ← numericPair op left right
      return .num (left * right) backing
  | .slash =>
      let (left, right, backing) ← numericPair op left right
      if right = 0 then throw .divisionByZero
      if backing = .integer then
        let (left, right) ← integralPair op left right
        return .num (left.tdiv right : Int) backing
      return .num (left / right) backing
  | .percent =>
      let (left, right, backing) ← numericPair op left right
      if right = 0 then throw .divisionByZero
      if backing ≠ .integer then
        throw (.typeMismatch "`%` requires integer-backed operands (expr-core §5.3)")
      let (left, right) ← integralPair op left right
      return .num (left.tmod right : Int) backing
  | _ => malformed "an unknown binary operator"

/-- Whether a binary operator may leave its right operand alone. -/
def isShortCircuit (kind : SyntaxKind) : Bool := kind = .ampAmp ∨ kind = .pipePipe

/-! ### Expressions -/

def eval (env : EvalEnv) (expr : Expr) (depth : Nat) : Evaluated Value :=
  if MAX_DEPTH < depth then
    .error (.typeMismatch ("expression nests deeper than " ++ toString MAX_DEPTH ++ " levels"))
  else
    match expr with
    | .missing => malformed "an expression"
    | .literal _ token => evalLiteral token
    | .paren _ inner =>
        match inner with
        | .missing => malformed "an empty parenthesis"
        | inner => eval env inner (depth + 1)
    | .path _ name => evalPath name env
    | .prefixed _ op operand =>
        match operand, op with
        | .missing, _ => malformed "a prefix operator with no operand"
        | _, none => malformed "a prefix expression with no operator"
        | operand, some token => do
            let value ← eval env operand (depth + 1)
            evalPrefix token value
    | .member _ base name =>
        match base, name with
        | .missing, _ => malformed "a member access with no base"
        | _, none => malformed "a member access with no member name"
        | base, some token =>
            match dottedName base token.text env with
            | some value => .ok value
            | none => do
                let value ← eval env base (depth + 1)
                evalField token.text value
    | .binary _ lhs op rhs =>
        match op, lhs, rhs with
        | none, _, _ => malformed "a binary expression with no operator"
        | _, .missing, _ => malformed "a binary expression missing an operand"
        | _, _, .missing => malformed "a binary expression missing an operand"
        | some token, lhs, rhs =>
            if isShortCircuit token.kind then do
              let left ← expectBool token.text (← eval env lhs (depth + 1))
              -- `||` stops at true, and `&&` at false.
              if left = (token.kind = .pipePipe : Bool) then return .bool left
              let right ← expectBool token.text (← eval env rhs (depth + 1))
              return .bool right
            else do
              let left ← eval env lhs (depth + 1)
              let right ← eval env rhs (depth + 1)
              evalOperator token left right

/-- The value of a clause. -/
def evalExpr (expr : Expr) (env : EvalEnv) : Evaluated Value := eval env expr 0

end Contract

end Ridl
