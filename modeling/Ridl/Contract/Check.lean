import Ridl.Contract.Tree
import Ridl.Library.Map

/-!
# The Contract Checker

The type of a contract expression in the scope of one clause, and what the
checker reports. A form outside the guaranteed subset is RIDL-306, an `ensure`
that never reads `result` is RIDL-305. Both operands of an operator are inferred
before either is judged, so each function answers a type, where there is one,
with the diagnostics that it adds.

## Main definitions

* `collectRefs`: What a clause reads.
-/

namespace Ridl

namespace Contract

open Ridl.Syntax Ridl.Library

/-! ### Types -/

/-- The primitive that a numeric type is backed by. -/
inductive NumericBacking
  | integer
  | float
deriving DecidableEq, Repr

/-- A domain. Every reference is the full name of a declaration; that of a bare
    numeric literal is empty. A value whose type is outside the domains is
    carried as unsupported. -/
inductive ExprType
  | boolean
  | numeric (reference : String) (backing : NumericBacking)
  | duration
  | enumType (reference : String)
  | tuple (encoded : String)
  | unsupported (declared : String)
deriving DecidableEq, Repr

namespace ExprType

def encodeField : Option ExprType → String
  | some .boolean => "B"
  | some (.numeric name .integer) => "Ni:" ++ name
  | some (.numeric name .float) => "Nf:" ++ name
  | some .duration => "D"
  | some (.enumType name) => "E:" ++ name
  | some (.unsupported declared) => "U:" ++ declared
  | some (.tuple _) => "U:a tuple"
  | none => "U:a type outside the guaranteed subset"

/-- The domain that a code with a name stands for. -/
def decodeNamed (code : List Char) (name : String) : Option ExprType :=
  if code = "Ni".toList then some (.numeric name .integer)
  else if code = "Nf".toList then some (.numeric name .float)
  else if code = "E".toList then some (.enumType name)
  else if code = "U".toList then some (.unsupported name)
  else none

def decodeField (code : List Char) : Option ExprType :=
  if code = "B".toList then some .boolean
  else if code = "D".toList then some .duration
  else
    match splitOnce ':' code with
    | some (code, name) => decodeNamed code (String.ofList name)
    | none => none

/-- The tuple domain over fields, in the order in which they are declared. -/
def ofFields (fields : List (String × Option ExprType)) : ExprType :=
  .tuple (String.intercalate ";" (fields.map (fun field => field.1 ++ "=" ++ encodeField field.2)))

def tupleField (encoded name : String) : Option ExprType :=
  ((encoded.toList.splitOn ';').filter (· ≠ [])).findSome? (fun entry =>
    match splitOnce '=' entry with
    | some (field, code) => if field = name.toList then decodeField code else none
    | none => none)

def describe : ExprType → String
  | .boolean => "boolean"
  | .numeric name _ => if name = "" then "a numeric literal" else "`" ++ name ++ "`"
  | .duration => "duration"
  | .enumType name => "`" ++ name ++ "`"
  | .tuple _ => "a tuple"
  | .unsupported declared => "`" ++ declared ++ "`"

end ExprType

/-! ### Scopes -/

structure EnumDecl where
  reference : String
  members : List String
deriving DecidableEq

namespace EnumDecl

def hasMember (decl : EnumDecl) (name : String) : Bool := decl.members.any (· == name)

end EnumDecl

/-- The constants and the enums of a package, by the names that the file binds. -/
structure ContractVocabulary where
  consts : OrdMap String ExprType
  enums : OrdMap String EnumDecl

inductive SymbolKind
  | type
  | const
  | struct
  | enum
  | enumSet
  | union
  | interface
deriving DecidableEq, Repr

/-- What one clause may name. An `ensure` on a query has `result` and no signals,
    a `require` has no `result` and the signals of its own interface. -/
structure ContractScope where
  params : List (String × ExprType)
  result : Option ExprType
  signals : List (String × ExprType)
  vocabulary : ContractVocabulary
  resolution : OrdMap String SymbolKind

def lookup {α : Type} (bindings : List (String × α)) (name : String) : Option α :=
  (bindings.find? (·.1 == name)).map (·.2)

/-! ### Diagnostics -/

inductive DiagCode
  | RIDL_305
  | RIDL_306
deriving DecidableEq, Repr

inductive Severity
  | error
  | warning
deriving DecidableEq, Repr

/-- A diagnostic of one expression, with no file yet. -/
structure Diagnostic where
  code : DiagCode
  severity : Severity
  message : String
  range : TextRange
deriving DecidableEq, Repr

/-- What a part of the checker answers: a type, and the diagnostics it adds. -/
abbrev Inferred := Option ExprType × List Diagnostic

def error (range : TextRange) (message : String) : Inferred :=
  (none, [{ code := .RIDL_306, severity := .error, message := message, range := range }])

def isAsciiUppercase (c : Char) : Bool := 'A' ≤ c ∧ c ≤ 'Z'

def isAsciiLowercase (c : Char) : Bool := 'a' ≤ c ∧ c ≤ 'z'

def startsUppercase (name : String) : Bool :=
  match name.toList with
  | c :: _ => isAsciiUppercase c
  | [] => false

def isScreamingSnake (name : String) : Bool :=
  startsUppercase name && !name.toList.any isAsciiLowercase

def isCamelCase (name : String) : Bool :=
  startsUppercase name && name.toList.any isAsciiLowercase

/-! ### Names and literals -/

def inferLiteral (token : Option Token) : Inferred :=
  match token with
  | none => (none, [])
  | some token =>
    match token.kind with
    | .intNumber => (some (.numeric "" .integer), [])
    | .floatNumber => (some (.numeric "" .float), [])
    | .duration => (some .duration, [])
    | .trueKw | .falseKw => (some .boolean, [])
    | .string | .regex =>
        error token.range ("string or regex literal in a contract expression — no operator of " ++
          "the guaranteed subset works over strings or bytes (expr-core §5.3)")
    | _ => (none, [])

/-- A type outside the domains is reported, and each other one passed on. -/
def inDomain (found : ExprType) (name noun : String) (range : TextRange) : Inferred :=
  match found with
  | .unsupported declared =>
      error range ("`" ++ name ++ "` is a " ++ noun ++ " of type `" ++ declared ++
        "`, which is outside the guaranteed subset — a contract expression types boolean, " ++
        "numeric, duration, enum, and tuple values (expr-core §5.1)")
  | typed => (some typed, [])

def unresolvedMessage (name : String) (scope : ContractScope) : String :=
  if scope.result.isSome then
    "`" ++ name ++ "` does not resolve here — an `ensure` sees `result`, the parameters, " ++
      "constants, and enum types only; the interface's own signals are readable in a `require` " ++
      "(ridl §13, expr-core §6)"
  else
    "`" ++ name ++ "` does not resolve here — a `require` sees the parameters, the " ++
      "interface's own signals, constants, and enum types (expr-core §6)"

def inferPath (token : Option Token) (scope : ContractScope) : Inferred :=
  match token with
  | none => (none, [])
  | some token =>
    let name := token.text
    match lookup scope.params name with
    | some found => inDomain found name "parameter" token.range
    | none =>
      if name = "result" then
        match scope.result with
        | some found => inDomain found name "query result" token.range
        | none =>
            error token.range ("`result` is not in scope here — `result` exists in an `ensure` on " ++
              "a query (expr-core §6)")
      else
        match lookup scope.signals name with
        | some found => inDomain found name "signal" token.range
        | none =>
          match scope.vocabulary.consts[name]? with
          | some found => inDomain found name "constant" token.range
          | none =>
            match scope.resolution[name]? with
            | some .enum =>
                error token.range ("`" ++ name ++ "` names an enum type, which has no value — " ++
                  "write `" ++ name ++ ".MEMBER` (expr-core §5.3)")
            | some _ =>
                error token.range ("`" ++ name ++ "` names a declaration that is not a value of " ++
                  "the guaranteed subset — a contract references parameters, `result`, the " ++
                  "interface's own signals, constants, and enum types (expr-core §6)")
            | none => error token.range (unresolvedMessage name scope)

/-- The enum that a bare name on the left of a member access is. A value in scope
    shadows it; the query result is not looked for. -/
def enumTypeHead (base : Expr) (scope : ContractScope) : Option EnumDecl :=
  match base with
  | .path _ (some token) =>
      if (lookup scope.params token.text).isSome || (lookup scope.signals token.text).isSome ||
          scope.vocabulary.consts.contains token.text then none
      else scope.vocabulary.enums[token.text]?
  | _ => none

/-! ### Operators -/

def inferPrefix (range : TextRange) (op : Option Token) (operand : Inferred) : Inferred :=
  match op, operand.1 with
  | some token, some type =>
    match token.kind with
    | .bang =>
        if type = .boolean then (some .boolean, operand.2)
        else
          (none, operand.2 ++ (error range ("`!` requires a boolean operand, found " ++
            type.describe ++ " (expr-core §5.3)")).2)
    | .minus =>
        match type with
        | .numeric _ _ => (some type, operand.2)
        | _ =>
            (none, operand.2 ++ (error range ("unary `-` requires a numeric operand, found " ++
              type.describe ++ " (expr-core §5.3)")).2)
    | _ => (none, operand.2)
  | _, _ => (none, operand.2)

/-- A member access. What the base is was inferred already, and counts where it
    is needed. -/
def inferMember (scope : ContractScope) (range : TextRange) (base : Expr) (token : Option Token)
    (inferred : Inferred) : Inferred :=
  match base, token with
  | .missing, _ => (none, [])
  | _, none => (none, [])
  | base, some token =>
    let name := token.text
    if isCamelCase name then
      error range ("`." ++ name ++ "` names a type, not a member — a qualified path such as " ++
        "`pkg.Name.MEMBER` is not expressible in a contract expression; references resolve " ++
        "through the file's imports (expr-core §3.1)")
    else if isScreamingSnake name then
      match enumTypeHead base scope with
      | some declared =>
          if declared.hasMember name then (some (.enumType declared.reference), [])
          else error range ("`" ++ declared.reference ++ "` has no member `" ++ name ++
            "` (expr-core §5.3)")
      | none =>
          if inferred.2 = [] then
            error range ("`." ++ name ++ "` is an enum member access, which needs an enum type " ++
              "name on the left (expr-core §5.3)")
          else (none, inferred.2)
    else
      match inferred.1 with
      | none => (none, inferred.2)
      | some (.tuple encoded) =>
          match ExprType.tupleField encoded name with
          | some field =>
              let (type, reported) := inDomain field name "tuple field" range
              (type, inferred.2 ++ reported)
          | none =>
              (none, inferred.2 ++ (error range ("the result tuple has no field `" ++ name ++
                "` (expr-core §5.3)")).2)
      | some other =>
          (none, inferred.2 ++ (error range ("field access `." ++ name ++ "` on " ++
            other.describe ++ " — the guaranteed subset admits field access on a tuple-typed " ++
            "`result` only (expr-core §5.1)")).2)

/-- A bare literal unifies with any numeric type, and two named types only when
    they are one declaration. -/
def unifyNumeric (left right : String) : Option String :=
  if left = "" then some right
  else if right = "" ∨ left = right then some left
  else none

def unifyBacking : NumericBacking → NumericBacking → NumericBacking
  | .integer, .integer => .integer
  | _, _ => .float

def mismatch (op expected : String) (lhs rhs : ExprType) : String :=
  "`" ++ op ++ "` requires " ++ expected ++ ", found " ++ lhs.describe ++ " and " ++
    rhs.describe ++ " (expr-core §5.2)"

/-- Whether `==` and `!=` compare two types. -/
def unifies : ExprType → ExprType → Bool
  | .boolean, .boolean => true
  | .duration, .duration => true
  | .numeric left _, .numeric right _ => (unifyNumeric left right).isSome
  | .enumType left, .enumType right => left = right
  | _, _ => false

/-- Whether the ordering operators compare two types. -/
def isOrdered : ExprType → ExprType → Bool
  | .duration, .duration => true
  | .numeric left _, .numeric right _ => (unifyNumeric left right).isSome
  | _, _ => false

def unifyArithmetic : ExprType → ExprType → Option (String × NumericBacking)
  | .numeric left leftBacking, .numeric right rightBacking =>
      (unifyNumeric left right).map (fun unified =>
        (unified, unifyBacking leftBacking rightBacking))
  | _, _ => none

def isEnum : ExprType → Bool
  | .enumType _ => true
  | _ => false

/-- A binary operator over operands that both have a type. -/
def inferOperator (range : TextRange) (token : Token) (lhs rhs : ExprType) : Inferred :=
  let op := token.text
  match token.kind with
  | .pipePipe | .ampAmp =>
      if lhs = .boolean ∧ rhs = .boolean then (some .boolean, [])
      else error range ("`" ++ op ++ "` requires boolean operands, found " ++ lhs.describe ++
        " and " ++ rhs.describe ++ " (expr-core §5.3)")
  | .eqEq | .neq =>
      if unifies lhs rhs then (some .boolean, [])
      else error range (mismatch op "operands of one domain" lhs rhs)
  | .lt | .le | .gt | .ge =>
      if isOrdered lhs rhs then (some .boolean, [])
      else if isEnum lhs && isEnum rhs then
        error range ("`" ++ op ++ "` orders enum values — enums support `==` and `!=` only " ++
          "(expr-core §5.3)")
      else error range (mismatch op "operands of one ordered domain" lhs rhs)
  | .plus | .minus | .star | .slash | .percent =>
      match unifyArithmetic lhs rhs with
      | none =>
          if lhs = .duration ∨ rhs = .duration then
            error range ("`" ++ op ++ "` over a duration — duration supports comparison only in " ++
              "the guaranteed subset (expr-core §5.3)")
          else error range (mismatch op "numeric operands of one type" lhs rhs)
      | some (reference, backing) =>
          if token.kind = .percent ∧ backing ≠ .integer then
            error range ("`%` requires integer-backed operands, found " ++ lhs.describe ++
              " and " ++ rhs.describe ++ " (expr-core §5.3)")
          else (some (.numeric reference backing), [])
  | _ => (none, [])

def inferBinary (range : TextRange) (op : Option Token) (lhs rhs : Inferred) : Inferred :=
  match op, lhs.1, rhs.1 with
  | some token, some left, some right =>
      let (type, reported) := inferOperator range token left right
      (type, lhs.2 ++ rhs.2 ++ reported)
  | _, _, _ => (none, lhs.2 ++ rhs.2)

/-- The type of an expression in a scope, and what is wrong with it. -/
def infer (scope : ContractScope) : Expr → Inferred
  | .missing => (none, [])
  | .literal _ token => inferLiteral token
  | .paren _ inner => infer scope inner
  | .path _ name => inferPath name scope
  | .prefixed range op operand => inferPrefix range op (infer scope operand)
  | .member range base name => inferMember scope range base name (infer scope base)
  | .binary range lhs op rhs => inferBinary range op (infer scope lhs) (infer scope rhs)

/-! ### What a clause reads -/

/-- What a clause reads, each name once in the order in which it is first read.
    An enum that is the head of a member access has no value; it is kept because
    the clause names it. -/
structure ExprRefs where
  params : List String := []
  signals : List String := []
  usesResult : Bool := false
  consts : List String := []
  enumTypes : List String := []
deriving DecidableEq

def pushOnce (list : List String) (name : String) : List String :=
  if list.any (· == name) then list else list ++ [name]

def walkPath (scope : ContractScope) (token : Option Token) (refs : ExprRefs) : ExprRefs :=
  match token with
  | none => refs
  | some token =>
    let name := token.text
    if (lookup scope.params name).isSome then { refs with params := pushOnce refs.params name }
    else if name = "result" ∧ scope.result.isSome then { refs with usesResult := true }
    else if (lookup scope.signals name).isSome then
      { refs with signals := pushOnce refs.signals name }
    else if scope.vocabulary.consts.contains name then
      { refs with consts := pushOnce refs.consts name }
    else refs

/-- Whether a member access is one to an enum. -/
def isEnumAccess (scope : ContractScope) (base : Expr) (name : Option Token) : Bool :=
  (name.any (fun token => isScreamingSnake token.text)) && (enumTypeHead base scope).isSome

def walkRefs (scope : ContractScope) : Expr → ExprRefs → ExprRefs
  | .missing, refs => refs
  | .literal _ _, refs => refs
  | .paren _ inner, refs => walkRefs scope inner refs
  | .prefixed _ _ operand, refs => walkRefs scope operand refs
  | .binary _ lhs _ rhs, refs => walkRefs scope rhs (walkRefs scope lhs refs)
  | .member _ base name, refs =>
      if isEnumAccess scope base name then
        match base with
        | .path _ (some token) => { refs with enumTypes := pushOnce refs.enumTypes token.text }
        | _ => refs
      else walkRefs scope base refs
  | .path _ name, refs => walkPath scope name refs

def collectRefs (expr : Expr) (scope : ContractScope) : ExprRefs := walkRefs scope expr {}

/-! ### The clause -/

/-- The type of a clause, which is boolean, and what the checker reports. -/
def checkContractExpr (expr : Expr) (scope : ContractScope) : Inferred :=
  let (inferred, diagnostics) := infer scope expr
  match inferred with
  | some .boolean =>
      if scope.result.isSome && !(collectRefs expr scope).usesResult then
        (some .boolean, diagnostics ++ [{
          code := .RIDL_305, severity := .warning
          message := "`ensure` references no `result` — a postcondition that observes nothing of " ++
            "the result (ridl §13)"
          range := expr.range }])
      else (some .boolean, diagnostics)
  | some other =>
      (none, diagnostics ++ (error expr.range ("contract expression is " ++ other.describe ++
        ", not a predicate — the root of a `require`/`ensure` must be boolean " ++
        "(expr-core §5.3)")).2)
  | none => (none, diagnostics)

end Contract

end Ridl
