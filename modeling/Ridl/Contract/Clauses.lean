import Ridl.Contract.Canonical
import Ridl.Contract.Eval
import Ridl.Library.Infix
import Ridl.Podbuf.Layout

/-!
# Clause Translation

A generator translates a clause where its text has one narrow form, a subject, a
comparison and a number. The text is cut at the first comparison symbol that it
holds, the symbols of two characters tried first. Which subjects there are depends on
the interaction, and which numbers on the class of the type of the subject.

## Main definitions

* `parse`: The three parts of a text.
* `isNumber`: The texts of numbers, as floating-point parsing takes them.
* `translate`: The comparison of a text, or why it is refused.
-/

namespace Ridl

namespace Contract

namespace Clauses

open Library (Text splitInfix)
open Diff (FieldKind TypeDef)
open Podbuf (Packages)

/-! ### Parsing -/

inductive ComparisonOp
  | le
  | ge
  | eq
  | ne
  | lt
  | gt
deriving DecidableEq, Repr

/-- The symbols in the order in which they are looked for. -/
def comparisons : List (Text × ComparisonOp) :=
  [(['<', '='], .le), (['>', '='], .ge), (['=', '='], .eq), (['!', '='], .ne), (['<'], .lt),
    (['>'], .gt)]

def isIdentifier (text : Text) : Bool :=
  match text with
  | first :: rest =>
      (first.isAlpha || first == '_') && rest.all (fun c => c.isAlphanum || c == '_')
  | [] => false

def stripSign (text : Text) : Text :=
  match text with
  | '+' :: rest | '-' :: rest => rest
  | text => text

/-- Digits with a point among them or none, and at least one digit. -/
def isMantissa (text : Text) : Bool :=
  let (int, frac) := (splitOnce '.' text).getD (text, [])
  int.all Char.isDigit && frac.all Char.isDigit && !(int ++ frac).isEmpty

def isExponentMark (c : Char) : Bool := c == 'e' || c == 'E'

/-- The numbers that floating-point parsing takes. Its words have letters that no
    number has. -/
def parsesAsFloat (text : Text) : Bool :=
  let body := stripSign text
  match body.dropWhile (fun c => !isExponentMark c) with
  | [] => isMantissa body
  | _ :: exponent =>
      let digits := stripSign exponent
      isMantissa (body.takeWhile (fun c => !isExponentMark c)) && digits.all Char.isDigit &&
        !digits.isEmpty

def isNumberChar (c : Char) : Bool :=
  c.isDigit || c == '.' || c == '-' || c == '+' || c == 'e' || c == 'E'

def isNumber (text : Text) : Bool :=
  !text.isEmpty && text.all isNumberChar && parsesAsFloat text

def parse (source : Text) : Except String (Text × ComparisonOp × Text) :=
  let text := trim source
  let found := comparisons.findSome? (fun (symbol, op) =>
    (splitInfix symbol text).map (fun (left, right) => (trim left, op, trim right)))
  match found with
  | some (left, op, right) =>
      if isIdentifier left && isNumber right then .ok (left, op, right)
      else .error "not `<subject> <comparison> <numeric literal>`"
  | none => .error "no accepted comparison"

/-! ### Classes -/

inductive ScalarClass
  | float
  | integer
  | boolean
  | string
  | bytes
deriving DecidableEq, Repr

/-- The class of a scalar type. A unit is of floats, as nothing is. -/
def scalarClass (td : TypeDef) : ScalarClass :=
  match td.backing with
  | some (some (.unit _)) => .float
  | some (some (.primitive primitive)) =>
      if primitive = Diff.PRIMITIVE_BOOLEAN then .boolean
      else if primitive = Diff.PRIMITIVE_INTEGER then .integer
      else if primitive = Diff.PRIMITIVE_FLOAT then .float
      else if primitive = Diff.PRIMITIVE_STRING then .string
      else .bytes
  | some none | none => .float

/-- An integer on an integer subject, any number on a float one. -/
def literalMatches (value : Text) (scalar : ScalarClass) : Bool :=
  match scalar with
  | .integer => !value.any (fun c => c == '.' || c == 'e' || c == 'E')
  | .float => true
  | _ => false

/-- The class of the scalar that a reference names, where it is a numeric one. -/
def numericClass (packages : Packages) (home : Diff.Package) (reference : String) :
    Option ScalarClass :=
  match packages.resolve home reference with
  | some (decl, _) =>
      match decl.kind with
      | some (.typeDef td) =>
          match scalarClass td with
          | .integer => some .integer
          | .float => some .float
          | _ => none
      | _ => none
  | none => none

def paramNamedType (param : Diff.Param) : Option String :=
  match param.type with
  | some (.mk _ (some (.named name))) => some name
  | _ => none

/-! ### Translation -/

/-- What is compared: `result`, or a parameter by its place. -/
inductive Subject
  | result
  | param (index : Nat)
deriving DecidableEq, Repr

structure Comparison where
  op : ComparisonOp
  literal : Text
  literalClass : ScalarClass
  subject : Subject
deriving DecidableEq, Repr

inductive Translation
  | comparison (comparison : Comparison)
  | refused (reason : String)
deriving DecidableEq, Repr

def orRefuse {α : Type} (found : Option α) (reason : String) : Except String α :=
  match found with
  | some a => .ok a
  | none => .error reason

/-- The comparison of a subject of the class, where the number is of it. -/
def compared (op : ComparisonOp) (literal : Text) (scalar : ScalarClass) (subject : Subject)
    (reason : String) : Except String Comparison :=
  if literalMatches literal scalar then
    .ok { op := op, literal := literal, literalClass := scalar, subject := subject }
  else .error reason

def translateAccepted (packages : Packages) (home : Diff.Package) (source : Text)
    (params : List Diff.Param) (replyNamed : Option String) : Except String Comparison := do
  let (subject, op, literal) ← parse source
  if subject = "result".toList then
    let named ← orRefuse replyNamed "`result` is only a subject on a query's `ensure` clause"
    let scalar ← orRefuse (numericClass packages home named)
      "`result` is not a named integer or float scalar"
    compared op literal scalar .result "the literal does not match the reply's numeric type"
  else
    match params with
    | [param] =>
        if param.name.toList ≠ subject then
          .error "the subject is not the interaction's declared parameter"
        else do
          let named ← orRefuse (paramNamedType param) "the parameter is not a named type"
          let scalar ← orRefuse (numericClass packages home named)
            "the parameter is not a named integer or float scalar"
          compared op literal scalar (.param 0)
            "the literal does not match the parameter's numeric type"
    | _ => .error "a translated clause needs exactly one declared parameter"

def translate (packages : Packages) (home : Diff.Package) (source : Text)
    (params : List Diff.Param) (replyNamed : Option String) : Translation :=
  match translateAccepted packages home source params replyNamed with
  | .ok comparison => .comparison comparison
  | .error reason => .refused reason

end Clauses

end Contract

end Ridl
