import Mathlib.Algebra.Order.Ring.Int
import Ridl.Diff.Ir

/-!
# Legal Zeros

Whether 0 is a value of a type. A reader that finds no field reads 0 where it
is legal, so a field whose type holds 0 can be missing from an old payload.

The bounds are decimal texts. A lower bound of zero is told by its sign alone.
Any other is read exactly, into an integer of 128 bits and a power of ten, and
what does not fit is answered by no: the reader then refuses the missing field.

## Main definitions

* `decimalSign`: The sign of a decimal text.
-/

namespace Ridl

namespace Diff

/-! ### Decimal texts -/

/-- The digits before the point and those after it. -/
def splitOnce (digits : List Char) : List Char × List Char :=
  (digits.takeWhile (· != '.'), (digits.dropWhile (· != '.')).drop 1)

/-- The text after a minus, and whether there was one. -/
def stripMinus (text : String) : Bool × List Char :=
  match text.toList with
  | '-' :: rest => (true, rest)
  | rest => (false, rest)

/-- Digits, and a point followed by digits or no point. -/
def plainDecimal (unsigned : List Char) : Bool :=
  let (whole, fraction) := splitOnce unsigned
  !whole.isEmpty && whole.all Char.isDigit && fraction.all Char.isDigit &&
    !(unsigned.contains '.' && fraction.isEmpty)

def decimalSign (text : String) : Option Int :=
  let (negative, unsigned) := stripMinus text
  let (whole, fraction) := splitOnce unsigned
  if !plainDecimal unsigned then none
  else if (whole ++ fraction).all (· == '0') then some 0
  else some (if negative then -1 else 1)

/-- A value of a signed integer of 128 bits. -/
def checkedI128 (n : Int) : Option Int := if -2 ^ 127 ≤ n ∧ n < 2 ^ 127 then some n else none

/-- An exact decimal, `units` over ten to the `scale`. -/
structure Decimal where
  units : Int
  scale : Nat

namespace Decimal

/-- Reads a decimal of at most 30 digits. -/
def parse (text : String) : Option Decimal := do
  let (negative, unsigned) := stripMinus text
  let (whole, fraction) := splitOnce unsigned
  if !plainDecimal unsigned || whole.length + fraction.length > 30 then none
  else
    let units : Int := Nat.ofDigitChars 10 (whole ++ fraction) 0
    some { units := if negative then -units else units, scale := fraction.length }

/-- The units at a larger scale, when they fit. -/
def rescaled (d : Decimal) (scale : Nat) : Option Int :=
  if scale < d.scale then none
  else (checkedI128 (10 ^ (scale - d.scale))).bind (fun power => checkedI128 (d.units * power))

end Decimal

/-- A bound that is absent, or is read. -/
def readBound : Option String → Option (Option Decimal)
  | none => some none
  | some text => (Decimal.parse text).map some

/-- 0 lies in the range, and on the grid that starts at the lower bound. -/
def rangeHoldsZero (min max step : Option String) : Bool :=
  if min.all (fun min => decimalSign min == some 0) &&
      max.all (fun max => (decimalSign max).any (fun sign => decide (sign ≥ 0))) then
    step.all (fun step => decimalSign step == some 1)
  else
    match readBound min, readBound max, readBound step with
    | some min, some max, some step =>
        if min.any (fun min => decide (min.units > 0)) ||
            max.any (fun max => decide (max.units < 0)) then false
        else
          match step, min with
          | none, _ => true
          | some step, none => decide (step.units > 0)
          -- Zero is a whole number of steps above the lower bound.
          | some step, some min =>
              let scale := Nat.max min.scale step.scale
              match min.rescaled scale, step.rescaled scale with
              | some min, some step => decide (step > 0) && min.tmod step == 0
              | _, _ => false
    | _, _, _ => false

/-! ### Types -/

/-- The index of the value numbered 0. -/
def enumZeroMember (values : List EnumValue) : Option Nat :=
  values.findIdx? (fun value => value.value == 0)

def primitiveHoldsZero (primitive : Int) : Bool :=
  primitive == PRIMITIVE_BOOLEAN || primitive == PRIMITIVE_INTEGER || primitive == PRIMITIVE_FLOAT

/-- A named or inline scalar holds 0. -/
def scalarHoldsZero (d : TypeDef) : Bool :=
  let numeric :=
    match d.backing with
    | some (some (.unit _)) => true
    | some (some (.primitive primitive)) => primitiveHoldsZero primitive
    | _ => false
  numeric && d.constraint.all (fun c => rangeHoldsZero c.min c.max c.step)

/-- 0, or absence, is a legal value of a field type. -/
def fieldTypeHoldsZero (type : FieldType) (resolve : String → Option Decl) : Bool :=
  if type.isOptional then true
  else
    match type.kind with
    | some (.primitive primitive) => primitiveHoldsZero primitive
    | some (.inlineScalar d) => scalarHoldsZero d
    | some (.named reference) =>
        match (resolve reference).bind Decl.kind with
        | some (.typeDef d) => scalarHoldsZero d
        | some (.enumDef d) => d.isOpen || (enumZeroMember d.values).isSome
        | some (.enumSetDef _) => true
        | _ => false
    | _ => false

end Diff

end Ridl
