import Ridl.Sizing.Tables

/-!
# The Bound of a FlatBuffers Buffer

The largest buffer that a value of a declaration encodes to. Each object is
charged at its worst: what it takes inline in its parent, and what it places
out of line, with the padding that its alignment can need.

The walk follows names into the packages that declare them, so it is a program
that asks for the bounds of named composites, and it is run with the guard: a
composite that reaches itself has no bound, and the bound of one that is reached
twice is remembered. Sums and products are `u64`, and one that does not fit is no
bound.

## Main definitions

* `fieldCharge`: The charge of a field of a type.
* `compositeBound`: The bound of the table of a struct or a union.
-/

namespace Ridl

namespace Sizing

open Diff Library.Guarded
open Podbuf (Packages IntWidth FloatWidth)

/-! ### Checked arithmetic -/

def U64_MAX : Nat := 2 ^ 64 - 1

/-- `u64::checked_add`. -/
def checkedAddU64 (a b : Nat) : Option Nat := if a + b ≤ U64_MAX then some (a + b) else none

/-- `u64::checked_mul`. -/
def checkedMulU64 (a b : Nat) : Option Nat := if a * b ≤ U64_MAX then some (a * b) else none

theorem checkedAddU64_eq_some {a b c : Nat} (h : checkedAddU64 a b = some c) : c = a + b :=
  (Option.some.inj (Option.ite_none_right_eq_some.1 h).2).symm

theorem checkedMulU64_eq_some {a b c : Nat} (h : checkedMulU64 a b = some c) : c = a * b :=
  (Option.some.inj (Option.ite_none_right_eq_some.1 h).2).symm

/-! ### Charges -/

/-- The largest buffer that an offset can address. -/
def MAX_ENCODABLE : Nat := 2 ^ 32 - 1

/-- The padding that one alignment can cost. -/
def ALIGN_SLACK : Nat := 7

def OFFSET : Nat := 4

def VTABLE_HEADER : Nat := 4

def VTABLE_SLOT : Nat := 2

/-- The offset to the root table, and the padding of the whole buffer. -/
def ROOT : Nat := OFFSET + ALIGN_SLACK

/-- What a field costs: inline in its table, and elsewhere in the buffer. -/
structure Charge where
  inline : Nat
  outOfLine : Nat
deriving DecidableEq

namespace Charge

def inlineOnly (inline : Nat) : Charge := { inline := inline, outOfLine := 0 }

def add (a b : Charge) : Option Charge := do
  let inline ← checkedAddU64 a.inline b.inline
  let outOfLine ← checkedAddU64 a.outOfLine b.outOfLine
  return { inline := inline, outOfLine := outOfLine }

end Charge

def intWidthBytes (width : Int) : Option Nat := (IntWidth.ofInt width).map IntWidth.bytes

/-- A table: the offset to its vtable, its fields, the padding of each slot and of the offset, its
    vtable, and what its fields place out of line. -/
def tableBound (layout : TableLayout) (inline outOfLine : Nat) : Option Nat := do
  let slots := layout.vtableSlots
  let entries ← checkedMulU64 VTABLE_SLOT slots
  let vtable ← checkedAddU64 (← checkedAddU64 VTABLE_HEADER entries) ALIGN_SLACK
  let padding ← checkedMulU64 ALIGN_SLACK (← checkedAddU64 slots 1)
  let body ← checkedAddU64 (← checkedAddU64 (← checkedAddU64 OFFSET inline) padding) vtable
  checkedAddU64 body outOfLine

/-- A vector: its length, its elements, its padding, and what the elements place out of line. -/
def vectorCharge (count : Nat) (element : Charge) : Option Charge := do
  let elements ← checkedMulU64 count element.inline
  let vector ← checkedAddU64 (← checkedAddU64 OFFSET elements) ALIGN_SLACK
  let outOfLine ← checkedAddU64 vector (← checkedMulU64 count element.outOfLine)
  return { inline := OFFSET, outOfLine := outOfLine }

/-- A primitive at its full width. A bare string has no bound. -/
def primitiveCharge (primitive : Int) : Option Charge :=
  if primitive = PRIMITIVE_BOOLEAN then some (.inlineOnly 1)
  else if primitive = PRIMITIVE_INTEGER ∨ primitive = PRIMITIVE_FLOAT then some (.inlineOnly 8)
  else none

/-- A scalar at its declared width. -/
def scalarCharge (d : TypeDef) : Option Charge :=
  match d.width with
  | some (.int width) => (intWidthBytes width).map .inlineOnly
  | some (.float width) => (FloatWidth.ofInt width).map fun width => .inlineOnly width.bytes
  | none =>
      match d.backing with
      | some (some (.primitive primitive)) =>
          if primitive = PRIMITIVE_BOOLEAN then some (.inlineOnly 1)
          else if primitive = PRIMITIVE_BYTES then do
            let length ← d.constraint.bind Constraint.lenMax
            let outOfLine ← checkedAddU64 (← checkedAddU64 OFFSET length) ALIGN_SLACK
            return { inline := OFFSET, outOfLine := outOfLine }
          else if primitive = PRIMITIVE_STRING then do
            let characters ← d.constraint.bind Constraint.lenMax
            let text ← checkedAddU64 OFFSET (← checkedMulU64 characters 4)
            let outOfLine ← checkedAddU64 (← checkedAddU64 text 1) ALIGN_SLACK
            return { inline := OFFSET, outOfLine := outOfLine }
          else none
      | _ => none

/-! ### The walk -/

variable {packages : Packages}

/-- A walk that asks for the bounds of named composites. -/
abbrev SizerM (packages : Packages) (α : Type) := Ask (Found packages) Nat α

/-- The bound of a composite that was found, as a struct or as a union. -/
def foundBound (found : Found packages) : SizerM packages Nat := do
  match found.decl.kind with
  | some (.structDef d) => do
      let _ ← given (structTable found.decl.name d).toOption
      valueOf found
  | some (.unionDef _) => valueOf found
  | _ => given none

/-- The charge of a name. -/
def namedCharge (home : Home packages) (reference : String) : SizerM packages Charge :=
  match resolve home reference with
  | none => given none
  | some found =>
      match found.decl.kind with
      | some (.typeDef d) => given (scalarCharge d)
      | some (.structDef _) | some (.unionDef _) => do
          let bound ← foundBound found
          return { inline := OFFSET, outOfLine := bound }
      | some (.enumDef _) => return .inlineOnly 8
      | some (.enumSetDef d) => given ((intWidthBytes d.width).map .inlineOnly)
      | _ => given none

mutual

def fieldCharge (home : Home packages) : FieldType → SizerM packages Charge
  | .mk _ kind => kindCharge home kind

def kindCharge (home : Home packages) : Option FieldKind → SizerM packages Charge
  | none => given none
  | some (.primitive primitive) => given (primitiveCharge primitive)
  | some (.inlineScalar d) => given (scalarCharge d)
  | some (.named reference) => namedCharge home reference
  | some (.array element _ max) => do
      let element ← typeCharge home element
      given (vectorCharge max element)
  -- A map is a vector of entry tables.
  | some (.map key value _ max) => do
      let key ← typeCharge home key
      let value ← typeCharge home value
      let sum ← given (key.add value)
      let entry ← given (tableBound mapEntryTable sum.inline sum.outOfLine)
      given (vectorCharge max { inline := OFFSET, outOfLine := entry })
  | some (.tuple fields) => do
      let layout ← given (tupleTable "" fields).toOption
      let sum ← fieldsCharge home fields (.inlineOnly 0)
      let bound ← given (tableBound layout sum.inline sum.outOfLine)
      return { inline := OFFSET, outOfLine := bound }
  | some (.stream _) => given none

def typeCharge (home : Home packages) : Option FieldType → SizerM packages Charge
  | none => given none
  | some type => fieldCharge home type

/-- The charges of the fields of a tuple, added up. -/
def fieldsCharge (home : Home packages) : List TupleField → Charge → SizerM packages Charge
  | [], sum => return sum
  | .mk _ type :: fields, sum => do
      let charge ← typeCharge home type
      let sum ← given (sum.add charge)
      fieldsCharge home fields sum

end

/-- The charge of a member of a struct. A retired one is charged a byte. -/
def memberCharge (home : Home packages) (sum : Charge) :
    Option StructMember → SizerM packages Charge
  | some (.field field) => do
      let charge ← typeCharge home field.type
      given (sum.add charge)
  | some (.reserved _) => given (sum.add (.inlineOnly 1))
  | none => return sum

def structBound (home : Home packages) (layout : TableLayout) (d : StructDef) :
    SizerM packages Nat := do
  let sum ← d.members.foldlM (memberCharge home) (.inlineOnly 0)
  given (tableBound layout sum.inline sum.outOfLine)

/-- What an arm of a union places out of line: its table, or the box around it. -/
def unionArmBound (home : Home packages) (arm : UnionArm) : SizerM packages Nat :=
  match resolve home arm.typeRef with
  | none => given none
  | some found =>
      match found.decl.kind with
      | some (.structDef _) | some (.unionDef _) => foundBound found
      | some (.typeDef _) | some (.enumDef _) | some (.enumSetDef _) => do
          let charge ← namedCharge home arm.typeRef
          given (tableBound unionArmBoxTable charge.inline charge.outOfLine)
      | _ => given none

def unionBound (home : Home packages) (d : UnionDef) : SizerM packages Nat := do
  let largest ← d.arms.foldlM
    (fun largest arm => do return max largest (← unionArmBound home arm)) 0
  -- The discriminant is a byte inline, at the slot before the value.
  given (tableBound unionWrapperTable (1 + OFFSET) largest)

def compositeBound (home : Home packages) (decl : Decl) : SizerM packages Nat :=
  match decl.kind with
  | some (.structDef d) => do
      let layout ← given (structTable decl.name d).toOption
      structBound home layout d
  | some (.unionDef d) => unionBound home d
  | _ => given none

/-- The box of a root that is no table. -/
def rootBoxBound (home : Home packages) (decl : Decl) : SizerM packages Nat := do
  let charge ← namedCharge home decl.name
  given (tableBound rootBoxTable charge.inline charge.outOfLine)

/-- The bound of a composite that was found. -/
def foundBody (found : Found packages) : SizerM packages Nat :=
  compositeBound found.declaring found.decl

/-- What the declarations are remembered by. -/
def keys (packages : Packages) : List String :=
  (scope packages).flatMap fun package => package.decls.map fun decl =>
    package.name ++ "." ++ decl.name

/-- A walk under the guard, with a level for each declaration. -/
def runSizer (w : SizerM packages Nat) (guard : Guard String Nat) :
    Option (Option Nat × Guard String Nat) :=
  run (guarded Found.key foundBody ((keys packages).length + 1)) w guard

/-- What a composite of the root package is remembered by. -/
def rootKey (packages : Packages) (decl : Decl) : String :=
  packages.package.name ++ "." ++ decl.name

/-- The walk of a root, and what is being computed then: a root that is a composite is on the stack
    itself. -/
def rootWalk (packages : Packages) (decl : Decl) : SizerM packages Nat × List String :=
  match decl.kind with
  | some (.structDef _) | some (.unionDef _) =>
      (compositeBound (rootHome packages) decl, [rootKey packages decl])
  | some (.typeDef _) | some (.enumDef _) | some (.enumSetDef _) =>
      (rootBoxBound (rootHome packages) decl, [])
  | _ => (given none, [])

/-- The bound, unless no offset can address it. -/
def encodable (body : Nat) : Option Nat := do
  let bound ← checkedAddU64 ROOT body
  if bound ≤ MAX_ENCODABLE then some bound else none

/-- The largest buffer that a value of a declaration encodes to. -/
def maxSize (packages : Packages) (decl : Decl) : Option Nat := do
  let (body, _) ← runSizer (rootWalk packages decl).1 ⟨(rootWalk packages decl).2, []⟩
  encodable (← body)

end Sizing

end Ridl
