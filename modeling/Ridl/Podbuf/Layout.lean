import Mathlib.Data.List.Sort
import Ridl.Library.FirstFit
import Ridl.Podbuf.Form

/-!
# The Layout Law

Where every byte of a head goes. The members of a head are collected in
declaration order, a flags byte before each eighth optional one, and placed by
first fit. The head's size is the greatest end rounded up, and its pads are the
gaps.

The walk over the declarations follows a reference into the package that
declares it, and carries the named composites on the stack. A type that reaches
itself is an error. The walk is given a number of steps, since a field type is
as deep as it is.

## Main definitions

* `structHead`, `tupleHead`, `unionHead`: The heads of a type.
* `formOf`: The form of a field type.
-/

namespace Ridl

namespace Podbuf

open Library Diff

/-- The package a bound is computed for, and those it may reference. -/
structure Packages where
  package : Package
  others : List Package

namespace Packages

/-- A bare name of a package, or a qualified name of any, with the package that
    holds it. -/
def resolve (packages : Packages) (home : Package) (reference : String) :
    Option (Decl × Package) :=
  match rsplitOnce reference '.' with
  | some (name, member) =>
      ((packages.package :: packages.others).find? (fun candidate => candidate.name == name)).bind
        (fun candidate => (candidate.decls.find? (fun decl => decl.name == member)).map
          (fun decl => (decl, candidate)))
  | none => (home.decls.find? (fun decl => decl.name == reference)).map (fun decl => (decl, home))

end Packages

/-- A layout, or why there is none; nothing when the steps ran out. -/
abbrev LayoutM := ExceptT String Option

/-- One field before placement. -/
structure Item where
  source : Source
  form : Form
  optional : Option FlagBit

/-- The members of one head, and how many optional ones there are. -/
structure Members where
  items : List Item
  optionals : Nat

namespace Members

def empty : Members := { items := [], optionals := 0 }

/-- A flags byte. -/
def flags (index : Nat) : Item :=
  { source := .flags index, form := .int .u8 false, optional := none }

/-- One more member: an optional one takes the next bit, in a flags byte of its
    own when it is the first of eight. -/
def push (m : Members) (source : Source) (form : Form) (isOptional : Bool) : Members :=
  if isOptional then
    let n := m.optionals
    let items := if n % 8 = 0 then m.items ++ [flags (n / 8)] else m.items
    { items := items ++ [{ source := source, form := form, optional := some ⟨n / 8, n % 8⟩ }]
      optionals := n + 1 }
  else { m with items := m.items ++ [{ source := source, form := form, optional := none }] }

end Members

/-- The gap before a field, if there is one. -/
def padBefore (cursor : Nat) (offset : Nat) : List Pad :=
  if cursor < offset then [⟨cursor, offset - cursor⟩] else []

/-- The gaps between fields in the order of their offsets, up to the size. -/
def padsFrom (size : Nat) : Nat → List Placement → List Pad
  | cursor, [] => padBefore cursor size
  | cursor, p :: rest =>
      padBefore cursor p.offset ++ padsFrom size (max cursor (p.offset + p.size)) rest

/-- The size and the alignment of an item. -/
def Item.extent (item : Item) : Nat × Nat := (elemSize item.form, alignOf item.form)

def Item.placed (item : Item) (off : Nat) : Placement :=
  .mk item.source off (elemSize item.form) (alignOf item.form) item.form item.optional

def placements (items : List Item) (offs : List Nat) : List Placement :=
  (items.zipWith Item.placed offs).insertionSort (fun p q => p.offset ≤ q.offset)

/-- The greatest end, rounded up. -/
def headSize (items : List Item) (offs : List Nat) : Nat :=
  alignUp ((spans (items.map Item.extent) offs).foldl (fun m s => max m s.2) 0) HEAD_ALIGN

/-- The head of collected members. -/
def layOut (items : List Item) : LayoutM Head :=
  match place (items.map Item.extent) with
  | none => .mk none
  | some offs =>
      let size := headSize items offs
      if size > U32_MAX then
        throw ("a head of " ++ toString size ++ " bytes is larger than a u32 offset can address")
      else
        let fields := placements items offs
        return .mk size fields (padsFrom size 0 fields)

/-- The one-field head of a scalar, an enum or an enum set. -/
def boxedHead (form : Form) : LayoutM Head :=
  layOut [{ source := .arm, form := form, optional := none }]

/-- The unsigned width of a union's tag. -/
def unionTagWidth (d : UnionDef) : IntWidth :=
  let largest := (d.arms.map UnionArm.ordinal).foldl max 0
  if largest < 2 ^ 8 then .u8 else if largest < 2 ^ 16 then .u16 else .u32

/-- A value fits in that many bits, signed. -/
def fitsSigned (bits : Nat) (n : Int) : Bool := -(2 ^ (bits - 1)) ≤ n && n < 2 ^ (bits - 1)

/-- The narrowest width that holds every value of an enum, and whether it is
    signed. -/
def enumWidth (d : EnumDef) : IntWidth × Bool :=
  let values := d.values.map EnumValue.value
  let low := values.min?.getD 0
  let high := values.max?.getD 0
  if low < 0 then
    ((if fitsSigned 8 low && fitsSigned 8 high then .i8
      else if fitsSigned 16 low && fitsSigned 16 high then .i16
      else if fitsSigned 32 low && fitsSigned 32 high then .i32
      else .i64), true)
  else
    ((if high < 2 ^ 8 then .u8 else if high < 2 ^ 16 then .u16
      else if high < 2 ^ 32 then .u32 else .u64), false)

/-- The length bounds of a string or bytes scalar. -/
def lengthBounds (d : TypeDef) (what : String) : LayoutM (Nat × Nat) :=
  match d.constraint.bind Constraint.lenMax with
  | none => throw ("a " ++ what ++ " with no length bound has no form")
  | some max => return ((d.constraint.bind Constraint.lenMin).getD 0, max)

/-- A named or inline scalar at its declared width. -/
def scalarForm (d : TypeDef) : LayoutM Form :=
  match d.width with
  | some (.int width) =>
      match IntWidth.ofInt width with
      | some width => return .int width width.isSigned
      | none => throw "an integer with no width has no form"
  | some (.float width) =>
      match FloatWidth.ofInt width with
      | some width => return .float width
      | none => throw "a float with no width has no form"
  | none =>
      match d.backing with
      | some (some (.primitive primitive)) =>
          if primitive = PRIMITIVE_BOOLEAN then return .bool
          else if primitive = PRIMITIVE_STRING then do
            let (min, max) ← lengthBounds d "string"
            return .descriptor (.text min max)
          else if primitive = PRIMITIVE_BYTES then do
            let (min, max) ← lengthBounds d "bytes"
            if min = max then
              if max > U32_MAX then
                throw ("bytes of " ++ toString max ++ " bytes are larger than a head")
              else return .inlineArray (.int .u8 false) max
            else return .descriptor (.bytes min max)
          else throw "a scalar with no width has no form"
      | _ => throw "a scalar with no width has no form"

/-- The form of a primitive that carries no width: the whole domain of an
    integer or a float. -/
def primitiveForm (primitive : Int) : LayoutM Form :=
  if primitive = PRIMITIVE_BOOLEAN then return .bool
  else if primitive = PRIMITIVE_INTEGER then return .int .i64 true
  else if primitive = PRIMITIVE_FLOAT then return .float .f64
  else throw "a bare string or bytes, or an unspecified primitive, has no form"

/-- The members of a struct: its fields. A tombstone holds no bytes. -/
def structMembers (form : FieldType → LayoutM Form) (owner : String) :
    List (Option StructMember) → Members → LayoutM Members
  | [], members => return members
  | some (.field field) :: rest, members =>
      match field.type with
      | none => throw (owner ++ "." ++ field.name ++ " has no type")
      | some type => do
          let form' ← form type
          structMembers form owner rest
            (members.push (.field field.name field.ordinal) form' type.isOptional)
  | _ :: rest, members => structMembers form owner rest members

def tupleMembers (form : FieldType → LayoutM Form) (name : String) :
    Nat → List TupleField → Members → LayoutM Members
  | _, [], members => return members
  | position, .mk field type :: rest, members =>
      if position > U32_MAX then throw (name ++ " has more fields than u32 positions")
      else
        match type with
        | none => throw (name ++ "." ++ field ++ " has no type")
        | some type => do
            let form' ← form type
            tupleMembers form name (position + 1) rest
              (members.push (.position position field) form' type.isOptional)

/-- The head of each arm, in declaration order. -/
def armHeads (armHead : UnionArm → LayoutM Head) : List UnionArm → LayoutM (List ArmHead)
  | [] => return []
  | arm :: rest => do
      let head ← armHead arm
      let heads ← armHeads armHead rest
      return .mk arm.ordinal head :: heads

def unionItems (d : UnionDef) (arms : List ArmHead) : List Item :=
  [{ source := .tag, form := .int (unionTagWidth d) false, optional := none },
    { source := .arm, form := .descriptor (.arm arms), optional := none }]

/-- The items of a map's entry. -/
def entryItems (key value : Form) (keyOptional valueOptional : Bool) : List Item :=
  ((Members.empty.push .key key keyOptional).push .value value valueOptional).items

/-- An array is inline when its length is exact. -/
def arrayForm (element : Form) (min max : Nat) : LayoutM Form :=
  if min = max then
    if max > U32_MAX then throw ("an array of " ++ toString max ++ " elements is larger than a head")
    else return .inlineArray element max
  else return .descriptor (.array element (elemSize element) min max)

/-- A body over a named composite, which cannot be on the stack already. -/
def guarded (visiting : List String) (key : String) (body : List String → LayoutM Head) :
    LayoutM Head :=
  if visiting.contains key then throw (key ++ " reaches itself, so it has no layout")
  else body (key :: visiting)

mutual

/-- The head of a struct: its live fields in declaration order. -/
def structHead (packages : Packages) (fuel : Nat) (visiting : List String) (home : Package)
    (owner : String) (d : StructDef) : LayoutM Head :=
  match fuel with
  | 0 => .mk none
  | fuel + 1 =>
      guarded visiting (home.name ++ "." ++ owner) (fun visiting => do
        let members ← structMembers (formOf packages fuel visiting home) owner d.members .empty
        layOut members.items)

def tupleHead (packages : Packages) (fuel : Nat) (visiting : List String) (home : Package)
    (name : String) (fields : List TupleField) : LayoutM Head :=
  match fuel with
  | 0 => .mk none
  | fuel + 1 => do
      let members ← tupleMembers (formOf packages fuel visiting home) name 1 fields .empty
      layOut members.items

/-- The head of a union: its tag and the descriptor to the active arm. -/
def unionHead (packages : Packages) (fuel : Nat) (visiting : List String) (home : Package)
    (owner : String) (d : UnionDef) : LayoutM Head :=
  match fuel with
  | 0 => .mk none
  | fuel + 1 =>
      guarded visiting (home.name ++ "." ++ owner) (fun visiting => do
        let arms ← armHeads (armHead packages fuel visiting home) d.arms
        layOut (unionItems d arms))

def armHead (packages : Packages) (fuel : Nat) (visiting : List String) (home : Package)
    (arm : UnionArm) : LayoutM Head :=
  match fuel with
  | 0 => .mk none
  | fuel + 1 =>
      match packages.resolve home arm.typeRef with
      | none => throw (arm.typeRef ++ " does not resolve")
      | some (decl, declaring) =>
          match decl.kind with
          | some (.structDef d) => structHead packages fuel visiting declaring decl.name d
          | some (.unionDef d) => unionHead packages fuel visiting declaring decl.name d
          | some (.typeDef _) | some (.enumDef _) | some (.enumSetDef _) => do
              let form ← namedForm packages fuel visiting home arm.typeRef
              boxedHead form
          | _ => throw ("arm " ++ arm.name ++ " names " ++ arm.typeRef ++ ", which is not a type")

def formOf (packages : Packages) (fuel : Nat) (visiting : List String) (home : Package)
    (type : FieldType) : LayoutM Form :=
  match fuel with
  | 0 => .mk none
  | fuel + 1 =>
      match type.kind with
      | none => throw "a field with no type has no form"
      | some (.primitive primitive) => primitiveForm primitive
      | some (.inlineScalar d) => scalarForm d
      | some (.named reference) => namedForm packages fuel visiting home reference
      | some (.tuple fields) => do
          let head ← tupleHead packages fuel visiting home "a tuple" fields
          return .inline head .tuple
      | some (.array none _ _) => throw "an array with no element type has no form"
      | some (.array (some element) min max) => do
          let form ← formOf packages fuel visiting home element
          arrayForm form min max
      | some (.map none _ _ _) => throw "a map with no key type has no form"
      | some (.map (some _) none _ _) => throw "a map with no value type has no form"
      | some (.map (some key) (some value) min max) => do
          let keyForm ← formOf packages fuel visiting home key
          let valueForm ← formOf packages fuel visiting home value
          let entry ← layOut
            (entryItems keyForm valueForm key.isOptional value.isOptional)
          return .descriptor (.map entry entry.size min max)
      | some (.stream _) => throw "a stream has no form"

def namedForm (packages : Packages) (fuel : Nat) (visiting : List String) (home : Package)
    (reference : String) : LayoutM Form :=
  match fuel with
  | 0 => .mk none
  | fuel + 1 =>
      match packages.resolve home reference with
      | none => throw (reference ++ " does not resolve")
      | some (decl, declaring) =>
          match decl.kind with
          | some (.typeDef d) => scalarForm d
          | some (.structDef d) => do
              let head ← structHead packages fuel visiting declaring decl.name d
              return .inline head (.declaration declaring.name decl.name)
          | some (.unionDef d) => do
              let head ← unionHead packages fuel visiting declaring decl.name d
              return .inline head (.declaration declaring.name decl.name)
          | some (.enumDef d) => return .enum (enumWidth d).1 (enumWidth d).2 reference
          | some (.enumSetDef d) =>
              match IntWidth.ofInt d.width with
              | some width => return .enumSet width reference
              | none => throw (reference ++ " has no width")
          | _ => throw (reference ++ " is not a type")

end

end Podbuf

end Ridl
