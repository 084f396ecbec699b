import Ridl.Library.Map

/-!
# The Resolved Packages

What `ridl-diff` compares: the packages of the resolved intermediate
representation, version 2.

The messages are the schema's own. A field that the schema declares as an
enumeration is an `i32` on a value that was read from disk, so a number outside
the enumeration is possible and is kept as it is; an enumeration is named here
only where a rule reads it. A message field that is left out is `none`, and a message that
only chooses between cases is the option of its cases.

## Main definitions

* `Decl`, `Kind`: A declaration, of a package or of an interface body.
* `Package.shapes`: The interface shapes of a package, named and inline.
-/

namespace Ridl

namespace Diff

structure DocLink where
  text : String
  offset : Nat
  len : Nat
  target : String
deriving DecidableEq

/-- The doc envelope of a declaration. -/
structure DocEnvelope where
  doc : String
  labels : List String
  deprecated : Option String
  links : List DocLink
  see : List DocLink
  since : List String
deriving DecidableEq

namespace DocEnvelope

/-- The envelope of a declaration that says nothing. -/
def empty : DocEnvelope :=
  { doc := "", labels := [], deprecated := none, links := [], see := [], since := [] }

end DocEnvelope

/-- The doc fields of a member that has no labels and no deprecation. -/
structure MemberDoc where
  doc : String
  links : List DocLink
  see : List DocLink
  since : List String
deriving DecidableEq

namespace MemberDoc

def empty : MemberDoc := { doc := "", links := [], see := [], since := [] }

def envelope (d : MemberDoc) : DocEnvelope :=
  { doc := d.doc, labels := [], deprecated := none, links := d.links, see := d.see
    since := d.since }

end MemberDoc

def PRIMITIVE_BOOLEAN : Int := 1

def PRIMITIVE_INTEGER : Int := 2

def PRIMITIVE_FLOAT : Int := 3

def PRIMITIVE_STRING : Int := 4

def PRIMITIVE_BYTES : Int := 5

inductive Backing
  | primitive (primitive : Int)
  | unit (unit : String)
deriving DecidableEq

structure Constraint where
  min : Option String
  max : Option String
  step : Option String
  lenMin : Option Nat
  lenMax : Option Nat
  pattern : Option String
  patternConst : Option String
deriving DecidableEq

structure InitValue where
  derivable : Bool
  value : Option String
deriving DecidableEq

inductive Width
  | int (width : Int)
  | float (width : Int)
deriving DecidableEq

structure TypeDef where
  backing : Option (Option Backing)
  constraint : Option Constraint
  declaredInit : Option String
  init : Option InitValue
  width : Option Width
deriving DecidableEq

structure ConstDef where
  typeRef : Option String
  value : String
  regex : Option String
deriving DecidableEq

/-- What a stream carries. -/
inductive StreamElement
  | named (name : String)
  | primitive (primitive : Int)
deriving DecidableEq

mutual

inductive FieldType
  | mk (isOptional : Bool) (kind : Option FieldKind)

inductive FieldKind
  | named (name : String)
  | primitive (primitive : Int)
  | inlineScalar (scalar : TypeDef)
  | tuple (fields : List TupleField)
  | array (element : Option FieldType) (min max : Nat)
  | map (key value : Option FieldType) (min max : Nat)
  | stream (element : Option StreamElement)

inductive TupleField
  | mk (name : String) (type : Option FieldType)

end

-- The three types are nested in options and lists, so their equality is decided
-- by hand, along the same recursion.
mutual

def FieldType.decEq : ∀ a b : FieldType, Decidable (a = b)
  | .mk p k, .mk q l =>
      have := FieldKind.decEqOption k l
      decidable_of_iff (p = q ∧ k = l) (by simp only [FieldType.mk.injEq])
termination_by structural a => a

def FieldType.decEqOption : ∀ a b : Option FieldType, Decidable (a = b)
  | none, none => isTrue rfl
  | none, some _ => isFalse nofun
  | some _, none => isFalse nofun
  | some a, some b =>
      have := FieldType.decEq a b
      decidable_of_iff (a = b) (by simp only [Option.some.injEq])
termination_by structural a => a

def FieldKind.decEqOption : ∀ a b : Option FieldKind, Decidable (a = b)
  | none, none => isTrue rfl
  | none, some _ => isFalse nofun
  | some _, none => isFalse nofun
  | some a, some b =>
      have := FieldKind.decEq a b
      decidable_of_iff (a = b) (by simp only [Option.some.injEq])
termination_by structural a => a

def FieldKind.decEq : ∀ a b : FieldKind, Decidable (a = b)
  | .named m, b =>
      match b with
      | .named n => decidable_of_iff (m = n) (by simp only [FieldKind.named.injEq])
      | .primitive _ | .inlineScalar _ | .tuple _ | .array .. | .map .. | .stream _ =>
          isFalse nofun
  | .primitive p, b =>
      match b with
      | .primitive q => decidable_of_iff (p = q) (by simp only [FieldKind.primitive.injEq])
      | .named _ | .inlineScalar _ | .tuple _ | .array .. | .map .. | .stream _ => isFalse nofun
  | .inlineScalar s, b =>
      match b with
      | .inlineScalar t => decidable_of_iff (s = t) (by simp only [FieldKind.inlineScalar.injEq])
      | .named _ | .primitive _ | .tuple _ | .array .. | .map .. | .stream _ => isFalse nofun
  | .tuple fields, b =>
      match b with
      | .tuple others =>
          have := TupleField.decEqList fields others
          decidable_of_iff (fields = others) (by simp only [FieldKind.tuple.injEq])
      | .named _ | .primitive _ | .inlineScalar _ | .array .. | .map .. | .stream _ =>
          isFalse nofun
  | .array e m n, b =>
      match b with
      | .array f p q =>
          have := FieldType.decEqOption e f
          decidable_of_iff (e = f ∧ m = p ∧ n = q) (by simp only [FieldKind.array.injEq])
      | .named _ | .primitive _ | .inlineScalar _ | .tuple _ | .map .. | .stream _ =>
          isFalse nofun
  | .map k v m n, b =>
      match b with
      | .map l w p q =>
          have := FieldType.decEqOption k l
          have := FieldType.decEqOption v w
          decidable_of_iff (k = l ∧ v = w ∧ m = p ∧ n = q) (by simp only [FieldKind.map.injEq])
      | .named _ | .primitive _ | .inlineScalar _ | .tuple _ | .array .. | .stream _ =>
          isFalse nofun
  | .stream e, b =>
      match b with
      | .stream f => decidable_of_iff (e = f) (by simp only [FieldKind.stream.injEq])
      | .named _ | .primitive _ | .inlineScalar _ | .tuple _ | .array .. | .map .. =>
          isFalse nofun
termination_by structural a => a

def TupleField.decEq : ∀ a b : TupleField, Decidable (a = b)
  | .mk m t, .mk n u =>
      have := FieldType.decEqOption t u
      decidable_of_iff (m = n ∧ t = u) (by simp only [TupleField.mk.injEq])
termination_by structural a => a

def TupleField.decEqList : ∀ a b : List TupleField, Decidable (a = b)
  | [], [] => isTrue rfl
  | [], _ :: _ => isFalse nofun
  | _ :: _, [] => isFalse nofun
  | a :: as, b :: bs =>
      have := TupleField.decEq a b
      have := TupleField.decEqList as bs
      decidable_of_iff (a = b ∧ as = bs) (by simp only [List.cons.injEq])
termination_by structural a => a

end

instance : DecidableEq FieldType := FieldType.decEq

instance : DecidableEq FieldKind := FieldKind.decEq

instance : DecidableEq TupleField := TupleField.decEq

namespace FieldType

def isOptional : FieldType → Bool
  | .mk isOptional _ => isOptional

def kind : FieldType → Option FieldKind
  | .mk _ kind => kind

end FieldType

/-- A retired name, number or slot. -/
structure Reserved where
  ordinal : Nat
  name : Option String
  value : Option Int
deriving DecidableEq

structure Field where
  name : String
  ordinal : Nat
  type : Option FieldType
  declaredInit : Option String
  init : Option InitValue
  docs : DocEnvelope
deriving DecidableEq

inductive StructMember
  | field (field : Field)
  | reserved (reserved : Reserved)
deriving DecidableEq

structure StructDef where
  members : List (Option StructMember)
  fixedLayout : Bool
deriving DecidableEq

structure EnumValue where
  name : String
  value : Int
  docs : MemberDoc
deriving DecidableEq

structure EnumDef where
  values : List EnumValue
  reserved : List Reserved
  isOpen : Bool
deriving DecidableEq

structure EnumSetDef where
  backingEnum : Option String
  bits : List EnumValue
  width : Int
  isOpen : Bool
deriving DecidableEq

structure UnionArm where
  name : String
  ordinal : Nat
  typeRef : String
  docs : MemberDoc
deriving DecidableEq

structure UnionDef where
  arms : List UnionArm
  isResult : Bool
  reserved : List Reserved
deriving DecidableEq

structure Timing where
  mode : Int
  minUs : Option String
  maxUs : Option String
  defaultApplied : Bool
deriving DecidableEq

structure SignalDef where
  payload : String
  declaredInit : Option String
  init : Option InitValue
  timing : Option Timing
  family : Int
deriving DecidableEq

structure EventDef where
  payload : String
  timing : Option Timing
  family : Int
deriving DecidableEq

structure Param where
  name : String
  type : Option FieldType
  docs : MemberDoc
deriving DecidableEq

structure Contract where
  kind : Int
  source : String
  signalRefs : List String
  paramRefs : List String
  usesResult : Bool
  observerId : String
deriving DecidableEq

structure CommandDef where
  params : List Param
  contracts : List Contract
  timing : Option Timing
  family : Int
  shape : Int
deriving DecidableEq

inductive ReturnType
  | value (type : FieldType)
  | fallible (ok err : String)
deriving DecidableEq

structure QueryDef where
  params : List Param
  returnType : Option (Option ReturnType)
  contracts : List Contract
  timing : Option Timing
  family : Int
deriving DecidableEq

structure FixedDef where
  payload : Option FieldType
deriving DecidableEq

/-- What a declaration is. -/
inductive Kind
  | typeDef (d : TypeDef)
  | constDef (d : ConstDef)
  | structDef (d : StructDef)
  | enumDef (d : EnumDef)
  | enumSetDef (d : EnumSetDef)
  | unionDef (d : UnionDef)
  | signalDef (d : SignalDef)
  | eventDef (d : EventDef)
  | commandDef (d : CommandDef)
  | queryDef (d : QueryDef)
  | fixedDef (d : FixedDef)
  | reservedSlot (reserved : Reserved)
deriving DecidableEq

structure Decl where
  name : String
  visibility : Int
  ordinal : Nat
  docs : DocEnvelope
  kind : Option Kind
  limit : Option Nat
  isError : Bool := false
deriving DecidableEq

/-- A body of interactions, in slot order. A tombstone is a declaration with no
    name of its own, whose kind says what it retired. -/
structure Interface where
  name : String
  visibility : Int
  interactions : List Decl
  number : Nat
  provisional : Bool
  docs : DocEnvelope := .empty
deriving DecidableEq

/-- One slot of a service's list. -/
inductive ServiceShape
  | interfaceRef (ref : String)
  | inline (iface : Interface)
deriving DecidableEq

structure Service where
  name : String
  visibility : Int
  shapes : List (Option ServiceShape)
  docs : DocEnvelope := .empty
deriving DecidableEq

/-- An entry of a lock whose number is never given again. -/
structure RetiredInterface where
  name : String
  number : Nat
deriving DecidableEq

/-- A package. One of a snapshot from before units existed has the empty unit. -/
structure Package where
  name : String
  decls : List Decl
  interfaces : List Interface
  services : List Service
  retired : List RetiredInterface := []
  unit : String := ""
deriving DecidableEq

/-- A shape with the name it is known by, and its owner where it is inline. -/
structure InterfaceShape where
  name : String
  iface : Interface
  service : Option Service
deriving DecidableEq

namespace InterfaceShape

/-- The body of a service. -/
def isInline (shape : InterfaceShape) : Bool := shape.service.isSome

def visibility (shape : InterfaceShape) : Int :=
  match shape.service with
  | some service => service.visibility
  | none => shape.iface.visibility

end InterfaceShape

namespace Service

/-- The shapes that the service carries itself. -/
def inlineShapes (service : Service) : List InterfaceShape :=
  service.shapes.filterMap (fun slot =>
    match slot with
    | some (.inline iface) =>
        some { name := service.name, iface := iface, service := some service }
    | _ => none)

end Service

namespace Package

/-- The declared interfaces, then the inline shapes of the services. -/
def shapes (package : Package) : List InterfaceShape :=
  package.interfaces.map (fun iface => { name := iface.name, iface := iface, service := none }) ++
    package.services.flatMap Service.inlineShapes

end Package

/-- The unit of a package: the one it names, or itself. -/
def unitOf (package : Package) : String :=
  if package.unit = "" then package.name else package.unit

/-- A declaration's name below its unit. -/
def relativeName (unit package name : String) : String :=
  if package = unit then name
  else
    match (package.toList.dropPrefix? unit.toList).bind (fun rest => rest.dropPrefix? ['.']) with
    | some below => String.ofList below ++ "." ++ name
    | none => package ++ "." ++ name

def Package.catalogName (package : Package) (shape : InterfaceShape) : String :=
  if shape.isInline then shape.name else relativeName (unitOf package) package.name shape.name

/-- The text before the last occurrence of a character, and the text after. -/
def rsplitOnce (text : String) (c : Char) : Option (String × String) :=
  let back := text.toList.reverse
  let member := back.takeWhile (· != c)
  if member.length = back.length then none
  else some (String.ofList (back.drop (member.length + 1)).reverse, String.ofList member.reverse)

/-- Whether an interface has a number of its own that the lock froze. -/
def frozen (iface : Interface) : Bool := iface.number ≠ 0 && !iface.provisional

end Diff

end Ridl
