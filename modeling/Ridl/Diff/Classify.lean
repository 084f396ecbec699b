import Mathlib.Algebra.Order.Ring.Int
import Ridl.Diff.Walk
import Ridl.Diff.Slots
import Ridl.Diff.Zero

/-!
# The Verdict on a Change

The classifier turns a change into a verdict. Most categories decide alone. A
visibility, a timing, a bound, a contract and a constraint are judged by their
direction, an appended slot by what the old side held at its ordinal, and a new
member by the two bodies, so for these the classifier finds what the change is
about again by its path.

A decimal bound is a text and is compared as one (`cmpDecimal`), digit by digit
and never as a float. A text that is no decimal compares with nothing.

## Main definitions

* `Verdict`: Whether a change is compatible.
-/

namespace Ridl

namespace Diff

inductive Verdict
  | identical
  | compatible
  | breaking
deriving DecidableEq

/-! ### Finding what a change is about -/

def segments (path : String) : List String := (path.toList.splitOn '/').map String.ofList

theorem segments_plain {name : String} (h : '/' ∉ name.toList) : segments name = [name] := by
  rw [segments, List.splitOn_eq_singleton h]
  simp only [List.map_cons, String.ofList_toList, List.map_nil]

theorem segments_cons {name : String} (rest : String) (h : '/' ∉ name.toList) :
    segments (name ++ "/" ++ rest) = name :: segments rest := by
  have hlist : (name ++ "/" ++ rest).toList = name.toList ++ '/' :: rest.toList := by
    rw [String.toList_append, String.toList_append, List.append_assoc]
    rfl
  rw [segments, hlist, List.splitOn_append_cons_self_of_not_mem h]
  simp only [List.map_cons, String.ofList_toList, segments]

theorem segments_decl {pkg name : String} (hpkg : '/' ∉ pkg.toList) (hname : '/' ∉ name.toList) :
    segments (pkg ++ "/" ++ name) = [pkg, name] := by
  rw [segments_cons _ hpkg, segments_plain hname]

theorem segments_member {pkg name member : String} (hpkg : '/' ∉ pkg.toList)
    (hname : '/' ∉ name.toList) (hmember : '/' ∉ member.toList) :
    segments (pkg ++ "/" ++ name ++ "/" ++ member) = [pkg, name, member] := by
  have hjoin : pkg ++ "/" ++ name ++ "/" ++ member = pkg ++ "/" ++ (name ++ "/" ++ member) := by
    simp only [String.append_assoc]
  rw [hjoin, segments_cons _ hpkg, segments_cons _ hname, segments_plain hmember]

/-- The container and the member of a `package/container/member` path. -/
def memberPath (change : Change) : Option (String × String) :=
  match (segments change.path).drop 1 with
  | [container, member] => some (container, member)
  | _ => none

def findDecl (package : Package) (name : String) : Option Decl :=
  package.decls.find? (fun decl => decl.name == name)

def findShape (package : Package) (name : String) : Option InterfaceShape :=
  package.shapes.find? (fun shape => shape.name == name)

/-- The old side of the shape a path names: by the frozen number of the new
    side's shape, and by name otherwise. -/
def findOldShape (old new : Package) (name : String) : Option InterfaceShape :=
  let byNumber := do
    let shape ← (findShape new name).filter (fun shape => frozen shape.iface)
    old.shapes.find? (fun candidate =>
      frozen candidate.iface && candidate.iface.number == shape.iface.number)
  byNumber <|> findShape old name

def findInterface (package : Package) (name : String) : Option Interface :=
  (findShape package name).map InterfaceShape.iface

def findOldInterface (old new : Package) (name : String) : Option Interface :=
  (findOldShape old new name).map InterfaceShape.iface

def findInteraction (package : Package) (container member : String) : Option Decl := do
  let iface ← findInterface package container
  iface.interactions.find? (fun decl => decl.name == member)

def findOldInteraction (old new : Package) (container member : String) : Option Decl := do
  let iface ← findOldInterface old new container
  iface.interactions.find? (fun decl => decl.name == member)

/-! ### Visibility -/

def VISIBILITY_PUBLIC : Int := 1

def VISIBILITY_INTERNAL : Int := 2

def findVisibility (package : Package) (path : String)
    (shapeOf : String → Option InterfaceShape) : Option Int :=
  match (segments path).drop 1 with
  | [] => none
  | name :: member :: _ => do
      let shape ← shapeOf name
      let decl ← shape.iface.interactions.find? (fun decl => decl.name == member)
      some decl.visibility
  | [name] =>
      match findDecl package name, shapeOf name with
      | some decl, _ => some decl.visibility
      | none, some shape => some shape.visibility
      | none, none =>
          (package.services.find? (fun service => service.name == name)).map Service.visibility

/-- Only a declaration that was internal and is public offers more. -/
def visibility (change : Change) (old new : Package) : Verdict :=
  match findVisibility old change.path (findOldShape old new),
      findVisibility new change.path (findShape new) with
  | some oldVisibility, some newVisibility =>
      if oldVisibility = VISIBILITY_INTERNAL ∧ newVisibility = VISIBILITY_PUBLIC then .compatible
      else .breaking
  | _, _ => .breaking

/-! ### Appended slots -/

/-- Every slot of an interface with its ordinal. A tombstone without a name has
    the empty name. -/
def slots (iface : Interface) : List (String × Nat) :=
  iface.interactions.filterMap (fun decl =>
    match decl.kind with
    | some (.reservedSlot reserved) => some (reserved.name.getD "", decl.ordinal)
    | some _ => some (decl.name, decl.ordinal)
    | none => none)

def slotOrdinal (iface : Interface) (member : String) : Option Nat :=
  ((slots iface).find? (fun slot => slot.1 == member)).map Prod.snd

/-- An appended slot is compatible when the old side had nothing else at its
    ordinal. -/
def appended (change : Change) (old new : Package) : Verdict :=
  match memberPath change with
  | none => .breaking
  | some (container, member) =>
      match findOldInterface old new container, findInterface new container with
      | some oldIface, some newIface =>
          match slotOrdinal newIface member with
          | none => .breaking
          | some ordinal =>
              if (slots oldIface).any (fun slot => slot.2 == ordinal && slot.1 != member) then
                .breaking
              else .compatible
      | _, _ => .breaking

/-! ### Decimal texts -/

/-- The sign of a decimal and what follows it. -/
def splitSign (text : String) : Option (Bool × List Char) :=
  let (negative, rest) :=
    match text.toList with
    | '-' :: rest => (true, rest)
    | '+' :: rest => (false, rest)
    | rest => (false, rest)
  if rest.isEmpty || !rest.all (fun c => c.isDigit || c == '.') then none
  else if rest.count '.' > 1 then none
  else some (negative, rest)

def padTo (width : Nat) (digits : List Char) : List Char := digits.rightpad width '0'

/-- The order of two unsigned decimals: by integer part, then by fraction. -/
def cmpMagnitude (left right : List Char) : Ordering :=
  let (leftInt, leftFrac) := splitOnce left
  let (rightInt, rightFrac) := splitOnce right
  let leftInt := leftInt.dropWhile (· == '0')
  let rightInt := rightInt.dropWhile (· == '0')
  let width := max leftFrac.length rightFrac.length
  ((compare leftInt.length rightInt.length).then (compare leftInt rightInt)).then
    (compare (padTo width leftFrac) (padTo width rightFrac))

/-- The order of two decimal texts, when both are. -/
def cmpDecimal (left right : String) : Option Ordering := do
  let (leftNegative, leftDigits) ← splitSign left
  let (rightNegative, rightDigits) ← splitSign right
  if leftNegative ≠ rightNegative then
    some (if leftNegative then .lt else .gt)
  else
    let magnitude := cmpMagnitude leftDigits rightDigits
    some (if leftNegative then magnitude.swap else magnitude)

/-- A lower bound was added or moved up. -/
def raised : Option String → Option String → Bool
  | none, some _ => true
  | some old, some new => (cmpDecimal new old).all (· == .gt)
  | _, _ => false

/-- An upper bound was added or moved down. -/
def lowered : Option String → Option String → Bool
  | none, some _ => true
  | some old, some new => (cmpDecimal new old).all (· == .lt)
  | _, _ => false

def dropped (old new : Option String) : Bool := old.isSome && new.isNone

/-! ### Timings and contracts -/

def interactionTiming (decl : Decl) : Option (Option Timing) :=
  match decl.kind with
  | some (.signalDef d) => some d.timing
  | some (.eventDef d) => some d.timing
  | _ => none

def rpcTiming (decl : Decl) : Option (Option Timing) :=
  match decl.kind with
  | some (.commandDef d) => some d.timing
  | some (.queryDef d) => some d.timing
  | _ => none

/-- The verdict on the timings of the two interactions that a change is about:
    breaking where either is not found or has none, where the mode changed, and
    where the bounds say so. -/
def timingVerdict (timingOf : Decl → Option (Option Timing)) (breaks : Timing → Timing → Bool)
    (change : Change) (old new : Package) : Verdict :=
  match memberPath change with
  | none => .breaking
  | some (container, member) =>
      match findOldInteraction old new container member, findInteraction new container member with
      | some oldDecl, some newDecl =>
          match timingOf oldDecl, timingOf newDecl with
          | some (some oldTiming), some (some newTiming) =>
              if oldTiming.mode ≠ newTiming.mode || breaks oldTiming newTiming then .breaking
              else .compatible
          | _, _ => .breaking
      | _, _ => .breaking

/-- A signal's or an event's guarantee weakens when its floor is lowered or its
    ceiling raised. -/
def timing : Change → Package → Package → Verdict :=
  timingVerdict interactionTiming (fun old new =>
    lowered old.minUs new.minUs || dropped old.minUs new.minUs ||
    raised old.maxUs new.maxUs || dropped old.maxUs new.maxUs)

/-- A command's or a query's floor is a throttle, which binds the caller, so
    its direction is the other one. -/
def rpcBound : Change → Package → Package → Verdict :=
  timingVerdict rpcTiming (fun old new =>
    raised old.minUs new.minUs || dropped old.minUs new.minUs ||
    raised old.maxUs new.maxUs || dropped old.maxUs new.maxUs)

def CONTRACT_KIND_REQUIRE : Int := 1

def CONTRACT_KIND_ENSURE : Int := 2

def contracts (decl : Decl) : Option (List Contract) :=
  match decl.kind with
  | some (.commandDef d) => some d.contracts
  | some (.queryDef d) => some d.contracts
  | _ => none

/-- The texts of the clauses of one kind, in order. -/
def sources (clauses : List Contract) (want : Int) : List String :=
  ((clauses.filter (fun clause => clause.kind == want)).map Contract.source).mergeSort

/-- Every clause of the second list is in the first, counting duplicates. -/
def covers : List String → List String → Bool
  | _, [] => true
  | superset, clause :: subset =>
      superset.contains clause && covers (superset.erase clause) subset

/-- A precondition may only go, and a postcondition only come. -/
def contract (change : Change) (old new : Package) : Verdict :=
  match memberPath change with
  | none => .breaking
  | some (container, member) =>
      match findOldInteraction old new container member, findInteraction new container member with
      | some oldDecl, some newDecl =>
          match contracts oldDecl, contracts newDecl with
          | some oldClauses, some newClauses =>
              if covers (sources oldClauses CONTRACT_KIND_REQUIRE)
                    (sources newClauses CONTRACT_KIND_REQUIRE) &&
                  covers (sources newClauses CONTRACT_KIND_ENSURE)
                    (sources oldClauses CONTRACT_KIND_ENSURE) then .compatible
              else .breaking
          | _, _ => .breaking
      | _, _ => .breaking

/-! ### Additions -/

/-- The declaration that a type reference names: a bare name of the package, or
    a qualified name of it or of one in scope. -/
def resolve (home : Package) (scope : List Package) (reference : String) : Option Decl :=
  match rsplitOnce reference '.' with
  | some (package, name) =>
      ((home :: scope).find? (fun candidate => candidate.name == package)).bind
        (fun candidate => findDecl candidate name)
  | none => findDecl home reference

def fieldType (d : StructDef) (member : String) : Option FieldType :=
  d.members.findSome? (fun slot =>
    match slot with
    | some (.field field) => if field.name == member then field.type else none
    | _ => none)

/-- A reader of the new body accepts a payload in which the field is missing. -/
def absenceReadsAsLegal (d : StructDef) (member : String) (home : Package)
    (scope : List Package) : Bool :=
  (fieldType d member).any (fun type => fieldTypeHoldsZero type (resolve home scope))

/-- The addition of a member to the body appends to it. -/
def appendedMember (old new : Option Kind) (member : String) (home : Package)
    (scope : List Package) : Bool :=
  match old, new with
  | some (.structDef a), some (.structDef b) =>
      appendedSlot (structSlots a) (structReserved a) (structSlots b) &&
        absenceReadsAsLegal b member home scope
  -- The arms of a result union are its identity in transport.
  | some (.unionDef a), some (.unionDef b) =>
      !a.isResult && !b.isResult && appendedSlot (unionSlots a) (unionReserved a) (unionSlots b)
  | some (.enumDef a), some (.enumDef b) =>
      b.isOpen && appendedSlot (valueSlots a.values) (reservedValues a.reserved)
        (valueSlots b.values)
  | some (.enumSetDef a), some (.enumSetDef b) =>
      b.isOpen && appendedSlot (valueSlots a.bits) [] (valueSlots b.bits)
  | _, _ => false

/-- A new declaration is compatible, and so is a new member that is appended. -/
def added (change : Change) (old new : Package) (scope : List Package) : Verdict :=
  match memberPath change with
  | none => .compatible
  | some (container, member) =>
      match findDecl old container, findDecl new container with
      | some oldDecl, some newDecl =>
          if appendedMember oldDecl.kind newDecl.kind member new scope then .compatible
          else .breaking
      | _, _ => .breaking

/-! ### Constraints -/

def raisedU64 : Option Nat → Option Nat → Bool
  | none, some _ => true
  | some old, some new => decide (new > old)
  | _, _ => false

def loweredU64 : Option Nat → Option Nat → Bool
  | none, some _ => true
  | some old, some new => decide (new < old)
  | _, _ => false

/-- A decimal's digits as an integer, and the number of its decimal places. -/
def readGrid (text : String) : Option (Int × Nat) := do
  let (negative, digits) ← splitSign text
  let (whole, fraction) := splitOnce digits
  if whole.isEmpty || (digits.contains '.' && fraction.isEmpty) then none
  else
    let coefficient : Int := Nat.ofDigitChars 10 (whole ++ fraction) 0
    some (if negative then -coefficient else coefficient, fraction.length)

/-- How many values a 32-bit exponent has. -/
def EXPONENT_COUNT : Nat := 2 ^ 32

/-- A coefficient with more decimal places, which are a 32-bit exponent. -/
def rescale (scale : Nat) (value : Int × Nat) : Option Int :=
  if scale - value.2 < EXPONENT_COUNT then some (value.1 * 10 ^ (scale - value.2)) else none

/-- Two origins of a grid differ by whole steps. -/
def sameGrid (old new : Option String) (step : String) : Bool :=
  match readGrid (old.getD "0"), readGrid (new.getD "0"), readGrid step with
  | some old, some new, some step =>
      let scale := Nat.max (Nat.max old.2 new.2) step.2
      match rescale scale old, rescale scale new, rescale scale step with
      | some old, some new, some step => decide (step > 0) && (old - new).tmod step == 0
      | _, _, _ => false
  | _, _, _ => false

/-- A constraint rejects a value that was legal, or may do so. -/
def narrows : Option Constraint → Option Constraint → Bool
  | some old, some new =>
      raised old.min new.min || lowered old.max new.max ||
      raisedU64 old.lenMin new.lenMin || loweredU64 old.lenMax new.lenMax ||
      (new.step.isSome && old.step != new.step) ||
      new.step.any (fun step => old.min != new.min && !sameGrid old.min new.min step) ||
      (new.pattern.isSome && old.pattern != new.pattern) ||
      (new.patternConst.isSome && old.patternConst != new.patternConst)
  | old, new => old.isNone && new.isSome

/-- The constraint of a named type may only widen. A body that changed in place
    is reported without what changed in it, and breaks. -/
def constraint (change : Change) (old new : Package) : Verdict :=
  match (segments change.path).drop 1 with
  | [name] =>
      match (findDecl old name).bind Decl.kind, (findDecl new name).bind Decl.kind with
      | some (.typeDef a), some (.typeDef b) =>
          if narrows a.constraint b.constraint then .breaking else .compatible
      | _, _ => .breaking
  | _ => .breaking

/-- The verdict on a change, judged against the two packages it was drawn
    from. A reference to another package is resolved in the scope. -/
def classifyScoped (change : Change) (old new : Package) (scope : List Package) : Verdict :=
  match change.category with
  | .interactionInserted | .interactionReordered | .memberReordered | .interactionRemoved
  | .reservedNameRedeclared | .kindChanged | .payloadChanged | .returnChanged
  | .paramsChanged | .widthChanged | .serviceChanged | .declRemoved => .breaking
  | .initChanged => .breaking
  | .docOnly | .interactionRetired => .compatible
  | .interfaceRenamed | .interfaceRetired => .compatible
  | .interfaceFrozen => .compatible
  | .interfaceNumberChanged => .breaking
  | .limitChanged => .breaking
  | .enumReordered => .compatible
  | .strictEnumAppend | .enumClosed => .breaking
  | .enumOpened => .compatible
  | .serviceInterfaceAdded | .serviceInterfaceRemoved => .compatible
  | .visibilityChanged => visibility change old new
  | .interactionAppended => appended change old new
  | .declAdded => added change old new scope
  | .constraintChanged => constraint change old new
  | .timingChanged => timing change old new
  | .rpcBoundChanged => rpcBound change old new
  | .contractChanged => contract change old new
  | .interactionClassChanged => .breaking

/-- The verdict where the two packages alone are at hand. -/
def classifyIn (change : Change) (old new : Package) : Verdict := classifyScoped change old new []

end Diff

end Ridl
