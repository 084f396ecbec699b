import Mathlib.Data.List.Sort
import Ridl.Library.Keyed
import Ridl.Diff.Walk

/-!
# Matched Interfaces

Which old interface is which new one. A frozen number is the identity of an
interface within its unit, so an old shape with one is the new shape that
carries it, in whichever package of the unit that is (`Matching.new`). An old
shape without a number of its own is the new shape of its name and form in its
package, if no number claimed that (`pairShapes`). What is left on the old side
was retired or removed, and what is left on the new side was added.

The walk's account is a list of lines, one for each shape or package that it
visits, and its changes are those of the lines.

## Main definitions

* `shapesByKey`: The shapes of a package, by form and name.
* `pairShapes`: The pairs of two packages.
* `lineChanges`: The changes of a line.
-/

namespace Ridl

namespace Diff

open Library

/-- A shape's form, inline or declared, and its name. -/
abbrev ShapeKey := Bool × String

instance : Ord ShapeKey := lexOrd

/-- A shape's package and its key. -/
abbrev ShapeAddress := String × ShapeKey

instance : Ord ShapeAddress := lexOrd

instance : Std.TransOrd ShapeAddress := Std.instTransOrdProd

/-- A frozen number in its unit. -/
abbrev NumberKey := String × Nat

instance : Ord NumberKey := lexOrd

def shapeKey (shape : InterfaceShape) : ShapeKey := (shape.isInline, shape.name)

def shapesByKey (package : Package) : OrdMap ShapeKey InterfaceShape :=
  OrdMap.collect (package.shapes.map (fun shape => (shapeKey shape, shape)))

/-- A shape with the package that holds it. -/
structure Held where
  package : Package
  shape : InterfaceShape
deriving DecidableEq

namespace Held

def address (held : Held) : ShapeAddress := (held.package.name, shapeKey held.shape)

end Held

/-! ### Frozen numbers -/

/-- The packages of a set in the order of their names. -/
def byName (set : List Package) : List Package :=
  set.insertionSort (fun p q => p.name ≤ q.name)

def heldShapes (set : List Package) : List Held :=
  (byName set).flatMap (fun package =>
    (shapesByKey package).toList.map (fun entry => ⟨package, entry.2⟩))

def numberKey (held : Held) : NumberKey := (unitOf held.package, held.shape.iface.number)

/-- The frozen numbers of each unit. The first shape of two with one number is
    kept. -/
def byNumber (new : List Package) : OrdMap NumberKey Held :=
  (heldShapes new).foldl (fun numbers held =>
    if frozen held.shape.iface then numbers.insertIfNew (numberKey held) held else numbers) ∅

/-- The numbers that each unit retired. -/
def retiredNumbers (new : List Package) : OrdMap String (List Nat) :=
  (byName new).foldl (fun retired package =>
    retired.insert (unitOf package)
      (retired[unitOf package]?.getD [] ++ package.retired.map RetiredInterface.number)) ∅

/-- The old shapes that a frozen number pairs with a new one, the new shapes
    that are claimed so, and the retired numbers. -/
structure Matching where
  pairs : OrdMap ShapeAddress Held
  taken : List ShapeAddress
  retired : OrdMap String (List Nat)

namespace Matching

/-- An old shape with a frozen number claims the new shape that carries it. -/
def claim (numbers : OrdMap NumberKey Held) (matching : Matching) (old : Held) : Matching :=
  if frozen old.shape.iface then
    match numbers[numberKey old]? with
    | some held =>
        if matching.taken.contains held.address then matching
        else
          { matching with
            pairs := matching.pairs.insert old.address held
            taken := held.address :: matching.taken }
    | none => matching
  else matching

def new (old new : List Package) : Matching :=
  (heldShapes old).foldl (claim (byNumber new))
    { pairs := ∅, taken := [], retired := retiredNumbers new }

def retires (matching : Matching) (unit : String) (number : Nat) : Bool :=
  matching.retired[unit]?.any (fun numbers => numbers.contains number)

end Matching

/-! ### The pairs of two packages -/

/-- The pairs of two packages, and the new shapes that are in one. -/
structure Pairing where
  pairs : OrdMap ShapeKey Held
  taken : List ShapeKey

/-- An old shape with a frozen number is in the pair that claimed it. Any other
    is paired with the new shape of its key, if that is free. -/
def pairShape (matching : Matching) (old new : Package) (pairing : Pairing)
    (entry : ShapeKey × InterfaceShape) : Pairing :=
  if frozen entry.2.iface then
    match matching.pairs[(old.name, entry.1)]? with
    | some held => { pairing with pairs := pairing.pairs.insert entry.1 held }
    | none => pairing
  else
    match (shapesByKey new)[entry.1]? with
    | some shape =>
        if pairing.taken.contains entry.1 then pairing
        else
          { pairs := pairing.pairs.insert entry.1 ⟨new, shape⟩
            taken := entry.1 :: pairing.taken }
    | none => pairing

/-- The new shapes of a package that a number claimed. -/
def claimed (matching : Matching) (new : Package) : List ShapeKey :=
  (shapesByKey new).keys.filter (fun key => matching.taken.contains (new.name, key))

def pairShapes (matching : Matching) (old new : Package) : Pairing :=
  (shapesByKey old).toList.foldl (pairShape matching old new) ⟨∅, claimed matching new⟩

/-! ### The account of the walk -/

/-- What the walk says of a shape or of a package. -/
inductive Line
  | matched (old new : Held)
  | retired (old : Held)
  | removed (old : Held)
  | added (new : Held)
  | packageRemoved (old : Package)
  | packageAdded (new : Package)
deriving DecidableEq

def oldLine (matching : Matching) (old : Package) (pairing : Pairing)
    (entry : ShapeKey × InterfaceShape) : Line :=
  match pairing.pairs[entry.1]? with
  | some held => .matched ⟨old, entry.2⟩ held
  | none =>
      if frozen entry.2.iface && matching.retires (unitOf old) entry.2.iface.number then
        .retired ⟨old, entry.2⟩
      else .removed ⟨old, entry.2⟩

/-- The lines of two packages of one name. -/
def packageLines (matching : Matching) (old new : Package) : List Line :=
  let pairing := pairShapes matching old new
  (shapesByKey old).toList.map (oldLine matching old pairing) ++
    (shapesByKey new).toList.flatMap (fun entry =>
      if pairing.taken.contains entry.1 then [] else [.added ⟨new, entry.2⟩])

def packagesByName (set : List Package) : OrdMap String Package :=
  OrdMap.collect (set.map (fun package => (package.name, package)))

/-- A package with nothing in it, for one that is gone while its unit stays. -/
def gone (old : Package) : Package :=
  { name := old.name, decls := [], interfaces := [], services := [], unit := old.unit }

def oldPackageLines (matching : Matching) (new : List Package) (old : Package) : List Line :=
  match (packagesByName new)[old.name]? with
  | some package => packageLines matching old package
  | none =>
      if new.any (fun package => unitOf package == unitOf old) then
        packageLines matching old (gone old)
      else [.packageRemoved old]

/-- The account of two sets of packages. -/
def interfaceLines (old new : List Package) : List Line :=
  let matching := Matching.new old new
  (packagesByName old).toList.flatMap (fun entry => oldPackageLines matching new entry.2) ++
    (packagesByName new).toList.flatMap (fun entry =>
      if (packagesByName old).contains entry.1 then [] else [.packageAdded entry.2])

/-! ### The changes of a line -/

/-- The number of a matched interface. One that was never given is not
    compared. -/
def emitNumber (path : String) (old new : Interface) : List Change :=
  if old.number = 0 ∨ new.number = 0 then []
  else if old.number ≠ new.number then emit path .interfaceNumberChanged true
  else emit path .interfaceFrozen (old.provisional && !new.provisional)

/-- The changes of two matched shapes, at the new one's path. -/
def diffShapes (old new : Held) : List Change :=
  let path := new.package.name ++ "/" ++ new.shape.name
  emit path .interfaceRenamed
    (old.package.catalogName old.shape ≠ new.package.catalogName new.shape) ++
  emitNumber path old.shape.iface new.shape.iface ++
  -- An inline shape has the doc fields and the visibility of its service.
  (if new.shape.isInline then []
    else
      emit path .docOnly (old.shape.iface.docs ≠ new.shape.iface.docs) ++
      emit path .visibilityChanged (old.shape.visibility ≠ new.shape.visibility)) ++
  diffInterface new.package.name new.shape.name old.shape.iface new.shape.iface

def lineChanges : Line → List Change
  | .matched old new => diffShapes old new
  | .retired old => emit (old.package.name ++ "/" ++ old.shape.name) .interfaceRetired true
  | .removed old => emit (old.package.name ++ "/" ++ old.shape.name) .declRemoved true
  | .added new => emit (new.package.name ++ "/" ++ new.shape.name) .declAdded true
  | .packageRemoved old => emit old.name .declRemoved true
  | .packageAdded new => emit new.name .declAdded true

end Diff

end Ridl
