import Mathlib.Data.List.Lex
import Mathlib.Data.Prod.Lex
import Mathlib.Data.String.Basic
import Mathlib.Order.Lex
import Ridl.Diff.Ir
import Ridl.Lock.Allocation

/-!
# Interface Numbers

The numbers of the interface shapes of a unit: what the checker shows for them, and
what `ridl lock` writes.

A shape whose key has a live entry in the lock of the unit has the number of the
entry. The others count from `next` on, in the order of the names of their keys. The
checker puts the numbers on the shapes of each package, puts each retired entry on
one package, and reports a live entry without a shape on the anchor of the unit.
`ridl lock` allocates for the provisional shapes in the order of the numbers that they
were checked with.

The numbers are `u32`, and count on from 0 above the highest.

## Main definitions

* `numberUnit`: The numbers of the shapes of a unit.
-/

namespace Ridl

namespace Lock

open Library
open Diff (Package Interface Service ServiceShape InterfaceShape RetiredInterface relativeName
  rsplitOnce)
open TableKey (display)

/-! ### The keys -/

def shapeKey (package : Package) (shape : InterfaceShape) : LockKey :=
  if shape.isInline then .service shape.name.toList
  else .interface (package.catalogName shape).toList

/-- The keys of the shapes of a unit, in the order of the packages. -/
def unitKeys (packages : List Package) : List LockKey :=
  packages.flatMap fun package => package.shapes.map (shapeKey package)

/-- The name, and an interface before an inline shape that is spelled the same. -/
def provisionalOrder : LockKey → Text ×ₗ Bool
  | .interface name => toLex (name, false)
  | .service name => toLex (name, true)

/-! ### The numbering -/

/-- The lock of a unit, and the directory that its file is in. -/
structure PackageLock where
  unitDir : Text
  lock : LockTable LockKey
deriving DecidableEq

def lockOf (lock : Option PackageLock) : Option (LockTable LockKey) := lock.map PackageLock.lock

/-- The numbers of the shapes of a unit, and what the lock and the unit disagree on. -/
structure UnitNumbering where
  /-- The number of each shape, with whether it is provisional. -/
  numbers : OrdMap LockKey (Nat × Bool)
  /-- The retired entries of the lock, in number order. -/
  retired : List (LockKey × Nat)
  /-- The live entries without a shape, in file order. -/
  orphans : List (LockEntry LockKey)
  anyProvisional : Bool
  /-- The package that reports for the unit. -/
  anchor : String

/-- The numbers so far, and the next one. -/
structure Count where
  numbers : OrdMap LockKey (Nat × Bool)
  next : Nat
  anyProvisional : Bool

/-- The number of one more shape, unless its key has one. -/
def numberKey (lock : Option (LockTable LockKey)) (count : Count) (key : LockKey) : Count :=
  if key ∈ count.numbers then count
  else
    match lock.bind (·.live key) with
    | some entry => { count with numbers := count.numbers.insert key (entry.number, false) }
    | none =>
        { numbers := count.numbers.insert key (count.next, true)
          next := (count.next + 1) % (NUMBER_MAX + 1)
          anyProvisional := true }

/-- The package that is named like the unit, else the first by name. -/
def anchorOf (unit : String) (packages : List Package) : String :=
  let names := packages.map Package.name
  ((names.find? (· = unit)).or names.min?).getD unit

def numberUnit (unit : String) (lock : Option (LockTable LockKey)) (packages : List Package) :
    UnitNumbering :=
  let keys := (unitKeys packages).insertionSort fun a b => provisionalOrder a ≤ provisionalOrder b
  let count := keys.foldl (numberKey lock)
    { numbers := ∅, next := lock.elim 1 (·.next), anyProvisional := false }
  { numbers := count.numbers
    retired := lock.elim [] fun lock =>
      ((lock.entries.filter (·.retired)).map fun entry =>
        (entry.key, entry.number)).insertionSort fun a b => a.2 ≤ b.2
    orphans := lock.elim [] fun lock =>
      lock.entries.filter fun entry => !entry.retired && !count.numbers.contains entry.key
    anyProvisional := count.anyProvisional
    anchor := anchorOf unit packages }

/-! ### The packages -/

/-- An error of a live entry without a declaration, at the entry. -/
structure OrphanReport where
  message : Text
  range : TextRange
deriving DecidableEq

/-- The fixes for a live entry without a declaration. -/
def orphanEntryMessage (key : LockKey) (unitDir : Text) (anyProvisional : Bool) : Text :=
  let key := display key
  let entry := "`".toList ++ key ++
    "` is a live entry of `interfaces.lock` with no declaration in the unit: run ".toList ++
    "`ridl lock ".toList ++ unitDir
  if anyProvisional then
    entry ++ " --rename ".toList ++ key ++
      "=New` when a declaration without an entry, `New`, is this interface under a ".toList ++
      "new name, or `ridl lock ".toList ++ unitDir ++ " --retire ".toList ++ key ++
      "` when the interface is gone".toList
  else entry ++ " --retire ".toList ++ key ++ "` to record that the interface is gone".toList

/-- A checked package, with what the numbering reports on it. -/
structure CheckedPackage where
  ir : Package
  diagnostics : List OrphanReport

/-- A shape with the number of its key, if there is one. -/
def number (numbering : UnitNumbering) (key : LockKey) (iface : Interface) : Option Interface :=
  numbering.numbers[key]?.map fun (number, provisional) =>
    { iface with number := number, provisional := provisional }

def numberSlot (numbering : UnitNumbering) (key : LockKey) :
    Option ServiceShape → Option (Option ServiceShape)
  | some (.inline iface) => (number numbering key iface).map fun iface => some (.inline iface)
  | slot => some slot

def numberService (numbering : UnitNumbering) (service : Service) : Option Service := do
  let shapes ← service.shapes.mapM (numberSlot numbering (.service service.name.toList))
  return { service with shapes := shapes }

/-- The package that a retired interface belonged to. -/
def ownerOf (unit : String) (name : Text) : String :=
  match rsplitOnce (String.ofList name) '.' with
  | some (dir, _) => unit ++ "." ++ dir
  | none => unit

/-- The package carries a retired entry. -/
def carries (unit : String) (numbering : UnitNumbering) (unitPackages : List String)
    (packageName : String) (key : LockKey) : Bool :=
  let isAnchor : Bool := numbering.anchor = packageName
  match key with
  | .interface name =>
      let owner := ownerOf unit name
      owner = packageName || (isAnchor && !unitPackages.contains owner)
  | .service _ => isAnchor

/-- What the numbering adds to a package of a unit. The packages are those of the unit, or the one
    that is checked where it is outside the workspace. -/
def checkPackage (unit : String) (lock : Option PackageLock) (packages : List Package)
    (package : Package) : Option CheckedPackage := do
  let numbering := numberUnit unit (lockOf lock) packages
  let interfaces ← package.interfaces.mapM fun iface =>
    number numbering (.interface (relativeName unit package.name iface.name).toList) iface
  let services ← package.services.mapM (numberService numbering)
  let carried := numbering.retired.filter fun entry =>
    carries unit numbering (packages.map Package.name) package.name entry.1
  return {
    ir := { package with
      interfaces := interfaces
      services := services
      retired := package.retired ++ carried.map fun (key, number) =>
        { name := String.ofList (display key), number := number } }
    diagnostics := lock.elim [] fun lock =>
      if numbering.anchor = package.name then
        numbering.orphans.map fun entry =>
          { message := orphanEntryMessage entry.key lock.unitDir numbering.anyProvisional
            range := entry.range }
      else [] }

/-! ### The allocation -/

/-- The provisional shapes of the checked packages, with their numbers. -/
def provisionalShapes (packages : List Package) : List (Nat × LockKey) :=
  packages.flatMap fun package =>
    (package.shapes.filter fun shape => shape.iface.provisional).map fun shape =>
      (shape.iface.number, shapeKey package shape)

/-- What plain `ridl lock` allocates: the table, and a line for each shape. -/
def allocateShapes (packages : List Package) (lock : LockTable LockKey) :
    Except (LockEditError LockKey) (LockTable LockKey × List (LockKey × Nat)) :=
  ((provisionalShapes packages).insertionSort Ascending).foldlM
    (fun state entry => allocateKey state entry.2) (lock, [])

end Lock

end Ridl
