import Mathlib.Data.Char
import Mathlib.Data.List.Lex
import Ridl.Library.Map
import Ridl.Lock.Edits

/-!
# Instance Numbers

The numbers of the instances of a system, and what `ridl lock` writes for them.

An instance with a live entry in the lock has the number of the entry. The others are
counted from `next` on in the order of their texts, and those that would pass the
maximum have no number. `ridl lock` allocates for them in the order of these
provisional numbers, so each gets the number that the checker showed.

## Main definitions

* `numberInstances`: The numbers of the instances of a closure.
-/

namespace Ridl

namespace Lock

open Library
open TableKey (display fromStr HEADER MAX_NUMBER)

/-! ### The closure -/

/-- A component of the closure: declared, or the one that a service stands for. -/
inductive ComponentId
  | declared (package name : Text)
  | implicit (service : Text)
deriving DecidableEq

structure ClosureComponent where
  id : ComponentId
  instances : List Text
deriving DecidableEq

/-- `pkg.Name` for a declared component, the name of the service for an implicit one. -/
def ClosureComponent.qualifiedName (component : ClosureComponent) : Text :=
  match component.id with
  | .declared package name => package ++ '.' :: name
  | .implicit service => service

structure Closure where
  components : List ClosureComponent
deriving DecidableEq

structure CheckedSystem where
  closure : Option Closure
  closureHasErrors : Bool
deriving DecidableEq

def instanceKeys (closure : Closure) : List InstanceKey :=
  closure.components.flatMap fun component =>
    component.instances.map fun name =>
      { component := component.qualifiedName, instanceName := name }

/-! ### The numbering -/

/-- The numbers of the instances, and what the lock and the system disagree on. -/
structure InstanceNumbering where
  /-- The number of each instance, with whether it is provisional. -/
  numbers : OrdMap InstanceKey (Int × Bool)
  /-- The live entries whose instance is not in the system. -/
  orphans : List (LockEntry InstanceKey)
  /-- The instances that would take a number above the maximum. -/
  overflow : List InstanceKey
  anyProvisional : Bool

/-- `as i32`. -/
def asI32 (n : Nat) : Int := if n % 2 ^ 32 < 2 ^ 31 then n % 2 ^ 32 else n % 2 ^ 32 - 2 ^ 32

def MAX : Nat := MAX_NUMBER InstanceKey

/-- The keys in the order of their texts. -/
def byText (keys : List InstanceKey) : List InstanceKey :=
  keys.insertionSort fun a b => display a ≤ display b

/-- The numbers so far, and the next one. -/
structure Assignment where
  numbers : OrdMap InstanceKey (Int × Bool)
  overflow : List InstanceKey
  next : Nat

def liveNumber (lock : Option (LockTable InstanceKey)) (numbers : OrdMap InstanceKey (Int × Bool))
    (key : InstanceKey) : OrdMap InstanceKey (Int × Bool) :=
  match lock.bind (·.live key) with
  | some entry => numbers.insert key (asI32 entry.number, false)
  | none => numbers

/-- The next number, for an instance without one. -/
def assign (a : Assignment) (key : InstanceKey) : Assignment :=
  if a.next > MAX then { a with overflow := a.overflow ++ [key] }
  else { a with numbers := a.numbers.insert key (asI32 a.next, true), next := a.next + 1 }

/-- The instances of the closure, each once. -/
def keySet (closure : Closure) : Std.ExtTreeSet InstanceKey compare :=
  .ofList (instanceKeys closure) compare

/-- The instances without a live entry, in the order of their texts. -/
def provisionalKeys (closure : Closure) (lock : Option (LockTable InstanceKey)) :
    List InstanceKey :=
  byText ((keySet closure).toList.filter fun key => (lock.bind (·.live key)).isNone)

def numberInstances (system : CheckedSystem) (lock : Option (LockTable InstanceKey)) :
    InstanceNumbering :=
  match system.closure with
  | none => { numbers := ∅, orphans := [], overflow := [], anyProvisional := false }
  | some closure =>
      let keys := keySet closure
      let numbers := keys.toList.foldl (liveNumber lock) ∅
      let provisional := provisionalKeys closure lock
      let next := lock.elim 1 (·.next)
      let a := provisional.foldl assign { numbers := numbers, overflow := [], next := next }
      let orphans :=
        match lock with
        | some lock =>
            if system.closureHasErrors then []
            else lock.entries.filter fun entry => !entry.retired && !keys.contains entry.key
        | none => []
      { numbers := a.numbers
        orphans := orphans
        overflow := a.overflow
        anyProvisional := !provisional.isEmpty }

/-! ### The allocation -/

/-- The provisional numbers, in ascending order. -/
def provisionalNumbers (numbering : InstanceNumbering) : List (Int × InstanceKey) :=
  ((numbering.numbers.toList.filter fun entry => entry.2.2).map fun entry =>
    (entry.2.1, entry.1)).insertionSort fun a b => a.1 < b.1 ∨ a.1 = b.1 ∧ (compare a.2 b.2).isLE

/-- Allocates for one instance, and notes the number. -/
def allocateNext (state : LockTable InstanceKey × List (InstanceKey × Nat))
    (entry : Int × InstanceKey) :
    Except (LockEditError InstanceKey) (LockTable InstanceKey × List (InstanceKey × Nat)) :=
  match state.1.allocate entry.2 with
  | (table, .ok number) => .ok (table, state.2 ++ [(entry.2, number)])
  | (_, .error e) => .error e

/-- What plain `ridl lock` allocates: the table, and a line for each instance. -/
def allocateInstances (numbering : InstanceNumbering) (lock : LockTable InstanceKey) :
    Except (LockEditError InstanceKey) (LockTable InstanceKey × List (InstanceKey × Nat)) :=
  (provisionalNumbers numbering).foldlM allocateNext (lock, [])

end Lock

end Ridl
