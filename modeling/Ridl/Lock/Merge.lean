import Ridl.Library.Map
import Ridl.Lock.RoundTrip

/-!
# Merging Lock Tables

What `ridl lock merge` makes of three versions of a lock table.

The entries are matched by number. Where one side is as the base the other side
counts, and where both sides say the same that counts. A number that both sides
allocated stays with ours, and theirs gets the next number. Everything else is a
conflict, and so are two numbers of one live key in what was merged. Without a conflict
the outcome is a table, and with one a text in which markers stand around the
entries that disagree.
-/

namespace Ridl

namespace Lock

open Library
open TableKey (HEADER)

/-- What `ridl lock merge` writes. -/
inductive MergeOutcome (K : Type)
  /-- Every entry agreed. -/
  | clean (table : LockTable K)
  /-- The text of a file with markers. -/
  | conflict (text : Text)
deriving DecidableEq

/-- Which side a merged entry came from. -/
inductive Side
  | ours
  | theirs
  | both
deriving DecidableEq

/-- What the sides hold between two markers, and where these stand. -/
structure Conflict (K : Type) where
  place : Nat
  ours : List (LockEntry K)
  theirs : List (LockEntry K)

section Entries

variable {K : Type}

def byNumber (lock : LockTable K) : OrdMap Nat (LockEntry K) :=
  OrdMap.collect (lock.entries.map fun entry => (entry.number, entry))

/-- The entry without its line. -/
def fresh (entry : LockEntry K) : LockEntry K := { entry with range := .empty }

variable [DecidableEq K]

/-- Both are absent, or both hold the same key, live or retired. -/
def agree (a b : Option (LockEntry K)) : Bool :=
  match a, b with
  | none, none => true
  | some a, some b => a.key = b.key && a.retired = b.retired
  | _, _ => false

/-- What was merged so far. -/
structure MergeState (K : Type) where
  next : Nat
  resolved : List (Side × LockEntry K)
  conflicts : List (Conflict K)

/-- The merge of one number. It fails where the next number is the highest `u32`. -/
def mergeAt (base ours theirs : OrdMap Nat (LockEntry K)) (state : MergeState K) (number : Nat) :
    Option (MergeState K) :=
  let b := base[number]?
  let o := ours[number]?
  let t := theirs[number]?
  if agree o t then
    some { state with
      resolved := state.resolved ++ (o.map fun entry => (Side.both, fresh entry)).toList }
  else if agree o b then
    some { state with
      resolved := state.resolved ++ (t.map fun entry => (Side.theirs, fresh entry)).toList }
  else if agree t b then
    some { state with
      resolved := state.resolved ++ (o.map fun entry => (Side.ours, fresh entry)).toList }
  else
    match b, o, t with
    | none, some oursEntry, some theirsEntry =>
        if state.next < NUMBER_MAX then
          some { state with
            resolved := state.resolved ++
              [(.ours, fresh oursEntry), (.theirs, { fresh theirsEntry with number := state.next })]
            next := state.next + 1 }
        else none
    | _, _, _ =>
        some { state with
          conflicts := state.conflicts ++
            [{ place := number, ours := (o.map fresh).toList, theirs := (t.map fresh).toList }] }

end Entries

section Keys

variable {K : Type} [Ord K] [Std.TransOrd K]

/-- Where the live entries of each key are. -/
def byKey (resolved : List (Side × LockEntry K)) : OrdMap K (List Nat) :=
  resolved.zipIdx.foldl
    (fun keys ((_, entry), index) =>
      if entry.retired then keys
      else keys.insert entry.key ((keys[entry.key]?).getD [] ++ [index])) ∅

/-- The places that hold a live key together. -/
def duplicated (resolved : List (Side × LockEntry K)) : List (List Nat) :=
  ((byKey resolved).toList.map Prod.snd).filter fun indices => 1 < indices.length

/-- The conflict of entries that hold a live key together, at the lowest of their numbers. -/
def keyConflict (resolved : List (Side × LockEntry K)) (indices : List Nat) : Conflict K :=
  let entries := indices.filterMap (resolved[·]?)
  { place := entries.foldl (fun place entry => min place entry.2.number) NUMBER_MAX
    ours := (entries.filter fun entry => entry.1 ≠ .theirs).map Prod.snd
    theirs := (entries.filter fun entry => entry.1 ≠ .ours).map Prod.snd }

end Keys

section Text

variable {K : Type} [TableKey K]

def pushLine (entry : LockEntry K) : Text := entryLine entry ++ ['\n']

def pushConflict (markerSize : Nat) (conflict : Conflict K) : Text :=
  List.replicate markerSize '<' ++ " ours\n".toList ++ conflict.ours.flatMap pushLine ++
    List.replicate markerSize '=' ++ '\n' :: conflict.theirs.flatMap pushLine ++
      List.replicate markerSize '>' ++ " theirs\n".toList

def pushEntries (markerSize : Nat) : List (LockEntry K) → List (Conflict K) → Text
  | [], conflicts => conflicts.flatMap (pushConflict markerSize)
  | entry :: entries, conflicts =>
      (conflicts.takeWhile fun conflict => conflict.place < entry.number).flatMap
          (pushConflict markerSize) ++
        pushLine entry ++
          pushEntries markerSize entries
            (conflicts.dropWhile fun conflict => conflict.place < entry.number)

/-- The numbers that any of the tables holds, in ascending order. -/
def mergeNumbers (base ours theirs : LockTable K) : List Nat :=
  (Std.ExtTreeSet.ofList ((byNumber base).keys ++ (byNumber ours).keys ++ (byNumber theirs).keys)
    compare).toList

variable [DecidableEq K] [Ord K] [Std.TransOrd K]

/-- The merge of three tables. -/
def merge (base ours theirs : LockTable K) (markerSize : Nat) : Option (MergeOutcome K) := do
  let state ← (mergeNumbers base ours theirs).foldlM
    (mergeAt (byNumber base) (byNumber ours) (byNumber theirs))
    { next := max (max base.next ours.next) theirs.next, resolved := [], conflicts := [] }
  let duplicated := duplicated state.resolved
  let conflicts := state.conflicts ++ duplicated.map (keyConflict state.resolved)
  let inConflict := duplicated.flatten
  let entries := inOrder
    ((state.resolved.zipIdx.filter fun entry => !inConflict.contains entry.2).map fun entry =>
      entry.1.2)
  if conflicts.isEmpty then return .clean { next := state.next, entries := entries }
  else
    return .conflict (HEADER K ++ '\n' :: nextLine state.next ++ '\n' ::
      pushEntries markerSize entries (conflicts.insertionSort fun a b => a.place ≤ b.place))

end Text

end Lock

end Ridl
