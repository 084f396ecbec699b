import Mathlib.Data.List.Sort
import Ridl.Lock.Key

/-!
# The Lock Table

A line table, its text, and the edits of it.

A file opens with the header and `next N`, and has a line for each entry: its key,
its number, and the word `retired` once it is retired. The reader skips empty
lines and comments, takes the first line that is left for the `next` line, and
every later one for an entry, so an entry may have the key `next`.

An edit of a table answers with the table as it leaves it, also where it fails.

## Main definitions

* `LockTable.render`: The text of a table.
* `LockTable.allocate`, `LockTable.rename`, `LockTable.retire`: The edits of an entry.
* `LockTable.renameComponent`, `LockTable.retireComponent`: Those of a component.
-/

namespace Ridl

namespace Lock

open Library
open TableKey (display fromStr HEADER MAX_NUMBER)

/-- The bytes of a text from one offset to another. -/
structure TextRange where
  start : Nat
  stop : Nat
deriving DecidableEq, Inhabited

def TextRange.empty : TextRange := { start := 0, stop := 0 }

/-- One line of the table. -/
structure LockEntry (K : Type) where
  key : K
  number : Nat
  retired : Bool
  /-- Where the line was read, and empty where it was not. -/
  range : TextRange
deriving DecidableEq

/-- The table of a lock file. -/
structure LockTable (K : Type) where
  /-- The next number to allocate. -/
  next : Nat
  /-- Every entry, live and retired, in file order. -/
  entries : List (LockEntry K)
deriving DecidableEq

/-- Why a text is not a lock file. -/
structure LockError where
  message : Text
  range : TextRange
deriving DecidableEq

/-- Why an edit cannot be applied. -/
inductive LockEditError (K : Type)
  | noLiveEntry (key : K)
  | keyAlreadyLive (key : K)
  | noEntryUnder (component : Text)
  | exhausted
deriving DecidableEq

/-- The table of an empty file. -/
def LockTable.default (K : Type) : LockTable K := { next := 1, entries := [] }

/-- A number in decimal. -/
def digits (n : Nat) : Text := Nat.toDigits 10 n

/-! ### Reading -/

section Parse

variable {K : Type} [TableKey K]

def NEXT : Text := "next".toList

def RETIRED : Text := "retired".toList

def noNextLine : LockError where
  message := "no `next` line: the first line after the header must be `next N`".toList
  range := .empty

/-- The first content line. -/
def parseNextLine (K : Type) [TableKey K] (line : Text) (range : TextRange) :
    Except LockError Nat :=
  let fields := line.splitOn ' '
  if fields[0]? ≠ some NEXT then .error noNextLine
  else
    match fields[1]?.bind parseNumber, fields[2]? with
    | some next, none =>
        if next ≤ MAX_NUMBER K + 1 then .ok next else .error (doesNotParse range)
    | _, _ => .error (doesNotParse range)
where
  doesNotParse (range : TextRange) : LockError :=
    { message := "the `next` line does not parse: expected `next N` with N at least 1".toList
      range := range }

def doesNotParse (range : TextRange) (reason : Text) : LockError :=
  { message := "line does not parse: ".toList ++ reason, range := range }

def parseKey (range : TextRange) (field : Option Text) : Except LockError K :=
  (fromStr (field.getD [])).mapError (doesNotParse range)

def parseEntryNumber (K : Type) [TableKey K] (range : TextRange) (field : Option Text) :
    Except LockError Nat :=
  match (field.bind parseNumber).filter (· ≤ MAX_NUMBER K) with
  | some number => .ok number
  | none => .error (doesNotParse range "expected `Key N` with N at least 1 and within range".toList)

/-- The word after the number, if any. -/
def parseRetired (range : TextRange) (field : Option Text) : Except LockError Bool :=
  match field with
  | none => .ok false
  | some word =>
      if word = RETIRED then .ok true
      else
        .error (doesNotParse range
          "expected `retired` or the end of the line after the number".toList)

def parseEntryLine (line : Text) (range : TextRange) : Except LockError (LockEntry K) := do
  let fields := line.splitOn ' '
  let key ← parseKey range fields[0]?
  let number ← parseEntryNumber K range fields[1]?
  let retired ← parseRetired range fields[2]?
  if fields[3]?.isSome then .error (doesNotParse range "unexpected text after `retired`".toList)
  else .ok { key := key, number := number, retired := retired, range := range }

/-- What was read so far. -/
structure Scan (K : Type) where
  offset : Nat
  next : Option Nat
  entries : List (LockEntry K)

variable [DecidableEq K]

/-- One more entry, unless it is not below `next` or repeats a number or a live key. -/
def addEntry (bound : Nat) (entries : List (LockEntry K)) (entry : LockEntry K) :
    Except LockError (List (LockEntry K)) :=
  if entry.number ≥ bound then
    .error
      { message := "`next` is ".toList ++ digits bound ++
          ", which is not greater than the number ".toList ++ digits entry.number ++
          " of `".toList ++ display entry.key ++ "`".toList
        range := entry.range }
  else
    match entries.find? (·.number = entry.number) with
    | some other =>
        .error
          { message := "number ".toList ++ digits entry.number ++ " is on two entries: `".toList ++
              display other.key ++ "` and `".toList ++ display entry.key ++ "`".toList
            range := entry.range }
    | none =>
        match if entry.retired then none
          else entries.find? (fun other => !other.retired && other.key = entry.key) with
        | some other =>
            .error
              { message := "live key `".toList ++ display entry.key ++
                  "` is on two entries: ".toList ++ digits other.number ++ " and ".toList ++
                  digits entry.number
                range := entry.range }
        | none => .ok (entries ++ [entry])

/-- One line, with its terminator. -/
def parseLine (scan : Scan K) (rawLine : Text) : Except LockError (Scan K) :=
  let start := scan.offset
  let scan := { scan with offset := start + byteLen rawLine }
  let line := trimEnd rawLine
  if line = [] ∨ (trimStart line).head? = some '#' then .ok scan
  else
    let range := { start := start, stop := start + byteLen line }
    match scan.next with
    | none => do
        let next ← parseNextLine K line range
        return { scan with next := some next }
    | some bound => do
        let entry ← parseEntryLine line range
        let entries ← addEntry bound scan.entries entry
        return { scan with entries := entries }

/-- The table that a text holds. -/
def parseTable (text : Text) : Except LockError (LockTable K) := do
  let scan ← (splitInclusive text).foldlM parseLine { offset := 0, next := none, entries := [] }
  match scan.next with
  | some next => .ok { next := next, entries := scan.entries }
  | none => .error noNextLine

end Parse

/-! ### Writing -/

section Render

variable {K : Type} [TableKey K]

/-- The line of an entry, without its terminator. -/
def entryLine (entry : LockEntry K) : Text :=
  display entry.key ++ ' ' :: digits entry.number ++
    if entry.retired then ' ' :: RETIRED else []

def nextLine (next : Nat) : Text := NEXT ++ ' ' :: digits next

def inOrder (entries : List (LockEntry K)) : List (LockEntry K) :=
  entries.insertionSort fun a b => a.number ≤ b.number

def LockTable.render (table : LockTable K) : Text :=
  HEADER K ++ '\n' :: nextLine table.next ++ '\n' ::
    (inOrder table.entries).flatMap fun entry => entryLine entry ++ ['\n']

end Render

/-! ### Edits -/

namespace LockTable

section Edits

variable {K : Type} [TableKey K] [DecidableEq K]

/-- The live entry that holds a key. -/
def live (table : LockTable K) (key : K) : Option (LockEntry K) :=
  table.entries.find? fun entry => !entry.retired && entry.key = key

/-- The next number, for a key that is not live. -/
def allocate (table : LockTable K) (key : K) : LockTable K × Except (LockEditError K) Nat :=
  if (table.live key).isSome then (table, .error (.keyAlreadyLive key))
  else
    let number := table.next
    if number > MAX_NUMBER K then (table, .error .exhausted)
    else
      ({ next := number + 1
         entries := table.entries ++
           [{ key := key, number := number, retired := false, range := .empty }] },
        .ok number)

/-- Rewrites the key of a live entry in place. -/
def rename (table : LockTable K) (old new : K) : LockTable K × Except (LockEditError K) Nat :=
  match table.entries.findIdx? fun entry => !entry.retired && entry.key = old with
  | none => (table, .error (.noLiveEntry old))
  | some index =>
      if (table.live new).isSome then (table, .error (.keyAlreadyLive new))
      else
        match table.entries[index]? with
        | none => (table, .error (.noLiveEntry old))
        | some entry =>
            ({ table with entries := table.entries.set index { entry with key := new } },
              .ok entry.number)

def retire (table : LockTable K) (key : K) : LockTable K × Except (LockEditError K) Nat :=
  match table.entries.findIdx? fun entry => !entry.retired && entry.key = key with
  | none => (table, .error (.noLiveEntry key))
  | some index =>
      match table.entries[index]? with
      | none => (table, .error (.noLiveEntry key))
      | some entry =>
          ({ table with entries := table.entries.set index { entry with retired := true } },
            .ok entry.number)

end Edits

/-! ### Edits of a component -/

def hasComponent (table : LockTable InstanceKey) (component : Text) (includeRetired : Bool) :
    Bool :=
  table.entries.any fun entry =>
    entry.key.component = component && (includeRetired || !entry.retired)

/-- The first live entry of a component whose new key is live. -/
def taken (table : LockTable InstanceKey) (old new : Text) : Option InstanceKey :=
  (table.entries.filter fun entry => !entry.retired && entry.key.component = old).findSome?
    fun entry =>
      let target := { component := new, instanceName := entry.key.instanceName }
      if (table.live target).isSome then some target else none

/-- An entry of one component as the same of another. -/
def moveEntry (old new : Text) (entry : LockEntry InstanceKey) : LockEntry InstanceKey :=
  if entry.key.component = old then { entry with key := { entry.key with component := new } }
  else entry

/-- Moves every entry of a component, live and retired. -/
def renameComponent (table : LockTable InstanceKey) (old new : Text) :
    LockTable InstanceKey ×
      Except (LockEditError InstanceKey) (List (InstanceKey × InstanceKey × Nat)) :=
  if !table.hasComponent old true then (table, .error (.noEntryUnder old))
  else
    match table.taken old new with
    | some target => (table, .error (.keyAlreadyLive target))
    | none =>
        ({ table with entries := table.entries.map (moveEntry old new) },
          .ok ((table.entries.filter (·.key.component = old)).map fun entry =>
            (entry.key, (moveEntry old new entry).key, entry.number)))

def retireEntry (component : Text) (entry : LockEntry InstanceKey) : LockEntry InstanceKey :=
  if !entry.retired && entry.key.component = component then { entry with retired := true }
  else entry

/-- Marks every live entry of a component retired. -/
def retireComponent (table : LockTable InstanceKey) (component : Text) :
    LockTable InstanceKey × Except (LockEditError InstanceKey) (List (InstanceKey × Nat)) :=
  let retired := table.entries.filter fun entry =>
    !entry.retired && entry.key.component = component
  let table := { table with entries := table.entries.map (retireEntry component) }
  if retired = [] then (table, .error (.noEntryUnder component))
  else (table, .ok (retired.map fun entry => (entry.key, entry.number)))

end LockTable

end Lock

end Ridl
