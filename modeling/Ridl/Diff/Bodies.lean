import Ridl.Diff.Classify

/-!
# The Declaration Walk

The walk over two declarations of one name. A named type is compared aspect by
aspect. A body with members is compared by the names of its members and their
slots: what is on one side alone is an addition or a removal, and then nothing
else of the body is compared. With the same names on both sides a member whose
slot moved is reported, and the body itself where it differs otherwise.

Values appended to an enum that is not open are folded into one change of the
enum: a reader of the old body refuses them.

## Main definitions

* `foldStrictEnumAppends`: The additions to strict enums as one change each.
-/

namespace Ridl

namespace Diff

/-! ### Bodies without their order -/

/-- The order of tombstones: by name, then by value. -/
def tombstoneLe (a b : Reserved) : Bool :=
  ((compare a.name b.name).then (compare a.value b.value)).isLE

/-- The key of a struct's member: fields by name, then tombstones. -/
def memberKey : Option StructMember → Nat × Option String × Option Int
  | some (.field field) => (0, some field.name, none)
  | some (.reserved reserved) => (1, reserved.name, reserved.value)
  | none => (2, none, none)

def memberLe (a b : Option StructMember) : Bool :=
  let (i, m, u) := memberKey a
  let (j, n, v) := memberKey b
  (((compare i j).then (compare m n)).then (compare u v)).isLE

/-- A member with no place of its own. -/
def withoutOrdinal : Option StructMember → Option StructMember
  | some (.field field) => some (.field { field with ordinal := 0 })
  | some (.reserved reserved) => some (.reserved { reserved with ordinal := 0 })
  | none => none

def structIgnoringOrder (d : StructDef) : StructDef :=
  { d with
    members := (d.members.map withoutOrdinal).insertionSort (fun a b => memberLe a b = true) }

/-- Values in the order of their names. -/
def sortedValues (values : List EnumValue) : List EnumValue :=
  values.insertionSort (fun a b => a.name ≤ b.name)

def sortedTombstones (reserved : List Reserved) : List Reserved :=
  reserved.insertionSort (fun a b => tombstoneLe a b = true)

def enumIgnoringOrder (d : EnumDef) : EnumDef :=
  { d with values := sortedValues d.values, reserved := sortedTombstones d.reserved }

def enumSetIgnoringOrder (d : EnumSetDef) : EnumSetDef := { d with bits := sortedValues d.bits }

def unionIgnoringOrder (d : UnionDef) : UnionDef :=
  { d with
    arms := (d.arms.map (fun arm => { arm with ordinal := 0 })).insertionSort
      (fun a b => a.name ≤ b.name)
    reserved := sortedTombstones (d.reserved.map (fun entry => { entry with ordinal := 0 })) }

def withoutNumbers (values : List EnumValue) : List EnumValue :=
  values.map (fun value => { value with value := 0 })

/-! ### Two declarations of one name -/

/-- The members of the second body whose name the first does not have. -/
def otherMembers (path : String) (category : Category) (old new : List (String × Int)) :
    List Change :=
  new.flatMap (fun member =>
    emit (path ++ "/" ++ member.1) category (!(old.map Prod.fst).contains member.1))

/-- The members that have another slot. -/
def movedMembers (path : String) (old new : List (String × Int)) : List Change :=
  new.flatMap (fun member =>
    emit (path ++ "/" ++ member.1) .memberReordered
      ((old.find? (fun entry => entry.1 == member.1)).any (fun entry => entry.2 != member.2)))

/-- Compares two bodies that differ, by member name and slot. -/
def diffComposite (path : String) (old new : List (String × Int)) (differsBeyondSlots : Bool) :
    List Change :=
  let structural := otherMembers path .declAdded old new ++ otherMembers path .declRemoved new old
  if structural.isEmpty then
    let moved := movedMembers path old new
    moved ++ emit path .constraintChanged (moved.isEmpty || differsBeyondSlots)
  else structural

theorem mem_otherMembers {path : String} {category : Category} {old new : List (String × Int)}
    {change : Change} :
    change ∈ otherMembers path category old new ↔
      ∃ m ∈ new, (old.map Prod.fst).contains m.1 = false ∧
        change = ⟨path ++ "/" ++ m.1, category⟩ := by
  simp only [otherMembers, List.mem_flatMap, mem_emit, Bool.not_eq_true']

def diffTypeDef (path : String) (a b : TypeDef) : List Change :=
  emit path .widthChanged (a.backing ≠ b.backing || a.width ≠ b.width) ++
  emit path .constraintChanged (a.constraint ≠ b.constraint) ++
  emit path .initChanged (a.declaredInit ≠ b.declaredInit || a.init ≠ b.init)

def emitOpenness (path : String) (oldOpen newOpen : Bool) : List Change :=
  emit path .enumOpened (!oldOpen && newOpen) ++ emit path .enumClosed (oldOpen && !newOpen)

/-- Compares two structs. -/
def diffStructDef (path : String) (a b : StructDef) : List Change :=
  if a = b then []
  else
    diffComposite path (structSlots a) (structSlots b)
      (structIgnoringOrder a ≠ structIgnoringOrder b)

/-- Compares two enums, openness aside. The number of a value is what it is
    known by, so another order alone moves nothing. -/
def diffEnumDef (path : String) (a b : EnumDef) : List Change :=
  if a = b then []
  else if enumIgnoringOrder a = enumIgnoringOrder b then emit path .enumReordered true
  else
    let numberless := fun (d : EnumDef) =>
      { enumIgnoringOrder d with values := withoutNumbers (enumIgnoringOrder d).values }
    diffComposite path (valueSlots a.values) (valueSlots b.values) (numberless a ≠ numberless b)

/-- Compares two enum sets, openness aside. -/
def diffEnumSetDef (path : String) (a b : EnumSetDef) : List Change :=
  if a = b then []
  else if enumSetIgnoringOrder a = enumSetIgnoringOrder b then emit path .enumReordered true
  else
    let numberless := fun (d : EnumSetDef) =>
      { enumSetIgnoringOrder d with bits := withoutNumbers (enumSetIgnoringOrder d).bits }
    diffComposite path (valueSlots a.bits) (valueSlots b.bits) (numberless a ≠ numberless b)

/-- Compares two unions. -/
def diffUnionDef (path : String) (a b : UnionDef) : List Change :=
  if a = b then []
  else
    diffComposite path (unionSlots a) (unionSlots b) (unionIgnoringOrder a ≠ unionIgnoringOrder b)

/-- Compares two bodies, without the doc fields of their members. -/
def diffBody (path : String) : Option Kind → Option Kind → List Change
  | some (.typeDef a), some (.typeDef b) => diffTypeDef path a b
  | some (.constDef a), some (.constDef b) => emit path .initChanged (a ≠ b)
  | some (.structDef a), some (.structDef b) => diffStructDef path a b
  | some (.enumDef a), some (.enumDef b) =>
      emitOpenness path a.isOpen b.isOpen ++
        diffEnumDef path { a with isOpen := false } { b with isOpen := false }
  | some (.enumSetDef a), some (.enumSetDef b) =>
      emitOpenness path a.isOpen b.isOpen ++
        diffEnumSetDef path { a with isOpen := false } { b with isOpen := false }
  | some (.unionDef a), some (.unionDef b) => diffUnionDef path a b
  | old, new => emit path .kindChanged (kindDiscriminant old ≠ kindDiscriminant new)

/-- Compares two declarations of one name. -/
def diffDecl (pkg name : String) (old new : Decl) : List Change :=
  let path := pkg ++ "/" ++ name
  emit path .docOnly (old.docs ≠ new.docs || memberDocsDiffer old.kind new.kind) ++
  emit path .visibilityChanged (old.visibility ≠ new.visibility) ++
  diffBody path (withoutMemberDocs old.kind) (withoutMemberDocs new.kind)

/-! ### Additions to strict enums -/

/-- The strict enum that a change adds a member to. -/
def strictMember (old new : Package) (change : Change) : Option String :=
  if change.category ≠ .declAdded then none
  else
    match segments change.path with
    | [package, name, _] =>
        if package ≠ new.name then none
        else
          match findDecl old name, findDecl new name with
          | some oldDecl, some newDecl =>
              if isStrictEnumAppend oldDecl newDecl then some name else none
          | _, _ => none
    | _ => none

/-- One change for each strict enum that was appended to, where the first of its
    additions was. -/
def foldFrom (old new : Package) : List String → List Change → List Change
  | _, [] => []
  | done, change :: pair =>
      match strictMember old new change with
      | none => change :: foldFrom old new done pair
      | some name =>
          if done.contains name then foldFrom old new done pair
          else
            ⟨new.name ++ "/" ++ name, .strictEnumAppend⟩ :: foldFrom old new (name :: done) pair

def foldStrictEnumAppends (pair : List Change) (old new : Package) : List Change :=
  foldFrom old new [] pair

theorem fold_eq_of_not_mem {pair : List Change} {old new : Package}
    (h : ∀ path, ⟨path, .strictEnumAppend⟩ ∉ foldStrictEnumAppends pair old new) :
    foldStrictEnumAppends pair old new = pair := by
  unfold foldStrictEnumAppends at *
  induction pair with
  | nil => rfl
  | cons change pair ih =>
      unfold foldFrom at h ⊢
      rcases hstrict : strictMember old new change with _ | name
      · simp only [hstrict] at h ⊢
        rw [ih (fun path hmem => h path (List.mem_cons_of_mem _ hmem))]
      · simp only [hstrict, List.contains_nil, Bool.false_eq_true, if_false] at h
        exact absurd List.mem_cons_self (h _)

theorem fold_eq_of_none {pair : List Change} {old new : Package}
    (h : ∀ change ∈ pair, strictMember old new change = none) :
    foldStrictEnumAppends pair old new = pair := by
  unfold foldStrictEnumAppends
  induction pair with
  | nil => rfl
  | cons change pair ih =>
      unfold foldFrom
      simp only [h change List.mem_cons_self]
      rw [ih (fun other hmem => h other (List.mem_cons_of_mem _ hmem))]

/-- What is reported of two declarations of one name. -/
def declChanges (oldPackage newPackage : Package) (old new : Decl) : List Change :=
  foldStrictEnumAppends (diffDecl newPackage.name new.name old new) oldPackage newPackage

end Diff

end Ridl
