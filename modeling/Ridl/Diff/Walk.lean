import Mathlib.Data.List.Sort
import Ridl.Diff.Ir

/-!
# The Interface Walk

The walk over one matched pair of interfaces: `diff_interface` compares their
interactions by name and reports every difference as a change, with the path
of what it is about.

An interaction's place on the wire is its ordinal, so the walk follows ordinals
through the comparison: of the interactions that are on both sides, of those
that are gone, and of the tombstones, which hold the ordinal of what they
retired. A new slot is reported by where it stands, which is before or after
the slots that were there before (`anchorOrdinals`). A surviving interaction is
reported where its rank among the survivors changed (`detectReorders`), and not
where only its ordinal did.

The texts of a report, what was there before and what is there after, are left
out: no rule reads them.

## Main definitions

* `Category`, `Change`: What a walk reports.
-/

namespace Ridl

namespace Diff

open Library

/-- The categories of the changes that the walk reports. -/
inductive Category
  | declAdded
  | declRemoved
  | interfaceRenamed
  | interfaceRetired
  | interfaceFrozen
  | interfaceNumberChanged
  | memberReordered
  | enumReordered
  | interactionInserted
  | interactionReordered
  | interactionRemoved
  | interactionRetired
  | interactionAppended
  | reservedNameRedeclared
  | kindChanged
  | interactionClassChanged
  | payloadChanged
  | returnChanged
  | paramsChanged
  | widthChanged
  | constraintChanged
  | initChanged
  | timingChanged
  | rpcBoundChanged
  | contractChanged
  | limitChanged
  | serviceChanged
  | serviceInterfaceAdded
  | serviceInterfaceRemoved
  | visibilityChanged
  | docOnly
  | strictEnumAppend
  | enumOpened
  | enumClosed
deriving DecidableEq

structure Change where
  path : String
  category : Category
deriving DecidableEq

/-! ### Two interactions of one name -/

/-- The doc fields of every member of a declaration's body, by name. -/
def memberDocs : Option Kind → OrdMap String DocEnvelope
  | some (.structDef d) =>
      OrdMap.collect (d.members.filterMap (fun member =>
        match member with
        | some (.field field) => some (field.name, field.docs)
        | _ => none))
  | some (.enumDef d) =>
      OrdMap.collect (d.values.map (fun value => (value.name, value.docs.envelope)))
  | some (.enumSetDef d) =>
      OrdMap.collect (d.bits.map (fun value => (value.name, value.docs.envelope)))
  | some (.unionDef d) =>
      OrdMap.collect (d.arms.map (fun arm => (arm.name, arm.docs.envelope)))
  | some (.commandDef d) =>
      OrdMap.collect (d.params.map (fun param => (param.name, param.docs.envelope)))
  | some (.queryDef d) =>
      OrdMap.collect (d.params.map (fun param => (param.name, param.docs.envelope)))
  | _ => ∅

/-- A member of both bodies has other doc fields. -/
def memberDocsDiffer (old new : Option Kind) : Bool :=
  (memberDocs old).toList.any (fun member =>
    ((memberDocs new)[member.1]?).any (fun docs => docs ≠ member.2))

/-- A body without the doc fields of its members. -/
def withoutMemberDocs : Option Kind → Option Kind
  | some (.structDef d) =>
      some (.structDef { d with
        members := d.members.map (fun member =>
          match member with
          | some (.field field) => some (.field { field with docs := .empty })
          | member => member) })
  | some (.enumDef d) =>
      some (.enumDef { d with values := d.values.map (fun v => { v with docs := .empty }) })
  | some (.enumSetDef d) =>
      some (.enumSetDef { d with bits := d.bits.map (fun v => { v with docs := .empty }) })
  | some (.unionDef d) =>
      some (.unionDef { d with arms := d.arms.map (fun arm => { arm with docs := .empty }) })
  | some (.commandDef d) =>
      some (.commandDef { d with params := d.params.map (fun p => { p with docs := .empty }) })
  | some (.queryDef d) =>
      some (.queryDef { d with params := d.params.map (fun p => { p with docs := .empty }) })
  | kind => kind

def kindDiscriminant : Option Kind → Nat
  | none => 0
  | some (.typeDef _) => 1
  | some (.constDef _) => 2
  | some (.structDef _) => 3
  | some (.enumDef _) => 4
  | some (.enumSetDef _) => 5
  | some (.unionDef _) => 6
  | some (.signalDef _) => 7
  | some (.eventDef _) => 8
  | some (.commandDef _) => 9
  | some (.queryDef _) => 10
  | some (.fixedDef _) => 11
  | some (.reservedSlot _) => 12

/-- A change, when what it is about differs. -/
def emit (path : String) (category : Category) (differs : Bool) : List Change :=
  if differs then [⟨path, category⟩] else []

theorem mem_emit (change : Change) (path : String) (category : Category) (differs : Bool) :
    change ∈ emit path category differs ↔ differs = true ∧ change = ⟨path, category⟩ := by
  unfold emit
  by_cases h : differs = true
  · rw [if_pos h, List.mem_singleton, and_iff_right h]
  · rw [if_neg h]
    simp only [List.not_mem_nil, h, Bool.false_eq_true, false_and]

/-- The differences of two bodies of one kind, and the kind where it differs. -/
def diffKind (path : String) : Option Kind → Option Kind → List Change
  | some (.signalDef a), some (.signalDef b) =>
      emit path .interactionClassChanged (a.family ≠ b.family) ++
      emit path .payloadChanged (a.payload ≠ b.payload) ++
      emit path .initChanged (a.declaredInit ≠ b.declaredInit || a.init ≠ b.init) ++
      emit path .timingChanged (a.timing ≠ b.timing)
  | some (.eventDef a), some (.eventDef b) =>
      emit path .interactionClassChanged (a.family ≠ b.family) ++
      emit path .payloadChanged (a.payload ≠ b.payload) ++
      emit path .timingChanged (a.timing ≠ b.timing)
  | some (.commandDef a), some (.commandDef b) =>
      emit path .interactionClassChanged (a.family ≠ b.family || a.shape ≠ b.shape) ++
      emit path .paramsChanged (a.params != b.params) ++
      emit path .contractChanged (a.contracts ≠ b.contracts) ++
      emit path .rpcBoundChanged (a.timing ≠ b.timing)
  | some (.queryDef a), some (.queryDef b) =>
      emit path .interactionClassChanged (a.family ≠ b.family) ++
      emit path .paramsChanged (a.params != b.params) ++
      emit path .returnChanged (a.returnType != b.returnType) ++
      emit path .contractChanged (a.contracts ≠ b.contracts) ++
      emit path .rpcBoundChanged (a.timing ≠ b.timing)
  | some (.fixedDef a), some (.fixedDef b) => emit path .payloadChanged (a.payload != b.payload)
  | _, _ => emit path .kindChanged true

/-- Compares two interactions of one name. -/
def diffInteraction (path : String) (old new : Decl) : List Change :=
  emit path .docOnly (old.docs ≠ new.docs || memberDocsDiffer old.kind new.kind) ++
  emit path .visibilityChanged (old.visibility ≠ new.visibility) ++
  -- A limit is compared for a pair of one kind; another kind is reported alone.
  emit path .limitChanged
    (old.limit ≠ new.limit && kindDiscriminant old.kind == kindDiscriminant new.kind) ++
  diffKind path (withoutMemberDocs old.kind) (withoutMemberDocs new.kind)

/-! ### Two interfaces -/

/-- The interactions of an interface: every slot that is not a tombstone. -/
def liveInteractions (iface : Interface) : List Decl :=
  iface.interactions.filter (fun decl =>
    match decl.kind with
    | some (.reservedSlot _) => false
    | none => false
    | some _ => true)

/-- The name a tombstone retired, with the ordinal the tombstone holds. -/
def reservedName (decl : Decl) : Option (String × Nat) :=
  match decl.kind with
  | some (.reservedSlot reserved) => reserved.name.map (fun name => (name, decl.ordinal))
  | _ => none

/-- The names retired by the tombstones of an interface. -/
def reservedNames (iface : Interface) : OrdMap String Nat :=
  OrdMap.collect (iface.interactions.filterMap reservedName)

def liveMap (iface : Interface) : OrdMap String Decl :=
  OrdMap.collect ((liveInteractions iface).map (fun decl => (decl.name, decl)))

/-- An interaction of both sides, with its ordinal on each. -/
structure Matched where
  name : String
  oldOrd : Nat
  newOrd : Nat
deriving DecidableEq

/-- The interactions of both sides, in the old side's order. -/
def matchedInteractions (old new : Interface) : List Matched :=
  (liveInteractions old).filterMap (fun decl =>
    ((liveMap new)[decl.name]?).map (fun newDecl => ⟨decl.name, decl.ordinal, newDecl.ordinal⟩))

/-- The new-side ordinals of the slots that were there before: the surviving
    interactions, and the tombstones of names the old side held. -/
def anchorOrdinals (matched : List Matched) (new : Interface) (oldLiveNames : List String)
    (oldReserved : OrdMap String Nat) : List Nat :=
  matched.map Matched.newOrd ++
    new.interactions.filterMap (fun decl =>
      match reservedName decl with
      | some (name, ordinal) =>
          if oldLiveNames.contains name || oldReserved.contains name then some ordinal else none
      | none => none)

/-- The matched interactions in the order of a chosen ordinal. -/
def ranked (matched : List Matched) (key : Matched → Nat) : List Matched :=
  matched.insertionSort (fun a b => key a ≤ key b)

/-- The rank of each matched interaction by a chosen ordinal. -/
def rankBy (matched : List Matched) (key : Matched → Nat) : OrdMap String Nat :=
  OrdMap.collect ((ranked matched key).zipIdx.map (fun entry => (entry.1.name, entry.2)))

/-- Flags the survivors whose rank among the survivors changed. -/
def detectReorders (path : String → String) (matched : List Matched) : List Change :=
  let oldRank := rankBy matched Matched.oldOrd
  let newRank := rankBy matched Matched.newOrd
  matched.flatMap (fun m =>
    emit (path m.name) .interactionReordered (oldRank[m.name]? ≠ newRank[m.name]?))

/-- The category of a slot that is new: by whether a slot that was there before
    stands after it. -/
def addedCategory (anchors : List Nat) (ordinal : Nat) : Category :=
  if anchors.any (fun anchor => decide (anchor > ordinal)) then .interactionInserted
  else .interactionAppended

/-- Compares the bodies of two matched interfaces. -/
def diffInterface (pkg iface : String) (old new : Interface) : List Change :=
  let path := fun name => pkg ++ "/" ++ iface ++ "/" ++ name
  let oldLive := liveInteractions old
  let newLive := liveInteractions new
  let oldReserved := reservedNames old
  let newReserved := reservedNames new
  let oldLiveNames := oldLive.map Decl.name
  let newLiveMap := liveMap new
  let matched := matchedInteractions old new
  let survivors := oldLive.flatMap (fun decl =>
    match newLiveMap[decl.name]?, newReserved[decl.name]? with
    | some newDecl, _ => diffInteraction (path decl.name) decl newDecl
    -- A tombstone holds the retired interaction's own ordinal.
    | none, some reservedOrd =>
        if reservedOrd = decl.ordinal then emit (path decl.name) .interactionRetired true
        else emit (path decl.name) .interactionRemoved true
    | none, none => emit (path decl.name) .interactionRemoved true)
  let tombstones := oldReserved.toList.flatMap (fun entry =>
    if newLiveMap.contains entry.1 then []
    else
      match newReserved[entry.1]? with
      | some newOrd => emit (path entry.1) .interactionReordered (newOrd ≠ entry.2)
      | none => emit (path entry.1) .interactionRemoved true)
  let anchors := anchorOrdinals matched new oldLiveNames oldReserved
  let minted := newReserved.toList.flatMap (fun entry =>
    if oldLiveNames.contains entry.1 || oldReserved.contains entry.1 then []
    else emit (path entry.1) (addedCategory anchors entry.2) true)
  let added := newLive.flatMap (fun decl =>
    if oldLiveNames.contains decl.name then []
    else if oldReserved.contains decl.name then
      emit (path decl.name) .reservedNameRedeclared true
    else emit (path decl.name) (addedCategory anchors decl.ordinal) true)
  survivors ++ tombstones ++ minted ++ added ++ detectReorders path matched

end Diff

end Ridl
