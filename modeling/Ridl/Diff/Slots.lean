import Ridl.Diff.Ir

/-!
# The Slots of a Body

The members of a struct, a union, an enum and an enum set, each with what it is
known by on the wire: the ordinal of a field and of an arm, the number of a
value and of a bit. A tombstone retires its slot.

A body grows by appending: every member keeps its slot, and what is added
takes a slot above every one that was ever used (`appendedSlot`).

## Main definitions

* `structSlots`, `unionSlots`, `valueSlots`: The members with their slots.
* `structReserved`, `unionReserved`, `reservedValues`: The retired slots.
-/

namespace Ridl

namespace Diff

def structSlots (d : StructDef) : List (String × Int) :=
  d.members.filterMap (fun member =>
    match member with
    | some (.field field) => some (field.name, field.ordinal)
    | _ => none)

def structReserved (d : StructDef) : List Int :=
  d.members.filterMap (fun member =>
    match member with
    | some (.reserved reserved) => some reserved.ordinal
    | _ => none)

def unionSlots (d : UnionDef) : List (String × Int) :=
  d.arms.map (fun arm => (arm.name, arm.ordinal))

def unionReserved (d : UnionDef) : List Int := d.reserved.map (fun reserved => reserved.ordinal)

def valueSlots (values : List EnumValue) : List (String × Int) :=
  values.map (fun value => (value.name, value.value))

def reservedValues (reserved : List Reserved) : List Int := reserved.filterMap Reserved.value

def isAboveHighWater (slot : Int) (held : List Int) : Bool :=
  held.max?.all (fun mark => decide (slot > mark))

/-- Every old member is at its slot, and every other one is above every slot
    that was ever used. -/
def appendedSlot (old : List (String × Int)) (oldRetired : List Int)
    (new : List (String × Int)) : Bool :=
  let mark := old.map Prod.snd ++ oldRetired
  old.all (fun member => (new.find? (fun entry => entry.1 == member.1)).any
    (fun entry => entry.2 == member.2)) &&
  new.all (fun entry => (old.map Prod.fst).contains entry.1 || isAboveHighWater entry.2 mark)

/-- Values or flags were appended to an enum or an enum set that is not open. -/
def isStrictEnumAppend (old new : Decl) : Bool :=
  match old.kind, new.kind with
  | some (.enumDef a), some (.enumDef b) =>
      !b.isOpen && appendedSlot (valueSlots a.values) (reservedValues a.reserved)
        (valueSlots b.values)
  | some (.enumSetDef a), some (.enumSetDef b) =>
      !b.isOpen && appendedSlot (valueSlots a.bits) [] (valueSlots b.bits)
  | _, _ => false

end Diff

end Ridl
