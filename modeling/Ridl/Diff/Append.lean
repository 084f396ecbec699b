import Mathlib.Tactic.ByContra
import Ridl.Library.Keyed
import Ridl.Diff.Bodies

/-!
# Appends to a Body

A reader of an old body reads what a writer of the new one sends, when every
member is still there as it was and what is new takes slots that were never
used. The verdict on an addition is drawn from the slots of the two bodies, and
that protects the slots and the retired ones.

It does not protect the types. The walk stops at an addition, and the rule for
an addition reads names and slots, so a member that changes its type in the
same edit is compared by neither (`retyped_behind_append`). Where no member is
retyped behind an append that readers accept, a report of compatible changes
protects every member (`append_protects`).

## Theorems

* `appendedSlot_spec`: What the append rule says, of distinct names.
* `diffComposite_quiet`: What a comparison without a breaking change rules out.
* `append_protects`: When a compatible report protects the old members.
-/

namespace Ridl

namespace Diff

open Library

/-! ### Bodies -/

/-- What a member's type is written as. A value has none. -/
inductive MemberType
  | field (type : Option FieldType)
  | arm (typeRef : String)
  | value
deriving DecidableEq

structure Member where
  name : String
  slot : Int
  type : MemberType
deriving DecidableEq

/-- The live members of a declaration, and the slots it retired. -/
structure Body where
  members : List Member
  retired : List Int

namespace Body

def slots (body : Body) : List (String × Int) := body.members.map (fun m => (m.name, m.slot))

def Fresh (body : Body) (name : String) : Prop := ∀ m ∈ body.members, m.name ≠ name

/-- The members have names of their own, which are identifiers, and no slot is
    used twice. -/
structure WellFormed (body : Body) : Prop where
  names : (body.members.map Member.name).Nodup
  plain : ∀ m ∈ body.members, '/' ∉ m.name.toList
  slots : (body.members.map Member.slot ++ body.retired).Nodup

end Body

def structMember : Option StructMember → Option Member
  | some (.field field) => some ⟨field.name, field.ordinal, .field field.type⟩
  | _ => none

def armMember (arm : UnionArm) : Member := ⟨arm.name, arm.ordinal, .arm arm.typeRef⟩

def valueMember (value : EnumValue) : Member := ⟨value.name, value.value, .value⟩

def bodyOf : Option Kind → Option Body
  | some (.structDef d) => some ⟨d.members.filterMap structMember, structReserved d⟩
  | some (.enumDef d) => some ⟨d.values.map valueMember, reservedValues d.reserved⟩
  | some (.enumSetDef d) => some ⟨d.bits.map valueMember, []⟩
  | some (.unionDef d) => some ⟨d.arms.map armMember, unionReserved d⟩
  | _ => none

/-- Every old member is a member of the same slot and type, a retired slot is
    not used, and what is new stands above every slot that was. -/
structure Protected (old new : Body) : Prop where
  kept : ∀ m ∈ old.members, m ∈ new.members
  retired : ∀ slot ∈ old.retired, ∀ m ∈ new.members, m.slot ≠ slot
  above : ∀ m ∈ new.members, old.Fresh m.name →
    ∀ slot ∈ old.members.map Member.slot ++ old.retired, slot < m.slot

/-- Every old member has its slot, and what is new stands above. -/
structure Appends (old new : Body) : Prop where
  kept : ∀ m ∈ old.members, ∃ n ∈ new.members, n.name = m.name ∧ n.slot = m.slot
  above : ∀ m ∈ new.members, old.Fresh m.name →
    ∀ slot ∈ old.members.map Member.slot ++ old.retired, slot < m.slot

/-- Readers of both bodies accept a payload of the other, whether or not it has
    the new member: a field that can be missing, an arm of no result, a value of
    an open enum. -/
def readable (old new : Option Kind) (member : String) (home : Package)
    (scope : List Package) : Bool :=
  match old, new with
  | some (.structDef _), some (.structDef b) => absenceReadsAsLegal b member home scope
  | some (.unionDef a), some (.unionDef b) => !a.isResult && !b.isResult
  | some (.enumDef _), some (.enumDef b) => b.isOpen
  | some (.enumSetDef _), some (.enumSetDef b) => b.isOpen
  | _, _ => false

/-- An append that readers accept, with no visibility taken away, and a member
    of another type behind it. -/
structure Hidden (old new : Decl) (x y : Body) (home : Package) (scope : List Package) :
    Prop where
  appends : Appends x y
  grows : ∃ m ∈ y.members, x.Fresh m.name
  readable : ∀ m ∈ y.members, x.Fresh m.name →
    readable old.kind new.kind m.name home scope = true
  visible : old.visibility = new.visibility ∨
    old.visibility = VISIBILITY_INTERNAL ∧ new.visibility = VISIBILITY_PUBLIC
  retyped : ∃ m ∈ x.members, m ∉ y.members

/-! ### The append rule -/

section Slots

variable {x y : Body}

variable {body : Body}

theorem Body.mem_slots {entry : String × Int} :
    entry ∈ body.slots ↔ ∃ m ∈ body.members, (m.name, m.slot) = entry := List.mem_map

theorem Body.fresh_iff {name : String} :
    body.Fresh name ↔ (body.slots.map Prod.fst).contains name = false := by
  rw [List.contains_eq_mem, decide_eq_false_iff_not]
  simp only [Body.Fresh, Body.slots, List.map_map, List.mem_map, Function.comp_apply, not_exists,
    not_and]

theorem slots_snd (body : Body) : body.slots.map Prod.snd = body.members.map Member.slot := by
  simp only [Body.slots, List.map_map]
  rfl

theorem slots_fst (body : Body) : body.slots.map Prod.fst = body.members.map Member.name := by
  simp only [Body.slots, List.map_map]
  rfl

theorem find_slots (hnames : (body.members.map Member.name).Nodup) {m : Member}
    (hm : m ∈ body.members) :
    body.slots.find? (fun entry => entry.1 == m.name) = some (m.name, m.slot) :=
  (find?_key_iff ((slots_fst body).symm ▸ hnames)).mpr ⟨Body.mem_slots.mpr ⟨m, hm, rfl⟩, rfl⟩

theorem isAboveHighWater_iff (slot : Int) (held : List Int) :
    isAboveHighWater slot held = true ↔ ∀ other ∈ held, other < slot := by
  unfold isAboveHighWater
  rcases hmax : held.max? with _ | mark
  · rw [List.max?_eq_none_iff] at hmax
    subst hmax
    simp only [Option.all_none, List.not_mem_nil, false_imp_iff, implies_true]
  · rw [List.max?_eq_some_iff] at hmax
    simp only [Option.all_some, decide_eq_true_eq]
    exact ⟨fun h other hmem => Int.lt_of_le_of_lt (hmax.2 other hmem) h,
      fun h => h mark hmax.1⟩

theorem appendedSlot_spec (hnames : (y.members.map Member.name).Nodup) :
    appendedSlot x.slots x.retired y.slots = true ↔ Appends x y := by
  unfold appendedSlot
  rw [Bool.and_eq_true, List.all_eq_true, List.all_eq_true, slots_snd]
  constructor
  · rintro ⟨hkept, habove⟩
    refine ⟨fun m hm => ?_, fun m hm hfresh => ?_⟩
    · have hfound := hkept (m.name, m.slot) (Body.mem_slots.mpr ⟨m, hm, rfl⟩)
      rcases (Option.any_eq_true _ _).mp hfound with ⟨entry, hentry, hslot⟩
      rcases (find?_key_iff ((slots_fst y).symm ▸ hnames)).mp hentry with ⟨hmem, hname⟩
      rcases Body.mem_slots.mp hmem with ⟨n, hn, rfl⟩
      exact ⟨n, hn, hname, eq_of_beq hslot⟩
    · have h := habove (m.name, m.slot) (Body.mem_slots.mpr ⟨m, hm, rfl⟩)
      rw [Body.fresh_iff.mp hfresh, Bool.false_or] at h
      exact (isAboveHighWater_iff _ _).mp h
  · rintro ⟨hkept, habove⟩
    refine ⟨fun entry hentry => ?_, fun entry hentry => ?_⟩
    · rcases Body.mem_slots.mp hentry with ⟨m, hm, rfl⟩
      rcases hkept m hm with ⟨n, hn, hname, hslot⟩
      rw [← hname, find_slots hnames hn, Option.any_some, beq_iff_eq]
      exact hslot
    · rcases Body.mem_slots.mp hentry with ⟨m, hm, rfl⟩
      rcases hold : (x.slots.map Prod.fst).contains m.name with _ | _
      · rw [Bool.false_or]
        exact (isAboveHighWater_iff _ _).mpr (habove m hm (Body.fresh_iff.mpr hold))
      · exact Bool.true_or _

end Slots

/-! ### Paths and lookups -/

/-- A package whose declarations have names of their own, which are identifiers,
    as the package's name is. -/
structure Package.Named (package : Package) : Prop where
  plain : '/' ∉ package.name.toList
  decls : ∀ decl ∈ package.decls, '/' ∉ decl.name.toList
  distinct : (package.decls.map Decl.name).Nodup

theorem findDecl_eq {package : Package} (hnamed : package.Named) {decl : Decl}
    (hmem : decl ∈ package.decls) : findDecl package decl.name = some decl :=
  find?_key hnamed.distinct hmem

/-- Two declarations of one name, each of a package whose names are in order. -/
structure Paired (old new : Package) (a b : Decl) : Prop where
  oldNamed : old.Named
  newNamed : new.Named
  was : a ∈ old.decls
  now : b ∈ new.decls
  name : a.name = b.name

section Verdicts

variable {old new : Package} {a b : Decl} (h : Paired old new a b) (scope : List Package)
include h

theorem Paired.find : findDecl old b.name = some a ∧ findDecl new b.name = some b :=
  ⟨h.name ▸ findDecl_eq h.oldNamed h.was, findDecl_eq h.newNamed h.now⟩

theorem Paired.segments : segments (new.name ++ "/" ++ b.name) = [new.name, b.name] :=
  segments_decl h.newNamed.plain (h.newNamed.decls b h.now)

theorem Paired.segments_member {member : String} (hm : '/' ∉ member.toList) :
    Diff.segments (new.name ++ "/" ++ b.name ++ "/" ++ member) = [new.name, b.name, member] :=
  Diff.segments_member h.newNamed.plain (h.newNamed.decls b h.now) hm

theorem Paired.added {member : String} (hm : '/' ∉ member.toList) :
    classifyScoped ⟨new.name ++ "/" ++ b.name ++ "/" ++ member, .declAdded⟩ old new scope =
      if appendedMember a.kind b.kind member new scope then .compatible else .breaking := by
  simp only [classifyScoped, Diff.added, memberPath,
    h.segments_member hm, List.drop_succ_cons, List.drop_zero,
    h.find.1, h.find.2]

theorem Paired.visibility :
    classifyScoped ⟨new.name ++ "/" ++ b.name, .visibilityChanged⟩ old new scope =
      if a.visibility = VISIBILITY_INTERNAL ∧ b.visibility = VISIBILITY_PUBLIC then .compatible
      else .breaking := by
  simp only [classifyScoped, Diff.visibility, findVisibility, h.segments, List.drop_succ_cons,
    List.drop_zero, h.find.1, h.find.2]

theorem Paired.constraint {x : Body} (hx : bodyOf a.kind = some x) :
    classifyScoped ⟨new.name ++ "/" ++ b.name, .constraintChanged⟩ old new scope = .breaking := by
  simp only [classifyScoped, Diff.constraint, h.segments, List.drop_succ_cons, List.drop_zero,
    h.find.1, h.find.2, Option.bind_some]
  split
  · next htype _ =>
      rw [htype] at hx
      cases hx
  · rfl

end Verdicts

/-! ### Two bodies -/

section Composite

variable {V : Change → Verdict} {path : String} {old new : List (String × Int)} {differs : Bool}

theorem diffComposite_quiet (hremoved : ∀ path, V ⟨path, .declRemoved⟩ = .breaking)
    (hmoved : ∀ path, V ⟨path, .memberReordered⟩ = .breaking)
    (hplace : V ⟨path, .constraintChanged⟩ = .breaking)
    (hquiet : ∀ change ∈ diffComposite path old new differs, V change = .compatible) :
    (∃ m ∈ new, (old.map Prod.fst).contains m.1 = false) ∧
      ∀ m ∈ new, (old.map Prod.fst).contains m.1 = false →
        V ⟨path ++ "/" ++ m.1, .declAdded⟩ = .compatible := by
  -- A category that breaks by itself is not among the changes.
  have hnot (change : Change) (hbreaks : V change = .breaking) :
      change ∉ diffComposite path old new differs := by
    intro hmem
    have hcompat := hquiet _ hmem
    rw [hbreaks] at hcompat
    cases hcompat
  unfold diffComposite at hquiet hnot
  rcases hstructural : otherMembers path .declAdded old new ++
    otherMembers path .declRemoved new old with _ | ⟨change, rest⟩
  · -- The names are the same: a member moved, or the body differs in place.
    exfalso
    simp only [hstructural, List.isEmpty_nil, if_true] at hnot
    rcases hmoves : movedMembers path old new with _ | ⟨change, rest⟩
    · refine hnot _ hplace (List.mem_append_right _ ?_)
      rw [hmoves]
      exact List.mem_singleton_self _
    · have hmem : change ∈ movedMembers path old new := hmoves ▸ List.mem_cons_self
      rcases List.mem_flatMap.mp hmem with ⟨m, -, hm⟩
      rcases (mem_emit _ _ _ _).mp hm with ⟨-, rfl⟩
      exact hnot _ (hmoved _) (List.mem_append_left _ hmem)
  · simp only [hstructural, List.isEmpty_cons, Bool.false_eq_true, if_false] at hquiet hnot
    rw [← hstructural] at hquiet hnot
    refine ⟨?_, fun m hm hfresh =>
      hquiet _ (List.mem_append_left _ (mem_otherMembers.mpr ⟨m, hm, hfresh, rfl⟩))⟩
    have hmem : change ∈ otherMembers path .declAdded old new ++
      otherMembers path .declRemoved new old := hstructural ▸ List.mem_cons_self
    rcases List.mem_append.mp hmem with hadd | hremove
    · rcases mem_otherMembers.mp hadd with ⟨m, hm, hfresh, -⟩
      exact ⟨m, hm, hfresh⟩
    · rcases mem_otherMembers.mp hremove with ⟨m, -, -, rfl⟩
      exact absurd hmem (hnot _ (hremoved _))

/-- Where no member is gone and one is new, the additions are all that is
    reported. -/
theorem mem_diffComposite_of_kept
    (hkept : ∀ m ∈ old, (new.map Prod.fst).contains m.1 = true)
    (hgrows : ∃ m ∈ new, (old.map Prod.fst).contains m.1 = false) {change : Change}
    (hmem : change ∈ diffComposite path old new differs) :
    ∃ m ∈ new, (old.map Prod.fst).contains m.1 = false ∧
      change = ⟨path ++ "/" ++ m.1, .declAdded⟩ := by
  have hnone : otherMembers path .declRemoved new old = [] :=
    List.flatMap_eq_nil_iff.mpr (fun m hm => by rw [hkept m hm]; rfl)
  rcases hgrows with ⟨m, hm, hfresh⟩
  have hsome : ⟨path ++ "/" ++ m.1, .declAdded⟩ ∈ otherMembers path .declAdded old new :=
    mem_otherMembers.mpr ⟨m, hm, hfresh, rfl⟩
  unfold diffComposite at hmem
  rw [hnone, List.append_nil, if_neg (fun h => List.ne_nil_of_mem hsome (List.isEmpty_iff.mp h))]
    at hmem
  exact mem_otherMembers.mp hmem

end Composite

/-! ### The bodies of two kinds -/

/-- The two bodies have the same members and retired slots, in whichever order. -/
structure Body.Same (x y : Body) : Prop where
  members : ∀ m, m ∈ x.members ↔ m ∈ y.members
  retired : ∀ slot, slot ∈ x.retired ↔ slot ∈ y.retired

theorem Body.same_of_perm {x y : Body} (hmembers : x.members.Perm y.members)
    (hretired : x.retired.Perm y.retired) : x.Same y :=
  ⟨fun _ => hmembers.mem_iff, fun _ => hretired.mem_iff⟩

variable {k l : Option Kind}

theorem bodyOf_cases {x : Body} (hx : bodyOf k = some x) :
    (∃ d, k = some (.structDef d) ∧ x = ⟨d.members.filterMap structMember, structReserved d⟩) ∨
    (∃ d, k = some (.enumDef d) ∧ x = ⟨d.values.map valueMember, reservedValues d.reserved⟩) ∨
    (∃ d, k = some (.enumSetDef d) ∧ x = ⟨d.bits.map valueMember, []⟩) ∨
    (∃ d, k = some (.unionDef d) ∧ x = ⟨d.arms.map armMember, unionReserved d⟩) := by
  unfold bodyOf at hx
  split at hx
  · next d => exact .inl ⟨d, rfl, (Option.some.inj hx).symm⟩
  · next d => exact .inr (.inl ⟨d, rfl, (Option.some.inj hx).symm⟩)
  · next d => exact .inr (.inr (.inl ⟨d, rfl, (Option.some.inj hx).symm⟩))
  · next d => exact .inr (.inr (.inr ⟨d, rfl, (Option.some.inj hx).symm⟩))
  · cases hx

theorem structSlots_eq (d : StructDef) (retired : List Int) :
    structSlots d = (Body.mk (d.members.filterMap structMember) retired).slots := by
  simp only [structSlots, Body.slots, List.map_filterMap]
  refine List.filterMap_congr (fun member _ => ?_)
  rcases member with _ | field | reserved <;> rfl

theorem valueSlots_eq (values : List EnumValue) (retired : List Int) :
    valueSlots values = (Body.mk (values.map valueMember) retired).slots := by
  simp only [valueSlots, Body.slots, List.map_map]
  rfl

theorem unionSlots_eq (d : UnionDef) (retired : List Int) :
    unionSlots d = (Body.mk (d.arms.map armMember) retired).slots := by
  simp only [unionSlots, Body.slots, List.map_map]
  rfl

theorem bodyOf_withoutMemberDocs (k : Option Kind) : bodyOf (withoutMemberDocs k) = bodyOf k := by
  unfold withoutMemberDocs
  split
  · next d =>
      simp only [bodyOf, structReserved, List.filterMap_map, Option.some.injEq, Body.mk.injEq]
      constructor <;>
      · refine List.filterMap_congr (fun member _ => ?_)
        rcases member with _ | field | reserved <;> rfl
  · simp only [bodyOf, List.map_map]
    rfl
  · simp only [bodyOf, List.map_map]
    rfl
  · simp only [bodyOf, List.map_map]
    rfl
  · rfl
  · rfl
  · rfl

/-- Two declarations with bodies: of one kind, or of two, and then the walk and
    the rule for an addition say no more than that. -/
inductive BodyPair : Option Kind → Option Kind → Body → Body → Prop
  | structs (a b : StructDef) :
      BodyPair (some (.structDef a)) (some (.structDef b))
        ⟨a.members.filterMap structMember, structReserved a⟩
        ⟨b.members.filterMap structMember, structReserved b⟩
  | enums (a b : EnumDef) :
      BodyPair (some (.enumDef a)) (some (.enumDef b))
        ⟨a.values.map valueMember, reservedValues a.reserved⟩
        ⟨b.values.map valueMember, reservedValues b.reserved⟩
  | enumSets (a b : EnumSetDef) :
      BodyPair (some (.enumSetDef a)) (some (.enumSetDef b)) ⟨a.bits.map valueMember, []⟩
        ⟨b.bits.map valueMember, []⟩
  | unions (a b : UnionDef) :
      BodyPair (some (.unionDef a)) (some (.unionDef b)) ⟨a.arms.map armMember, unionReserved a⟩
        ⟨b.arms.map armMember, unionReserved b⟩
  | clash (k l : Option Kind) (x y : Body)
      (hdiff : ∀ path, diffBody path k l = [⟨path, .kindChanged⟩])
      (hadded : ∀ member home scope, appendedMember k l member home scope = false)
      (hreadable : ∀ member home scope, readable k l member home scope = false) :
      BodyPair k l x y

theorem bodyPair {x y : Body} (hx : bodyOf k = some x)
    (hy : bodyOf l = some y) : BodyPair k l x y := by
  rcases bodyOf_cases hx with ⟨a, rfl, rfl⟩ | ⟨a, rfl, rfl⟩ | ⟨a, rfl, rfl⟩ | ⟨a, rfl, rfl⟩ <;>
  rcases bodyOf_cases hy with ⟨b, rfl, rfl⟩ | ⟨b, rfl, rfl⟩ | ⟨b, rfl, rfl⟩ | ⟨b, rfl, rfl⟩ <;>
  first
    | exact .structs a b
    | exact .enums a b
    | exact .enumSets a b
    | exact .unions a b
    | exact .clash _ _ _ _ (fun _ => rfl) (fun _ _ _ => rfl) (fun _ _ _ => rfl)

/-- The rule for a new member: the body appends, and readers accept it. -/
theorem appendedMember_iff {x y : Body} (hpair : BodyPair k l x y)
    (hnames : (y.members.map Member.name).Nodup) (member : String) (home : Package)
    (scope : List Package) :
    appendedMember k l member home scope = true ↔
      Appends x y ∧ readable k l member home scope = true := by
  cases hpair with
  | structs a b =>
      rw [← appendedSlot_spec hnames, ← structSlots_eq, ← structSlots_eq]
      exact Bool.and_eq_true_iff
  | enums a b =>
      rw [← appendedSlot_spec hnames, ← valueSlots_eq, ← valueSlots_eq, and_comm]
      exact Bool.and_eq_true_iff
  | enumSets a b =>
      rw [← appendedSlot_spec hnames, ← valueSlots_eq, ← valueSlots_eq, and_comm]
      exact Bool.and_eq_true_iff
  | unions a b =>
      rw [← appendedSlot_spec hnames, ← unionSlots_eq, ← unionSlots_eq, and_comm]
      exact Bool.and_eq_true_iff
  | clash _ _ _ _ _ hadded hreadable =>
      simp only [hadded, hreadable, Bool.false_eq_true, and_false]

theorem perm_of_sorted {α : Type} {r : α → α → Prop} [DecidableRel r] {l l' : List α}
    (h : l.insertionSort r = l'.insertionSort r) : l.Perm l' :=
  (List.perm_insertionSort r l).symm.trans (h ▸ List.perm_insertionSort r l')

/-- A comparison of two kinds, of which nothing is breaking, found the same
    bodies, or an addition, and then each addition is compatible. -/
theorem diffBody_quiet {V : Change → Verdict} {path : String} {x y : Body}
    (hpair : BodyPair k l x y) (hremoved : ∀ path, V ⟨path, .declRemoved⟩ = .breaking)
    (hmoved : ∀ path, V ⟨path, .memberReordered⟩ = .breaking)
    (hkind : ∀ path, V ⟨path, .kindChanged⟩ = .breaking)
    (hplace : V ⟨path, .constraintChanged⟩ = .breaking)
    (hquiet : ∀ change ∈ diffBody path k l, V change = .compatible) :
    x.Same y ∨ (∃ m ∈ y.members, x.Fresh m.name) ∧
      ∀ m ∈ y.members, x.Fresh m.name → V ⟨path ++ "/" ++ m.name, .declAdded⟩ = .compatible := by
  have hgrows {differs : Bool}
      (hcomposite : ∀ change ∈ diffComposite path x.slots y.slots differs,
        V change = .compatible) :
      (∃ m ∈ y.members, x.Fresh m.name) ∧ ∀ m ∈ y.members, x.Fresh m.name →
        V ⟨path ++ "/" ++ m.name, .declAdded⟩ = .compatible := by
    rcases diffComposite_quiet hremoved hmoved hplace hcomposite with ⟨⟨entry, hmem, hnew⟩, hall⟩
    rcases Body.mem_slots.mp hmem with ⟨m, hm, rfl⟩
    exact ⟨⟨m, hm, Body.fresh_iff.mpr hnew⟩, fun m hm hfresh =>
      hall (m.name, m.slot) (Body.mem_slots.mpr ⟨m, hm, rfl⟩) (Body.fresh_iff.mp hfresh)⟩
  cases hpair with
  | structs a b =>
      simp only [diffBody, diffStructDef] at hquiet
      by_cases hsame : a = b
      · exact .inl (Body.same_of_perm (hsame ▸ .refl _) (hsame ▸ .refl _))
      · rw [if_neg hsame, structSlots_eq a, structSlots_eq b] at hquiet
        exact .inr (hgrows hquiet)
  | enums a b =>
      have hbody := fun change hmem => hquiet change (List.mem_append_right _ hmem)
      unfold diffEnumDef at hbody
      by_cases hsame : { a with isOpen := false } = { b with isOpen := false }
      · injection hsame with hvalues hreserved
        exact .inl (Body.same_of_perm (hvalues ▸ .refl _) (hreserved ▸ .refl _))
      rw [if_neg hsame] at hbody
      by_cases hsorted :
          enumIgnoringOrder { a with isOpen := false } = enumIgnoringOrder { b with isOpen := false }
      · have hvalues : a.values.Perm b.values :=
          perm_of_sorted (congrArg EnumDef.values hsorted)
        have hreserved : a.reserved.Perm b.reserved :=
          perm_of_sorted (congrArg EnumDef.reserved hsorted)
        exact .inl (Body.same_of_perm (hvalues.map _) (hreserved.filterMap _))
      · rw [if_neg hsorted, valueSlots_eq a.values (reservedValues a.reserved),
          valueSlots_eq b.values (reservedValues b.reserved)] at hbody
        exact .inr (hgrows hbody)
  | enumSets a b =>
      have hbody := fun change hmem => hquiet change (List.mem_append_right _ hmem)
      unfold diffEnumSetDef at hbody
      by_cases hsame : { a with isOpen := false } = { b with isOpen := false }
      · injection hsame with _ hbits
        exact .inl (Body.same_of_perm (hbits ▸ .refl _) (.refl _))
      rw [if_neg hsame] at hbody
      by_cases hsorted : enumSetIgnoringOrder { a with isOpen := false } =
          enumSetIgnoringOrder { b with isOpen := false }
      · have hbits : a.bits.Perm b.bits := perm_of_sorted (congrArg EnumSetDef.bits hsorted)
        exact .inl (Body.same_of_perm (hbits.map _) (.refl _))
      · rw [if_neg hsorted, valueSlots_eq a.bits [], valueSlots_eq b.bits []] at hbody
        exact .inr (hgrows hbody)
  | unions a b =>
      simp only [diffBody, diffUnionDef] at hquiet
      by_cases hsame : a = b
      · exact .inl (Body.same_of_perm (hsame ▸ .refl _) (hsame ▸ .refl _))
      · rw [if_neg hsame, unionSlots_eq a, unionSlots_eq b] at hquiet
        exact .inr (hgrows hquiet)
  | clash _ _ _ _ hdiff =>
      rw [hdiff] at hquiet
      have hcompat := hquiet _ (List.mem_singleton_self _)
      rw [hkind] at hcompat
      cases hcompat

/-! ### Appends and protection -/

section Protection

variable {x y : Body}

theorem Body.Same.protected (h : x.Same y) (hy : y.WellFormed) : Protected x y := by
  refine ⟨fun m hm => (h.members m).mp hm, fun slot hslot m hm heq => ?_, fun m hm hfresh => ?_⟩
  · -- A slot is live or retired on the new side, and not both.
    refine (List.nodup_append.mp hy.slots).2.2 m.slot (List.mem_map_of_mem hm) slot
      ((h.retired slot).mp hslot) heq
  · exact absurd rfl (hfresh m ((h.members m).mpr hm))

theorem Appends.protected (h : Appends x y) (hx : x.WellFormed) (hy : y.WellFormed)
    (hkept : ∀ m ∈ x.members, m ∈ y.members) : Protected x y := by
  refine ⟨hkept, fun slot hslot m hm heq => ?_, h.above⟩
  by_cases hfresh : x.Fresh m.name
  · have habove := h.above m hm hfresh slot (List.mem_append_right _ hslot)
    omega
  · -- The member is an old one, whose slot the old side did not retire.
    unfold Body.Fresh at hfresh
    push Not at hfresh
    rcases hfresh with ⟨o, ho, hname⟩
    have hsame : o = m := eq_of_key_eq hy.names (hkept o ho) hm hname
    exact (List.nodup_append.mp hx.slots).2.2 m.slot (List.mem_map_of_mem (hsame ▸ ho)) slot
      hslot heq

/-- A member of another type is a field or an arm, behind an append. -/
theorem BodyPair.retyped {k l : Option Kind} (hpair : BodyPair k l x y) (h : Appends x y)
    {m : Member} (hm : m ∈ x.members) (hgone : m ∉ y.members)
    (hreadable : ∃ member home scope, readable k l member home scope = true) :
    (∃ a b, k = some (.structDef a) ∧ l = some (.structDef b)) ∨
      ∃ a b, k = some (.unionDef a) ∧ l = some (.unionDef b) := by
  rcases h.kept m hm with ⟨n, hn, hname, hslot⟩
  -- Values have no type, so one of the same name and number is the same.
  have hvalue (olds news : List EnumValue) (hm : m ∈ olds.map valueMember)
      (hn : n ∈ news.map valueMember) : m = n := by
    rcases List.mem_map.mp hm with ⟨v, -, rfl⟩
    rcases List.mem_map.mp hn with ⟨w, -, rfl⟩
    exact Member.mk.injEq .. ▸ ⟨hname.symm, hslot.symm, rfl⟩
  cases hpair with
  | structs a b => exact .inl ⟨a, b, rfl, rfl⟩
  | enums a b => exact absurd (hvalue _ _ hm hn ▸ hn) hgone
  | enumSets a b => exact absurd (hvalue _ _ hm hn ▸ hn) hgone
  | unions a b => exact .inr ⟨a, b, rfl, rfl⟩
  | clash _ _ _ _ _ _ hnone =>
      rcases hreadable with ⟨member, home, scope, htrue⟩
      rw [hnone] at htrue
      cases htrue

/-- Of two structs, or two unions, that append, only the additions are
    reported. -/
theorem mem_diffBody_of_appends {k l : Option Kind} {path : String} (hx : bodyOf k = some x)
    (hy : bodyOf l = some y) (h : Appends x y) (hgrows : ∃ m ∈ y.members, x.Fresh m.name)
    (hkinds : (∃ a b, k = some (.structDef a) ∧ l = some (.structDef b)) ∨
      ∃ a b, k = some (.unionDef a) ∧ l = some (.unionDef b)) {change : Change}
    (hmem : change ∈ diffBody path k l) :
    ∃ m ∈ y.members, x.Fresh m.name ∧ change = ⟨path ++ "/" ++ m.name, .declAdded⟩ := by
  have hdiffer : x ≠ y := by
    rintro rfl
    rcases hgrows with ⟨m, hm, hfresh⟩
    exact hfresh m hm rfl
  have hcomposite {differs : Bool} (hmem : change ∈ diffComposite path x.slots y.slots differs) :
      ∃ m ∈ y.members, x.Fresh m.name ∧ change = ⟨path ++ "/" ++ m.name, .declAdded⟩ := by
    rcases hgrows with ⟨n, hn, hfresh⟩
    have hkept : ∀ entry ∈ x.slots, (y.slots.map Prod.fst).contains entry.1 = true := by
      intro entry hentry
      rcases Body.mem_slots.mp hentry with ⟨m, hm, rfl⟩
      rcases h.kept m hm with ⟨n, hn, hname, -⟩
      exact List.contains_iff_mem.mpr
        (List.mem_map.mpr ⟨_, Body.mem_slots.mpr ⟨n, hn, rfl⟩, hname⟩)
    rcases mem_diffComposite_of_kept hkept
      ⟨(n.name, n.slot), Body.mem_slots.mpr ⟨n, hn, rfl⟩, Body.fresh_iff.mp hfresh⟩ hmem
      with ⟨entry, hentry, hnew, rfl⟩
    rcases Body.mem_slots.mp hentry with ⟨m, hm, rfl⟩
    exact ⟨m, hm, Body.fresh_iff.mpr hnew, rfl⟩
  rcases hkinds with ⟨a, b, rfl, rfl⟩ | ⟨a, b, rfl, rfl⟩
  · have hsame : a ≠ b := fun hab => hdiffer (Option.some.inj (hx.symm.trans (hab ▸ hy)))
    rcases Option.some.inj hx with rfl
    rcases Option.some.inj hy with rfl
    simp only [diffBody, diffStructDef, if_neg hsame] at hmem
    rw [structSlots_eq a, structSlots_eq b] at hmem
    exact hcomposite hmem
  · have hsame : a ≠ b := fun hab => hdiffer (Option.some.inj (hx.symm.trans (hab ▸ hy)))
    rcases Option.some.inj hx with rfl
    rcases Option.some.inj hy with rfl
    simp only [diffBody, diffUnionDef, if_neg hsame] at hmem
    rw [unionSlots_eq a, unionSlots_eq b] at hmem
    exact hcomposite hmem

end Protection

/-! ### The verdict on an edit of a body -/

section Edits

variable {old new : Package} {a b : Decl} {x y : Body} {scope : List Package}

theorem protected_of_compatible (h : Paired old new a b) (hx : bodyOf a.kind = some x)
    (hy : bodyOf b.kind = some y) (hxw : x.WellFormed) (hyw : y.WellFormed)
    (hopen : ¬ Hidden a b x y new scope)
    (hquiet : ∀ change ∈ declChanges old new a b,
      classifyScoped change old new scope = .compatible) : Protected x y := by
  have hpair := bodyPair hx hy
  -- A strict enum that was appended to is breaking, so nothing was folded.
  have hfold : declChanges old new a b = diffDecl new.name b.name a b :=
    fold_eq_of_not_mem (fun path hmem => absurd (hquiet _ hmem) (by
      simp only [classifyScoped, reduceCtorEq, not_false_eq_true]))
  rw [hfold] at hquiet
  have hbody := fun change hmem => hquiet change (List.mem_append_right _ hmem)
  have hdocs : BodyPair (withoutMemberDocs a.kind) (withoutMemberDocs b.kind) x y :=
    bodyPair ((bodyOf_withoutMemberDocs _).trans hx) ((bodyOf_withoutMemberDocs _).trans hy)
  rcases diffBody_quiet hdocs (fun _ => rfl) (fun _ => rfl) (fun _ => rfl)
    (h.constraint scope hx) hbody with hsame | ⟨⟨m, hm, hfresh⟩, hall⟩
  · exact hsame.protected hyw
  · -- Each new member was found compatible, which is the append rule.
    have hadded : ∀ m ∈ y.members, x.Fresh m.name →
        Appends x y ∧ readable a.kind b.kind m.name new scope = true := by
      intro m hm hfresh
      have hverdict := hall m hm hfresh
      rw [h.added scope (hyw.plain m hm)] at hverdict
      refine (appendedMember_iff hpair hyw.names _ _ _).mp ?_
      by_contra hnot
      rw [if_neg hnot] at hverdict
      cases hverdict
    have happends := (hadded m hm hfresh).1
    refine happends.protected hxw hyw (fun m hm => ?_)
    by_contra hgone
    refine hopen ⟨happends, ⟨_, ‹_›, hfresh⟩, fun m hm hfresh => (hadded m hm hfresh).2, ?_,
      ⟨m, hm, hgone⟩⟩
    by_contra hvisible
    rw [not_or] at hvisible
    have hchange : ⟨new.name ++ "/" ++ b.name, .visibilityChanged⟩ ∈ diffDecl new.name b.name a b :=
      List.mem_append_left _ (List.mem_append_right _
        ((mem_emit _ _ _ _).mpr ⟨decide_eq_true hvisible.1, rfl⟩))
    have hverdict := hquiet _ hchange
    rw [h.visibility scope, if_neg hvisible.2] at hverdict
    cases hverdict

/-- A hidden edit is compatible throughout. -/
theorem compatible_of_hidden (h : Paired old new a b) (hx : bodyOf a.kind = some x)
    (hy : bodyOf b.kind = some y) (hyw : y.WellFormed) (hhidden : Hidden a b x y new scope) :
    ∀ change ∈ declChanges old new a b, classifyScoped change old new scope = .compatible := by
  have hpair := bodyPair hx hy
  rcases hhidden.retyped with ⟨m, hm, hgone⟩
  rcases hhidden.grows with ⟨n, hn, hfresh⟩
  have hkinds := hpair.retyped hhidden.appends hm hgone
    ⟨_, _, _, hhidden.readable n hn hfresh⟩
  have hbody {change : Change} (hmem : change ∈ diffBody (new.name ++ "/" ++ b.name)
      (withoutMemberDocs a.kind) (withoutMemberDocs b.kind)) :
      ∃ m ∈ y.members, x.Fresh m.name ∧
        change = ⟨new.name ++ "/" ++ b.name ++ "/" ++ m.name, .declAdded⟩ := by
    refine mem_diffBody_of_appends ((bodyOf_withoutMemberDocs _).trans hx)
      ((bodyOf_withoutMemberDocs _).trans hy) hhidden.appends hhidden.grows ?_ hmem
    rcases hkinds with ⟨a', b', ha, hb⟩ | ⟨a', b', ha, hb⟩
    · rw [ha, hb]
      exact .inl ⟨_, _, rfl, rfl⟩
    · rw [ha, hb]
      exact .inr ⟨_, _, rfl, rfl⟩
  have hcases {change : Change} (hmem : change ∈ diffDecl new.name b.name a b) :
      change = ⟨new.name ++ "/" ++ b.name, .docOnly⟩ ∨
      (a.visibility ≠ b.visibility ∧
        change = ⟨new.name ++ "/" ++ b.name, .visibilityChanged⟩) ∨
      ∃ m ∈ y.members, x.Fresh m.name ∧
        change = ⟨new.name ++ "/" ++ b.name ++ "/" ++ m.name, .declAdded⟩ := by
    unfold diffDecl at hmem
    rcases List.mem_append.mp hmem with hmem | hmem
    · rcases List.mem_append.mp hmem with hmem | hmem
      · exact .inl ((mem_emit _ _ _ _).mp hmem).2
      · rcases (mem_emit _ _ _ _).mp hmem with ⟨hdiffers, hchange⟩
        exact .inr (.inl ⟨of_decide_eq_true hdiffers, hchange⟩)
    · exact .inr (.inr (hbody hmem))
  -- Neither a struct nor a union is a strict enum, so nothing is folded.
  have hfold : declChanges old new a b = diffDecl new.name b.name a b := by
    refine fold_eq_of_none (fun change hmem => ?_)
    rcases hcases hmem with rfl | ⟨-, rfl⟩ | ⟨m, hm, -, rfl⟩
    · rfl
    · rfl
    · simp only [strictMember, h.segments_member (hyw.plain m hm), h.find.1, h.find.2,
        ne_eq, not_true_eq_false, if_false]
      rcases hkinds with ⟨a', b', ha, hb⟩ | ⟨a', b', ha, hb⟩ <;>
        simp only [isStrictEnumAppend, ha, hb, Bool.false_eq_true, if_false]
  rw [hfold]
  intro change hmem
  rcases hcases hmem with rfl | ⟨hdiffers, rfl⟩ | ⟨m, hm, hnew, rfl⟩
  · rfl
  · rw [h.visibility scope, if_pos (hhidden.visible.resolve_left hdiffers)]
  · rw [h.added scope (hyw.plain m hm), if_pos]
    exact (appendedMember_iff hpair hyw.names _ _ _).mpr
      ⟨hhidden.appends, hhidden.readable m hm hnew⟩

/-- A report of compatible changes protects the old members, unless an append
    hides that one was retyped. -/
theorem append_protects (old new : Package) (scope : List Package) (a b : Decl) (x y : Body)
    (h : Paired old new a b) (hx : bodyOf a.kind = some x) (hy : bodyOf b.kind = some y)
    (hxw : x.WellFormed) (hyw : y.WellFormed) :
    ((∀ change ∈ declChanges old new a b, classifyScoped change old new scope = .compatible) →
      Protected x y) ↔ ¬ Hidden a b x y new scope := by
  constructor
  · intro hprotects hhidden
    rcases hhidden.retyped with ⟨m, hm, hgone⟩
    exact hgone ((hprotects (compatible_of_hidden h hx hy hyw hhidden)).kept m hm)
  · exact protected_of_compatible h hx hy hxw hyw

end Edits

/-! ### A member retyped behind an append -/

def primitiveField (name : String) (ordinal : Nat) (isOptional : Bool) (primitive : Int) :
    Option StructMember :=
  some (.field
    { name := name, ordinal := ordinal, type := some (.mk isOptional (some (.primitive primitive)))
      declaredInit := none, init := none, docs := .empty })

def structOf (members : List (Option StructMember)) : Decl :=
  { name := "S", visibility := VISIBILITY_PUBLIC, ordinal := 0, docs := .empty
    kind := some (.structDef { members := members, fixedLayout := false }), limit := none }

/-- A package of one declaration. -/
def packageOf (decl : Decl) : Package :=
  { name := "p", decls := [decl], interfaces := [], services := [] }

def oneFlag : Decl := structOf [primitiveField "a" 1 false PRIMITIVE_BOOLEAN]

/-- An optional field is appended. -/
def grown : Decl :=
  structOf [primitiveField "a" 1 false PRIMITIVE_BOOLEAN,
    primitiveField "b" 2 true PRIMITIVE_BOOLEAN]

/-- An optional field is appended, and the first one is an integer now. -/
def regrown : Decl :=
  structOf [primitiveField "a" 1 false PRIMITIVE_INTEGER,
    primitiveField "b" 2 true PRIMITIVE_BOOLEAN]

def oneFlagBody : Body := ⟨[⟨"a", 1, .field (some (.mk false (some (.primitive 1))))⟩], []⟩

def grownBody : Body :=
  ⟨[⟨"a", 1, .field (some (.mk false (some (.primitive 1))))⟩,
    ⟨"b", 2, .field (some (.mk true (some (.primitive 1))))⟩], []⟩

def regrownBody : Body :=
  ⟨[⟨"a", 1, .field (some (.mk false (some (.primitive 2))))⟩,
    ⟨"b", 2, .field (some (.mk true (some (.primitive 1))))⟩], []⟩

theorem paired_structOf (before after : List (Option StructMember)) :
    Paired (packageOf (structOf before)) (packageOf (structOf after)) (structOf before)
      (structOf after) := by
  have hpackage : '/' ∉ "p".toList := by decide
  have hstruct : '/' ∉ "S".toList := by decide
  have hnamed (members : List (Option StructMember)) : (packageOf (structOf members)).Named :=
    ⟨hpackage, List.forall_mem_singleton.mpr hstruct, List.nodup_singleton _⟩
  exact ⟨hnamed _, hnamed _, List.mem_singleton_self _, List.mem_singleton_self _, rfl⟩

/-- An append that retypes nothing protects the old field. -/
theorem append_protects_grown : Protected oneFlagBody grownBody := by
  have hkept : ∀ m ∈ oneFlagBody.members, m ∈ grownBody.members := by decide
  refine (append_protects (packageOf oneFlag) (packageOf grown) [] oneFlag grown oneFlagBody
    grownBody (paired_structOf _ _) rfl rfl ⟨by decide, by decide, by decide⟩
    ⟨by decide, by decide, by decide⟩).mpr ?_ (by decide +kernel)
  intro hhidden
  rcases hhidden.retyped with ⟨m, hm, hgone⟩
  exact hgone (hkept m hm)

/-- A boolean becomes an integer in an edit that also appends a field, and the
    report has one change, which is compatible. -/
theorem retyped_behind_append :
    Paired (packageOf oneFlag) (packageOf regrown) oneFlag regrown ∧
      bodyOf oneFlag.kind = some oneFlagBody ∧ bodyOf regrown.kind = some regrownBody ∧
      oneFlagBody.WellFormed ∧ regrownBody.WellFormed ∧
      (∀ change ∈ declChanges (packageOf oneFlag) (packageOf regrown) oneFlag regrown,
        classifyScoped change (packageOf oneFlag) (packageOf regrown) [] = .compatible) ∧
      ¬ Protected oneFlagBody regrownBody := by
  refine ⟨paired_structOf _ _, rfl, rfl, ⟨by decide, by decide, by decide⟩,
    ⟨by decide, by decide, by decide⟩, by decide +kernel, fun hprotected => ?_⟩
  have hnot : ¬ ∀ m ∈ oneFlagBody.members, m ∈ regrownBody.members := by decide
  exact hnot hprotected.kept

end Diff

end Ridl
