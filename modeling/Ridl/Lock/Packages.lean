import Mathlib.Data.List.Perm.Basic
import Ridl.Lock.UnitNumbers

/-!
# The Packages of a Unit

What the packages of a unit hold once they are numbered.

The numbering changes the number of each shape and nothing else of it, so the keys of
the unit stay what they are and each shape shows the number of its key. A retired
entry goes on the package that it belonged to, or on the anchor where the unit has no
such package, so it is on exactly one. Only the anchor reports.

## Main definitions

* `unitShapes`: The shapes of a unit with their keys.

## Theorems

* `mapM_checkPackage`: Every package of a unit is numbered.
* `numbers_checkedIrs`: Each shape shows the number of its key.
* `provisionalShapes_checkedIrs`: Those without a live entry are provisional.
* `retired_checkedIrs`: Each retired entry is on one package.
* `diagnostics_checkedPackage`: Each live entry without a shape is reported once.
-/

namespace Ridl

namespace Lock

open Library
open Diff (Package Interface Service ServiceShape InterfaceShape RetiredInterface relativeName)
open TableKey (display)

variable {unit : String} {packages : List Package}

/-! ### The packages -/

theorem mapM_some {α β : Type} {f : α → Option β} {g : α → β} {list : List α}
    (h : ∀ a ∈ list, f a = some (g a)) : list.mapM f = some (list.map g) := by
  induction list with
  | nil => rfl
  | cons a list ih =>
      rw [List.mapM_cons, h a List.mem_cons_self, ih fun b hb => h b (List.mem_cons_of_mem _ hb)]
      rfl

def numbered (numbering : UnitNumbering) (key : LockKey) (iface : Interface) : Interface :=
  (number numbering key iface).getD iface

def numberedSlot (numbering : UnitNumbering) (key : LockKey) (slot : Option ServiceShape) :
    Option ServiceShape :=
  (numberSlot numbering key slot).getD slot

def keyed (package : Package) : List (LockKey × Interface) :=
  package.shapes.map fun shape => (shapeKey package shape, shape.iface)

/-- The body that a slot of a service holds. -/
def slotBody : Option ServiceShape → Option Interface
  | some (.inline iface) => some iface
  | _ => none

theorem keyed_eq (package : Package) : keyed package
    = (package.interfaces.map fun iface =>
        (.interface (relativeName (Diff.unitOf package) package.name iface.name).toList, iface)) ++
      package.services.flatMap fun service =>
        (service.shapes.filterMap slotBody).map fun iface =>
          (.service service.name.toList, iface) := by
  rw [keyed, Package.shapes, List.map_append, List.map_map, List.map_flatMap]
  congr 1
  refine List.flatMap_congr fun service _ => ?_
  rw [Service.inlineShapes, List.map_filterMap, List.map_filterMap]
  refine List.filterMap_congr fun slot _ => ?_
  rcases slot with _ | ref | iface <;> rfl

theorem keys_keyed (package : Package) :
    (keyed package).map Prod.fst = package.shapes.map (shapeKey package) := List.map_map

/-- What the numbering adds to a package. -/
def checkedPackage (unit : String) (lock : Option PackageLock) (packages : List Package)
    (package : Package) : CheckedPackage :=
  let numbering := numberUnit unit (lockOf lock) packages
  let carried := numbering.retired.filter fun entry =>
    carries unit numbering (packages.map Package.name) package.name entry.1
  { ir := { package with
      interfaces := package.interfaces.map fun iface =>
        numbered numbering (.interface (relativeName unit package.name iface.name).toList) iface
      services := package.services.map fun service =>
        { service with
          shapes := service.shapes.map (numberedSlot numbering (.service service.name.toList)) }
      retired := package.retired ++ carried.map fun (key, number) =>
        { name := String.ofList (display key), number := number } }
    diagnostics := lock.elim [] fun lock =>
      if numbering.anchor = package.name then
        numbering.orphans.map fun entry =>
          { message := orphanEntryMessage entry.key lock.unitDir numbering.anyProvisional
            range := entry.range }
      else [] }

def AllNumbered (numbering : UnitNumbering) (package : Package) : Prop :=
  ∀ entry ∈ keyed package, numbering.numbers[entry.1]?.isSome

theorem number_eq {numbering : UnitNumbering} {key : LockKey} (iface : Interface)
    (h : numbering.numbers[key]?.isSome) :
    number numbering key iface = some (numbered numbering key iface) := by
  unfold numbered number
  rcases Option.isSome_iff_exists.1 h with ⟨n, hn⟩
  rw [hn]
  rfl

theorem checkPackage_eq {lock : Option PackageLock} {package : Package}
    (hunit : Diff.unitOf package = unit)
    (hnumbered : AllNumbered (numberUnit unit (lockOf lock) packages) package) :
    checkPackage unit lock packages package = some (checkedPackage unit lock packages package) := by
  unfold AllNumbered at hnumbered
  rw [keyed_eq, hunit] at hnumbered
  rcases List.forall_mem_append.1 hnumbered with ⟨hinterfaces, hservices⟩
  have hinterface : ∀ iface ∈ package.interfaces,
      number (numberUnit unit (lockOf lock) packages)
          (.interface (relativeName unit package.name iface.name).toList) iface
        = some (numbered (numberUnit unit (lockOf lock) packages)
          (.interface (relativeName unit package.name iface.name).toList) iface) :=
    fun iface hiface => number_eq iface (hinterfaces _ (List.mem_map_of_mem hiface))
  have hslot : ∀ service ∈ package.services, ∀ slot ∈ service.shapes,
      numberSlot (numberUnit unit (lockOf lock) packages) (.service service.name.toList) slot
        = some (numberedSlot (numberUnit unit (lockOf lock) packages)
          (.service service.name.toList) slot) := by
    intro service hservice slot hslot
    unfold numberedSlot
    rcases slot with _ | ref | iface
    · rfl
    · rfl
    · have hmem : ((.service service.name.toList, iface) : LockKey × Interface)
          ∈ package.services.flatMap fun service =>
            (service.shapes.filterMap slotBody).map fun iface =>
              (.service service.name.toList, iface) :=
        List.mem_flatMap.2 ⟨service, hservice, List.mem_map.2
          ⟨iface, List.mem_filterMap.2 ⟨_, hslot, rfl⟩, rfl⟩⟩
      rw [numberSlot, number_eq iface (hservices _ hmem)]
      rfl
  have hservice : ∀ service ∈ package.services,
      numberService (numberUnit unit (lockOf lock) packages) service
        = some { service with
            shapes := service.shapes.map
              (numberedSlot (numberUnit unit (lockOf lock) packages)
                (.service service.name.toList)) } := by
    intro service hservice
    unfold numberService
    rw [mapM_some (hslot service hservice)]
    rfl
  unfold checkPackage
  simp only [mapM_some hinterface, mapM_some hservice]
  rfl

/-- The shapes have the keys that they had, and the numbers of these. -/
theorem keyed_checkedPackage {lock : Option PackageLock} {package : Package}
    (hunit : Diff.unitOf package = unit) :
    keyed (checkedPackage unit lock packages package).ir
      = (keyed package).map fun entry =>
          (entry.1, numbered (numberUnit unit (lockOf lock) packages) entry.1 entry.2) := by
  have hname : ∀ (numbering : UnitNumbering) (key : LockKey) (iface : Interface),
      (numbered numbering key iface).name = iface.name := by
    intro numbering key iface
    unfold numbered number
    cases numbering.numbers[key]? <;> rfl
  have hbody : ∀ (numbering : UnitNumbering) (key : LockKey) (slot : Option ServiceShape),
      slotBody (numberedSlot numbering key slot)
        = (slotBody slot).map (numbered numbering key) := by
    intro numbering key slot
    unfold numberedSlot
    rcases slot with _ | ref | iface
    · rfl
    · rfl
    · show slotBody (((number numbering key iface).map fun iface =>
        some (ServiceShape.inline iface)).getD (some (.inline iface)))
          = some ((number numbering key iface).getD iface)
      cases number numbering key iface <;> rfl
  have hunit' : Diff.unitOf (checkedPackage unit lock packages package).ir = unit := hunit
  rw [keyed_eq, keyed_eq, hunit', hunit, List.map_append, List.map_map, List.map_flatMap]
  unfold checkedPackage
  dsimp only
  rw [List.map_map, List.flatMap_map]
  congr 1
  · refine List.map_congr_left fun iface _ => ?_
    simp only [Function.comp_apply, hname]
  · refine List.flatMap_congr fun service _ => ?_
    simp only [List.filterMap_map, List.map_filterMap]
    refine List.filterMap_congr fun slot _ => ?_
    simp only [Function.comp_apply, hbody, Option.map_map]
    rfl

/-! ### The shapes of the unit -/

def unitShapes (packages : List Package) : List (LockKey × Interface) := packages.flatMap keyed

theorem map_unitShapes (packages : List Package) :
    (unitShapes packages).map Prod.fst = unitKeys packages := by
  rw [unitShapes, List.map_flatMap]
  exact List.flatMap_congr fun package _ => keys_keyed package

theorem provisionalShapes_eq (packages : List Package) : provisionalShapes packages
    = ((unitShapes packages).filter fun entry => entry.2.provisional).map fun entry =>
        (entry.2.number, entry.1) := by
  rw [unitShapes, List.filter_flatMap, List.map_flatMap]
  refine List.flatMap_congr fun package _ => ?_
  rw [keyed, List.filter_map, List.map_map]
  rfl

/-- The packages of a unit as they were checked. -/
def checkedIrs (unit : String) (lock : Option PackageLock) (packages : List Package) :
    List Package :=
  packages.map fun package => (checkedPackage unit lock packages package).ir

section Checked

variable {lock : Option PackageLock} (h : UnitPackages unit packages)

include h

theorem unitShapes_checkedIrs : unitShapes (checkedIrs unit lock packages)
    = (unitShapes packages).map fun entry =>
        (entry.1, numbered (numberUnit unit (lockOf lock) packages) entry.1 entry.2) := by
  rw [unitShapes, unitShapes, checkedIrs, List.flatMap_map, List.map_flatMap]
  exact List.flatMap_congr fun package hpackage =>
    keyed_checkedPackage (h.unitOf package hpackage)

theorem unitKeys_checkedIrs : unitKeys (checkedIrs unit lock packages) = unitKeys packages := by
  rw [← map_unitShapes, ← map_unitShapes, unitShapes_checkedIrs h, List.map_map]
  rfl

variable (hwf : (tableOf (lockOf lock)).WellFormed)

include hwf

theorem mapM_checkPackage : packages.mapM (checkPackage unit lock packages)
    = some (packages.map (checkedPackage unit lock packages)) := by
  refine mapM_some fun package hpackage => checkPackage_eq (h.unitOf package hpackage) ?_
  intro entry hentry
  have hkey : entry.1 ∈ unitKeys packages := by
    rw [← map_unitShapes]
    exact List.mem_map_of_mem (List.mem_flatMap.2 ⟨package, hpackage, hentry⟩)
  rcases exists_numbers h hwf hkey with ⟨n, hn⟩
  rw [hn]
  rfl

theorem numbers_checkedIrs {package : Package} (hpackage : package ∈ checkedIrs unit lock packages)
    {shape : InterfaceShape} (hshape : shape ∈ package.shapes) :
    (numberUnit unit (lockOf lock) packages).numbers[shapeKey package shape]?
      = some (shape.iface.number, shape.iface.provisional) := by
  have hmem : (shapeKey package shape, shape.iface) ∈ unitShapes (checkedIrs unit lock packages) :=
    List.mem_flatMap.2 ⟨package, hpackage, List.mem_map.2 ⟨shape, hshape, rfl⟩⟩
  rw [unitShapes_checkedIrs h] at hmem
  rcases List.mem_map.1 hmem with ⟨⟨key, iface⟩, hentry, heq⟩
  rcases Prod.mk.inj heq with ⟨hkey, hiface⟩
  have hunit : key ∈ unitKeys packages := map_unitShapes packages ▸ List.mem_map_of_mem hentry
  rcases exists_numbers h hwf hunit with ⟨n, hn⟩
  rw [← hkey, ← hiface, numbered, number, hn]
  rfl

theorem provisionalShapes_checkedIrs : provisionalShapes (checkedIrs unit lock packages)
    = ((unitKeys packages).filter (isNew (lockOf lock))).map fun key =>
        (((numberUnit unit (lockOf lock) packages).numbers[key]?.map Prod.fst).getD 0,
          key) := by
  have hentry : ∀ entry ∈ unitShapes packages, ∃ n,
      (numberUnit unit (lockOf lock) packages).numbers[entry.1]?
        = some (n, isNew (lockOf lock) entry.1) := by
    intro entry hentry
    exact exists_numbers h hwf (map_unitShapes packages ▸ List.mem_map_of_mem hentry)
  rw [provisionalShapes_eq, unitShapes_checkedIrs h, ← map_unitShapes packages, List.filter_map,
    List.map_map, List.filter_map, List.map_map]
  have hfilter : (unitShapes packages).filter ((fun entry => entry.2.provisional) ∘ fun entry =>
      (entry.1, numbered (numberUnit unit (lockOf lock) packages) entry.1 entry.2))
      = (unitShapes packages).filter (isNew (lockOf lock) ∘ Prod.fst) := by
    refine List.filter_congr fun entry hmem => ?_
    rcases hentry entry hmem with ⟨n, hn⟩
    simp only [Function.comp_apply, numbered, number, hn, Option.map_some, Option.getD_some]
  rw [hfilter]
  refine List.map_congr_left fun entry hmem => ?_
  rcases hentry entry (List.mem_of_mem_filter hmem) with ⟨n, hn⟩
  simp only [Function.comp_apply, numbered, number, hn, Option.map_some, Option.getD_some]

end Checked

/-! ### The anchor -/

theorem anchorOf_mem (unit : String) (hne : packages ≠ []) :
    anchorOf unit packages ∈ packages.map Package.name := by
  unfold anchorOf
  dsimp only
  cases hfind : (packages.map Package.name).find? (· = unit) with
  | some name => exact List.mem_of_find?_eq_some hfind
  | none =>
      have hne' : packages.map Package.name ≠ [] := fun hnil => hne (List.map_eq_nil_iff.1 hnil)
      rcases Option.isSome_iff_exists.1 (List.isSome_min?_of_ne_nil hne') with ⟨name, hname⟩
      rw [Option.none_or, hname]
      exact List.min?_mem hname

theorem find?_eq_self (names : List String) (unit : String) :
    names.find? (· = unit) = if unit ∈ names then some unit else none := by
  induction names with
  | nil => rfl
  | cons name names ih =>
      by_cases heq : name = unit
      · simp only [List.find?_cons, heq, decide_true, List.mem_cons_self, if_true]
      · simp only [List.find?_cons, heq, decide_false, ih]
        refine if_congr ?_ rfl rfl
        rw [List.mem_cons, or_iff_right (Ne.symm heq)]

theorem anchorOf_congr {packages' : List Package}
    (h : (packages.map Package.name).Perm (packages'.map Package.name)) :
    anchorOf unit packages = anchorOf unit packages' := by
  have hfind : (packages.map Package.name).find? (· = unit)
      = (packages'.map Package.name).find? (· = unit) := by
    rw [find?_eq_self, find?_eq_self]
    exact if_congr h.mem_iff rfl rfl
  have hmin : (packages.map Package.name).min? = (packages'.map Package.name).min? := by
    refine Option.ext fun name => ?_
    rw [List.min?_eq_some_iff, List.min?_eq_some_iff, h.mem_iff]
    exact and_congr_right fun _ => forall_congr' fun other => imp_congr_left h.mem_iff
  rw [anchorOf, anchorOf, hfind, hmin]

/-! ### What the packages carry -/

/-- Where each element of a list is picked by exactly one of several predicates, what these pick is
    the list. -/
theorem flatMap_filter_perm {α β : Type} {picks : α → β → Bool} {pickers : List α} {list : List β}
    (hsome : ∀ b ∈ list, ∃ a ∈ pickers, picks a b = true)
    (hone : ∀ b ∈ list, pickers.Pairwise fun a a' => ¬ (picks a b = true ∧ picks a' b = true)) :
    (pickers.flatMap fun a => list.filter (picks a)).Perm list := by
  induction pickers generalizing list with
  | nil =>
      cases list with
      | nil => exact List.Perm.refl _
      | cons b list =>
          rcases hsome b List.mem_cons_self with ⟨a, ha, -⟩
          cases ha
  | cons a pickers ih =>
      -- The others pick from what the first leaves.
      have hrest : (pickers.flatMap fun a' => list.filter (picks a'))
          = pickers.flatMap fun a' => (list.filter fun b => !picks a b).filter (picks a') := by
        refine List.flatMap_congr fun a' ha' => ?_
        rw [List.filter_filter]
        refine List.filter_congr fun b hb => ?_
        cases hpick' : picks a' b with
        | false => rfl
        | true =>
            have hnot := (List.pairwise_cons.1 (hone b hb)).1 a' ha'
            cases hpick : picks a b with
            | false => rfl
            | true => exact absurd ⟨hpick, hpick'⟩ hnot
      rw [List.flatMap_cons, hrest]
      refine (List.Perm.append_left _ (ih ?_ ?_)).trans (List.filter_append_perm _ _)
      · intro b hb
        rcases List.mem_filter.1 hb with ⟨hmem, hnot⟩
        rcases hsome b hmem with ⟨a', ha', hpick⟩
        rcases List.mem_cons.1 ha' with rfl | hin
        · rw [hpick] at hnot
          cases hnot
        · exact ⟨a', hin, hpick⟩
      · exact fun b hb => (List.pairwise_cons.1 (hone b (List.mem_of_mem_filter hb))).2

section Carried

variable (h : UnitPackages unit packages)

include h

theorem retired_checkedIrs (lock : Option PackageLock) :
    ((checkedIrs unit lock packages).flatMap Package.retired).Perm
    ((numberUnit unit (lockOf lock) packages).retired.map fun entry =>
      { name := String.ofList (display entry.1), number := entry.2 }) := by
  have hflat : (checkedIrs unit lock packages).flatMap Package.retired
      = (packages.flatMap fun package =>
          (numberUnit unit (lockOf lock) packages).retired.filter fun entry =>
            carries unit (numberUnit unit (lockOf lock) packages) (packages.map Package.name)
              package.name entry.1).map fun entry =>
        ({ name := String.ofList (display entry.1), number := entry.2 } : RetiredInterface) := by
    rw [checkedIrs, List.flatMap_map, List.map_flatMap]
    refine List.flatMap_congr fun package hpackage => ?_
    rw [checkedPackage, h.retired package hpackage]
    rfl
  rw [hflat]
  refine List.Perm.map _ (flatMap_filter_perm (fun entry _ => ?_) fun entry _ => ?_)
  · rcases List.mem_map.1 (anchorOf_mem unit h.ne_nil) with ⟨anchor, hanchor, hname⟩
    have hanchored : (numberUnit unit (lockOf lock) packages).anchor = anchor.name := hname.symm
    rcases entry with ⟨key, number⟩
    cases key with
    | service name => exact ⟨anchor, hanchor, decide_eq_true hanchored⟩
    | interface name =>
        by_cases hmem : ownerOf unit name ∈ packages.map Package.name
        · rcases List.mem_map.1 hmem with ⟨owner, howner, heq⟩
          refine ⟨owner, howner, ?_⟩
          simp only [carries, heq, decide_true, Bool.true_or]
        · refine ⟨anchor, hanchor, ?_⟩
          have hcontains : (packages.map Package.name).contains (ownerOf unit name) = false := by
            rw [List.contains_eq_mem]
            exact decide_eq_false hmem
          simp only [carries, hanchored, hcontains, decide_true, Bool.not_false, Bool.and_self,
            Bool.or_true]
  · refine List.Pairwise.imp_of_mem ?_ (List.pairwise_map.1 h.names)
    intro package other hpackage hother hne hboth
    rcases hboth with ⟨hcarries, hcarries'⟩
    rcases entry with ⟨key, number⟩
    have hin : ∀ {p : Package}, p ∈ packages →
        (packages.map Package.name).contains p.name = true := fun hp => by
      rw [List.contains_eq_mem]
      exact decide_eq_true (List.mem_map_of_mem hp)
    cases key with
    | service name =>
        exact hne ((of_decide_eq_true hcarries).symm.trans (of_decide_eq_true hcarries'))
    | interface name =>
        simp only [carries, Bool.or_eq_true, decide_eq_true_eq, Bool.and_eq_true,
          Bool.not_eq_true'] at hcarries hcarries'
        rcases hcarries with heq | ⟨hanchor, hnot⟩
        · rcases hcarries' with heq' | ⟨-, hnot'⟩
          · exact hne (heq.symm.trans heq')
          · rw [heq, hin hpackage] at hnot'
            cases hnot'
        · rcases hcarries' with heq' | ⟨hanchor', -⟩
          · rw [heq', hin hother] at hnot
            cases hnot
          · exact hne (hanchor.symm.trans hanchor')

/-- The report of a live entry without a shape. -/
def orphanReport (numbering : UnitNumbering) (lock : PackageLock) (entry : LockEntry LockKey) :
    OrphanReport :=
  { message := orphanEntryMessage entry.key lock.unitDir numbering.anyProvisional
    range := entry.range }

theorem diagnostics_checkedPackage (lock : PackageLock) :
    (packages.map (checkedPackage unit (some lock) packages)).flatMap CheckedPackage.diagnostics
      = (numberUnit unit (some lock.lock) packages).orphans.map
          (orphanReport (numberUnit unit (some lock.lock) packages) lock) := by
  have hone : ∀ {list : List Package} {name : String} {reports : List OrphanReport},
      (list.map Package.name).Nodup → name ∈ list.map Package.name →
      (list.flatMap fun package => if name = package.name then reports else []) = reports := by
    intro list name reports hnodup hmem
    induction list with
    | nil => cases hmem
    | cons package list ih =>
        rcases List.nodup_cons.1 hnodup with ⟨hnot, hnodup'⟩
        rw [List.flatMap_cons]
        by_cases heq : name = package.name
        · rw [if_pos heq, List.flatMap_eq_nil_iff.2, List.append_nil]
          intro other hother
          refine if_neg fun heq' => hnot ?_
          rw [← heq, heq']
          exact List.mem_map_of_mem hother
        · rw [if_neg heq, List.nil_append]
          exact ih hnodup' ((List.mem_cons.1 hmem).resolve_left heq)
  rw [List.flatMap_map]
  exact hone h.names (anchorOf_mem unit h.ne_nil)

end Carried

end Lock

end Ridl
