import Mathlib.Data.List.Nodup
import Mathlib.Data.List.Perm.Basic
import Ridl.Lock.Interfaces

/-!
# The Keys of a Unit

What the keys of the shapes of a unit are worth.

A package of a unit is named like the unit, or like the unit with a dotted name
below it. The name of a declared interface below its unit is then a dotted name from
which both the package and the interface are read back, so no two shapes of a unit
have the same key, and every key is one that its text is read as.

## Theorems

* `nodup_unitKeys`: No key is on two shapes.
* `isKey_unitKeys`: Each is read from its text.
-/

namespace Ridl

namespace Lock

open Library
open Diff (Package Interface Service ServiceShape InterfaceShape relativeName unitOf)
open TableKey (display fromStr)

/-! ### Names -/

theorem dot_not_mem_of_isIdent {text : Text} (h : isIdent text = true) : '.' ∉ text := by
  cases text with
  | nil => exact List.not_mem_nil
  | cons first rest =>
      rcases Bool.and_eq_true_iff.1 h with ⟨hfirst, hrest⟩
      intro hmem
      rcases List.mem_cons.1 hmem with rfl | hmem
      · revert hfirst
        decide
      · have hdot := List.all_eq_true.1 hrest '.' hmem
        revert hdot
        decide

theorem isDotted_of_isIdent {text : Text} (h : isIdent text = true) : isDotted text = true := by
  rw [isDotted, List.splitOn_eq_singleton (dot_not_mem_of_isIdent h), List.all_cons, h]
  rfl

theorem isDotted_append {dir name : Text} (hdir : isDotted dir = true)
    (hname : isIdent name = true) : isDotted (dir ++ '.' :: name) = true := by
  rw [isDotted, List.splitOn_append_cons_self, List.all_append, Bool.and_eq_true]
  exact ⟨hdir, isDotted_of_isIdent hname⟩

theorem dot_append_inj {a b x y : Text} (hx : '.' ∉ x) (hy : '.' ∉ y)
    (h : a ++ '.' :: x = b ++ '.' :: y) : a = b ∧ x = y := by
  have hreverse := congrArg List.reverse h
  simp only [List.reverse_append, List.reverse_cons, List.append_assoc, List.cons_append,
    List.nil_append] at hreverse
  have ha : splitOnce (x.reverse ++ '.' :: a.reverse) '.' = some (x.reverse, a.reverse) :=
    splitOnce_append fun hmem => hx (List.mem_reverse.1 hmem)
  have hb : splitOnce (y.reverse ++ '.' :: b.reverse) '.' = some (y.reverse, b.reverse) :=
    splitOnce_append fun hmem => hy (List.mem_reverse.1 hmem)
  rw [hreverse, hb] at ha
  rcases Prod.mk.inj (Option.some.inj ha) with ⟨hxy, hab⟩
  exact ⟨(List.reverse_injective hab).symm, (List.reverse_injective hxy).symm⟩

theorem colon_not_mem_of_isDotted {text : Text} (h : isDotted text = true) : ':' ∉ text := by
  intro hmem
  have htext : ['.'].intercalate (text.splitOn '.') = text := List.intercalate_splitOn '.'
  rw [← htext] at hmem
  rcases mem_intercalate hmem with hdot | ⟨part, hpart, hin⟩
  · revert hdot
    decide
  · have hident := List.all_eq_true.1 h part hpart
    cases part with
    | nil => cases hin
    | cons first rest =>
        rcases Bool.and_eq_true_iff.1 hident with ⟨hfirst, hrest⟩
        rcases List.mem_cons.1 hin with rfl | hin
        · revert hfirst
          decide
        · have hcolon := List.all_eq_true.1 hrest ':' hin
          revert hcolon
          decide

theorem isKey_interface {text : Text} (h : isDotted text = true) :
    IsKey (LockKey.interface text) := by
  have hfront : stripPrefix SERVICE text = none := by
    refine if_neg fun hfront => colon_not_mem_of_isDotted h ?_
    rcases List.isPrefixOf_iff_prefix.1 hfront with ⟨back, rfl⟩
    exact List.mem_append_left _ (by decide)
  show LockKey.fromStr text = _
  rw [LockKey.fromStr, hfront]
  exact if_pos h

theorem isKey_service {text : Text} (h : isDotted text = true) : IsKey (LockKey.service text) := by
  have hback : stripPrefix SERVICE (SERVICE ++ text) = some text := by
    rw [stripPrefix, if_pos (List.isPrefixOf_iff_prefix.2 (List.prefix_append _ _)),
      List.drop_left]
  show LockKey.fromStr (SERVICE ++ text) = _
  rw [LockKey.fromStr, hback]
  exact if_pos ⟨(isToken_of_isDotted h).1, h⟩

/-! ### The packages of a unit -/

/-- The packages of a unit without errors but those of the lock. -/
structure UnitPackages (unit : String) (packages : List Package) : Prop where
  ne_nil : packages ≠ []
  names : (packages.map Package.name).Nodup
  unitOf : ∀ package ∈ packages, Diff.unitOf package = unit
  /-- A package is the unit, or below it. -/
  name : ∀ package ∈ packages, package.name = unit ∨
    ∃ dir, package.name = unit ++ "." ++ dir ∧ isDotted dir.toList = true
  interfaces : ∀ package ∈ packages, (package.interfaces.map Interface.name).Nodup
  interface : ∀ package ∈ packages, ∀ iface ∈ package.interfaces, isIdent iface.name.toList = true
  /-- The name of a service is in the catalog of services once. -/
  inlines : ((packages.flatMap fun package => package.services.flatMap Service.inlineShapes).map
    InterfaceShape.name).Nodup
  service : ∀ package ∈ packages, ∀ service ∈ package.services,
    isDotted service.name.toList = true
  /-- The retired interfaces come from the lock alone. -/
  retired : ∀ package ∈ packages, package.retired = []

theorem relativeName_below (unit dir name : String) :
    relativeName unit (unit ++ "." ++ dir) name = dir ++ "." ++ name := by
  have hne : unit ++ "." ++ dir ≠ unit := by
    intro heq
    have hlength := congrArg (fun text : String => text.toList.length) heq
    simp only [String.toList_append, List.length_append] at hlength
    have hdot : ".".toList.length = 1 := by decide
    omega
  have hdrop : ((unit ++ "." ++ dir).toList.dropPrefix? unit.toList).bind
      (fun rest => rest.dropPrefix? ['.']) = some dir.toList := by
    have hunit : (unit ++ "." ++ dir).toList.dropPrefix? unit.toList
        = some ('.' :: dir.toList) := by
      rw [List.dropPrefix?_eq_some_iff]
      refine ⟨unit.toList, ?_, beq_self_eq_true _⟩
      simp only [String.toList_append, List.append_assoc]
      rfl
    rw [hunit, Option.bind_some, List.dropPrefix?_eq_some_iff]
    exact ⟨['.'], rfl, beq_self_eq_true _⟩
  rw [relativeName, if_neg hne, hdrop]
  simp only [String.ofList_toList]

section Names

variable {unit : String} {packages : List Package} (h : UnitPackages unit packages)
  {package other : Package} {name name' : String}

include h

theorem isDotted_relativeName (hpackage : package ∈ packages) (hname : isIdent name.toList = true) :
    isDotted (relativeName unit package.name name).toList = true := by
  rcases h.name package hpackage with heq | ⟨dir, heq, hdir⟩
  · rw [relativeName, if_pos heq]
    exact isDotted_of_isIdent hname
  · rw [heq, relativeName_below, String.toList_append, String.toList_append, List.append_assoc]
    exact isDotted_append hdir hname

/-- Both the package and the interface are read back from it. -/
theorem relativeName_inj (hpackage : package ∈ packages) (hother : other ∈ packages)
    (hname : isIdent name.toList = true) (hname' : isIdent name'.toList = true)
    (heq : relativeName unit package.name name = relativeName unit other.name name') :
    package.name = other.name ∧ name = name' := by
  have hdot := dot_not_mem_of_isIdent hname
  have hdot' := dot_not_mem_of_isIdent hname'
  have happend : ∀ dir text : String, (dir ++ "." ++ text).toList
      = dir.toList ++ '.' :: text.toList := by
    intro dir text
    rw [String.toList_append, String.toList_append, List.append_assoc]
    rfl
  rcases h.name package hpackage with hroot | ⟨dir, hbelow, -⟩ <;>
    rcases h.name other hother with hroot' | ⟨dir', hbelow', -⟩
  · rw [relativeName, if_pos hroot, relativeName, if_pos hroot'] at heq
    exact ⟨hroot.trans hroot'.symm, heq⟩
  · rw [relativeName, if_pos hroot, hbelow', relativeName_below] at heq
    refine absurd ?_ hdot
    rw [heq, happend]
    exact List.mem_append_right _ List.mem_cons_self
  · rw [hbelow, relativeName_below, relativeName, if_pos hroot'] at heq
    refine absurd ?_ hdot'
    rw [← heq, happend]
    exact List.mem_append_right _ List.mem_cons_self
  · rw [hbelow, hbelow', relativeName_below, relativeName_below] at heq
    have hlist := congrArg String.toList heq
    rw [happend, happend] at hlist
    rcases dot_append_inj hdot hdot' hlist with ⟨hdirs, hnames⟩
    rw [hbelow, hbelow', String.toList_inj.1 hdirs]
    exact ⟨rfl, String.toList_inj.1 hnames⟩

end Names

/-! ### The keys -/

def interfaceKeys (unit : String) (package : Package) : List LockKey :=
  package.interfaces.map fun iface =>
    .interface (relativeName unit package.name iface.name).toList

def serviceKeys (package : Package) : List LockKey :=
  (package.services.flatMap Service.inlineShapes).map fun shape => .service shape.name.toList

theorem of_mem_inlineShapes {service : Service} {shape : InterfaceShape}
    (h : shape ∈ service.inlineShapes) : shape.name = service.name ∧ shape.isInline = true := by
  rcases List.mem_filterMap.1 h with ⟨slot, -, hslot⟩
  rcases slot with _ | ref | iface
  · cases hslot
  · cases hslot
  · cases hslot
    exact ⟨rfl, rfl⟩

theorem map_shapeKey {unit : String} {package : Package} (hunit : unitOf package = unit) :
    package.shapes.map (shapeKey package) = interfaceKeys unit package ++ serviceKeys package := by
  rw [Package.shapes, List.map_append, List.map_map]
  congr 1
  · refine List.map_congr_left fun iface _ => ?_
    simp only [Function.comp_apply, shapeKey, InterfaceShape.isInline, Option.isSome_none,
      Bool.false_eq_true, if_false, Package.catalogName, hunit]
  · refine List.map_congr_left fun shape hshape => ?_
    rcases List.mem_flatMap.1 hshape with ⟨service, -, hmem⟩
    exact if_pos (of_mem_inlineShapes hmem).2

theorem mem_interfaceKeys {unit : String} {packages : List Package} {key : LockKey}
    (hkey : key ∈ packages.flatMap (interfaceKeys unit)) :
    ∃ package ∈ packages, ∃ iface ∈ package.interfaces,
      key = .interface (relativeName unit package.name iface.name).toList := by
  rcases List.mem_flatMap.1 hkey with ⟨package, hpackage, hmem⟩
  rcases List.mem_map.1 hmem with ⟨iface, hiface, rfl⟩
  exact ⟨package, hpackage, iface, hiface, rfl⟩

theorem mem_serviceKeys {packages : List Package} {key : LockKey}
    (hkey : key ∈ packages.flatMap serviceKeys) :
    ∃ package ∈ packages, ∃ service ∈ package.services, key = .service service.name.toList := by
  rcases List.mem_flatMap.1 hkey with ⟨package, hpackage, hmem⟩
  rcases List.mem_map.1 hmem with ⟨shape, hshape, rfl⟩
  rcases List.mem_flatMap.1 hshape with ⟨service, hservice, hinline⟩
  rw [(of_mem_inlineShapes hinline).1]
  exact ⟨package, hpackage, service, hservice, rfl⟩

section Keys

variable {unit : String} {packages : List Package} (h : UnitPackages unit packages)

include h

theorem unitKeys_perm : (unitKeys packages).Perm
    (packages.flatMap (interfaceKeys unit) ++ packages.flatMap serviceKeys) := by
  have hkeys : unitKeys packages
      = packages.flatMap fun package => interfaceKeys unit package ++ serviceKeys package :=
    List.flatMap_congr fun package hpackage => map_shapeKey (h.unitOf package hpackage)
  rw [hkeys]
  exact (List.flatMap_append_perm _ _ _).symm

theorem nodup_unitKeys : (unitKeys packages).Nodup := by
  refine (unitKeys_perm h).nodup_iff.2 (List.nodup_append.2 ⟨?_, ?_, ?_⟩)
  · refine List.nodup_flatMap.2 ⟨fun package hpackage => ?_, ?_⟩
    · refine List.Nodup.map_on ?_ (List.Nodup.of_map _ (h.interfaces package hpackage))
      intro iface hiface iface' hiface' heq
      have hname := (relativeName_inj h hpackage hpackage (h.interface package hpackage _ hiface)
        (h.interface package hpackage _ hiface')
        (String.toList_inj.1 (LockKey.interface.inj heq))).2
      exact List.inj_on_of_nodup_map (h.interfaces package hpackage) hiface hiface' hname
    · refine List.Pairwise.imp_of_mem ?_ (List.pairwise_map.1 h.names)
      intro package other hpackage hother hne key hkey hkey'
      rcases List.mem_map.1 hkey with ⟨iface, hiface, rfl⟩
      rcases List.mem_map.1 hkey' with ⟨iface', hiface', heq⟩
      exact hne (relativeName_inj h hpackage hother (h.interface package hpackage _ hiface)
        (h.interface other hother _ hiface')
        (String.toList_inj.1 (LockKey.interface.inj heq.symm))).1
  · have hkeys : packages.flatMap serviceKeys = ((packages.flatMap fun package =>
        package.services.flatMap Service.inlineShapes).map InterfaceShape.name).map
          fun name => LockKey.service name.toList := by
      rw [List.map_map, List.map_flatMap]
      rfl
    rw [hkeys]
    exact h.inlines.map fun name name' heq => String.toList_inj.1 (LockKey.service.inj heq)
  · intro key hkey key' hkey' heq
    rcases mem_interfaceKeys hkey with ⟨_, _, _, _, rfl⟩
    rcases mem_serviceKeys hkey' with ⟨_, _, _, _, rfl⟩
    cases heq

theorem isKey_unitKeys {key : LockKey} (hkey : key ∈ unitKeys packages) : IsKey key := by
  rcases List.mem_append.1 ((unitKeys_perm h).mem_iff.1 hkey) with hinterface | hservice
  · rcases mem_interfaceKeys hinterface with ⟨package, hpackage, iface, hiface, rfl⟩
    exact isKey_interface
      (isDotted_relativeName h hpackage (h.interface package hpackage iface hiface))
  · rcases mem_serviceKeys hservice with ⟨package, hpackage, service, hmem, rfl⟩
    exact isKey_service (h.service package hpackage service hmem)

end Keys

end Lock

end Ridl
