import Ridl.Lock.Packages

/-!
# Interface Numbers Shown are Written

What the checker shows for the interfaces of a unit is what `ridl lock` writes.

The order of the packages does not count, because the keys are sorted before they are
numbered. The provisional numbers ascend with the names, and the allocation takes the
shapes in the order of these numbers, so it counts from `next` on as the checker did.
Its table is read back with every key live, so afterwards no shape is provisional.

This needs room: the checker counts on past the highest number that a file may
hold, and the allocation does not. Without it there is a shape whose number is
not written.

## Theorems

* `allocateShapes_eq`: The allocation gives the numbers that were shown.
* `numbers_written`: Against what is read back, every shape has its number.
* `interface_numbers_written`: The numbers are written exactly where there is room.
-/

namespace Ridl

namespace Lock

open Library
open Diff (Package Interface RetiredInterface InterfaceShape)
open TableKey (display MAX_NUMBER)

variable {unit : String} {packages : List Package}

section Checked

variable {lock : Option PackageLock} (h : UnitPackages unit packages)
  (hwf : (tableOf (lockOf lock)).WellFormed)

include h hwf

/-! ### The allocation -/

/-- The shapes without a live entry fit below the highest number of a file. -/
def Room (lock : Option (LockTable LockKey)) (packages : List Package) : Prop :=
  (tableOf lock).next + ((unitKeys packages).filter (isNew lock)).length ≤ NUMBER_MAX

omit h hwf in
instance (lock : Option (LockTable LockKey)) (packages : List Package) :
    Decidable (Room lock packages) := inferInstanceAs (Decidable (_ ≤ _))

omit h hwf in
theorem length_newKeys (lock : Option (LockTable LockKey)) (packages : List Package) :
    (newKeys lock packages).length = ((unitKeys packages).filter (isNew lock)).length :=
  ((perm_byName _).filter _).length_eq

omit h hwf in
theorem max_lockKey : MAX_NUMBER LockKey + 1 = NUMBER_MAX := by decide

omit hwf in
theorem room_of_allocateShapes (hwf : (tableOf (lockOf lock)).WellFormed)
    {result : LockTable LockKey × List (LockKey × Nat)}
    (hallocate : allocateShapes (checkedIrs unit lock packages) (tableOf (lockOf lock))
      = .ok result) : Room (lockOf lock) packages := by
  rw [allocateShapes, ← List.foldlM_map (f := Prod.snd)] at hallocate
  have hle := next_of_foldlM_allocateKey hwf.next.2 hallocate
  rw [List.length_map, (List.perm_insertionSort _ _).length_eq, provisionalShapes_checkedIrs h hwf,
    List.length_map, max_lockKey] at hle
  exact hle

section Room

variable (hroom : Room (lockOf lock) packages)

include hroom

omit h hwf in
theorem IsNext.le {key : LockKey} {k : Nat} (hk : IsNext (lockOf lock) packages key k) :
    (tableOf (lockOf lock)).next ≤ k ∧ k < NUMBER_MAX := by
  have hget := List.mk_mem_zipIdx_iff_le_and_getElem?_sub.1 hk
  have hlt := (List.getElem?_eq_some_iff.1 hget.2).1
  rw [length_newKeys] at hlt
  unfold Room at hroom
  omega

theorem numbers_next {key : LockKey} {k : Nat} (hk : IsNext (lockOf lock) packages key k) :
    (numberUnit unit (lockOf lock) packages).numbers[key]? = some (k, true) := by
  have hlt := (hk.le hroom).2
  rw [numbers_new h hwf hk, Nat.mod_eq_of_lt (Nat.lt_succ_of_lt hlt)]

theorem sort_provisionalShapes :
    (provisionalShapes (checkedIrs unit lock packages)).insertionSort Ascending
      = ((newKeys (lockOf lock) packages).zipIdx (tableOf (lockOf lock)).next).map
          fun entry => (entry.2, entry.1) := by
  refine insertionSort_ascending ?_ (List.pairwise_map.2 (pairwise_zipIdx _ _))
  rw [provisionalShapes_checkedIrs h hwf]
  refine (((perm_byName _).filter _).symm.map _).trans (List.Perm.of_eq ?_)
  have hkeys := List.zipIdx_map_fst (tableOf (lockOf lock)).next
    (newKeys (lockOf lock) packages)
  show (newKeys (lockOf lock) packages).map _ = _
  rw [← hkeys, List.map_map, hkeys]
  refine List.map_congr_left fun entry hentry => ?_
  simp only [Function.comp_apply, numbers_next h hwf hroom hentry, Option.map_some,
    Option.getD_some]

theorem allocateShapes_eq :
    allocateShapes (checkedIrs unit lock packages) (tableOf (lockOf lock))
      = .ok (allocated (tableOf (lockOf lock)) (newKeys (lockOf lock) packages),
          (newKeys (lockOf lock) packages).zipIdx (tableOf (lockOf lock)).next) := by
  rw [allocateShapes, sort_provisionalShapes h hwf hroom, List.foldlM_map,
    ← List.foldlM_map (f := Prod.fst), List.zipIdx_map_fst]
  refine foldlM_allocateKey (nodup_newKeys h) (fun key hkey => (mem_newKeys.1 hkey).2) ?_ []
  rw [length_newKeys, max_lockKey]
  exact hroom

theorem numbers_written : ∃ table,
    parseTable (allocated (tableOf (lockOf lock))
      (newKeys (lockOf lock) packages)).render = .ok table ∧
    ∀ (key : LockKey) (n : Nat) (b : Bool),
      (numberUnit unit (lockOf lock) packages).numbers[key]? = some (n, b) →
        (numberUnit unit (some table) packages).numbers[key]? = some (n, false) := by
  have hwf' : (allocated (tableOf (lockOf lock))
      (newKeys (lockOf lock) packages)).WellFormed := by
    refine allocated_wellFormed (nodup_newKeys h) hwf (fun key hkey => (mem_newKeys.1 hkey).2) ?_
      fun key hkey => isKey_unitKeys h (mem_newKeys.1 hkey).1
    rw [length_newKeys, max_lockKey]
    exact hroom
  rcases parseTable_render hwf' with ⟨table, hparse, -⟩
  have htable : (tableOf (some table)).WellFormed := wellFormed_of_parse hparse
  refine ⟨table, hparse, fun key n b hget => ?_⟩
  -- A live entry of the table is found in what is read back.
  have hread : ∀ entry ∈ (allocated (tableOf (lockOf lock))
      (newKeys (lockOf lock) packages)).entries, entry.retired = false → entry.key = key →
      (numberUnit unit (some table) packages).numbers[key]? = some (entry.number, false) := by
    intro entry hentry hlive hkey
    rcases live_written hwf' hparse hentry hlive with ⟨entry', hfind, hnumber⟩
    rw [hkey] at hfind
    rw [← hnumber]
    exact numbers_live h htable (of_numbers h hwf hget).1 hfind
  rcases (of_numbers h hwf hget).2 with ⟨-, entry, hlive, rfl⟩ | ⟨-, k, hk, rfl⟩
  · rcases live_mem hlive with ⟨hentry, hretired, hkey⟩
    exact hread entry (List.mem_append_left _ hentry) hretired hkey
  · rw [Nat.mod_eq_of_lt (Nat.lt_succ_of_lt (hk.le hroom).2)]
    exact hread ⟨key, k, false, .empty⟩
      (List.mem_append_right _ (List.mem_map.2 ⟨(key, k), hk, rfl⟩)) rfl rfl

end Room

end Checked

/-! ### The order of the packages -/

/-- The same package with its declarations in another order. -/
structure SameDeclarations (p q : Package) : Prop where
  name : p.name = q.name
  unit : p.unit = q.unit
  interfaces : p.interfaces.Perm q.interfaces
  services : p.services.Perm q.services

/-- The same packages in another order, each with its declarations in another order. -/
def Reordered (packages packages' : List Package) : Prop :=
  ∃ middle, packages.Perm middle ∧ List.Forall₂ SameDeclarations middle packages'

theorem SameDeclarations.keys {p q : Package} (h : SameDeclarations p q) :
    (p.shapes.map (shapeKey p)).Perm (q.shapes.map (shapeKey q)) := by
  have hunit : Diff.unitOf p = Diff.unitOf q := by rw [Diff.unitOf, Diff.unitOf, h.name, h.unit]
  have hkey : shapeKey p = shapeKey q := by
    funext shape
    rw [shapeKey, shapeKey, Package.catalogName, Package.catalogName, hunit, h.name]
  rw [hkey]
  exact ((h.interfaces.map _).append (h.services.flatMap_right _)).map _

theorem Reordered.keys {packages' : List Package} (h : Reordered packages packages') :
    (unitKeys packages).Perm (unitKeys packages') ∧
      (packages.map Package.name).Perm (packages'.map Package.name) := by
  rcases h with ⟨middle, hperm, hsame⟩
  refine ⟨(hperm.flatMap_right _).trans ?_, (hperm.map _).trans (List.Perm.of_eq ?_)⟩
  · clear hperm
    induction hsame with
    | nil => exact List.Perm.refl _
    | cons hone _ ih => exact hone.keys.append ih
  · clear hperm
    induction hsame with
    | nil => rfl
    | cons hone _ ih => rw [List.map_cons, List.map_cons, hone.name, ih]

/-- The numbers do not rest on the order of the packages, of the files or of the declarations. -/
theorem numberUnit_congr {packages' : List Package} (lock : Option (LockTable LockKey))
    (h : Reordered packages packages') :
    numberUnit unit lock packages' = numberUnit unit lock packages := by
  have hkeys := byName_congr h.keys.1
  unfold byName at hkeys
  rw [numberUnit, numberUnit, hkeys, anchorOf_congr h.keys.2]

/-! ### The whole -/

/-- What the checked packages of a unit hold, and what `ridl lock` makes of it. -/
structure ShownOn (unit : String) (lock : Option PackageLock) (packages : List Package)
    (checked : List CheckedPackage) : Prop where
  keys : unitKeys (checked.map CheckedPackage.ir) = unitKeys packages
  numbers : ∀ package ∈ checked, ∀ shape ∈ package.ir.shapes,
    (numberUnit unit (lockOf lock) packages).numbers[shapeKey package.ir shape]?
      = some (shape.iface.number, shape.iface.provisional)
  retired : (checked.flatMap fun package => package.ir.retired).Perm
    (((tableOf (lockOf lock)).entries.filter (·.retired)).map fun entry =>
      { name := String.ofList (display entry.key), number := entry.number })
  /-- A live entry without a shape is reported once. -/
  orphans : checked.flatMap CheckedPackage.diagnostics = lock.elim [] fun lock =>
    (lock.lock.entries.filter fun entry =>
      !entry.retired && decide (entry.key ∉ unitKeys packages)).map
        (orphanReport (numberUnit unit (some lock.lock) packages) lock)
  /-- The provisional numbers are written, and then none is provisional. -/
  allocated : ∃ table lines, allocateShapes (checked.map CheckedPackage.ir) (tableOf (lockOf lock))
      = .ok (table, lines) ∧
    lines.Perm ((provisionalShapes (checked.map CheckedPackage.ir)).map Prod.swap) ∧
    ∃ table', parseTable table.render = .ok table' ∧ ∀ key : LockKey,
      (numberUnit unit (some table') packages).numbers[key]?
        = (numberUnit unit (lockOf lock) packages).numbers[key]?.map fun entry =>
            (entry.1, false)

/-- The numbers that are shown for a unit are those that are written. -/
structure NumbersWritten (unit : String) (lock : Option PackageLock) (packages : List Package) :
    Prop where
  /-- The keys of the unit have a number, and nothing else has. -/
  total : ∀ key, key ∈ unitKeys packages ↔
    (numberUnit unit (lockOf lock) packages).numbers[key]?.isSome
  injective : ∀ (key key' : LockKey) (n : Nat) (b b' : Bool),
    (numberUnit unit (lockOf lock) packages).numbers[key]? = some (n, b) →
      (numberUnit unit (lockOf lock) packages).numbers[key']? = some (n, b') → key = key'
  frozen : ∀ key ∈ unitKeys packages, ∀ entry, (tableOf (lockOf lock)).live key = some entry →
    (numberUnit unit (lockOf lock) packages).numbers[key]? = some (entry.number, false)
  provisional : ∀ key ∈ unitKeys packages, (tableOf (lockOf lock)).live key = none →
    ∃ n, (numberUnit unit (lockOf lock) packages).numbers[key]? = some (n, true) ∧
      ∀ entry ∈ (tableOf (lockOf lock)).entries, entry.number ≠ n
  order : ∀ packages', Reordered packages packages' →
    numberUnit unit (lockOf lock) packages' = numberUnit unit (lockOf lock) packages
  /-- A live entry is the entry of its key, where that is on a shape, and of no other. -/
  live : ∀ entry ∈ (tableOf (lockOf lock)).entries, entry.retired = false → ∀ key,
    (numberUnit unit (lockOf lock) packages).numbers[key]? = some (entry.number, false) ↔
      key = entry.key ∧ entry.key ∈ unitKeys packages
  checked : ∃ checked, packages.mapM (checkPackage unit lock packages) = some checked ∧
    ShownOn unit lock packages checked

section Whole

variable {lock : Option PackageLock} (h : UnitPackages unit packages)
  (hwf : (tableOf (lockOf lock)).WellFormed)

include h hwf

theorem numbers_inj (hroom : Room (lockOf lock) packages) {key key' : LockKey} {n : Nat}
    {b b' : Bool} (hget : (numberUnit unit (lockOf lock) packages).numbers[key]? = some (n, b))
    (hget' : (numberUnit unit (lockOf lock) packages).numbers[key']? = some (n, b')) :
    key = key' := by
  rcases (of_numbers h hwf hget).2 with ⟨-, entry, hlive, hn⟩ | ⟨-, k, hk, hn⟩ <;>
    rcases (of_numbers h hwf hget').2 with ⟨-, entry', hlive', hn'⟩ | ⟨-, k', hk', hn'⟩
  · rcases live_mem hlive with ⟨hentry, -, hkey⟩
    rcases live_mem hlive' with ⟨hentry', -, hkey'⟩
    rw [← hkey, ← hkey']
    exact congrArg LockEntry.key
      (List.inj_on_of_nodup_map hwf.distinct hentry hentry' (hn.symm.trans hn'))
  · have hlt := (live_number_le hwf hlive).2.1
    have hle := hk'.le hroom
    rw [Nat.mod_eq_of_lt (Nat.lt_succ_of_lt hle.2)] at hn'
    omega
  · have hlt := (live_number_le hwf hlive').2.1
    have hle := hk.le hroom
    rw [Nat.mod_eq_of_lt (Nat.lt_succ_of_lt hle.2)] at hn
    omega
  · rw [Nat.mod_eq_of_lt (Nat.lt_succ_of_lt (hk.le hroom).2)] at hn
    rw [Nat.mod_eq_of_lt (Nat.lt_succ_of_lt (hk'.le hroom).2)] at hn'
    have hsame : k = k' := hn.symm.trans hn'
    rw [hsame] at hk
    have hget := List.mk_mem_zipIdx_iff_le_and_getElem?_sub.1 hk
    have hget' := List.mk_mem_zipIdx_iff_le_and_getElem?_sub.1 hk'
    exact Option.some.inj (hget.2.symm.trans hget'.2)

theorem numbers_live_iff {entry : LockEntry LockKey}
    (hentry : entry ∈ (tableOf (lockOf lock)).entries) (hlive : entry.retired = false)
    (key : LockKey) :
    (numberUnit unit (lockOf lock) packages).numbers[key]? = some (entry.number, false) ↔
      key = entry.key ∧ entry.key ∈ unitKeys packages := by
  constructor
  · intro hget
    rcases of_numbers h hwf hget with ⟨hkey, ⟨-, entry', hfind, hn⟩ | ⟨hfalse, -⟩⟩
    · rcases live_mem hfind with ⟨hentry', -, heq⟩
      have hsame := List.inj_on_of_nodup_map hwf.distinct hentry hentry' hn
      rw [hsame, heq]
      exact ⟨rfl, hkey⟩
    · cases hfalse
  · rintro ⟨rfl, hkey⟩
    rcases live_eq hwf hentry hlive with ⟨entry', hfind, hnumber⟩
    rw [numbers_live h hwf hkey hfind, hnumber]

theorem shownOn (hroom : Room (lockOf lock) packages) :
    ShownOn unit lock packages (packages.map (checkedPackage unit lock packages)) := by
  have hirs : (packages.map (checkedPackage unit lock packages)).map CheckedPackage.ir
      = checkedIrs unit lock packages := List.map_map
  refine ⟨?_, ?_, ?_, ?_, ?_⟩
  · rw [hirs, unitKeys_checkedIrs h]
  · intro package hpackage shape hshape
    refine numbers_checkedIrs h hwf ?_ hshape
    rw [← hirs]
    exact List.mem_map_of_mem hpackage
  · have hretired := retired_checkedIrs h lock
    rw [← hirs, List.flatMap_map] at hretired
    refine hretired.trans ?_
    cases lock with
    | none => exact List.Perm.refl _
    | some lock =>
        refine ((List.perm_insertionSort _ _).map _).trans (List.Perm.of_eq ?_)
        rw [List.map_map]
        rfl
  · cases lock with
    | none =>
        refine List.flatMap_eq_nil_iff.2 fun package hpackage => ?_
        rcases List.mem_map.1 hpackage with ⟨_, -, rfl⟩
        rfl
    | some lock =>
        rw [diagnostics_checkedPackage h lock]
        refine congrArg (List.map _) (List.filter_congr fun entry _ => ?_)
        have hcontains : (numberUnit unit (some lock.lock) packages).numbers.contains entry.key
            = decide (entry.key ∈ unitKeys packages) := contains_numbers h hwf
        show (!entry.retired && !(numberUnit unit (some lock.lock) packages).numbers.contains
          entry.key) = _
        rw [hcontains, decide_not]
  · rw [hirs]
    rcases numbers_written h hwf hroom with ⟨table', hparse, hagain⟩
    refine ⟨_, _, allocateShapes_eq h hwf hroom, ?_, table', hparse, fun key => ?_⟩
    · have hsort := sort_provisionalShapes h hwf hroom
      have hperm := (List.perm_insertionSort Ascending
        (provisionalShapes (checkedIrs unit lock packages))).map Prod.swap
      rw [hsort, List.map_map] at hperm
      refine List.Perm.trans (List.Perm.of_eq ?_) hperm
      exact (List.map_id _).symm
    · cases hget : (numberUnit unit (lockOf lock) packages).numbers[key]? with
      | some entry => exact hagain key entry.1 entry.2 hget
      | none =>
          have htable : (tableOf (some table')).WellFormed := wellFormed_of_parse hparse
          refine numbers_none h htable fun hkey => ?_
          rcases exists_numbers h hwf hkey with ⟨n, hn⟩
          rw [hget] at hn
          cases hn

theorem numbersWritten_of_room (hroom : Room (lockOf lock) packages) :
    NumbersWritten unit lock packages where
  total := by
    intro key
    constructor
    · intro hkey
      rcases exists_numbers h hwf hkey with ⟨n, hn⟩
      rw [hn]
      rfl
    · intro hsome
      rcases Option.isSome_iff_exists.1 hsome with ⟨entry, hentry⟩
      exact (of_numbers h hwf hentry).1
  injective := fun key key' n b b' => numbers_inj h hwf hroom
  frozen := fun key hkey entry => numbers_live h hwf hkey
  provisional := by
    intro key hkey hlive
    rcases List.mem_iff_getElem?.1 (mem_newKeys.2 ⟨hkey, hlive⟩) with ⟨i, hi⟩
    have hk : IsNext (lockOf lock) packages key ((tableOf (lockOf lock)).next + i) :=
      List.mk_add_mem_zipIdx_iff_getElem?.2 hi
    refine ⟨_, numbers_next h hwf hroom hk, fun entry hentry => ?_⟩
    have hlt := (hwf.number entry hentry).2
    omega
  order := fun packages' => numberUnit_congr (lockOf lock)
  live := fun entry => numbers_live_iff h hwf
  checked := ⟨_, mapM_checkPackage h hwf, shownOn h hwf hroom⟩

theorem room_of_numbersWritten (hwritten : NumbersWritten unit lock packages) :
    Room (lockOf lock) packages := by
  rcases hwritten.checked with ⟨checked, hchecked, hshown⟩
  rw [mapM_checkPackage h hwf] at hchecked
  cases hchecked
  rcases hshown.allocated with ⟨table, lines, hallocate, -⟩
  rw [List.map_map] at hallocate
  exact room_of_allocateShapes h hwf hallocate

end Whole

/-- The numbers that the checker shows for a unit are those that `ridl lock` writes, exactly where
    the shapes without a live entry fit below the highest number of a file. -/
theorem interface_numbers_written (unit : String) (packages : List Package)
    (lock : Option PackageLock) (h : UnitPackages unit packages)
    (hlock : ∀ table, lockOf lock = some table → ∃ text, parseTable text = .ok table) :
    NumbersWritten unit lock packages ↔ Room (lockOf lock) packages :=
  ⟨room_of_numbersWritten h (wellFormed_tableOf hlock),
    numbersWritten_of_room h (wellFormed_tableOf hlock)⟩

/-- A declared interface without interactions. -/
def bare (name : String) : Interface :=
  { name := name, visibility := 0, interactions := [], number := 0, provisional := false }

/-- A unit of one package, with two interfaces. -/
def wakeSleep : Package :=
  { name := "veh", decls := [], interfaces := [bare "Wake", bare "Sleep"], services := []
    unit := "veh" }

theorem unitPackages_wakeSleep : UnitPackages "veh" [wakeSleep] where
  ne_nil := by decide
  names := by decide
  unitOf := by decide
  name := fun package hpackage => .inl (by rw [List.mem_singleton.1 hpackage]; rfl)
  interfaces := by decide
  interface := by decide
  inlines := by decide
  service := by decide
  retired := by decide

/-- A lock that knows one of them, and holds a name that is gone and a retired one. -/
def held : PackageLock where
  unitDir := "veh".toList
  lock :=
    { next := 4
      entries :=
        [{ key := .interface "Old".toList, number := 1, retired := false, range := ⟨7, 12⟩ },
          { key := .interface "Wake".toList, number := 2, retired := false, range := ⟨13, 19⟩ },
          { key := .interface "Gone".toList, number := 3, retired := true, range := ⟨20, 34⟩ }] }

theorem parse_held : parseTable (K := LockKey) "next 4\nOld 1\nWake 2\nGone 3 retired\n".toList
    = .ok held.lock := by decide +kernel

theorem interface_numbers_written_wakeSleep : NumbersWritten "veh" (some held) [wakeSleep] :=
  (interface_numbers_written "veh" [wakeSleep] (some held) unitPackages_wakeSleep
    (fun _ htable => Option.some.inj htable ▸ ⟨_, parse_held⟩)).2 (by decide +kernel)

/-- A lock whose next number is the highest that a file may count to. -/
def atLast : PackageLock where
  unitDir := "veh".toList
  lock := { next := 4294967295, entries := [] }

theorem parse_atLast : parseTable (K := LockKey) "next 4294967295".toList = .ok atLast.lock := by
  decide +kernel

/-- No number is left for a new shape: the one that is shown for it cannot be written. -/
theorem atLast_not_written : UnitPackages "veh" [wakeSleep] ∧
    (∃ text, parseTable text = .ok atLast.lock) ∧
      ¬ NumbersWritten "veh" (some atLast) [wakeSleep] := by
  have hwf : (tableOf (lockOf (some atLast))).WellFormed := wellFormed_of_parse parse_atLast
  refine ⟨unitPackages_wakeSleep, ⟨_, parse_atLast⟩, fun hwritten => ?_⟩
  have hroom := room_of_numbersWritten unitPackages_wakeSleep hwf hwritten
  revert hroom
  decide +kernel

end Lock

end Ridl
