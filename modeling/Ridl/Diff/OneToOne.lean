import Ridl.Diff.Matching

/-!
# Every Interface Once

The walk speaks of each interface once. An old interface is matched, retired or
removed, and a new one is matched with one old interface or added. A package
that is on one side only is spoken of as a whole, for the interfaces that are
not matched.

A number claims a new shape for one old shape (`Claims`), and what a number has
claimed is not paired by name. So every new shape has an owner, the old package
whose walk speaks of it: the one that claimed it, and otherwise the one of its
own name.

## Main definitions

* `Line.olds`, `Line.news`: The shapes that a line speaks of.

## Theorems

* `claims_new`: What the frozen numbers of two sets claim.
* `pairShapes_spec`: The pairs of two packages.
* `count_olds`, `count_news`: Each interface is spoken of once.
-/

namespace Ridl

namespace Diff

open Library

/-! ### Shapes and their keys -/

section Shapes

def addresses (package : Package) : List ShapeAddress :=
  (shapesByKey package).keys.map (fun key => (package.name, key))

theorem key_of_getElem? {package : Package} {key : ShapeKey} {shape : InterfaceShape}
    (h : (shapesByKey package)[key]? = some shape) : shapeKey shape = key := by
  rcases List.mem_map.mp (OrdMap.mem_of_getElem?_collect _ _ _ h) with ⟨other, -, heq⟩
  cases heq
  rfl

variable {set : List Package}

theorem mem_byName {package : Package} :
    package ∈ byName set ↔ package ∈ set :=
  (List.perm_insertionSort _ set).mem_iff

theorem mem_heldShapes {held : Held} :
    held ∈ heldShapes set ↔
      held.package ∈ set ∧ (shapesByKey held.package)[shapeKey held.shape]? = some held.shape := by
  unfold heldShapes
  rw [List.mem_flatMap]
  constructor
  · rintro ⟨package, hmem, hin⟩
    rcases List.mem_map.mp hin with ⟨⟨key, shape⟩, hentry, rfl⟩
    have hget := Std.ExtTreeMap.mem_toList_iff_getElem?_eq_some.mp hentry
    exact ⟨mem_byName.mp hmem, (key_of_getElem? hget).symm ▸ hget⟩
  · rintro ⟨hmem, hget⟩
    refine ⟨held.package, mem_byName.mpr hmem, List.mem_map.mpr ⟨(shapeKey held.shape, held.shape),
      Std.ExtTreeMap.mem_toList_iff_getElem?_eq_some.mpr hget, rfl⟩⟩

/-- The shapes of packages with names of their own have addresses of their
    own. -/
theorem nodup_address (hnames : (set.map Package.name).Nodup) :
    ((heldShapes set).map Held.address).Nodup := by
  have hsorted : ((byName set).map Package.name).Nodup :=
    ((List.perm_insertionSort _ set).map _).nodup_iff.mpr hnames
  unfold heldShapes
  rw [List.map_flatMap]
  refine nodup_flatMap_of_owner (fun name a => a.1 = name) hsorted (fun package _ => ?_)
    (fun package _ a ha => ?_) (fun _ _ _ hj hk => hj.symm.trans hk)
  · have haddress : ((shapesByKey package).toList.map (fun entry => (⟨package, entry.2⟩ : Held))).map
        Held.address = addresses package := by
      rw [addresses, ← Std.ExtTreeMap.map_fst_toList_eq_keys, List.map_map, List.map_map]
      refine List.map_congr_left (fun entry hentry => ?_)
      have hkey := key_of_getElem? (Std.ExtTreeMap.mem_toList_iff_getElem?_eq_some.mp hentry)
      simp only [Function.comp_apply, Held.address, hkey]
    rw [haddress]
    exact Std.ExtTreeMap.nodup_keys.map (fun k l h => (Prod.mk.inj h).2)
  · rcases List.mem_map.mp ha with ⟨held, hheld, rfl⟩
    rcases List.mem_map.mp hheld with ⟨entry, -, rfl⟩
    rfl

end Shapes

/-! ### Claims -/

/-- What the claims of old shapes come to: each is of one of them, no two are of
    one new shape, and the new shapes claimed are those in a pair. -/
structure Claims (numbers : OrdMap NumberKey Held) (olds : List Held) (matching : Matching) :
    Prop where
  claimant : ∀ (a : ShapeAddress) (h : Held), matching.pairs[a]? = some h →
    ∃ o ∈ olds, o.address = a ∧ frozen o.shape.iface = true ∧ numbers[numberKey o]? = some h
  taken : ∀ x : ShapeAddress, x ∈ matching.taken ↔
    ∃ (a : ShapeAddress) (h : Held), matching.pairs[a]? = some h ∧ h.address = x
  once : ∀ (a b : ShapeAddress) (h g : Held), matching.pairs[a]? = some h →
    matching.pairs[b]? = some g → h.address = g.address → a = b

section Claims

variable {numbers : OrdMap NumberKey Held} {olds : List Held} {matching : Matching}

/-- One claim more keeps the account, where the shape's address is new. -/
theorem Claims.claim (h : Claims numbers olds matching) (old : Held)
    (hfresh : old.address ∉ olds.map Held.address) :
    Claims numbers (olds ++ [old]) (matching.claim numbers old) := by
  have hweak : Claims numbers (olds ++ [old]) matching :=
    { h with
      claimant := fun a held ha => by
        rcases h.claimant a held ha with ⟨o, ho, hrest⟩
        exact ⟨o, List.mem_append_left _ ho, hrest⟩ }
  unfold Matching.claim
  by_cases hfrozen : frozen old.shape.iface = true
  · rw [if_pos hfrozen]
    rcases hnumber : numbers[numberKey old]? with _ | held
    · exact hweak
    by_cases htaken : matching.taken.contains held.address = true
    · simp only [htaken, if_true]
      exact hweak
    · simp only [htaken, Bool.false_eq_true, if_false]
      -- The address is in no pair, so no claim is lost.
      have hnone : matching.pairs[old.address]? = none := by
        rcases hsome : matching.pairs[old.address]? with _ | other
        · rfl
        · rcases h.claimant _ _ hsome with ⟨o, ho, haddress, -⟩
          exact absurd (List.mem_map.mpr ⟨o, ho, haddress⟩) hfresh
      have hother (a : ShapeAddress) (g : Held) (hg : matching.pairs[a]? = some g) :
          old.address ≠ a ∧ g.address ≠ held.address := by
        refine ⟨fun heq => ?_, fun heq => htaken (List.contains_iff_mem.mpr ?_)⟩
        · rw [← heq, hnone] at hg
          cases hg
        · exact heq ▸ (h.taken _).mpr ⟨a, g, hg, rfl⟩
      refine ⟨fun a g hg => ?_, fun x => ?_, fun a b g k hg hk heq => ?_⟩
      · rw [OrdMap.getElem?_insert] at hg
        by_cases ha : old.address = a
        · rw [if_pos ha, Option.some.injEq] at hg
          exact ⟨old, List.mem_append_right _ (List.mem_singleton_self _), ha, hfrozen,
            hg ▸ hnumber⟩
        · rw [if_neg ha] at hg
          exact hweak.claimant a g hg
      · rw [List.mem_cons, h.taken]
        constructor
        · rintro (rfl | ⟨a, g, hg, rfl⟩)
          · exact ⟨old.address, held, OrdMap.getElem?_insert_self _ _ _, rfl⟩
          · exact ⟨a, g, by rw [OrdMap.getElem?_insert_of_ne _ _ _ _ (hother a g hg).1, hg], rfl⟩
        · rintro ⟨a, g, hg, rfl⟩
          rw [OrdMap.getElem?_insert] at hg
          by_cases ha : old.address = a
          · rw [if_pos ha, Option.some.injEq] at hg
            exact .inl (hg ▸ rfl)
          · rw [if_neg ha] at hg
            exact .inr ⟨a, g, hg, rfl⟩
      · rw [OrdMap.getElem?_insert] at hg hk
        by_cases ha : old.address = a <;> by_cases hb : old.address = b
        · exact ha.symm.trans hb
        · rw [if_pos ha, Option.some.injEq] at hg
          rw [if_neg hb] at hk
          exact absurd (heq.symm.trans (hg ▸ rfl)) (hother b k hk).2
        · rw [if_neg ha] at hg
          rw [if_pos hb, Option.some.injEq] at hk
          exact absurd (heq.trans (hk ▸ rfl)) (hother a g hg).2
        · rw [if_neg ha] at hg
          rw [if_neg hb] at hk
          exact h.once a b g k hg hk heq
  · rw [if_neg hfrozen]
    exact hweak

theorem Claims.foldl (news : List Held) (hclaims : Claims numbers olds matching)
    (hfresh : ((olds ++ news).map Held.address).Nodup) :
    Claims numbers (olds ++ news) (news.foldl (Matching.claim numbers) matching) := by
  induction news generalizing olds matching with
  | nil =>
      rw [List.append_nil]
      exact hclaims
  | cons old news ih =>
      have hnot : old.address ∉ olds.map Held.address := by
        rw [List.map_append, List.map_cons] at hfresh
        exact fun hmem => (List.nodup_append.mp hfresh).2.2 _ hmem _ List.mem_cons_self rfl
      rw [List.foldl_cons, List.append_cons]
      refine ih (hclaims.claim old hnot) ?_
      rwa [← List.append_cons]

end Claims

theorem claims_new {old : List Package} (new : List Package)
    (hnames : (old.map Package.name).Nodup) :
    Claims (byNumber new) (heldShapes old) (Matching.new old new) := by
  have hnone : Claims (byNumber new) []
      { pairs := ∅, taken := [], retired := retiredNumbers new } := by
    refine ⟨fun a h ha => ?_, fun x => ?_, fun a b h g ha => ?_⟩
    · rw [Std.ExtTreeMap.getElem?_empty] at ha
      cases ha
    · simp only [List.not_mem_nil, Std.ExtTreeMap.getElem?_empty, reduceCtorEq, false_and,
        exists_false]
    · rw [Std.ExtTreeMap.getElem?_empty] at ha
      cases ha
  exact hnone.foldl (heldShapes old) (nodup_address hnames)

/-! ### Numbers -/

section Numbers

variable {new : List Package}

/-- What a list of shapes adds to the numbers: what is found is a frozen shape
    of the number, and each frozen shape's number is found. -/
theorem byNumber_foldl (helds : List Held) (numbers : OrdMap NumberKey Held) (key : NumberKey)
    (h : Held) (hfound : (helds.foldl (fun numbers held =>
      if frozen held.shape.iface then numbers.insertIfNew (numberKey held) held else numbers)
      numbers)[key]? = some h) :
    numbers[key]? = some h ∨ h ∈ helds ∧ frozen h.shape.iface = true ∧ numberKey h = key := by
  induction helds generalizing numbers with
  | nil => exact .inl hfound
  | cons held helds ih =>
      rw [List.foldl_cons] at hfound
      rcases ih _ hfound with hlater | ⟨hmem, hrest⟩
      · by_cases hfrozen : frozen held.shape.iface = true
        · rw [if_pos hfrozen, Std.ExtTreeMap.getElem?_insertIfNew] at hlater
          split at hlater
          · next hkey =>
              cases hlater
              exact .inr ⟨List.mem_cons_self, hfrozen, Std.compare_eq_iff_eq.mp hkey.1⟩
          · exact .inl hlater
        · rw [if_neg hfrozen] at hlater
          exact .inl hlater
      · exact .inr ⟨List.mem_cons_of_mem _ hmem, hrest⟩

theorem of_byNumber {key : NumberKey} {h : Held} (hfound : (byNumber new)[key]? = some h) :
    h ∈ heldShapes new ∧ frozen h.shape.iface = true ∧ numberKey h = key := by
  rcases byNumber_foldl (heldShapes new) ∅ key h hfound with hnone | hspec
  · rw [Std.ExtTreeMap.getElem?_empty] at hnone
    cases hnone
  · exact hspec

end Numbers

/-! ### The pairs of two packages -/

section Pairing

variable {matching : Matching} {old new : Package}

/-- The new shape of an old one: the one its number claimed, or the one of its
    key, where no number claimed that. -/
def pairOf (matching : Matching) (old new : Package) (entry : ShapeKey × InterfaceShape) :
    Option Held :=
  if frozen entry.2.iface then matching.pairs[(old.name, entry.1)]?
  else if entry.1 ∈ claimed matching new then none
  else ((shapesByKey new)[entry.1]?).map (fun shape => ⟨new, shape⟩)

/-- An old shape without a number meets a new shape of its key. -/
def Meets (new : Package) (entry : ShapeKey × InterfaceShape) : Prop :=
  frozen entry.2.iface = false ∧ ((shapesByKey new)[entry.1]?).isSome = true

theorem pairShape_spec (matching : Matching) (old new : Package) (pairing : Pairing)
    (entry : ShapeKey × InterfaceShape) (hfresh : pairing.pairs[entry.1]? = none)
    (htaken : entry.1 ∈ pairing.taken ↔ entry.1 ∈ claimed matching new) :
    (pairShape matching old new pairing entry).pairs[entry.1]? = pairOf matching old new entry ∧
    (∀ key, key ≠ entry.1 →
      (pairShape matching old new pairing entry).pairs[key]? = pairing.pairs[key]?) ∧
    ∀ key, key ∈ (pairShape matching old new pairing entry).taken ↔
      key ∈ pairing.taken ∨ key = entry.1 ∧ Meets new entry := by
  unfold pairShape pairOf Meets
  by_cases hfrozen : frozen entry.2.iface = true
  · simp only [hfrozen, if_true, Bool.true_eq_false, false_and, and_false, or_false]
    rcases matching.pairs[(old.name, entry.1)]? with _ | held
    · exact ⟨hfresh, fun _ _ => rfl, fun _ => Iff.rfl⟩
    · exact ⟨OrdMap.getElem?_insert_self _ _ _,
        fun key hne => OrdMap.getElem?_insert_of_ne _ _ _ _ hne.symm, fun _ => Iff.rfl⟩
  · rw [if_neg hfrozen, if_neg hfrozen]
    rcases hshape : (shapesByKey new)[entry.1]? with _ | shape
    · simp only [Option.map_none, ite_self, hfresh, Option.isSome_none, Bool.false_eq_true,
        and_false, or_false, implies_true, and_self]
    · by_cases hmem : entry.1 ∈ claimed matching new
      · rw [if_pos hmem]
        simp only [List.contains_iff_mem.mpr (htaken.mpr hmem), if_true]
        refine ⟨hfresh, fun _ _ => trivial, fun key => ⟨.inl, ?_⟩⟩
        rintro (hin | ⟨rfl, -⟩)
        · exact hin
        · exact htaken.mpr hmem
      · have hnot : pairing.taken.contains entry.1 = false := by
          rw [List.contains_eq_mem, decide_eq_false_iff_not]
          exact fun hin => hmem (htaken.mp hin)
        rw [if_neg hmem]
        simp only [hnot, Bool.false_eq_true, if_false, Option.map_some]
        refine ⟨OrdMap.getElem?_insert_self _ _ _,
          fun key hne => OrdMap.getElem?_insert_of_ne _ _ _ _ hne.symm, fun key => ?_⟩
        rw [List.mem_cons, or_comm]
        simp only [Bool.not_eq_true] at hfrozen
        simp only [hfrozen, Option.isSome_some, and_self, and_true]

theorem pairShapes_foldl (entries : List (ShapeKey × InterfaceShape))
    (hkeys : (entries.map Prod.fst).Nodup) (pairing : Pairing)
    (hfresh : ∀ entry ∈ entries, pairing.pairs[entry.1]? = none)
    (htaken : ∀ entry ∈ entries, entry.1 ∈ pairing.taken ↔ entry.1 ∈ claimed matching new) :
    (∀ entry ∈ entries, (entries.foldl (pairShape matching old new) pairing).pairs[entry.1]? =
      pairOf matching old new entry) ∧
    (∀ key, key ∉ entries.map Prod.fst →
      (entries.foldl (pairShape matching old new) pairing).pairs[key]? = pairing.pairs[key]?) ∧
    ∀ key, key ∈ (entries.foldl (pairShape matching old new) pairing).taken ↔
      key ∈ pairing.taken ∨ ∃ entry ∈ entries, key = entry.1 ∧ Meets new entry := by
  induction entries generalizing pairing with
  | nil =>
      simp only [List.not_mem_nil, List.foldl_nil, false_imp_iff, implies_true, false_and,
        exists_false, or_false, and_self]
  | cons entry entries ih =>
      rcases pairShape_spec matching old new pairing entry (hfresh entry List.mem_cons_self)
        (htaken entry List.mem_cons_self) with ⟨hpair, hothers, htook⟩
      rw [List.map_cons, List.nodup_cons] at hkeys
      have hne (other : ShapeKey × InterfaceShape) (hmem : other ∈ entries) : other.1 ≠ entry.1 :=
        fun heq => hkeys.1 (List.mem_map.mpr ⟨other, hmem, heq⟩)
      rcases ih hkeys.2 (pairShape matching old new pairing entry)
        (fun other hmem => (hothers _ (hne other hmem)).trans
          (hfresh other (List.mem_cons_of_mem _ hmem)))
        (fun other hmem => by
          rw [htook, or_iff_left (fun h => hne other hmem h.1)]
          exact htaken other (List.mem_cons_of_mem _ hmem)) with ⟨hpairs, hrest, htaken'⟩
      rw [List.foldl_cons]
      refine ⟨fun other hmem => ?_, fun key hkey => ?_, fun key => ?_⟩
      · rcases List.mem_cons.mp hmem with rfl | hmem
        · rw [hrest _ hkeys.1, hpair]
        · exact hpairs other hmem
      · rw [List.map_cons, List.mem_cons, not_or] at hkey
        rw [hrest key hkey.2, hothers key hkey.1]
      · rw [htaken', htook]
        simp only [List.mem_cons, exists_eq_or_imp, or_assoc]

theorem pairShapes_spec (matching : Matching) (old new : Package) :
    (∀ key shape, (shapesByKey old)[key]? = some shape →
      (pairShapes matching old new).pairs[key]? = pairOf matching old new (key, shape)) ∧
    ∀ key, key ∈ (pairShapes matching old new).taken ↔ key ∈ claimed matching new ∨
      ∃ shape, (shapesByKey old)[key]? = some shape ∧ Meets new (key, shape) := by
  have hkeys : ((shapesByKey old).toList.map Prod.fst).Nodup := by
    rw [Std.ExtTreeMap.map_fst_toList_eq_keys]
    exact Std.ExtTreeMap.nodup_keys
  rcases pairShapes_foldl (shapesByKey old).toList hkeys ⟨∅, claimed matching new⟩
    (fun entry _ => Std.ExtTreeMap.getElem?_empty) (fun entry _ => Iff.rfl) with
    ⟨hpairs, -, htaken⟩
  refine ⟨fun key shape h => hpairs (key, shape)
    (Std.ExtTreeMap.mem_toList_iff_getElem?_eq_some.mpr h), fun key => ?_⟩
  rw [pairShapes, htaken]
  refine or_congr_right ⟨?_, ?_⟩
  · rintro ⟨⟨_, shape⟩, hmem, rfl, hmeets⟩
    exact ⟨shape, Std.ExtTreeMap.mem_toList_iff_getElem?_eq_some.mp hmem, hmeets⟩
  · rintro ⟨shape, hget, hmeets⟩
    exact ⟨(key, shape), Std.ExtTreeMap.mem_toList_iff_getElem?_eq_some.mpr hget, rfl, hmeets⟩

end Pairing

/-! ### The account of the old side -/

namespace Line

/-- The old shapes that a line speaks of. -/
def olds : Line → List ShapeAddress
  | .matched old _ | .retired old | .removed old => [old.address]
  | .packageRemoved old => addresses old
  | .added _ | .packageAdded _ => []

/-- The new shapes that a line speaks of. A package that is added is added with
    the shapes that no number claimed. -/
def news (matching : Matching) : Line → List ShapeAddress
  | .matched _ new | .added new => [new.address]
  | .packageAdded new => (addresses new).filter (fun a => !matching.taken.contains a)
  | .retired _ | .removed _ | .packageRemoved _ => []

end Line

section Olds

variable {matching : Matching} {old new : List Package}

theorem mem_addresses {package : Package} {a : ShapeAddress} :
    a ∈ addresses package ↔
      a.1 = package.name ∧ ((shapesByKey package)[a.2]?).isSome = true := by
  simp only [addresses, List.mem_map, Std.ExtTreeMap.mem_keys,
    Std.ExtTreeMap.mem_iff_isSome_getElem?]
  constructor
  · rintro ⟨key, hkey, rfl⟩
    exact ⟨rfl, hkey⟩
  · rintro ⟨hname, hkey⟩
    exact ⟨a.2, hkey, Prod.ext hname.symm rfl⟩

theorem nodup_addresses (package : Package) : (addresses package).Nodup :=
  Std.ExtTreeMap.nodup_keys.map (fun _ _ h => (Prod.mk.inj h).2)

theorem packagesByName_iff {set : List Package} (hnames : (set.map Package.name).Nodup)
    {name : String} {package : Package} :
    (packagesByName set)[name]? = some package ↔ package ∈ set ∧ package.name = name := by
  have hkeys : ((set.map (fun package => (package.name, package))).map Prod.fst).Nodup := by
    rw [List.map_map]
    exact hnames
  rw [packagesByName, getElem?_collect_iff hkeys, List.mem_map]
  constructor
  · rintro ⟨other, hmem, heq⟩
    cases heq
    exact ⟨hmem, rfl⟩
  · rintro ⟨hmem, rfl⟩
    exact ⟨package, hmem, rfl⟩

theorem name_of_mem_packagesByName {set : List Package} {entry : String × Package}
    (h : entry ∈ (packagesByName set).toList) : entry.2.name = entry.1 := by
  have hget := Std.ExtTreeMap.mem_toList_iff_getElem?_eq_some.mp h
  rcases List.mem_map.mp (OrdMap.mem_of_getElem?_collect _ _ _ hget) with ⟨package, -, heq⟩
  rcases Prod.mk.inj heq with ⟨hname, hpackage⟩
  exact hpackage ▸ hname

theorem olds_oldLine (package : Package) (pairing : Pairing)
    {entry : ShapeKey × InterfaceShape} (h : (shapesByKey package)[entry.1]? = some entry.2) :
    (oldLine matching package pairing entry).olds = [(package.name, entry.1)] := by
  have hkey := key_of_getElem? h
  unfold oldLine
  split
  · simp only [Line.olds, Held.address, hkey]
  · split <;> simp only [Line.olds, Held.address, hkey]

theorem olds_packageLines (old new : Package) :
    (packageLines matching old new).flatMap Line.olds = addresses old := by
  have hadded : ((shapesByKey new).toList.flatMap (fun entry =>
      if (pairShapes matching old new).taken.contains entry.1 then []
      else [Line.added ⟨new, entry.2⟩])).flatMap Line.olds = [] := by
    refine List.flatMap_eq_nil_iff.mpr (fun line hline => ?_)
    rcases List.mem_flatMap.mp hline with ⟨entry, -, hin⟩
    split at hin
    · cases hin
    · rw [List.mem_singleton.mp hin]
      rfl
  rw [packageLines, List.flatMap_append, hadded, List.append_nil, List.flatMap_map, addresses,
    ← Std.ExtTreeMap.map_fst_toList_eq_keys, List.map_map, List.map_eq_flatMap]
  refine List.flatMap_congr (fun entry hentry => ?_)
  exact olds_oldLine old _ (Std.ExtTreeMap.mem_toList_iff_getElem?_eq_some.mp hentry)

theorem olds_oldPackageLines (package : Package) :
    (oldPackageLines matching new package).flatMap Line.olds = addresses package := by
  unfold oldPackageLines
  split
  · exact olds_packageLines package _
  · split
    · exact olds_packageLines package _
    · rw [List.flatMap_singleton]
      rfl

theorem count_olds (hnames : (old.map Package.name).Nodup) {held : Held}
    (hheld : held ∈ heldShapes old) :
    ((interfaceLines old new).flatMap Line.olds).count held.address = 1 := by
  have hadded : ((packagesByName new).toList.flatMap (fun entry =>
      if (packagesByName old).contains entry.1 then []
      else [Line.packageAdded entry.2])).flatMap Line.olds = [] := by
    refine List.flatMap_eq_nil_iff.mpr (fun line hline => ?_)
    rcases List.mem_flatMap.mp hline with ⟨entry, -, hin⟩
    split at hin
    · cases hin
    · rw [List.mem_singleton.mp hin]
      rfl
  have holds : (interfaceLines old new).flatMap Line.olds =
      (packagesByName old).toList.flatMap (fun entry => addresses entry.2) := by
    rw [interfaceLines, List.flatMap_append, hadded, List.append_nil, List.flatMap_assoc]
    exact List.flatMap_congr (fun entry _ => olds_oldPackageLines entry.2)
  rw [holds]
  have hkeys : ((packagesByName old).toList.map Prod.fst).Nodup := by
    rw [Std.ExtTreeMap.map_fst_toList_eq_keys]
    exact Std.ExtTreeMap.nodup_keys
  have hnodup : ((packagesByName old).toList.flatMap (fun entry => addresses entry.2)).Nodup := by
    refine nodup_flatMap_of_owner (fun name a => a.1 = name) hkeys
      (fun entry _ => nodup_addresses _) (fun entry hentry a ha => ?_)
      (fun _ _ _ hj hk => hj.symm.trans hk)
    rw [(mem_addresses.mp ha).1, name_of_mem_packagesByName hentry]
  rcases mem_heldShapes.mp hheld with ⟨hmem, hshape⟩
  refine List.count_eq_one_of_mem hnodup (List.mem_flatMap.mpr
    ⟨(held.package.name, held.package), ?_, mem_addresses.mpr ⟨rfl, ?_⟩⟩)
  · exact Std.ExtTreeMap.mem_toList_iff_getElem?_eq_some.mpr
      ((packagesByName_iff hnames).mpr ⟨hmem, rfl⟩)
  · rw [Held.address, hshape]
    rfl

end Olds

/-! ### The account of the new side -/

/-- The old package whose walk speaks of a new shape: the one that claimed it
    by its number, and otherwise the one of the package's name. -/
def Owns (matching : Matching) (name : String) (a : ShapeAddress) : Prop :=
  (a ∈ matching.taken ∧ ∃ (key : ShapeKey) (h : Held),
    matching.pairs[(name, key)]? = some h ∧ h.address = a) ∨
  a ∉ matching.taken ∧ a.1 = name

section News

variable {numbers : OrdMap NumberKey Held} {helds : List Held} {matching : Matching}

theorem Claims.owner (h : Claims numbers helds matching) (j k : String) (a : ShapeAddress)
    (hj : Owns matching j a) (hk : Owns matching k a) : j = k := by
  rcases hj with ⟨hin, m, f, hf, hfa⟩ | ⟨hout, hname⟩
  · rcases hk with ⟨-, n, g, hg, hga⟩ | ⟨hout, -⟩
    · exact (Prod.mk.inj (h.once _ _ f g hf hg (hfa.trans hga.symm))).1
    · exact absurd hin hout
  · rcases hk with ⟨hin, -⟩ | ⟨-, hname'⟩
    · exact absurd hin hout
    · exact hname.symm.trans hname'

variable {new old : Package} {entry : ShapeKey × InterfaceShape} {a : ShapeAddress}

theorem mem_claimed {key : ShapeKey} :
    key ∈ claimed matching new ↔
      ((shapesByKey new)[key]?).isSome = true ∧ (new.name, key) ∈ matching.taken := by
  simp only [claimed, List.mem_filter, Std.ExtTreeMap.mem_keys,
    Std.ExtTreeMap.mem_iff_isSome_getElem?, List.contains_iff_mem]

theorem pairOf_cases {held : Held} (h : pairOf matching old new entry = some held) :
    frozen entry.2.iface = true ∧ matching.pairs[(old.name, entry.1)]? = some held ∨
    frozen entry.2.iface = false ∧ entry.1 ∉ claimed matching new ∧ held.package = new ∧
      (shapesByKey new)[entry.1]? = some held.shape ∧ held.address = (new.name, entry.1) := by
  unfold pairOf at h
  by_cases hfrozen : frozen entry.2.iface = true
  · rw [if_pos hfrozen] at h
    exact .inl ⟨hfrozen, h⟩
  · rw [if_neg hfrozen] at h
    by_cases hclaimed : entry.1 ∈ claimed matching new
    · rw [if_pos hclaimed] at h
      cases h
    · rw [if_neg hclaimed] at h
      rcases Option.map_eq_some_iff.mp h with ⟨shape, hshape, rfl⟩
      refine .inr ⟨Bool.eq_false_of_not_eq_true hfrozen, hclaimed, rfl, hshape, ?_⟩
      rw [Held.address, key_of_getElem? hshape]

theorem news_oldLine (hentry : (shapesByKey old)[entry.1]? = some entry.2) :
    (oldLine matching old (pairShapes matching old new) entry).news matching =
      ((pairOf matching old new entry).map Held.address).toList := by
  unfold oldLine
  rw [(pairShapes_spec matching old new).1 _ _ hentry]
  rcases pairOf matching old new entry with _ | held
  · simp only [Option.map_none, Option.toList_none]
    split <;> rfl
  · rfl

/-- The new shapes in the lines of old ones. -/
theorem mem_news_matched :
    a ∈ ((shapesByKey old).toList.map (oldLine matching old (pairShapes matching old new))).flatMap
        (Line.news matching) ↔
      ∃ key shape held, (shapesByKey old)[key]? = some shape ∧
        pairOf matching old new (key, shape) = some held ∧ held.address = a := by
  constructor
  · intro h
    rcases List.mem_flatMap.mp h with ⟨line, hline, ha⟩
    rcases List.mem_map.mp hline with ⟨⟨key, shape⟩, hentry, rfl⟩
    have hget := Std.ExtTreeMap.mem_toList_iff_getElem?_eq_some.mp hentry
    rw [news_oldLine hget, Option.mem_toList] at ha
    rcases Option.map_eq_some_iff.mp ha with ⟨held, hheld, haddress⟩
    exact ⟨key, shape, held, hget, hheld, haddress⟩
  · rintro ⟨key, shape, held, hget, hheld, rfl⟩
    refine List.mem_flatMap.mpr ⟨_, List.mem_map.mpr ⟨(key, shape),
      Std.ExtTreeMap.mem_toList_iff_getElem?_eq_some.mpr hget, rfl⟩, ?_⟩
    rw [news_oldLine hget, hheld, Option.mem_toList]
    rfl

/-- The new shapes in the lines of their own. -/
theorem mem_news_added :
    a ∈ ((shapesByKey new).toList.flatMap (fun entry =>
        if (pairShapes matching old new).taken.contains entry.1 then []
        else [Line.added ⟨new, entry.2⟩])).flatMap (Line.news matching) ↔
      ((shapesByKey new)[a.2]?).isSome = true ∧ a.1 = new.name ∧
        a.2 ∉ (pairShapes matching old new).taken := by
  constructor
  · intro h
    rcases List.mem_flatMap.mp h with ⟨line, hline, ha⟩
    rcases List.mem_flatMap.mp hline with ⟨⟨key, shape⟩, hentry, hin⟩
    have hget := Std.ExtTreeMap.mem_toList_iff_getElem?_eq_some.mp hentry
    split at hin
    · cases hin
    · next hfree =>
        rw [List.mem_singleton.mp hin] at ha
        rcases List.mem_singleton.mp ha with rfl
        simp only [Held.address, key_of_getElem? hget]
        exact ⟨by rw [hget]; rfl, trivial, fun hmem => hfree (List.contains_iff_mem.mpr hmem)⟩
  · rintro ⟨hsome, hname, hfree⟩
    rcases Option.isSome_iff_exists.mp hsome with ⟨shape, hshape⟩
    refine List.mem_flatMap.mpr ⟨.added ⟨new, shape⟩, List.mem_flatMap.mpr ⟨(a.2, shape),
      Std.ExtTreeMap.mem_toList_iff_getElem?_eq_some.mpr hshape, ?_⟩, ?_⟩
    · rw [if_neg (fun hin => hfree (List.contains_iff_mem.mp hin))]
      exact List.mem_singleton_self _
    · refine List.mem_singleton.mpr (Prod.ext hname ?_)
      exact (key_of_getElem? hshape).symm

theorem mem_news_packageLines :
    a ∈ (packageLines matching old new).flatMap (Line.news matching) ↔
      (∃ key shape held, (shapesByKey old)[key]? = some shape ∧
        pairOf matching old new (key, shape) = some held ∧ held.address = a) ∨
      ((shapesByKey new)[a.2]?).isSome = true ∧ a.1 = new.name ∧
        a.2 ∉ (pairShapes matching old new).taken := by
  rw [packageLines, List.flatMap_append, List.mem_append, mem_news_matched, mem_news_added]

theorem not_taken_of_not_claimed (hname : a.1 = new.name)
    (hsome : ((shapesByKey new)[a.2]?).isSome = true) (hfree : a.2 ∉ claimed matching new) :
    a ∉ matching.taken := by
  intro hin
  refine hfree (mem_claimed.mpr ⟨hsome, ?_⟩)
  rwa [← hname]

theorem Claims.pair_once (h : Claims numbers helds matching)
    {j k : ShapeKey} {s t : InterfaceShape} {f g : Held}
    (hj : pairOf matching old new (j, s) = some f) (hk : pairOf matching old new (k, t) = some g)
    (haddress : f.address = g.address) : j = k := by
  have hmixed {j k : ShapeKey} {f g : Held} (hf : matching.pairs[(old.name, j)]? = some f)
      (hclaimed : k ∉ claimed matching new) (hshape : (shapesByKey new)[k]? = some g.shape)
      (hg : g.address = (new.name, k)) (haddress : f.address = g.address) : False := by
    have hsome : ((shapesByKey new)[g.address.2]?).isSome = true := by
      rw [hg, hshape]
      rfl
    refine not_taken_of_not_claimed (hg ▸ rfl) hsome (by rwa [hg]) ?_
    exact (h.taken _).mpr ⟨_, f, hf, haddress⟩
  rcases pairOf_cases hj with ⟨-, hf⟩ | ⟨-, hclaimed, -, hshape, hf⟩
  · rcases pairOf_cases hk with ⟨-, hg⟩ | ⟨-, hclaimed, -, hshape, hg⟩
    · exact (Prod.mk.inj (h.once _ _ f g hf hg haddress)).2
    · exact (hmixed hf hclaimed hshape hg haddress).elim
  · rcases pairOf_cases hk with ⟨-, hg⟩ | ⟨-, -, -, -, hg⟩
    · exact (hmixed hg hclaimed hshape hf haddress.symm).elim
    · exact (Prod.mk.inj (hf.symm.trans (haddress.trans hg))).2

theorem Claims.owns_pair (h : Claims numbers helds matching)
    (hname : new.name = old.name) {held : Held}
    (hheld : pairOf matching old new entry = some held) : Owns matching old.name held.address := by
  rcases pairOf_cases hheld with ⟨-, hpair⟩ | ⟨-, hclaimed, -, hshape, haddress⟩
  · exact .inl ⟨(h.taken _).mpr ⟨_, held, hpair, rfl⟩, entry.1, held, hpair, rfl⟩
  · refine .inr ⟨?_, by rw [haddress, hname]⟩
    rw [haddress]
    exact not_taken_of_not_claimed rfl (by rw [hshape]; rfl) hclaimed

/-- Every shape the walk of two packages of one name speaks of is owned by the
    old one. -/
theorem Claims.owns_news (h : Claims numbers helds matching) (hname : new.name = old.name)
    (ha : a ∈ (packageLines matching old new).flatMap (Line.news matching)) :
    Owns matching old.name a := by
  rcases mem_news_packageLines.mp ha with ⟨key, shape, held, -, hheld, rfl⟩ |
    ⟨hsome, haddress, hfree⟩
  · exact h.owns_pair hname hheld
  · refine .inr ⟨not_taken_of_not_claimed haddress hsome (fun hclaimed => hfree ?_),
      haddress.trans hname⟩
    exact ((pairShapes_spec matching old new).2 _).mpr (.inl hclaimed)

/-- The walk of two packages speaks of no new shape twice. -/
theorem Claims.nodup_news (h : Claims numbers helds matching) (old new : Package) :
    ((packageLines matching old new).flatMap (Line.news matching)).Nodup := by
  have hkeys (package : Package) : ((shapesByKey package).toList.map Prod.fst).Nodup := by
    rw [Std.ExtTreeMap.map_fst_toList_eq_keys]
    exact Std.ExtTreeMap.nodup_keys
  rw [packageLines, List.flatMap_append]
  refine List.nodup_append.mpr ⟨?_, ?_, fun a ha b hb heq => ?_⟩
  · rw [List.flatMap_map]
    refine nodup_flatMap_of_owner (fun key a => ∃ shape held,
      pairOf matching old new (key, shape) = some held ∧ held.address = a) (hkeys old)
      (fun entry hentry => ?_) (fun entry hentry a ha => ?_) ?_
    · rw [news_oldLine (Std.ExtTreeMap.mem_toList_iff_getElem?_eq_some.mp hentry)]
      rcases pairOf matching old new entry with _ | held
      · exact List.nodup_nil
      · exact List.nodup_singleton _
    · rw [news_oldLine (Std.ExtTreeMap.mem_toList_iff_getElem?_eq_some.mp hentry),
        Option.mem_toList] at ha
      rcases Option.map_eq_some_iff.mp ha with ⟨held, hheld, haddress⟩
      exact ⟨entry.2, held, hheld, haddress⟩
    · rintro j k a ⟨s, f, hf, rfl⟩ ⟨t, g, hg, heq⟩
      exact h.pair_once hf hg heq.symm
  · rw [List.flatMap_assoc]
    refine nodup_flatMap_of_owner (fun key a => a.2 = key) (hkeys new)
      (fun entry hentry => ?_) (fun entry hentry a ha => ?_)
      (fun _ _ _ hj hk => hj.symm.trans hk)
    · split
      · exact List.nodup_nil
      · exact List.nodup_singleton _
    · split at ha
      · cases ha
      · rcases List.mem_singleton.mp ha with rfl
        exact key_of_getElem? (Std.ExtTreeMap.mem_toList_iff_getElem?_eq_some.mp hentry)
  · -- A shape in a pair is taken, and one that is added is not.
    subst heq
    rcases mem_news_matched.mp ha with ⟨key, shape, held, hget, hheld, rfl⟩
    rcases mem_news_added.mp hb with ⟨hsome, hname, hfree⟩
    rw [(pairShapes_spec matching old new).2, not_or] at hfree
    rcases pairOf_cases hheld with ⟨-, hpair⟩ | ⟨hfrozen, -, -, hshape, haddress⟩
    · exact not_taken_of_not_claimed hname hsome hfree.1 ((h.taken _).mpr ⟨_, held, hpair, rfl⟩)
    · refine hfree.2 ⟨shape, ?_, hfrozen, hsome⟩
      rw [haddress]
      exact hget

end News

section Sets

variable {old new : List Package}

/-- The lines of the packages that are on the new side alone. -/
def addedPackageLines (old new : List Package) : List Line :=
  (packagesByName new).toList.flatMap (fun entry =>
    if (packagesByName old).contains entry.1 then [] else [.packageAdded entry.2])

variable {matching : Matching} {a : ShapeAddress}

theorem mem_news_addedPackageLines :
    a ∈ (addedPackageLines old new).flatMap (Line.news matching) ↔
      ∃ package, (packagesByName new)[package.name]? = some package ∧
        (packagesByName old).contains package.name = false ∧ a ∈ addresses package ∧
        a ∉ matching.taken := by
  constructor
  · intro h
    rcases List.mem_flatMap.mp h with ⟨line, hline, ha⟩
    rcases List.mem_flatMap.mp hline with ⟨entry, hentry, hin⟩
    have hname := name_of_mem_packagesByName hentry
    have hget := Std.ExtTreeMap.mem_toList_iff_getElem?_eq_some.mp hentry
    split at hin
    · cases hin
    · next hnot =>
        rcases List.mem_singleton.mp hin with rfl
        rcases List.mem_filter.mp ha with ⟨hmem, hfree⟩
        refine ⟨entry.2, hname ▸ hget, hname ▸ Bool.eq_false_of_not_eq_true hnot, hmem,
          fun hin => ?_⟩
        rw [List.contains_iff_mem.mpr hin] at hfree
        cases hfree
  · rintro ⟨package, hget, hnot, hmem, hfree⟩
    refine List.mem_flatMap.mpr ⟨.packageAdded package, List.mem_flatMap.mpr
      ⟨(package.name, package), Std.ExtTreeMap.mem_toList_iff_getElem?_eq_some.mpr hget, ?_⟩,
      List.mem_filter.mpr ⟨hmem, ?_⟩⟩
    · rw [if_neg (by rw [hnot]; exact Bool.false_ne_true)]
      exact List.mem_singleton_self _
    · rw [Bool.not_eq_true', List.contains_eq_mem]
      exact decide_eq_false hfree

theorem owns_oldPackageLines {numbers : OrdMap NumberKey Held} {helds : List Held}
    (hclaims : Claims numbers helds matching) (package : Package)
    (ha : a ∈ (oldPackageLines matching new package).flatMap
      (Line.news matching)) : Owns matching package.name a := by
  unfold oldPackageLines at ha
  split at ha
  · next other hother =>
      have hname := name_of_mem_packagesByName
        (Std.ExtTreeMap.mem_toList_iff_getElem?_eq_some.mpr hother)
      exact hclaims.owns_news hname ha
  · split at ha
    · have hname : (gone package).name = package.name := rfl
      exact hclaims.owns_news hname ha
    · rcases List.mem_flatMap.mp ha with ⟨line, hline, hin⟩
      rw [List.mem_singleton.mp hline] at hin
      cases hin

theorem nodup_oldPackageLines {numbers : OrdMap NumberKey Held} {helds : List Held}
    (hclaims : Claims numbers helds matching) (package : Package) :
    ((oldPackageLines matching new package).flatMap (Line.news matching)).Nodup := by
  unfold oldPackageLines
  split
  · exact hclaims.nodup_news _ _
  · split
    · exact hclaims.nodup_news _ _
    · exact List.nodup_nil

/-- The walk speaks of no new shape twice. -/
theorem nodup_news (hnames : (old.map Package.name).Nodup) :
    ((interfaceLines old new).flatMap (Line.news (Matching.new old new))).Nodup := by
  have hclaims := claims_new new hnames
  have hkeys (set : List Package) : ((packagesByName set).toList.map Prod.fst).Nodup := by
    rw [Std.ExtTreeMap.map_fst_toList_eq_keys]
    exact Std.ExtTreeMap.nodup_keys
  have howns : ∀ entry ∈ (packagesByName old).toList,
      ∀ a ∈ (oldPackageLines (Matching.new old new) new entry.2).flatMap
        (Line.news (Matching.new old new)), Owns (Matching.new old new) entry.1 a :=
    fun entry hentry a ha =>
      name_of_mem_packagesByName hentry ▸ owns_oldPackageLines hclaims entry.2 ha
  rw [interfaceLines, List.flatMap_append, List.flatMap_assoc]
  refine List.nodup_append.mpr ⟨?_, ?_, fun a ha b hb heq => ?_⟩
  · exact nodup_flatMap_of_owner (Owns (Matching.new old new)) (hkeys old)
      (fun entry _ => nodup_oldPackageLines hclaims entry.2) howns hclaims.owner
  · rw [List.flatMap_assoc]
    refine nodup_flatMap_of_owner (fun name a => a.1 = name) (hkeys new)
      (fun entry _ => ?_) (fun entry hentry a ha => ?_) (fun _ _ _ hj hk => hj.symm.trans hk)
    · split
      · exact List.nodup_nil
      · rw [List.flatMap_singleton]
        exact (nodup_addresses _).filter _
    · split at ha
      · cases ha
      · rw [List.flatMap_singleton] at ha
        rw [(mem_addresses.mp (List.mem_filter.mp ha).1).1, name_of_mem_packagesByName hentry]
  · -- A package that is added is not on the old side, so no walk owns its shapes.
    subst heq
    rcases mem_news_addedPackageLines.mp hb with ⟨package, hget, hnot, hmem, hfree⟩
    rcases List.mem_flatMap.mp ha with ⟨entry, hentry, hin⟩
    rcases howns entry hentry a hin with ⟨htaken, -⟩ | ⟨-, hname⟩
    · exact hfree htaken
    · rw [← (mem_addresses.mp hmem).1, hname, ← Bool.not_eq_true,
        Std.ExtTreeMap.contains_iff_mem, Std.ExtTreeMap.mem_iff_isSome_getElem?] at hnot
      rw [Std.ExtTreeMap.mem_toList_iff_getElem?_eq_some.mp hentry] at hnot
      exact hnot rfl

/-- A shape that a number claimed is in the walk of the package that claimed
    it. -/
theorem mem_news_of_taken (hnames : (old.map Package.name).Nodup)
    (ha : a ∈ (Matching.new old new).taken) :
    a ∈ (interfaceLines old new).flatMap (Line.news (Matching.new old new)) := by
  have hclaims := claims_new new hnames
  rcases (hclaims.taken a).mp ha with ⟨b, held, hpair, rfl⟩
  rcases hclaims.claimant b held hpair with ⟨o, ho, rfl, hfrozen, hnumber⟩
  rcases mem_heldShapes.mp ho with ⟨hmem, hshape⟩
  rcases of_byNumber hnumber with ⟨hnew, -, hkey⟩
  have hpairOf (package : Package) :
      pairOf (Matching.new old new) o.package package (shapeKey o.shape, o.shape) = some held := by
    unfold pairOf
    rw [if_pos hfrozen]
    exact hpair
  rw [interfaceLines, List.flatMap_append, List.flatMap_assoc]
  refine List.mem_append_left _ (List.mem_flatMap.mpr ⟨(o.package.name, o.package),
    Std.ExtTreeMap.mem_toList_iff_getElem?_eq_some.mpr
      ((packagesByName_iff hnames).mpr ⟨hmem, rfl⟩), ?_⟩)
  unfold oldPackageLines
  split
  · exact mem_news_packageLines.mpr (.inl ⟨_, _, held, hshape, hpairOf _, rfl⟩)
  · -- The unit that holds the number is there, so the package is walked.
    have hunit : new.any (fun package => unitOf package == unitOf o.package) = true :=
      List.any_eq_true.mpr ⟨held.package, (mem_heldShapes.mp hnew).1,
        beq_iff_eq.mpr (Prod.mk.inj hkey).1⟩
    rw [if_pos hunit]
    exact mem_news_packageLines.mpr (.inl ⟨_, _, held, hshape, hpairOf _, rfl⟩)

theorem count_news (hold : (old.map Package.name).Nodup) (hnew : (new.map Package.name).Nodup)
    {held : Held} (hheld : held ∈ heldShapes new) :
    ((interfaceLines old new).flatMap (Line.news (Matching.new old new))).count held.address =
      1 := by
  refine List.count_eq_one_of_mem (nodup_news hold) ?_
  by_cases htaken : held.address ∈ (Matching.new old new).taken
  · exact mem_news_of_taken hold htaken
  rcases mem_heldShapes.mp hheld with ⟨hmem, hshape⟩
  have hget := (packagesByName_iff hnew).mpr ⟨hmem, rfl⟩
  rw [interfaceLines, List.flatMap_append, List.flatMap_assoc]
  rcases hcontains : (packagesByName old).contains held.package.name with _ | _
  · refine List.mem_append_right _ (mem_news_addedPackageLines.mpr ⟨held.package, hget, hcontains,
      mem_addresses.mpr ⟨rfl, ?_⟩, htaken⟩)
    rw [Held.address, hshape]
    rfl
  · rw [Std.ExtTreeMap.contains_iff_mem, Std.ExtTreeMap.mem_iff_isSome_getElem?,
      Option.isSome_iff_exists] at hcontains
    rcases hcontains with ⟨package, hpackage⟩
    refine List.mem_append_left _ (List.mem_flatMap.mpr ⟨(held.package.name, package),
      Std.ExtTreeMap.mem_toList_iff_getElem?_eq_some.mpr hpackage, ?_⟩)
    rw [oldPackageLines, ((packagesByName_iff hold).mp hpackage).2, hget]
    refine mem_news_packageLines.mpr ?_
    -- The shape is paired by its key, or it is added.
    have hsome : ((shapesByKey held.package)[shapeKey held.shape]?).isSome = true := by
      rw [hshape]
      rfl
    by_cases htook : shapeKey held.shape ∈
        (pairShapes (Matching.new old new) package held.package).taken
    · rcases ((pairShapes_spec _ _ _).2 _).mp htook with hclaimed | ⟨shape, hold', hmeets⟩
      · exact absurd (mem_claimed.mp hclaimed).2 htaken
      · refine .inl ⟨_, shape, held, hold', ?_, rfl⟩
        have hfree : shapeKey held.shape ∉ claimed (Matching.new old new) held.package :=
          fun hclaimed => htaken (mem_claimed.mp hclaimed).2
        unfold pairOf
        rw [if_neg (by rw [hmeets.1]; exact Bool.false_ne_true), if_neg hfree, hshape]
        rfl
    · exact .inr ⟨hsome, rfl, htook⟩

end Sets

end Diff

end Ridl
