import Ridl.Diff.Ordinals
import Ridl.Diff.OneToOne

/-!
# Looking Up What Was Compared

The walk compares two interactions and reports a change with a path. The
classifier finds the two again by that path, and by the number of the new
shape. The walk tells a declared interface from the inline shape of a service
by its form, and the path does not: where both have one name, the classifier
finds the declared one for either (`found_declared`).

It finds what the walk compared where no declared interface has the name of an
inline shape of a pair, and where a pair by name is not mistaken for one by
number, which takes a package that moved to another unit (`Unmistakable`).

## Theorems

* `findShape_iff`: When a shape is found by its name.
* `of_matched`: What a pair of the walk is.
* `lookups`: Each interface is spoken of once, and when its pair is found.
-/

namespace Ridl

namespace Diff

open Library

/-! ### What the classifier reads -/

/-- The package that a change's new side is in: the walked one, unless the path
    names another. -/
def newSide (change : Change) (new : Package) (scope : List Package) : Package :=
  let heldBy := (segments change.path).headD ""
  if heldBy = new.name then new
  else (scope.find? (fun package => package.name == heldBy)).getD new

/-- The changes of two packages with their verdicts. -/
def classifyAll (changes : List Change) (old new : Package) (scope : List Package) :
    List (Change × Verdict) :=
  changes.map (fun change => (change, classifyScoped change old (newSide change new scope) scope))

def walkedAgainst (new : List Package) (old : Package) : Package :=
  (packagesByName new)[old.name]?.getD (gone old)

/-- The lookups of a change find the two shapes that the walk compared, and in
    them the interactions of the change's name. -/
structure LooksUp (oldPackage newPackage : Package) (old new : InterfaceShape) (change : Change) :
    Prop where
  oldShape : findOldShape oldPackage newPackage new.name = some old
  newShape : findShape newPackage new.name = some new
  interactions : ∃ member, memberPath change = some (new.name, member) ∧
    (∀ decl ∈ liveInteractions old.iface, decl.name = member →
      findOldInteraction oldPackage newPackage new.name member = some decl) ∧
    ∀ decl ∈ liveInteractions new.iface, decl.name = member →
      findInteraction newPackage new.name member = some decl

/-- No declared interface has the name of an inline shape of the pair where the
    classifier looks by name, and where the pair was made by name, no number of
    the old package leads elsewhere. -/
def Unmistakable (old new : Held) : Prop :=
  (new.shape.isInline = true → ∀ iface ∈ new.package.interfaces, iface.name ≠ new.shape.name) ∧
  (frozen old.shape.iface = false →
    (old.shape.isInline = true → ∀ iface ∈ old.package.interfaces, iface.name ≠ old.shape.name) ∧
    (frozen new.shape.iface = true → ∀ shape ∈ old.package.shapes,
      frozen shape.iface = true → shape.iface.number ≠ new.shape.iface.number))

/-! ### Sets in order -/

/-- The names of the slots are identifiers, and an interaction's is its own. -/
structure Interface.Lawful (iface : Interface) : Prop where
  plain : ∀ name ∈ iface.interactions.filterMap slotName, '/' ∉ name.toList
  distinct : ∀ decl ∈ iface.interactions, ∀ live ∈ liveInteractions iface,
    decl.name = live.name → decl = live

/-- The names are identifiers, no two shapes are of one form and name, and a
    frozen number is that of one shape. -/
structure Package.Lawful (package : Package) : Prop where
  plain : '/' ∉ package.name.toList
  shapes : ∀ shape ∈ package.shapes, '/' ∉ shape.name.toList ∧ shape.iface.Lawful
  keys : (package.shapes.map shapeKey).Nodup
  numbers : ∀ s ∈ package.shapes, ∀ t ∈ package.shapes, frozen s.iface = true →
    frozen t.iface = true → s.iface.number = t.iface.number → s = t

/-- A set of packages with names of their own. -/
structure LawfulSet (set : List Package) : Prop where
  names : (set.map Package.name).Nodup
  packages : ∀ package ∈ set, package.Lawful

/-! ### Shapes by name -/

section Shapes

variable {package : Package} {shape : InterfaceShape}

theorem mem_shapes : shape ∈ package.shapes ↔
    (∃ iface ∈ package.interfaces, shape = ⟨iface.name, iface, none⟩) ∨
      shape ∈ package.services.flatMap Service.inlineShapes := by
  rw [Package.shapes, List.mem_append, List.mem_map]
  refine or_congr_left ⟨?_, ?_⟩
  · rintro ⟨iface, hmem, rfl⟩
    exact ⟨iface, hmem, rfl⟩
  · rintro ⟨iface, hmem, rfl⟩
    exact ⟨iface, hmem, rfl⟩

theorem isInline_of_mem_services (h : shape ∈ package.services.flatMap Service.inlineShapes) :
    shape.isInline = true := by
  rcases List.mem_flatMap.mp h with ⟨service, -, hin⟩
  rcases List.mem_filterMap.mp hin with ⟨slot, -, hslot⟩
  split at hslot
  · rcases Option.some.inj hslot with rfl
    rfl
  · cases hslot

theorem getElem?_shapesByKey (h : package.Lawful) :
    (shapesByKey package)[shapeKey shape]? = some shape ↔ shape ∈ package.shapes := by
  have hkeys : ((package.shapes.map (fun shape => (shapeKey shape, shape))).map
      Prod.fst).Nodup := by
    rw [List.map_map]
    exact h.keys
  rw [shapesByKey, getElem?_collect_iff hkeys, List.mem_map]
  constructor
  · rintro ⟨other, hmem, heq⟩
    exact (Prod.mk.inj heq).2 ▸ hmem
  · intro hmem
    exact ⟨shape, hmem, rfl⟩

theorem findShape_iff (h : package.Lawful) (hmem : shape ∈ package.shapes) :
    findShape package shape.name = some shape ↔
      (shape.isInline = true → ∀ iface ∈ package.interfaces, iface.name ≠ shape.name) := by
  have hkey {other : InterfaceShape} (hother : other ∈ package.shapes)
      (hname : other.name = shape.name) (hform : other.isInline = shape.isInline) :
      other = shape :=
    eq_of_key_eq h.keys hother hmem (Prod.ext hform hname)
  unfold findShape
  rw [Package.shapes, List.find?_append]
  rcases hdeclared : (package.interfaces.map (fun iface =>
    ({ name := iface.name, iface := iface, service := none } : InterfaceShape))).find?
      (fun other => other.name == shape.name) with _ | other
  · -- No declared interface has the name, so the shape is inline.
    rw [hdeclared, Option.none_or]
    have hnone (iface : Interface) (hiface : iface ∈ package.interfaces) :
        iface.name ≠ shape.name := by
      intro hname
      have hnot := List.find?_eq_none.mp hdeclared _ (List.mem_map.mpr ⟨iface, hiface, rfl⟩)
      exact hnot (beq_iff_eq.mpr hname)
    have hinline : shape ∈ package.services.flatMap Service.inlineShapes := by
      rcases mem_shapes.mp hmem with ⟨iface, hiface, heq⟩ | hinline
      · exact absurd (congrArg InterfaceShape.name heq).symm (hnone iface hiface)
      · exact hinline
    refine ⟨fun _ _ => hnone, fun _ => ?_⟩
    rcases hfound : (package.services.flatMap Service.inlineShapes).find?
      (fun other => other.name == shape.name) with _ | other
    · exact absurd (beq_self_eq_true _) (List.find?_eq_none.mp hfound shape hinline)
    · have hname := List.find?_some hfound
      have hother := List.mem_of_find?_eq_some hfound
      exact hfound.trans (congrArg some (hkey (mem_shapes.mpr (.inr hother)) (eq_of_beq hname)
        ((isInline_of_mem_services hother).trans (isInline_of_mem_services hinline).symm)))
  · rw [hdeclared, Option.some_or, Option.some.injEq]
    have hname := List.find?_some hdeclared
    rcases List.mem_map.mp (List.mem_of_find?_eq_some hdeclared) with ⟨iface, hiface, rfl⟩
    constructor
    · rintro rfl hinline
      cases hinline
    · intro hfree
      refine hkey (mem_shapes.mpr (.inl ⟨iface, hiface, rfl⟩)) (eq_of_beq hname) ?_
      rcases hform : shape.isInline with _ | _
      · rfl
      · exact absurd (eq_of_beq hname) (hfree hform iface hiface)

theorem find_number (h : package.Lawful) (hmem : shape ∈ package.shapes)
    (hfrozen : frozen shape.iface = true) {number : Nat} (hnumber : shape.iface.number = number) :
    package.shapes.find? (fun other => frozen other.iface && other.iface.number == number) =
      some shape := by
  rcases hfound : package.shapes.find?
    (fun other => frozen other.iface && other.iface.number == number) with _ | other
  · have hnot := List.find?_eq_none.mp hfound shape hmem
    rw [hfrozen, hnumber, Bool.true_and] at hnot
    exact absurd (beq_self_eq_true _) hnot
  · have hboth := List.find?_some hfound
    rcases Bool.and_eq_true_iff.mp hboth with ⟨hother, heq⟩
    exact hfound.trans (congrArg some (h.numbers other (List.mem_of_find?_eq_some hfound) shape
      hmem hother hfrozen ((eq_of_beq heq).trans hnumber.symm)))

end Shapes

/-! ### The pairs of the walk -/

section Pairs

variable {old new : List Package} {o n : Held}

theorem oldLine_matched {matching : Matching} {package : Package} {pairing : Pairing}
    {entry : ShapeKey × InterfaceShape}
    (h : oldLine matching package pairing entry = .matched o n) :
    o = ⟨package, entry.2⟩ ∧ pairing.pairs[entry.1]? = some n := by
  unfold oldLine at h
  rcases hpair : pairing.pairs[entry.1]? with _ | held
  · rw [hpair] at h
    simp only at h
    split at h <;> cases h
  · rw [hpair] at h
    cases h
    exact ⟨rfl, rfl⟩

theorem packageLines_matched {matching : Matching} {package walked : Package}
    (h : .matched o n ∈ packageLines matching package walked) :
    o.package = package ∧ (shapesByKey package)[shapeKey o.shape]? = some o.shape ∧
      pairOf matching package walked (shapeKey o.shape, o.shape) = some n := by
  rcases List.mem_append.mp h with hold | hadded
  · rcases List.mem_map.mp hold with ⟨entry, hentry, hline⟩
    rcases oldLine_matched hline with ⟨rfl, hpair⟩
    have hget := Std.ExtTreeMap.mem_toList_iff_getElem?_eq_some.mp hentry
    rw [(pairShapes_spec matching package walked).1 _ _ hget] at hpair
    rw [key_of_getElem? hget]
    exact ⟨rfl, hget, hpair⟩
  · rcases List.mem_flatMap.mp hadded with ⟨entry, -, hin⟩
    split at hin
    · cases hin
    · cases List.mem_singleton.mp hin

theorem pairOf_of_matched (hold : LawfulSet old) (h : .matched o n ∈ interfaceLines old new) :
    o ∈ heldShapes old ∧ pairOf (Matching.new old new) o.package (walkedAgainst new o.package)
      (shapeKey o.shape, o.shape) = some n := by
  rcases List.mem_append.mp h with hwalk | hadded
  · rcases List.mem_flatMap.mp hwalk with ⟨entry, hentry, hline⟩
    have hget := Std.ExtTreeMap.mem_toList_iff_getElem?_eq_some.mp hentry
    have hmem := ((packagesByName_iff hold.names).mp hget).1
    unfold oldPackageLines at hline
    rcases hwalked : (packagesByName new)[entry.2.name]? with _ | package
    · simp only [hwalked] at hline
      split at hline
      · rcases packageLines_matched hline with ⟨hpackage, hshape, hpair⟩
        refine ⟨mem_heldShapes.mpr ⟨hpackage ▸ hmem, hpackage ▸ hshape⟩, ?_⟩
        rw [walkedAgainst, hpackage, hwalked]
        exact hpair
      · cases List.mem_singleton.mp hline
    · simp only [hwalked] at hline
      rcases packageLines_matched hline with ⟨hpackage, hshape, hpair⟩
      refine ⟨mem_heldShapes.mpr ⟨hpackage ▸ hmem, hpackage ▸ hshape⟩, ?_⟩
      rw [walkedAgainst, hpackage, hwalked]
      exact hpair
  · rcases List.mem_flatMap.mp hadded with ⟨entry, -, hin⟩
    split at hin
    · cases hin
    · cases List.mem_singleton.mp hin

theorem walkedAgainst_cases (hnew : LawfulSet new) (package : Package) :
    (walkedAgainst new package ∈ new ∧ (walkedAgainst new package).name = package.name) ∨
      walkedAgainst new package = gone package ∧ ∀ other ∈ new, other.name ≠ package.name := by
  unfold walkedAgainst
  rcases hget : (packagesByName new)[package.name]? with _ | other
  · refine .inr ⟨rfl, fun other hmem hname => ?_⟩
    rw [(packagesByName_iff hnew.names).mpr ⟨hmem, hname⟩] at hget
    cases hget
  · exact .inl ((packagesByName_iff hnew.names).mp hget)

theorem of_matched (hold : LawfulSet old) (hnew : LawfulSet new)
    (h : .matched o n ∈ interfaceLines old new) :
    (o.package ∈ old ∧ o.shape ∈ o.package.shapes) ∧
    (n.package ∈ new ∧ n.shape ∈ n.package.shapes) ∧
    ((frozen o.shape.iface = true ∧ frozen n.shape.iface = true ∧
        o.shape.iface.number = n.shape.iface.number) ∨
      frozen o.shape.iface = false ∧ o.shape.isInline = n.shape.isInline ∧
        o.shape.name = n.shape.name) := by
  rcases pairOf_of_matched hold h with ⟨hheld, hpair⟩
  rcases mem_heldShapes.mp hheld with ⟨hmem, hshape⟩
  have ho := (getElem?_shapesByKey (hold.packages _ hmem)).mp hshape
  refine ⟨⟨hmem, ho⟩, ?_⟩
  rcases pairOf_cases hpair with ⟨hfrozen, hnumber⟩ | ⟨hfrozen, -, hpackage, hget, haddress⟩
  · -- The number's claimant is the shape itself.
    rcases (claims_new new hold.names).claimant _ _ hnumber with ⟨p, hp, haddress, -, hfound⟩
    have hsame : p = o := eq_of_key_eq (nodup_address hold.names) hp hheld haddress
    rcases of_byNumber hfound with ⟨hn, hnfrozen, hkey⟩
    rcases mem_heldShapes.mp hn with ⟨hnmem, hnshape⟩
    refine ⟨⟨hnmem, (getElem?_shapesByKey (hnew.packages _ hnmem)).mp hnshape⟩,
      .inl ⟨hfrozen, hnfrozen, ?_⟩⟩
    rw [← hsame]
    exact (Prod.mk.inj hkey).2.symm
  · have hkey : shapeKey n.shape = shapeKey o.shape := (Prod.mk.inj haddress).2
    rcases walkedAgainst_cases hnew o.package with ⟨hin, -⟩ | ⟨hgone, -⟩
    · rw [← hpackage] at hin hget
      rw [← hkey] at hget
      exact ⟨⟨hin, (getElem?_shapesByKey (hnew.packages _ hin)).mp hget⟩,
        .inr ⟨hfrozen, (Prod.mk.inj hkey).1.symm, (Prod.mk.inj hkey).2.symm⟩⟩
    · rw [hgone] at hget
      cases (key_of_getElem? hget).symm ▸ hget

end Pairs

/-! ### The paths of an interface's changes -/

section Paths

variable {old new : Interface} {pkg iface : String}

theorem mem_slotNames_of_live {decl : Decl} (h : decl ∈ liveInteractions old) :
    decl.name ∈ old.interactions.filterMap slotName := by
  rcases List.mem_filter.mp h with ⟨hmem, hlive⟩
  refine List.mem_filterMap.mpr ⟨decl, hmem, ?_⟩
  unfold slotName
  split at hlive
  · cases hlive
  · cases hlive
  · next kind hnot hkind =>
      rw [hkind]
      split
      · next reserved heq => exact (hnot reserved (Option.some.inj heq)).elim
      · rfl
      · next heq => cases heq

theorem mem_slotNames_of_reserved {name : String} {ordinal : Nat}
    (h : (reservedNames old)[name]? = some ordinal) :
    name ∈ old.interactions.filterMap slotName := by
  rcases List.mem_filterMap.mp (OrdMap.mem_of_getElem?_collect _ _ _ h) with ⟨decl, hmem, hname⟩
  refine List.mem_filterMap.mpr ⟨decl, hmem, ?_⟩
  unfold reservedName at hname
  unfold slotName
  split at hname
  · next reserved hkind =>
      rw [hkind]
      rcases Option.map_eq_some_iff.mp hname with ⟨other, hother, heq⟩
      cases heq
      exact hother
  · cases hname

def AtPath (path : String) (changes : List Change) : Prop := ∀ change ∈ changes, change.path = path

theorem atPath_emit (path : String) (category : Category) (differs : Bool) :
    AtPath path (emit path category differs) := by
  intro change hmem
  rw [((mem_emit _ _ _ _).mp hmem).2]

theorem AtPath.append {path : String} {xs ys : List Change} (hx : AtPath path xs)
    (hy : AtPath path ys) : AtPath path (xs ++ ys) := by
  intro change hmem
  rcases List.mem_append.mp hmem with h | h
  · exact hx change h
  · exact hy change h

theorem atPath_diffKind (path : String) (a b : Option Kind) : AtPath path (diffKind path a b) := by
  unfold diffKind
  split <;> repeat first | exact atPath_emit _ _ _ | refine AtPath.append ?_ (atPath_emit _ _ _)

theorem atPath_diffInteraction (path : String) (a b : Decl) :
    AtPath path (diffInteraction path a b) := by
  unfold diffInteraction
  exact (((atPath_emit _ _ _).append (atPath_emit _ _ _)).append (atPath_emit _ _ _)).append
    (atPath_diffKind _ _ _)

/-- A change of two interfaces is at the path of a slot of one of them. -/
theorem path_of_mem_diffInterface {change : Change}
    (h : change ∈ diffInterface pkg iface old new) :
    ∃ name, (name ∈ old.interactions.filterMap slotName ∨
      name ∈ new.interactions.filterMap slotName) ∧
      change.path = pkg ++ "/" ++ iface ++ "/" ++ name := by
  unfold diffInterface at h
  simp only [List.append_assoc, List.mem_append] at h
  rcases h with hlive | htomb | hminted | hadded | hmoved
  · rcases List.mem_flatMap.mp hlive with ⟨decl, hdecl, hin⟩
    refine ⟨decl.name, .inl (mem_slotNames_of_live hdecl), ?_⟩
    split at hin
    · exact atPath_diffInteraction _ _ _ change hin
    · split at hin
      · exact atPath_emit _ _ _ change hin
      · exact atPath_emit _ _ _ change hin
    · exact atPath_emit _ _ _ change hin
  · rcases List.mem_flatMap.mp htomb with ⟨entry, hentry, hin⟩
    have hname := Std.ExtTreeMap.mem_toList_iff_getElem?_eq_some.mp hentry
    refine ⟨entry.1, .inl (mem_slotNames_of_reserved hname), ?_⟩
    split at hin
    · cases hin
    · split at hin
      · exact atPath_emit _ _ _ change hin
      · exact atPath_emit _ _ _ change hin
  · rcases List.mem_flatMap.mp hminted with ⟨entry, hentry, hin⟩
    have hname := Std.ExtTreeMap.mem_toList_iff_getElem?_eq_some.mp hentry
    refine ⟨entry.1, .inr (mem_slotNames_of_reserved hname), ?_⟩
    split at hin
    · cases hin
    · exact atPath_emit _ _ _ change hin
  · rcases List.mem_flatMap.mp hadded with ⟨decl, hdecl, hin⟩
    refine ⟨decl.name, .inr (mem_slotNames_of_live hdecl), ?_⟩
    split at hin
    · cases hin
    · split at hin
      · exact atPath_emit _ _ _ change hin
      · exact atPath_emit _ _ _ change hin
  · rcases List.mem_flatMap.mp hmoved with ⟨m, hm, hin⟩
    rcases List.mem_filterMap.mp hm with ⟨decl, hdecl, hmatched⟩
    rcases Option.map_eq_some_iff.mp hmatched with ⟨other, -, rfl⟩
    exact ⟨decl.name, .inl (mem_slotNames_of_live hdecl), atPath_emit _ _ _ change hin⟩

end Paths

/-! ### The lookups -/

section Lookups

variable {old new : List Package} {o n : Held}

/-- The package that the classifier reads the new side from holds the new
    shape. -/
theorem newSide_eq (hnew : LawfulSet new) (hmem : n.package ∈ new) (old : Package)
    (context : List Package) {change : Change} {rest : String}
    (hpath : change.path = n.package.name ++ "/" ++ rest) :
    newSide change (walkedAgainst new old) (new ++ context) = n.package := by
  have hheld : (segments change.path).headD "" = n.package.name := by
    rw [hpath, segments_cons _ (hnew.packages _ hmem).plain]
    rfl
  simp only [newSide, hheld]
  by_cases hsame : n.package.name = (walkedAgainst new old).name
  · rw [if_pos hsame]
    rcases walkedAgainst_cases hnew old with ⟨hin, -⟩ | ⟨hgone, hnone⟩
    · exact eq_of_key_eq hnew.names hin hmem hsame.symm
    · exact absurd (hsame.trans (congrArg Package.name hgone)) (hnone _ hmem)
  · rw [if_neg hsame, List.find?_append, find?_key hnew.names hmem, Option.some_or,
      Option.getD_some]

/-- Where the new shape is found, the old one is too, unless the pair was made
    by name and something else has the name or the number. -/
theorem findOldShape_iff (hold : LawfulSet old) (hnew : LawfulSet new)
    (h : .matched o n ∈ interfaceLines old new)
    (hfound : findShape n.package n.shape.name = some n.shape) :
    findOldShape o.package n.package n.shape.name = some o.shape ↔
      (frozen o.shape.iface = false →
        (o.shape.isInline = true →
          ∀ iface ∈ o.package.interfaces, iface.name ≠ o.shape.name) ∧
        (frozen n.shape.iface = true → ∀ shape ∈ o.package.shapes,
          frozen shape.iface = true → shape.iface.number ≠ n.shape.iface.number)) := by
  rcases of_matched hold hnew h with ⟨⟨hmem, ho⟩, -, hpair⟩
  have hlawful := hold.packages _ hmem
  have hlookup : findOldShape o.package n.package n.shape.name =
      ((if frozen n.shape.iface then o.package.shapes.find? (fun candidate =>
          frozen candidate.iface && candidate.iface.number == n.shape.iface.number)
        else none) <|> findShape o.package n.shape.name) := by
    unfold findOldShape
    rw [hfound]
    rcases hfrozen : frozen n.shape.iface with _ | _
    · simp only [Option.filter_some, hfrozen, Bool.false_eq_true, if_false, Option.bind_eq_bind,
        Option.bind_none]
    · simp only [Option.filter_some, hfrozen, if_true, Option.bind_eq_bind, Option.bind_some]
  rw [hlookup]
  rcases hpair with ⟨hfrozen, hnfrozen, hnumber⟩ | ⟨hfrozen, hform, hname⟩
  · rw [if_pos hnfrozen, find_number hlawful ho hfrozen hnumber]
    refine ⟨fun _ hnot => ?_, fun _ => rfl⟩
    rw [hfrozen] at hnot
    cases hnot
  · rw [imp_iff_right hfrozen, ← findShape_iff hlawful ho, hname]
    rcases hnfrozen : frozen n.shape.iface with _ | _
    · simp only [Bool.false_eq_true, if_false, false_imp_iff, and_true]
      exact Iff.rfl
    · rw [if_pos rfl, imp_iff_right rfl]
      rcases hnone : o.package.shapes.find? (fun candidate =>
        frozen candidate.iface && candidate.iface.number == n.shape.iface.number) with _ | other
      · have hfree : ∀ shape ∈ o.package.shapes, frozen shape.iface = true →
            shape.iface.number ≠ n.shape.iface.number := by
          intro shape hshape hs heq
          have hnot := List.find?_eq_none.mp hnone shape hshape
          rw [hs, heq, Bool.true_and] at hnot
          exact hnot (beq_self_eq_true _)
        rw [hnone]
        exact ⟨fun hleft => ⟨hleft, hfree⟩, fun hboth => hboth.1⟩
      · -- A frozen shape has the number, and the old one is not frozen.
        have hboth := List.find?_some hnone
        rcases Bool.and_eq_true_iff.mp hboth with ⟨hother, heq⟩
        rw [hnone]
        constructor
        · intro hsame
          have hother' : other = o.shape := Option.some.inj hsame
          rw [hother', hfrozen] at hother
          cases hother
        · rintro ⟨-, hfree⟩
          exact absurd (eq_of_beq heq) (hfree other (List.mem_of_find?_eq_some hnone) hother)

theorem find_interaction {iface : Interface} (h : iface.Lawful) {member : String} {decl : Decl}
    (hlive : decl ∈ liveInteractions iface) (hname : decl.name = member) :
    iface.interactions.find? (fun other => other.name == member) = some decl := by
  have hmem := (List.mem_filter.mp hlive).1
  rcases hfound : iface.interactions.find? (fun other => other.name == member) with _ | other
  · exact absurd (beq_iff_eq.mpr hname) (List.find?_eq_none.mp hfound decl hmem)
  · have hother := List.find?_some hfound
    exact hfound.trans (congrArg some (h.distinct other (List.mem_of_find?_eq_some hfound) decl
      hlive ((eq_of_beq hother).trans hname.symm)))

/-- The lookups of a change find what was compared, if and only if the pair is
    not mistaken for another. -/
theorem looksUp_iff (hold : LawfulSet old) (hnew : LawfulSet new) (context : List Package)
    (h : .matched o n ∈ interfaceLines old new) {change : Change}
    (hchange : change ∈ diffInterface n.package.name n.shape.name o.shape.iface n.shape.iface) :
    LooksUp o.package (newSide change (walkedAgainst new o.package) (new ++ context)) o.shape
      n.shape change ↔ Unmistakable o n := by
  rcases of_matched hold hnew h with ⟨⟨homem, ho⟩, ⟨hnmem, hn⟩, -⟩
  rcases path_of_mem_diffInterface hchange with ⟨member, hmember, hpath⟩
  have hlawful := hnew.packages _ hnmem
  have hside := newSide_eq hnew hnmem o.package context
    (hpath.trans (by rw [String.append_assoc, String.append_assoc]))
  have hplain : '/' ∉ member.toList := by
    rcases hmember with hin | hin
    · exact ((hold.packages _ homem).shapes _ ho).2.plain _ hin
    · exact (hlawful.shapes _ hn).2.plain _ hin
  have hmemberPath : memberPath change = some (n.shape.name, member) := by
    simp only [memberPath, hpath, segments_member hlawful.plain (hlawful.shapes _ hn).1 hplain,
      List.drop_succ_cons, List.drop_zero]
  rw [hside]
  constructor
  · intro hlooks
    exact ⟨(findShape_iff hlawful hn).mp hlooks.newShape,
      (findOldShape_iff hold hnew h hlooks.newShape).mp hlooks.oldShape⟩
  · rintro ⟨hname, hrest⟩
    have hnewShape := (findShape_iff hlawful hn).mpr hname
    have holdShape := (findOldShape_iff hold hnew h hnewShape).mpr hrest
    refine ⟨holdShape, hnewShape, member, hmemberPath, fun decl hlive hdecl => ?_,
      fun decl hlive hdecl => ?_⟩
    · simp only [findOldInteraction, findOldInterface, holdShape, Option.map_some,
        Option.bind_eq_bind, Option.bind_some]
      exact find_interaction ((hold.packages _ homem).shapes _ ho).2 hlive hdecl
    · simp only [findInteraction, findInterface, hnewShape, Option.map_some,
        Option.bind_eq_bind, Option.bind_some]
      exact find_interaction (hlawful.shapes _ hn).2 hlive hdecl

/-- A new shape is in one pair. -/
theorem matched_once (hold : LawfulSet old) (hnew : LawfulSet new) {o n p m : Held}
    (hon : .matched o n ∈ interfaceLines old new) (hpm : .matched p m ∈ interfaceLines old new)
    (h : n.address = m.address) : o.address = p.address := by
  have hclaims := claims_new new hold.names
  rcases pairOf_of_matched hold hon with ⟨hoheld, ho⟩
  rcases pairOf_of_matched hold hpm with ⟨hpheld, hp⟩
  have hwalked (package : Package) : (walkedAgainst new package).name = package.name := by
    rcases walkedAgainst_cases hnew package with ⟨-, hname⟩ | ⟨hgone, -⟩
    · exact hname
    · rw [hgone]
      rfl
  have hname : o.package.name = p.package.name :=
    hclaims.owner _ _ _ (hclaims.owns_pair (hwalked _) ho)
      (h ▸ hclaims.owns_pair (hwalked _) hp)
  have hpackage : o.package = p.package :=
    eq_of_key_eq hold.names (mem_heldShapes.mp hoheld).1 (mem_heldShapes.mp hpheld).1 hname
  rw [← hpackage] at hp
  exact Prod.ext hname (hclaims.pair_once ho hp h)

/-- Every old interface is spoken of once, as matched, retired or removed, and
    every new one, as matched with one old interface or as added. What a change
    inside a pair is about is found again by its path, if and only if the pair
    cannot be mistaken. -/
theorem lookups (old new context : List Package) (hold : LawfulSet old) (hnew : LawfulSet new) :
    ((∀ package ∈ old, ∀ shape ∈ package.shapes,
      ((interfaceLines old new).flatMap Line.olds).count (Held.mk package shape).address = 1) ∧
    (∀ package ∈ new, ∀ shape ∈ package.shapes,
      ((interfaceLines old new).flatMap (Line.news (Matching.new old new))).count
        (Held.mk package shape).address = 1) ∧
    ∀ o n p m, .matched o n ∈ interfaceLines old new → .matched p m ∈ interfaceLines old new →
      n.address = m.address → o.address = p.address) ∧
    ∀ o n, .matched o n ∈ interfaceLines old new →
      ∀ change ∈ diffInterface n.package.name n.shape.name o.shape.iface n.shape.iface,
        (LooksUp o.package (newSide change (walkedAgainst new o.package) (new ++ context)) o.shape
          n.shape change ↔ Unmistakable o n) := by
  have hheld {set : List Package} (hset : LawfulSet set) {package : Package} {shape : InterfaceShape}
      (hmem : package ∈ set) (hshape : shape ∈ package.shapes) :
      Held.mk package shape ∈ heldShapes set :=
    mem_heldShapes.mpr ⟨hmem, (getElem?_shapesByKey (hset.packages _ hmem)).mpr hshape⟩
  refine ⟨⟨fun package hmem shape hshape => count_olds hold.names (hheld hold hmem hshape),
    fun package hmem shape hshape => count_news hold.names hnew.names (hheld hnew hmem hshape),
    fun o n p m hon hpm h => matched_once hold hnew hon hpm h⟩,
    fun o n h change hchange => looksUp_iff hold hnew context h hchange⟩

end Lookups

/-! ### A declared interface and a service of one name -/

/-- A signal at the first ordinal, from 100 microseconds to a ceiling. -/
def timedSignal (ceiling : String) : Decl :=
  { name := "s", visibility := VISIBILITY_PUBLIC, ordinal := 1, docs := .empty
    kind := some (.signalDef
      { payload := "T", declaredInit := none, init := none, family := 0
        timing := some
          { mode := 1, minUs := some "100", maxUs := some ceiling, defaultApplied := false } })
    limit := none }

def signalInterface (name : String) (number : Nat) (ceiling : String) : Interface :=
  { name := name, visibility := VISIBILITY_PUBLIC, interactions := [timedSignal ceiling]
    number := number, provisional := false }

/-- `interface cabin` alone. -/
def soleCabin (ceiling : String) : Package :=
  { name := "p", decls := [], interfaces := [signalInterface "cabin" 1 ceiling], services := [] }

def soleHeld (ceiling : String) : Held :=
  { package := soleCabin ceiling
    shape := { name := "cabin", iface := signalInterface "cabin" 1 ceiling, service := none } }

theorem lawful_soleCabin : LawfulSet [soleCabin "1000"] ∧ LawfulSet [soleCabin "2000"] := by
  refine ⟨⟨by decide, List.forall_mem_singleton.mpr ⟨by decide, ?_, by decide, by decide⟩⟩,
    ⟨by decide, List.forall_mem_singleton.mpr ⟨by decide, ?_, by decide, by decide⟩⟩⟩ <;>
  · intro shape hshape
    refine ⟨?_, ?_, ?_⟩ <;> revert shape <;> decide

/-- An interface that no service shares its name with is found. -/
theorem lookups_soleCabin :
    LooksUp (soleCabin "1000")
      (newSide ⟨"p/cabin/s", .timingChanged⟩ (walkedAgainst [soleCabin "2000"] (soleCabin "1000"))
        ([soleCabin "2000"] ++ []))
      (soleHeld "1000").shape (soleHeld "2000").shape ⟨"p/cabin/s", .timingChanged⟩ := by
  refine ((lookups [soleCabin "1000"] [soleCabin "2000"] [] lawful_soleCabin.1
    lawful_soleCabin.2).2 (soleHeld "1000") (soleHeld "2000") (by decide +kernel) _
    (by decide +kernel)).mpr ⟨fun hinline => ?_, fun hfrozen => ?_⟩
  · cases hinline
  · cases hfrozen

/-- `interface cabin` beside `service cabin`, whose body has the signal too. -/
def cabins (ceiling : String) : Package :=
  { name := "p", decls := []
    interfaces := [signalInterface "cabin" 1 "1000"]
    services := [{ name := "cabin", visibility := VISIBILITY_PUBLIC
                   shapes := [some (.inline (signalInterface "" 2 ceiling))] }] }

/-- The body of `service cabin`. -/
def cabinService (ceiling : String) : Held :=
  { package := cabins ceiling
    shape :=
      { name := "cabin", iface := signalInterface "" 2 ceiling
        service := some
          { name := "cabin", visibility := VISIBILITY_PUBLIC
            shapes := [some (.inline (signalInterface "" 2 ceiling))] } } }

theorem lawful_cabins : LawfulSet [cabins "1000"] ∧ LawfulSet [cabins "2000"] := by
  refine ⟨⟨by decide, List.forall_mem_singleton.mpr ⟨by decide, ?_, by decide, by decide⟩⟩,
    ⟨by decide, List.forall_mem_singleton.mpr ⟨by decide, ?_, by decide, by decide⟩⟩⟩ <;>
  · intro shape hshape
    refine ⟨?_, ?_, ?_⟩ <;> revert shape <;> decide

/-- The service's signal may now come less often, and the classifier reads the
    timing of the declared interface, which is the same: the change is found
    compatible. -/
theorem found_declared :
    LawfulSet [cabins "1000"] ∧ LawfulSet [cabins "2000"] ∧
    .matched (cabinService "1000") (cabinService "2000") ∈
      interfaceLines [cabins "1000"] [cabins "2000"] ∧
    ⟨"p/cabin/s", .timingChanged⟩ ∈ diffInterface "p" "cabin"
      (cabinService "1000").shape.iface (cabinService "2000").shape.iface ∧
    classifyScoped ⟨"p/cabin/s", .timingChanged⟩ (cabins "1000") (cabins "2000")
      [cabins "2000"] = .compatible ∧
    ¬ LooksUp (cabins "1000")
      (newSide ⟨"p/cabin/s", .timingChanged⟩ (walkedAgainst [cabins "2000"] (cabins "1000"))
        [cabins "2000"])
      (cabinService "1000").shape (cabinService "2000").shape ⟨"p/cabin/s", .timingChanged⟩ := by
  refine ⟨lawful_cabins.1, lawful_cabins.2, by decide +kernel, by decide +kernel,
    by decide +kernel, fun hlooks => ?_⟩
  have hfound : findShape (newSide ⟨"p/cabin/s", .timingChanged⟩
      (walkedAgainst [cabins "2000"] (cabins "1000")) [cabins "2000"]) "cabin" ≠
        some (cabinService "2000").shape := by decide +kernel
  exact hfound hlooks.newShape

end Diff

end Ridl
