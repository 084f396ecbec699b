import Ridl.Library.Worklist
import Ridl.Diff.Matching
import Ridl.Diff.References

/-!
# The Catalog of a Unit

What the catalog hash of a unit covers. Every interface shape of the unit is in
it, and every declaration that the shapes reach in any package of the build,
through type references and through the names in expressions. What is only
documentation is left out, and every reference is written out as the canonical
name of what it means (`reducedUnit`).

A bare name is read in the package that it stands in. The name in an expression
may be an imported one, and the imports are not recorded, so a bare name that
the package does not declare means every declaration of the name in the build.

## Main definitions

* `Index.resolve`, `Index.resolveExpr`: What a name means.
* `Index.closure`: What the shapes of the unit reach.

## Theorems

* `find_iff`: A reference finds what its name means.
* `getElem?_closure`: The closure is what a path leads to.
-/

namespace Ridl

namespace Diff

open Library

/-- A declaration's name in the whole build. -/
def canonical (package : Package) (name : String) : String := package.name ++ "." ++ name

/-- The declarations of a package by their names. -/
def bare (package : Package) : OrdMap String Decl :=
  OrdMap.collect (package.decls.map (fun decl => (decl.name, decl)))

/-! ### Name resolution -/

/-- A declaration with the package that holds it. -/
abbrev Owned := Package × Decl

/-- The packages of a build, those of the unit first, and how many these are. -/
structure Index where
  packages : List Package
  memberCount : Nat

/-- A second package of one name is not read. -/
def pushOnce (packages : List Package) (package : Package) : List Package :=
  if packages.any (fun known => known.name == package.name) then packages
  else packages ++ [package]

def membersOfUnit (unit : String) (packages : List Package) : List Package :=
  packages.filter (fun package => unitOf package == unit)

namespace Index

def new (unit : String) (all : List Package) : Index :=
  let members := (membersOfUnit unit all).foldl pushOnce []
  { packages := all.foldl pushOnce members
    memberCount := members.length }

/-- The packages of the unit. -/
def members (index : Index) : List Package := index.packages.take index.memberCount

/-- Every declaration with its canonical name. -/
def entries (index : Index) : List (String × Owned) :=
  index.packages.flatMap (fun package =>
    package.decls.map (fun decl => (canonical package decl.name, (package, decl))))

def qualified (index : Index) : OrdMap String Owned := OrdMap.collect index.entries

/-- What a name means in a package, with its canonical name. -/
def resolve (index : Index) (name : String) (context : Package) : Option (String × Owned) :=
  match (bare context)[name]? with
  | some decl => some (canonical context name, (context, decl))
  | none =>
      index.qualified[name]?.map (fun owned => (canonical owned.1 owned.2.name, owned))

/-- A name that means nothing stays as it is written. -/
def canonicalize (index : Index) (context : Package) (name : String) : String :=
  match index.resolve name context with
  | some (canonical, _) => canonical
  | none => name

/-- What a name in an expression may mean. -/
def resolveExpr (index : Index) (name : String) (context : Package) : List (String × Owned) :=
  match index.resolve name context with
  | some found => [found]
  | none =>
      if name.toList.contains '.' then []
      else
        index.packages.filterMap (fun owner =>
          (bare owner)[name]?.map (fun decl => (canonical owner name, (owner, decl))))

end Index

/-! ### What is reached -/

/-- Where a name was read, which decides what it means. -/
inductive Origin
  | typeRef
  | expr
deriving DecidableEq

/-- A name that waits to be resolved, with the package it was read in. -/
structure Pending where
  name : String
  context : Package
  origin : Origin

/-- The names that a declaration mentions. -/
def collectRefs (context : Package) (decl : Decl) : List Pending :=
  (refs decl.kind).map (fun name => ⟨name, context, .typeRef⟩) ++
    ((exprs decl.kind).flatMap exprNames).map (fun name => ⟨name, context, .expr⟩)

def ownedRefs (owned : Owned) : List Pending := collectRefs owned.1 owned.2

namespace Index

/-- What a pending name is found to mean. -/
def find (index : Index) (pending : Pending) : List (String × Owned) :=
  match pending.origin with
  | .typeRef => (index.resolve pending.name pending.context).toList
  | .expr => index.resolveExpr pending.name pending.context

/-- The names that the interactions of the unit mention. -/
def roots (index : Index) : List Pending :=
  index.members.flatMap (fun package =>
    package.shapes.flatMap (fun shape => shape.iface.interactions.flatMap (collectRefs package)))

/-- Every declaration that the shapes of the unit reach, by canonical name. The
    names seen are those of the declarations reached. -/
def closure (index : Index) : OrdMap String Owned :=
  (Worklist.run index.find ownedRefs (Worklist.rounds ownedRefs index.roots index.entries)
    (Worklist.start index.roots)).reached

end Index

def reachableDecls (unit : String) (packages : List Package) : OrdMap String Decl :=
  (Index.new unit packages).closure.map (fun _ owned => owned.2)

/-! ### The input of the hash -/

/-- A declaration without its documentation. -/
def blankDocs (decl : Decl) : Decl :=
  { decl with docs := .empty, kind := withoutMemberDocs decl.kind }

/-- A declaration with its references written out. -/
def Index.rewrite (index : Index) (context : Package) (decl : Decl) : Decl :=
  { decl with kind := mapRefs (index.canonicalize context) decl.kind }

/-- A reached declaration, under its canonical name. -/
def reducedDecl (index : Index) (entry : String × Owned) : Decl :=
  blankDocs { index.rewrite entry.2.1 entry.2.2 with name := entry.1 }

def reducedShape (index : Index) (held : Held) : Interface :=
  { name := held.package.catalogName held.shape
    visibility := held.shape.visibility
    interactions := held.shape.iface.interactions.map (fun decl =>
      blankDocs (index.rewrite held.package decl))
    number := held.shape.iface.number
    provisional := held.shape.iface.provisional
    docs := .empty }

def shapesOf (packages : List Package) : List Held :=
  packages.flatMap (fun package => package.shapes.map (fun shape => ⟨package, shape⟩))

/-- A number and a name, compared in this order. -/
abbrev InterfaceKey := Nat × String

instance : Ord InterfaceKey := lexOrd

def interfaceKey (iface : Interface) : InterfaceKey := (iface.number, iface.name)

def interfaceLe (a b : Interface) : Bool := (compare (interfaceKey a) (interfaceKey b)).isLE

/-- The input of the catalog hash, as one package. -/
def reducedUnit (unit : String) (packages : List Package) : Package :=
  let index := Index.new unit packages
  { name := unit
    decls := index.closure.toList.map (reducedDecl index)
    interfaces := ((shapesOf index.members).map (reducedShape index)).insertionSort
      (fun a b => interfaceLe a b = true)
    services := []
    retired := []
    unit := unit }

/-! ### Sets in order -/

/-- Every declaration of a package has an identifier of its own as its name, and
    every service a name of its own. -/
structure Package.Declares (package : Package) : Prop where
  plain : ∀ decl ∈ package.decls, '.' ∉ decl.name.toList ∧ '/' ∉ decl.name.toList
  decls : (package.decls.map Decl.name).Nodup
  services : (package.services.map Service.name).Nodup

/-- A set of packages in order, of which one may be named twice. -/
structure CatalogSet (set : List Package) : Prop where
  names : ∀ p ∈ set, ∀ q ∈ set, p.name = q.name → p = q
  declares : ∀ package ∈ set, package.Declares

/-- The canonical name tells the package from the declaration. -/
theorem canonical_inj {p q : Package} {m n : String} (hm : '.' ∉ m.toList) (hn : '.' ∉ n.toList)
    (h : canonical p m = canonical q n) : p.name = q.name ∧ m = n := by
  have hlist : p.name.toList ++ '.' :: m.toList = q.name.toList ++ '.' :: n.toList := by
    have hchars := congrArg String.toList h
    simp only [canonical, String.toList_append, List.append_assoc] at hchars
    exact hchars
  have hsame : p.name.toList = q.name.toList ∧ m.toList = n.toList := by
    rcases List.append_eq_append_iff.mp hlist with ⟨_ | ⟨c, l⟩, hfront, hback⟩ |
      ⟨_ | ⟨c, l⟩, hfront, hback⟩
    · exact ⟨(hfront.trans (List.append_nil _)).symm, (List.cons.inj hback).2⟩
    · have := (List.cons.inj hback).2
      exact absurd (this ▸ List.mem_append_right _ List.mem_cons_self) hm
    · exact ⟨hfront.trans (List.append_nil _), (List.cons.inj hback).2.symm⟩
    · have := (List.cons.inj hback).2
      exact absurd (this ▸ List.mem_append_right _ List.mem_cons_self) hn
  exact ⟨String.toList_inj.mp hsame.1, String.toList_inj.mp hsame.2⟩

theorem dot_mem_canonical (package : Package) (name : String) :
    '.' ∈ (canonical package name).toList := by
  simp only [canonical, String.toList_append, List.append_assoc]
  exact List.mem_append_right _ (List.mem_append_left _ (List.mem_singleton.mpr rfl))

/-! ### The packages of an index -/

variable {acc l : List Package}

theorem of_mem_pushOnce {next package : Package}
    (h : package ∈ pushOnce acc next) : package ∈ acc ∨ package = next := by
  unfold pushOnce at h
  split at h
  · exact .inl h
  · rcases List.mem_append.mp h with hacc | hnext
    · exact .inl hacc
    · exact .inr (List.mem_singleton.mp hnext)

theorem isPrefix_pushOnce (acc l : List Package) : acc <+: l.foldl pushOnce acc := by
  induction l generalizing acc with
  | nil => exact List.prefix_rfl
  | cons package l ih =>
      refine List.IsPrefix.trans ?_ (ih _)
      unfold pushOnce
      split
      · exact List.prefix_rfl
      · exact List.prefix_append _ _

theorem nodup_pushOnce (h : (acc.map Package.name).Nodup) :
    ((l.foldl pushOnce acc).map Package.name).Nodup := by
  induction l generalizing acc with
  | nil => exact h
  | cons package l ih =>
      refine ih ?_
      unfold pushOnce
      split
      · exact h
      · next hnew =>
        rw [List.map_append]
        refine List.nodup_append.mpr ⟨h, List.nodup_singleton _, fun n hn m hm heq => hnew ?_⟩
        rcases List.mem_map.mp hn with ⟨known, hknown, rfl⟩
        rw [List.mem_singleton.mp hm] at heq
        exact List.any_eq_true.mpr ⟨known, hknown, beq_iff_eq.mpr heq⟩

theorem of_mem_foldl_pushOnce {package : Package}
    (h : package ∈ l.foldl pushOnce acc) : package ∈ acc ∨ package ∈ l := by
  induction l generalizing acc with
  | nil => exact .inl h
  | cons next l ih =>
      rcases ih h with hacc | hl
      · rcases of_mem_pushOnce hacc with hacc | rfl
        · exact .inl hacc
        · exact .inr List.mem_cons_self
      · exact .inr (List.mem_cons_of_mem _ hl)

theorem mem_foldl_pushOnce {package : Package} (h : package ∈ l)
    (hnames : ∀ p, (p ∈ acc ∨ p ∈ l) → p.name = package.name → p = package) :
    package ∈ l.foldl pushOnce acc := by
  induction l generalizing acc with
  | nil => cases h
  | cons next l ih =>
      rcases List.mem_cons.mp h with rfl | hmem
      · refine (isPrefix_pushOnce _ l).subset ?_
        unfold pushOnce
        split
        · next hknown =>
          rcases List.any_eq_true.mp hknown with ⟨known, hin, hname⟩
          exact hnames known (.inl hin) (eq_of_beq hname) ▸ hin
        · exact List.mem_append_right _ List.mem_cons_self
      · refine ih hmem (fun p hp => hnames p ?_)
        rcases hp with hacc | hl
        · rcases of_mem_pushOnce hacc with hacc | rfl
          · exact .inl hacc
          · exact .inr List.mem_cons_self
        · exact .inr (List.mem_cons_of_mem _ hl)

section Index

variable {unit : String} {set : List Package} {package : Package}

theorem members_new : (Index.new unit set).members = (membersOfUnit unit set).foldl pushOnce [] :=
  (List.prefix_iff_eq_take.mp (isPrefix_pushOnce _ _)).symm

theorem mem_members (hset : CatalogSet set) :
    package ∈ (Index.new unit set).members ↔ package ∈ set ∧ unitOf package = unit := by
  have hunit : package ∈ membersOfUnit unit set ↔ package ∈ set ∧ unitOf package = unit := by
    rw [membersOfUnit, List.mem_filter, beq_iff_eq]
  rw [members_new, ← hunit]
  refine ⟨fun h => (of_mem_foldl_pushOnce h).resolve_left List.not_mem_nil, fun h => ?_⟩
  refine mem_foldl_pushOnce h (fun p hp hname => ?_)
  have hp := List.mem_filter.mp (hp.resolve_left List.not_mem_nil)
  exact hset.names p hp.1 package (hunit.mp h).1 hname

theorem nodup_members : ((Index.new unit set).members.map Package.name).Nodup := by
  rw [members_new]
  exact nodup_pushOnce List.nodup_nil

theorem mem_packages (hset : CatalogSet set) :
    package ∈ (Index.new unit set).packages ↔ package ∈ set := by
  constructor
  · intro h
    rcases of_mem_foldl_pushOnce h with hmember | hmem
    · exact (List.mem_filter.mp ((of_mem_foldl_pushOnce hmember).resolve_left
        List.not_mem_nil)).1
    · exact hmem
  · intro h
    refine mem_foldl_pushOnce h (fun p hp hname => hset.names p ?_ package h hname)
    rcases hp with hmember | hmem
    · exact (List.mem_filter.mp ((of_mem_foldl_pushOnce hmember).resolve_left
        List.not_mem_nil)).1
    · exact hmem

end Index

/-! ### What a name means -/

/-- What a name means in a package: a declaration of the package, or the one it
    qualifies, or in an expression any of the name. -/
inductive Means (set : List Package) (pending : Pending) : Owned → Prop
  | own {decl : Decl} (hdecl : decl ∈ pending.context.decls) (hname : decl.name = pending.name) :
      Means set pending (pending.context, decl)
  | qualified {package : Package} {decl : Decl}
      (hnone : ∀ own ∈ pending.context.decls, own.name ≠ pending.name) (hmem : package ∈ set)
      (hdecl : decl ∈ package.decls) (hname : pending.name = canonical package decl.name) :
      Means set pending (package, decl)
  | imported {package : Package} {decl : Decl} (hexpr : pending.origin = .expr)
      (hnone : ∀ own ∈ pending.context.decls, own.name ≠ pending.name)
      (hbare : '.' ∉ pending.name.toList) (hmem : package ∈ set) (hdecl : decl ∈ package.decls)
      (hname : decl.name = pending.name) : Means set pending (package, decl)

section Means

variable {unit : String} {set : List Package} {package : Package} {decl : Decl} {name : String}

theorem getElem?_bare (h : package.Declares) :
    (bare package)[name]? = some decl ↔ decl ∈ package.decls ∧ decl.name = name := by
  rw [bare, getElem?_collect_iff (by rw [List.map_map]; exact h.decls), List.mem_map]
  constructor
  · rintro ⟨other, hmem, heq⟩
    cases heq
    exact ⟨hmem, rfl⟩
  · rintro ⟨hmem, rfl⟩
    exact ⟨decl, hmem, rfl⟩

theorem bare_eq_none (h : package.Declares) :
    (bare package)[name]? = none ↔ ∀ own ∈ package.decls, own.name ≠ name := by
  constructor
  · intro hnone own hmem hname
    rw [(getElem?_bare h).mpr ⟨hmem, hname⟩] at hnone
    cases hnone
  · intro hnone
    rcases hget : (bare package)[name]? with _ | own
    · rfl
    · rcases (getElem?_bare h).mp hget with ⟨hmem, hname⟩
      exact absurd hname (hnone own hmem)

theorem mem_entries (hset : CatalogSet set) {entry : String × Owned} :
    entry ∈ (Index.new unit set).entries ↔
      entry.2.1 ∈ set ∧ entry.2.2 ∈ entry.2.1.decls ∧
        entry.1 = canonical entry.2.1 entry.2.2.name := by
  simp only [Index.entries, List.mem_flatMap, List.mem_map, mem_packages hset]
  constructor
  · rintro ⟨package, hmem, decl, hdecl, rfl⟩
    exact ⟨hmem, hdecl, rfl⟩
  · rintro ⟨hmem, hdecl, hkey⟩
    exact ⟨entry.2.1, hmem, entry.2.2, hdecl, Prod.ext hkey.symm rfl⟩

theorem entries_inj (hset : CatalogSet set) {a b : String × Owned}
    (ha : a ∈ (Index.new unit set).entries) (hb : b ∈ (Index.new unit set).entries)
    (h : a.1 = b.1) : a = b := by
  rcases (mem_entries hset).mp ha with ⟨hmema, hdecla, hkeya⟩
  rcases (mem_entries hset).mp hb with ⟨hmemb, hdeclb, hkeyb⟩
  have hdeclares := hset.declares _ hmema
  rcases canonical_inj (hdeclares.plain _ hdecla).1
    ((hset.declares _ hmemb).plain _ hdeclb).1 (hkeya.symm.trans (h.trans hkeyb)) with
    ⟨hpackage, hname⟩
  have hsame : a.2.1 = b.2.1 := hset.names _ hmema _ hmemb hpackage
  have hdecl : a.2.2 = b.2.2 :=
    eq_of_key_eq hdeclares.decls hdecla (hsame ▸ hdeclb) hname
  exact Prod.ext h (Prod.ext hsame hdecl)

theorem getElem?_qualified (hset : CatalogSet set) :
    (Index.new unit set).qualified[name]? = some (package, decl) ↔
      package ∈ set ∧ decl ∈ package.decls ∧ name = canonical package decl.name := by
  have hentry : (name, (package, decl)) ∈ (Index.new unit set).entries ↔ _ := mem_entries hset
  rw [← hentry]
  constructor
  · exact OrdMap.mem_of_getElem?_collect _ _ _
  · intro hmem
    refine OrdMap.getElem?_collect_of_unique _ _ _ hmem (fun other hother => ?_)
    exact (Prod.mk.inj (entries_inj hset hother hmem rfl)).2

/-- A name is resolved to a declaration of the package it stands in, or to the
    one it qualifies. -/
theorem resolve_iff (hset : CatalogSet set) {context : Package} (hcontext : context ∈ set)
    {key : String} : (Index.new unit set).resolve name context = some (key, (package, decl)) ↔
      ((decl ∈ context.decls ∧ decl.name = name ∧ package = context) ∨
        ((∀ own ∈ context.decls, own.name ≠ name) ∧ package ∈ set ∧ decl ∈ package.decls ∧
          name = canonical package decl.name)) ∧ key = canonical package decl.name := by
  have hdeclares := hset.declares _ hcontext
  unfold Index.resolve
  rcases hbare : (bare context)[name]? with _ | own
  · have hnone := (bare_eq_none hdeclares).mp hbare
    simp only [Option.map_eq_some_iff, Prod.exists, Prod.mk.injEq]
    constructor
    · rintro ⟨p, d, hget, rfl, rfl, rfl⟩
      exact ⟨.inr ⟨hnone, (getElem?_qualified hset).mp hget⟩, rfl⟩
    · rintro ⟨⟨hmem, hname, -⟩ | ⟨-, hfound⟩, rfl⟩
      · exact absurd hname (hnone decl hmem)
      · exact ⟨package, decl, (getElem?_qualified hset).mpr hfound, rfl, rfl, rfl⟩
  · rcases (getElem?_bare hdeclares).mp hbare with ⟨hown, hname⟩
    simp only [Option.some.injEq, Prod.mk.injEq]
    constructor
    · rintro ⟨rfl, rfl, rfl⟩
      exact ⟨.inl ⟨hown, hname, rfl⟩, by rw [hname]⟩
    · rintro ⟨⟨hmem, hsame, rfl⟩ | ⟨hnone, -⟩, rfl⟩
      · have heq : own = decl := eq_of_key_eq hdeclares.decls hown hmem (hname.trans hsame.symm)
        exact ⟨by rw [← hsame], rfl, heq⟩
      · exact absurd hname (hnone own hown)

theorem means_of_resolve (hset : CatalogSet set) {pending : Pending}
    (hcontext : pending.context ∈ set) {key : String}
    (h : (Index.new unit set).resolve pending.name pending.context =
      some (key, (package, decl))) :
    Means set pending (package, decl) ∧ key = canonical package decl.name := by
  rcases (resolve_iff hset hcontext).mp h with
    ⟨⟨hdecl, hname, rfl⟩ | ⟨hnone, hmem, hdecl, hname⟩, hkey⟩
  · exact ⟨.own hdecl hname, hkey⟩
  · exact ⟨.qualified hnone hmem hdecl hname, hkey⟩

theorem find_iff (hset : CatalogSet set) {pending : Pending} (hcontext : pending.context ∈ set)
    {entry : String × Owned} :
    entry ∈ (Index.new unit set).find pending ↔
      Means set pending entry.2 ∧ entry.1 = canonical entry.2.1 entry.2.2.name := by
  rcases entry with ⟨key, package, decl⟩
  -- What is meant and not imported is resolved.
  have hresolved : Means set pending (package, decl) → key = canonical package decl.name →
      (Index.new unit set).resolve pending.name pending.context = some (key, (package, decl)) ∨
      pending.origin = .expr ∧ (∀ own ∈ pending.context.decls, own.name ≠ pending.name) ∧
        '.' ∉ pending.name.toList ∧ package ∈ set ∧ decl ∈ package.decls ∧
        decl.name = pending.name := by
    rintro (⟨hdecl, hname⟩ | ⟨hnone, hmem, hdecl, hname⟩ |
      ⟨hexpr, hnone, hbare, hmem, hdecl, hname⟩) hkey
    · exact .inl ((resolve_iff hset hcontext).mpr ⟨.inl ⟨hdecl, hname, rfl⟩, hkey⟩)
    · exact .inl ((resolve_iff hset hcontext).mpr ⟨.inr ⟨hnone, hmem, hdecl, hname⟩, hkey⟩)
    · exact .inr ⟨hexpr, hnone, hbare, hmem, hdecl, hname⟩
  unfold Index.find
  rcases horigin : pending.origin with _ | _
  · simp only [Option.mem_toList]
    refine ⟨means_of_resolve hset hcontext, fun h => ?_⟩
    rcases hresolved h.1 h.2 with hfound | ⟨hexpr, -⟩
    · exact hfound
    · rw [horigin] at hexpr
      cases hexpr
  · dsimp only
    unfold Index.resolveExpr
    rcases hfound : (Index.new unit set).resolve pending.name pending.context with _ | found
    · have hnone : ∀ own ∈ pending.context.decls, own.name ≠ pending.name := by
        intro own hown hname
        rw [(resolve_iff hset hcontext).mpr ⟨.inl ⟨hown, hname, rfl⟩, rfl⟩] at hfound
        cases hfound
      dsimp only
      by_cases hdot : '.' ∈ pending.name.toList
      · rw [if_pos (List.contains_iff_mem.mpr hdot)]
        refine ⟨fun h => absurd h List.not_mem_nil, fun h => ?_⟩
        rcases hresolved h.1 h.2 with hsome | ⟨-, -, hbare, -⟩
        · rw [hfound] at hsome
          cases hsome
        · exact absurd hdot hbare
      · rw [if_neg (fun h => hdot (List.contains_iff_mem.mp h))]
        simp only [List.mem_filterMap, mem_packages hset, Option.map_eq_some_iff,
          Prod.mk.injEq]
        constructor
        · rintro ⟨owner, hmem, other, hget, rfl, rfl, rfl⟩
          rcases (getElem?_bare (hset.declares _ hmem)).mp hget with ⟨hdecl, hname⟩
          exact ⟨.imported horigin hnone hdot hmem hdecl hname, by rw [hname]⟩
        · rintro ⟨h, rfl⟩
          rcases hresolved h rfl with hsome | ⟨-, -, -, hmem, hdecl, hname⟩
          · rw [hfound] at hsome
            cases hsome
          · exact ⟨package, hmem, decl,
              (getElem?_bare (hset.declares _ hmem)).mpr ⟨hdecl, hname⟩, by rw [hname], rfl, rfl⟩
    · dsimp only
      rw [List.mem_singleton]
      constructor
      · rintro rfl
        exact means_of_resolve hset hcontext hfound
      · rintro ⟨h, hkey⟩
        rcases hresolved h hkey with hsome | ⟨-, hnone, hbare, -⟩
        · rw [hfound] at hsome
          exact (Option.some.inj hsome).symm
        · -- What the name resolves to is not declared here, so it is qualified.
          rcases found with ⟨other, owner, own⟩
          rcases (resolve_iff hset hcontext).mp hfound with
            ⟨⟨hown, hname, -⟩ | ⟨-, -, -, hname⟩, -⟩
          · exact absurd hname (hnone own hown)
          · exact absurd (hname ▸ dot_mem_canonical owner own.name) hbare

end Means

/-! ### What the closure holds -/

section Closure

variable {unit : String} {set : List Package}

variable {pending : Pending} {owned : Owned} {key : String}

theorem mem_of_means (hcontext : pending.context ∈ set)
    (h : Means set pending owned) : owned.1 ∈ set ∧ owned.2 ∈ owned.1.decls := by
  rcases h with ⟨hdecl, -⟩ | ⟨-, hmem, hdecl, -⟩ | ⟨-, -, -, hmem, hdecl, -⟩
  · exact ⟨hcontext, hdecl⟩
  · exact ⟨hmem, hdecl⟩
  · exact ⟨hmem, hdecl⟩

theorem mem_collectRefs {context : Package} {decl : Decl}
    (h : pending ∈ collectRefs context decl) : pending.context = context := by
  rcases List.mem_append.mp h with h | h
  · rcases List.mem_map.mp h with ⟨name, -, rfl⟩
    rfl
  · rcases List.mem_map.mp h with ⟨name, -, rfl⟩
    rfl

theorem mem_roots (hset : CatalogSet set) :
    pending ∈ (Index.new unit set).roots ↔
      ∃ package ∈ set, unitOf package = unit ∧ ∃ shape ∈ package.shapes,
        ∃ decl ∈ shape.iface.interactions, pending ∈ collectRefs package decl := by
  simp only [Index.roots, List.mem_flatMap, mem_members hset, and_assoc]

/-- A reference that is followed stands in a package of the set. -/
theorem context_of_follows (hset : CatalogSet set)
    (h : Follows (Index.new unit set).find ownedRefs (Index.new unit set).roots pending) :
    pending.context ∈ set := by
  have hroot : ∀ pending ∈ (Index.new unit set).roots, pending.context ∈ set := by
    intro pending hmem
    rcases (mem_roots hset).mp hmem with ⟨package, hmem, -, _, -, _, -, hrefs⟩
    rw [mem_collectRefs hrefs]
    exact hmem
  have hreached : ∀ entry,
      Reaches (Index.new unit set).find ownedRefs (Index.new unit set).roots entry →
      entry.2.1 ∈ set := by
    intro entry h
    induction h with
    | root hitem hfound =>
        exact (mem_of_means (hroot _ hitem) ((find_iff hset (hroot _ hitem)).mp hfound).1).1
    | next _ hitem hfound ih =>
        have hcontext := mem_collectRefs hitem ▸ ih
        exact (mem_of_means hcontext ((find_iff hset hcontext).mp hfound).1).1
  rcases h with hmem | ⟨source, hsource, hmem⟩
  · exact hroot pending hmem
  · rw [mem_collectRefs hmem]
    exact hreached source hsource

theorem getElem?_closure (hset : CatalogSet set) :
    (Index.new unit set).closure[key]? = some owned ↔
      Reaches (Index.new unit set).find ownedRefs (Index.new unit set).roots (key, owned) := by
  refine Worklist.getElem?_run (fun pending hfollows entry hfound => ?_)
    (fun a ha b hb => entries_inj hset ha hb)
  have hcontext := context_of_follows hset hfollows
  rcases (find_iff hset hcontext).mp hfound with ⟨hmeans, hkey⟩
  rcases mem_of_means hcontext hmeans with ⟨hmem, hdecl⟩
  exact (mem_entries hset).mpr ⟨hmem, hdecl, hkey⟩

theorem of_closure (hset : CatalogSet set) (h : (Index.new unit set).closure[key]? = some owned) :
    owned.1 ∈ set ∧ owned.2 ∈ owned.1.decls ∧ key = canonical owned.1 owned.2.name := by
  rcases ((getElem?_closure hset).mp h).exists_follows with ⟨pending, hfollows, hfound⟩
  have hcontext := context_of_follows hset hfollows
  rcases (find_iff hset hcontext).mp hfound with ⟨hmeans, hkey⟩
  rcases mem_of_means hcontext hmeans with ⟨hmem, hdecl⟩
  exact ⟨hmem, hdecl, hkey⟩

theorem getElem?_reachableDecls {decl : Decl} :
    (reachableDecls unit set)[key]? = some decl ↔
      ∃ package, (Index.new unit set).closure[key]? = some (package, decl) := by
  rw [reachableDecls, Std.ExtTreeMap.getElem?_map, Option.map_eq_some_iff]
  constructor
  · rintro ⟨⟨package, other⟩, hget, rfl⟩
    exact ⟨package, hget⟩
  · rintro ⟨package, hget⟩
    exact ⟨(package, decl), hget, rfl⟩

end Closure

end Diff

end Ridl
