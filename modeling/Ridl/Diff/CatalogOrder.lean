import Ridl.Diff.Agreement

/-!
# What the Catalog Does Not Depend On

The declarations that a unit reaches are the least set that has what the
interactions of the unit mean and all that its own declarations mean: the
worklist ends, whatever cycles there are, and it has then collected what is in
every such set.

The input of the hash does not tell in which order the packages are listed, how
often one is, in which order a package declares what it declares, or what the
documentation says. A package is rearranged when this is all that is different
(`Rearranged`), and builds of rearranged packages agree.

## Theorems

* `reachable_iff`: What is reached is in every closed set.
* `catalog_closure`: The catalog is the least closed set, in any order.
-/

namespace Ridl

namespace Diff

open Library

/-! ### The least closed set -/

/-- Has what the interactions of the unit mean, and what its own declarations
    mean. -/
structure Closed (unit : String) (set : List Package) (S : Owned → Prop) : Prop where
  interfaces : ∀ package ∈ set, unitOf package = unit → ∀ shape ∈ package.shapes,
    ∀ decl ∈ shape.iface.interactions, ∀ pending ∈ collectRefs package decl,
      ∀ owned, Means set pending owned → S owned
  declarations : ∀ source, S source → ∀ pending ∈ ownedRefs source,
    ∀ owned, Means set pending owned → S owned

section Closure

variable {unit : String} {set : List Package}

theorem reachable_iff (hset : CatalogSet set) {key : String} {decl : Decl} :
    (reachableDecls unit set)[key]? = some decl ↔
      ∃ package, key = canonical package decl.name ∧
        ∀ S, Closed unit set S → S (package, decl) := by
  rw [getElem?_reachableDecls]
  constructor
  · rintro ⟨package, hget⟩
    refine ⟨package, (of_closure hset hget).2.2, fun S hS => ?_⟩
    have hall : ∀ entry, Reaches (Index.new unit set).find ownedRefs (Index.new unit set).roots
        entry → S entry.2 := by
      intro entry h
      induction h with
      | root hitem hfound =>
          have hcontext := context_of_follows hset (.inl hitem)
          rcases (mem_roots hset).mp hitem with ⟨p, hp, hunit, shape, hshape, d, hd, hrefs⟩
          exact hS.interfaces p hp hunit shape hshape d hd _ hrefs _
            ((find_iff hset hcontext).mp hfound).1
      | next hsource hitem hfound ih =>
          have hcontext := context_of_follows hset (.inr ⟨_, hsource, hitem⟩)
          exact hS.declarations _ ih _ hitem _ ((find_iff hset hcontext).mp hfound).1
    exact hall _ ((getElem?_closure hset).mp hget)
  · rintro ⟨package, rfl, hleast⟩
    refine ⟨package, ?_⟩
    -- What a path leads to is closed.
    have hclosed : Closed unit set (fun owned =>
        (Index.new unit set).closure[canonical owned.1 owned.2.name]? = some owned) := by
      constructor
      · intro p hp hunit shape hshape d hd pending hpending owned hmeans
        have hroot := (mem_roots hset).mpr ⟨p, hp, hunit, shape, hshape, d, hd, hpending⟩
        have hcontext := context_of_follows hset (.inl hroot)
        exact (getElem?_closure hset).mpr
          (.root hroot ((find_iff hset hcontext).mpr ⟨hmeans, rfl⟩))
      · intro source hsource pending hpending owned hmeans
        have hreached := (getElem?_closure hset).mp hsource
        have hcontext := context_of_follows hset (.inr ⟨_, hreached, hpending⟩)
        exact (getElem?_closure hset).mpr
          (.next hreached hpending ((find_iff hset hcontext).mpr ⟨hmeans, rfl⟩))
    exact hleast _ hclosed

theorem closure_done (hset : CatalogSet set) :
    (Worklist.run (Index.new unit set).find ownedRefs
      (Worklist.rounds ownedRefs (Index.new unit set).roots (Index.new unit set).entries)
      (Worklist.start (Index.new unit set).roots)).pending = [] := by
  refine Worklist.pending_rounds (fun pending hfollows entry hfound => ?_)
  have hcontext := context_of_follows hset hfollows
  rcases (find_iff hset hcontext).mp hfound with ⟨hmeans, hkey⟩
  rcases mem_of_means hcontext hmeans with ⟨hmem, hdecl⟩
  exact (mem_entries hset).mpr ⟨hmem, hdecl, hkey⟩

end Closure

/-! ### Rearranged packages -/

/-- An interface without its documentation. -/
def Interface.blank (iface : Interface) : Interface :=
  { iface with docs := .empty, interactions := iface.interactions.map blankDocs }

def Service.blank (service : Service) : Service :=
  { service with
    docs := .empty
    shapes := service.shapes.map (fun slot =>
      match slot with
      | some (.inline iface) => some (.inline iface.blank)
      | slot => slot) }

/-- Another order of the declarations, the interfaces and the services, and other
    documentation. -/
structure Rearranged (p q : Package) : Prop where
  name : q.name = p.name
  unit : q.unit = p.unit
  decls : (p.decls.map blankDocs).Perm (q.decls.map blankDocs)
  interfaces : (p.interfaces.map Interface.blank).Perm (q.interfaces.map Interface.blank)
  services : (p.services.map Service.blank).Perm (q.services.map Service.blank)

/-- Each package is listed in either build, rearranged perhaps, in any order and
    any number of times. -/
structure Relisted (old new : List Package) : Prop where
  kept : ∀ p ∈ old, ∃ q ∈ new, Rearranged p q
  known : ∀ q ∈ new, ∃ p ∈ old, Rearranged p q

theorem Rearranged.symm {p q : Package} (h : Rearranged p q) : Rearranged q p :=
  ⟨h.name.symm, h.unit.symm, h.decls.symm, h.interfaces.symm, h.services.symm⟩

theorem Relisted.symm {old new : List Package} (h : Relisted old new) : Relisted new old := by
  refine ⟨fun q hq => ?_, fun p hp => ?_⟩
  · rcases h.known q hq with ⟨p, hp, hsame⟩
    exact ⟨p, hp, hsame.symm⟩
  · rcases h.kept p hp with ⟨q, hq, hsame⟩
    exact ⟨q, hq, hsame.symm⟩

/-- A shape without its documentation. -/
def InterfaceShape.blank (shape : InterfaceShape) : InterfaceShape :=
  { shape with iface := shape.iface.blank, service := shape.service.map Service.blank }

section Shapes

variable {p q : Package}

theorem Rearranged.unitOf (h : Rearranged p q) : unitOf q = unitOf p := by
  rw [Diff.unitOf, Diff.unitOf, h.name, h.unit]

/-- The shapes are the same but for their documentation and order. -/
theorem Rearranged.shapes (h : Rearranged p q) :
    (p.shapes.map InterfaceShape.blank).Perm (q.shapes.map InterfaceShape.blank) := by
  have hnamed : ∀ r : Package, (r.interfaces.map (fun iface =>
      (⟨iface.name, iface, none⟩ : InterfaceShape))).map InterfaceShape.blank =
      (r.interfaces.map Interface.blank).map (fun iface => ⟨iface.name, iface, none⟩) := by
    intro r
    rw [List.map_map, List.map_map]
    exact List.map_congr_left (fun iface _ => rfl)
  have hinline : ∀ service : Service, service.inlineShapes.map InterfaceShape.blank =
      service.blank.inlineShapes := by
    intro service
    simp only [Service.inlineShapes, Service.blank, List.map_filterMap, List.filterMap_map]
    congr 1
    funext slot
    rcases slot with _ | ref | iface <;> rfl
  have hservices : ∀ r : Package, (r.services.flatMap Service.inlineShapes).map
      InterfaceShape.blank = (r.services.map Service.blank).flatMap Service.inlineShapes :=
    fun r => by simp only [List.map_flatMap, List.flatMap_map, hinline]
  simp only [Package.shapes, List.map_append, hnamed, hservices]
  exact (h.interfaces.map _).append (h.services.flatMap_right _)

/-- What the input of the hash says of a shape, apart from its references. -/
theorem of_blank {s t : InterfaceShape} (hname : q.name = p.name) (hunit : q.unit = p.unit)
    (h : t.blank = s.blank) :
    q.catalogName t = p.catalogName s ∧ t.visibility = s.visibility ∧
      t.iface.number = s.iface.number ∧ t.iface.provisional = s.iface.provisional ∧
      t.iface.interactions.map blankDocs = s.iface.interactions.map blankDocs := by
  rcases s with ⟨sname, siface, sservice⟩
  rcases t with ⟨tname, tiface, tservice⟩
  rcases InterfaceShape.mk.inj h with ⟨hshape, hiface, hservice⟩
  dsimp only at hshape hiface hservice
  have hfields := Interface.mk.inj hiface
  refine ⟨?_, ?_, hfields.2.2.2.1, hfields.2.2.2.2.1, hfields.2.2.1⟩
  · have hinline : tservice.isSome = sservice.isSome := by
      have := congrArg Option.isSome hservice
      simpa only [Option.isSome_map] using this
    cases hform : sservice.isSome <;>
      simp only [Package.catalogName, InterfaceShape.isInline, hinline, hform, hshape, unitOf,
        hname, hunit, if_true, Bool.false_eq_true, if_false]
  · rcases sservice with _ | sservice
    · rcases tservice with _ | tservice
      · exact hfields.2.1
      · cases hservice
    · rcases tservice with _ | tservice
      · cases hservice
      · exact (Service.mk.inj (Option.some.inj hservice)).2.1

end Shapes

/-! ### Relisted builds -/

section Relisted

variable {unit : String} {old new : List Package}

/-- What a build reaches, a relisted one declares. -/
theorem Relisted.mirrors (h : Relisted old new) (hold : CatalogSet old) (hnew : CatalogSet new) :
    Mirrors unit old new := by
  constructor
  · intro a ha
    rcases (mem_roots hold).mp ha with ⟨p, hp, hunit, s, hs, d, hd, hrefs⟩
    rcases h.kept p hp with ⟨q, hq, hsame⟩
    have hmem : s.blank ∈ q.shapes.map InterfaceShape.blank :=
      hsame.shapes.mem_iff.mp (List.mem_map_of_mem hs)
    rcases List.mem_map.mp hmem with ⟨t, ht, htblank⟩
    have hbody := (of_blank hsame.name hsame.unit htblank).2.2.2.2
    have hmemd : blankDocs d ∈ t.iface.interactions.map blankDocs :=
      hbody ▸ List.mem_map_of_mem hd
    rcases List.mem_map.mp hmemd with ⟨e, he, heblank⟩
    rcases exists_alike hsame.name (congrArg Decl.kind heblank) hrefs with ⟨b, hb, hab⟩
    exact ⟨b, (mem_roots hnew).mpr ⟨q, hq, hsame.unitOf.trans hunit, t, ht, e, he, hb⟩, hab⟩
  · intro key p d hget
    rcases of_closure hold hget with ⟨hp, hd, -⟩
    rcases h.kept p hp with ⟨q, hq, hsame⟩
    have hmem : blankDocs d ∈ q.decls.map blankDocs :=
      hsame.decls.mem_iff.mp (List.mem_map_of_mem hd)
    rcases List.mem_map.mp hmem with ⟨e, he, heblank⟩
    have hname : e.name = d.name := (congrArg Decl.name heblank : (blankDocs e).name = _)
    have hkind : (blankDocs e).kind = (blankDocs d).kind := congrArg Decl.kind heblank
    exact ⟨q, hq, hsame.name, e, he, hname, hkind⟩

theorem Relisted.agree (h : Relisted old new) (hold : CatalogSet old) (hnew : CatalogSet new) :
    Agree unit old new :=
  ⟨hold, hnew, h.mirrors hold hnew, h.symm.mirrors hnew hold⟩

theorem Relisted.rearranged (h : Relisted old new) (hnew : CatalogSet new) {p q : Package}
    (hp : p ∈ old) (hq : q ∈ new) (hname : q.name = p.name) : Rearranged p q := by
  rcases h.kept p hp with ⟨r, hr, hsame⟩
  rw [hnew.names q hq r hr (hname.trans hsame.name.symm)]
  exact hsame

/-- Relisted builds have the same shapes, in another order. -/
theorem Relisted.shapes (h : Relisted old new) (hold : CatalogSet old) (hnew : CatalogSet new) :
    ((shapesOf (Index.new unit old).members).map (reducedShape (Index.new unit old))).Perm
      ((shapesOf (Index.new unit new).members).map (reducedShape (Index.new unit new))) := by
  have hagree : Agree unit old new := h.agree hold hnew
  have hmember {set : List Package} (hset : CatalogSet set) (p : Package) :
      p ∈ (Index.new unit set).members ↔ p ∈ set ∧ unitOf p = unit := mem_members hset
  have hnames : ((Index.new unit old).members.map Package.name).Perm
      ((Index.new unit new).members.map Package.name) := by
    refine (List.perm_ext_iff_of_nodup nodup_members nodup_members).mpr (fun name => ?_)
    simp only [List.mem_map, hmember hold, hmember hnew]
    constructor
    · rintro ⟨p, ⟨hp, hunit⟩, rfl⟩
      rcases h.kept p hp with ⟨q, hq, hsame⟩
      exact ⟨q, ⟨hq, hsame.unitOf.trans hunit⟩, hsame.name⟩
    · rintro ⟨q, ⟨hq, hunit⟩, rfl⟩
      rcases h.known q hq with ⟨p, hp, hsame⟩
      exact ⟨p, ⟨hp, hsame.unitOf.symm.trans hunit⟩, hsame.name.symm⟩
  simp only [shapesOf, List.map_flatMap, List.map_map, Function.comp_def]
  refine perm_flatMap_of_keys hnames (fun p hp q hq hname => ?_)
  rcases (hmember hold p).mp hp with ⟨hpmem, hpunit⟩
  rcases (hmember hnew q).mp hq with ⟨hqmem, hqunit⟩
  have hsame := h.rearranged hnew hpmem hqmem hname.symm
  have hsingle := perm_flatMap_of_keys (f := fun s => [reducedShape (Index.new unit old) ⟨p, s⟩])
    (g := fun t => [reducedShape (Index.new unit new) ⟨q, t⟩]) hsame.shapes
    (fun s hs t ht hblank => by
      rcases of_blank hsame.name hsame.unit hblank.symm with
        ⟨hcatalog, hvisibility, hnumber, hprovisional, hbody⟩
      rw [hagree.reducedShape_eq hpmem hpunit hs hqmem hqunit ht hsame.name hcatalog hvisibility
        hnumber hprovisional hbody])
  simpa only [← List.map_eq_flatMap] using hsingle

/-- Relisted builds declare the same, but for the documentation. -/
theorem Relisted.decls (h : Relisted old new) (hold : CatalogSet old) (hnew : CatalogSet new)
    {key : String} {p q : Package} {d e : Decl}
    (hd : (Index.new unit old).closure[key]? = some (p, d))
    (he : (Index.new unit new).closure[key]? = some (q, e)) : blankDocs e = blankDocs d := by
  rcases of_closure hold hd with ⟨hp, hdmem, hdkey⟩
  rcases of_closure hnew he with ⟨hq, hemem, hekey⟩
  dsimp only at hp hdmem hdkey hq hemem hekey
  rcases canonical_inj ((hold.declares p hp).plain d hdmem).1 ((hnew.declares q hq).plain e hemem).1
    (hdkey.symm.trans hekey) with ⟨hpackage, hname⟩
  have hsame := h.rearranged hnew hp hq hpackage.symm
  rcases List.mem_map.mp (hsame.decls.mem_iff.mp (List.mem_map_of_mem hdmem)) with
    ⟨f, hf, hfblank⟩
  -- The declaration of the name is the one that was rearranged.
  have hfname : f.name = e.name := (congrArg Decl.name hfblank).trans hname
  rw [← eq_of_key_eq (hnew.declares q hq).decls hf hemem hfname]
  exact hfblank

end Relisted

/-- What a unit reaches is the least set that has what its interfaces mean and
    what its own declarations mean, and the search for it ends. The input of the
    hash is the same for every order of the packages, of the declarations and of
    the interfaces, however often a package is listed and whatever the
    documentation says. -/
theorem catalog_closure (unit : String) (set : List Package) (hset : CatalogSet set)
    (hnumbered : Numbered unit set) :
    (∀ (key : String) (decl : Decl), (reachableDecls unit set)[key]? = some decl ↔
      ∃ package, key = canonical package decl.name ∧
        ∀ S, Closed unit set S → S (package, decl)) ∧
    (Worklist.run (Index.new unit set).find ownedRefs
      (Worklist.rounds ownedRefs (Index.new unit set).roots (Index.new unit set).entries)
      (Worklist.start (Index.new unit set).roots)).pending = [] ∧
    ∀ other, CatalogSet other → Relisted set other →
      reducedUnit unit set = reducedUnit unit other := by
  refine ⟨fun key decl => reachable_iff hset, closure_done hset, fun other hother h => ?_⟩
  exact (h.agree hset hother).reducedUnit_eq hnumbered
    (fun key p d q e hd he => h.decls hset hother hd he) (h.shapes hset hother)

/-- A ring of structures, each of which names a port of another package. -/
def rings : Package :=
  { name := "u"
    decls := [
      { name := "Ring", visibility := 1, ordinal := 0, docs := .empty, limit := none
        kind := some (.structDef
          { members := [
              some (.field ⟨"next", 1, some (.mk true (some (.named "Ring"))), none, none, .empty⟩),
              some (.field ⟨"port", 2, some (.mk false (some (.named "v.Port"))), none, none,
                .empty⟩)]
            fixedLayout := false }) }]
    interfaces := [
      { name := "Rings", visibility := 1, number := 1, provisional := false
        interactions := [
          { name := "closed", visibility := 0, ordinal := 1, docs := .empty, limit := none
            kind := some (.eventDef ⟨"Ring", none, 1⟩) }] }]
    services := [] }

def ports : Package :=
  { name := "v"
    decls := [
      { name := "Port", visibility := 1, ordinal := 0, docs := .empty, limit := none
        kind := some (.typeDef ⟨some (some (.primitive PRIMITIVE_INTEGER)), none, none, none,
          none⟩) }]
    interfaces := []
    services := [] }

theorem catalogSet_rings : CatalogSet [rings, ports] ∧ CatalogSet [ports, rings, ports] := by
  have hdeclares : rings.Declares ∧ ports.Declares := by
    refine ⟨⟨?_, ?_, ?_⟩, ⟨?_, ?_, ?_⟩⟩ <;> decide +kernel
  refine ⟨⟨by decide +kernel, ?_⟩, ⟨by decide +kernel, ?_⟩⟩ <;>
    simp only [List.forall_mem_cons, List.not_mem_nil, false_implies, implies_true, hdeclares,
      and_self]

/-- The ring is reached once, and a repeated package changes nothing. -/
theorem catalog_closure_rings :
    (reachableDecls "u" [rings, ports]).keys = ["u.Ring", "v.Port"] ∧
      reducedUnit "u" [rings, ports] = reducedUnit "u" [ports, rings, ports] := by
  refine ⟨by decide +kernel, ?_⟩
  have hnumbered : Numbered "u" [rings, ports] := by
    unfold Numbered
    decide +kernel
  have hsame : ∀ p : Package, Rearranged p p :=
    fun p => ⟨rfl, rfl, .refl _, .refl _, .refl _⟩
  refine (catalog_closure "u" [rings, ports] catalogSet_rings.1 hnumbered).2.2 _
    catalogSet_rings.2 ⟨fun p hp => ⟨p, ?_, hsame p⟩, fun q hq => ⟨q, ?_, hsame q⟩⟩
  · exact List.mem_cons_of_mem _ hp
  · rcases List.mem_cons.mp hq with rfl | hq
    · exact List.mem_cons_of_mem _ (List.mem_singleton_self _)
    · exact hq

end Diff

end Ridl
