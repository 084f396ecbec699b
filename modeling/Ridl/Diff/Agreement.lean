import Ridl.Diff.Catalog

/-!
# Builds That Agree

Two builds in which a unit reaches the same declarations. It is enough that the
names the unit starts from are the same, and that what each build reaches the
other declares alike: a name that means a declaration in one build then means
the declaration of the same canonical name in the other, because a declaration
that would hide it there would be reached there, and so be declared here as
well.

Where two builds agree, a reference is written out the same in both, and a
declaration that is the same but for its documentation is the same in the input
of the hash.

## Theorems

* `Agree.find`: What a name means in one build it means in the other.
* `Agree.closure`: Each reaches what the other reaches.
* `Agree.blank_rewrite`: A body is written out the same in both.
* `Agree.reducedUnit_eq`: When the inputs of the hash are the same.
-/

namespace Ridl

namespace Diff

open Library

/-- One name, read in packages of one name. -/
structure Alike (a b : Pending) : Prop where
  name : a.name = b.name
  origin : a.origin = b.origin
  context : a.context.name = b.context.name

/-- A name that is followed from the interactions of the unit. -/
def Followed (unit : String) (set : List Package) (pending : Pending) : Prop :=
  Follows (Index.new unit set).find ownedRefs (Index.new unit set).roots pending

/-- What the unit reaches in the first build the second declares alike. -/
structure Mirrors (unit : String) (old new : List Package) : Prop where
  roots : ∀ a ∈ (Index.new unit old).roots, ∃ b ∈ (Index.new unit new).roots, Alike a b
  decls : ∀ (key : String) p d, (Index.new unit old).closure[key]? = some (p, d) →
    ∃ q ∈ new, q.name = p.name ∧ ∃ e ∈ q.decls, e.name = d.name ∧
      withoutMemberDocs e.kind = withoutMemberDocs d.kind

/-- Each build mirrors the other. -/
structure Agree (unit : String) (old new : List Package) : Prop where
  oldSet : CatalogSet old
  newSet : CatalogSet new
  there : Mirrors unit old new
  back : Mirrors unit new old

/-- Bodies that are the same but for their doc fields mention the same names. -/
theorem exists_alike {p q : Package} {d e : Decl} (hname : q.name = p.name)
    (hkind : withoutMemberDocs e.kind = withoutMemberDocs d.kind) {a : Pending}
    (h : a ∈ collectRefs p d) : ∃ b ∈ collectRefs q e, Alike a b := by
  have hrefs : refs e.kind = refs d.kind := by
    rw [← refs_withoutMemberDocs, hkind, refs_withoutMemberDocs]
  have hexprs : exprs e.kind = exprs d.kind := by
    rw [← exprs_withoutMemberDocs, hkind, exprs_withoutMemberDocs]
  rw [collectRefs, hrefs, hexprs]
  rcases List.mem_append.mp h with h | h
  · rcases List.mem_map.mp h with ⟨name, hmem, rfl⟩
    exact ⟨_, List.mem_append_left _ (List.mem_map_of_mem hmem), rfl, rfl, hname.symm⟩
  · rcases List.mem_map.mp h with ⟨name, hmem, rfl⟩
    exact ⟨_, List.mem_append_right _ (List.mem_map_of_mem hmem), rfl, rfl, hname.symm⟩

namespace Agree

variable {unit : String} {old new : List Package}

theorem symm (h : Agree unit old new) : Agree unit new old := ⟨h.newSet, h.oldSet, h.back, h.there⟩

theorem find (h : Agree unit old new) {a b : Pending} (ha : Followed unit old a)
    (hb : Followed unit new b) (hab : Alike a b) {entry : String × Owned}
    (hentry : entry ∈ (Index.new unit old).find a) :
    ∃ q e, (entry.1, (q, e)) ∈ (Index.new unit new).find b ∧ q.name = entry.2.1.name ∧
      e.name = entry.2.2.name ∧ withoutMemberDocs e.kind = withoutMemberDocs entry.2.2.kind := by
  have hacontext := context_of_follows h.oldSet ha
  have hbcontext := context_of_follows h.newSet hb
  rcases entry with ⟨key, p, d⟩
  rcases h.there.decls key p d ((getElem?_closure h.oldSet).mpr (.of_follows ha hentry)) with
    ⟨q, hq, hqname, e, he, hename, hkind⟩
  rcases (find_iff h.oldSet hacontext).mp hentry with ⟨hmeans, hkey⟩
  -- A declaration of the name in the other context is reached there.
  have hown : ∀ own ∈ b.context.decls, own.name = b.name →
      ∃ mine ∈ a.context.decls, mine.name = a.name := by
    intro own hmem hname
    have hfound : (canonical b.context own.name, (b.context, own)) ∈
        (Index.new unit new).find b :=
      (find_iff h.newSet hbcontext).mpr ⟨.own hmem hname, rfl⟩
    rcases h.back.decls _ _ _ ((getElem?_closure h.newSet).mpr (.of_follows hb hfound)) with
      ⟨r, hr, hrname, mine, hmine, hminename, -⟩
    have hsame : r = a.context := h.oldSet.names r hr _ hacontext (hrname.trans hab.context.symm)
    exact ⟨mine, hsame ▸ hmine, hminename.trans (hname.trans hab.name.symm)⟩
  have hnone : (∀ own ∈ a.context.decls, own.name ≠ a.name) →
      ∀ own ∈ b.context.decls, own.name ≠ b.name := by
    intro hnone own hmem hname
    rcases hown own hmem hname with ⟨mine, hmine, hminename⟩
    exact hnone mine hmine hminename
  have hcanonical : canonical q e.name = canonical p d.name := by
    rw [canonical, canonical, hqname, hename]
  refine ⟨q, e, (find_iff h.newSet hbcontext).mpr ⟨?_, hkey.trans hcanonical.symm⟩, hqname, hename,
    hkind⟩
  rcases hmeans with ⟨hdecl, hname⟩ | ⟨hmine, -, -, hname⟩ | ⟨hexpr, hmine, hbare, -, -, hname⟩
  · have hsame : q = b.context := h.newSet.names q hq _ hbcontext (hqname.trans hab.context)
    subst hsame
    exact .own he (hename.trans (hname.trans hab.name))
  · exact .qualified (hnone hmine) hq he (hab.name.symm.trans (hname.trans hcanonical.symm))
  · exact .imported (hab.origin.symm.trans hexpr) (hnone hmine) (hab.name ▸ hbare) hq he
      (hename.trans (hname.trans hab.name))

/-- Each build reaches what the other reaches. -/
theorem reaches (h : Agree unit old new) {entry : String × Owned}
    (hentry : Reaches (Index.new unit old).find ownedRefs (Index.new unit old).roots entry) :
    ∃ q e, Reaches (Index.new unit new).find ownedRefs (Index.new unit new).roots
        (entry.1, (q, e)) ∧ q.name = entry.2.1.name ∧ e.name = entry.2.2.name ∧
      withoutMemberDocs e.kind = withoutMemberDocs entry.2.2.kind := by
  induction hentry with
  | root hitem hfound =>
      rcases h.there.roots _ hitem with ⟨b, hb, hab⟩
      rcases h.find (.inl hitem) (.inl hb) hab hfound with ⟨q, e, hmem, hrest⟩
      exact ⟨q, e, .root hb hmem, hrest⟩
  | next hsource hitem hfound ih =>
      rcases ih with ⟨r, f, hreached, hrname, -, hkind⟩
      rcases exists_alike hrname hkind hitem with ⟨b, hb, hab⟩
      rcases h.find (.inr ⟨_, hsource, hitem⟩) (.inr ⟨_, hreached, hb⟩) hab hfound with
        ⟨q, e, hmem, hrest⟩
      exact ⟨q, e, .next hreached hb hmem, hrest⟩

theorem closure (h : Agree unit old new) {key : String} {p : Package} {d : Decl}
    (hget : (Index.new unit old).closure[key]? = some (p, d)) :
    ∃ q e, (Index.new unit new).closure[key]? = some (q, e) ∧ q.name = p.name ∧
      e.name = d.name ∧ withoutMemberDocs e.kind = withoutMemberDocs d.kind := by
  rcases h.reaches ((getElem?_closure h.oldSet).mp hget) with ⟨q, e, hreached, hrest⟩
  exact ⟨q, e, (getElem?_closure h.newSet).mpr hreached, hrest⟩

/-- A reference that is resolved in one build is resolved in the other, to the
    same canonical name. -/
theorem resolve (h : Agree unit old new) {a b : Pending} (ha : Followed unit old a)
    (hb : Followed unit new b) (hab : Alike a b) (horigin : a.origin = .typeRef) {key : String}
    {owned : Owned}
    (hresolved : (Index.new unit old).resolve a.name a.context = some (key, owned)) :
    ∃ other, (Index.new unit new).resolve b.name b.context = some (key, other) := by
  have hfound : (key, owned) ∈ (Index.new unit old).find a := by
    simp only [Index.find, horigin, Option.mem_toList]
    exact hresolved
  rcases h.find ha hb hab hfound with ⟨q, e, hmem, -⟩
  simp only [Index.find, hab.origin.symm.trans horigin, Option.mem_toList] at hmem
  exact ⟨(q, e), hmem⟩

theorem canonicalize (h : Agree unit old new) {a b : Pending} (ha : Followed unit old a)
    (hb : Followed unit new b) (hab : Alike a b) (horigin : a.origin = .typeRef) :
    (Index.new unit old).canonicalize a.context a.name =
      (Index.new unit new).canonicalize b.context b.name := by
  have hba : Alike b a := ⟨hab.name.symm, hab.origin.symm, hab.context.symm⟩
  unfold Index.canonicalize
  rcases hold : (Index.new unit old).resolve a.name a.context with _ | ⟨key, owned⟩
  · rcases hnew : (Index.new unit new).resolve b.name b.context with _ | ⟨key, owned⟩
    · exact hab.name
    · rcases h.symm.resolve hb ha hba (hab.origin.symm.trans horigin) hnew with ⟨other, hother⟩
      rw [hold] at hother
      cases hother
  · rcases h.resolve ha hb hab horigin hold with ⟨other, hother⟩
    simp only [hother]

theorem blank_rewrite (h : Agree unit old new) {p q : Package} {d e : Decl}
    (hname : q.name = p.name) (hsame : blankDocs e = blankDocs d)
    (hd : ∀ a ∈ collectRefs p d, Followed unit old a)
    (he : ∀ b ∈ collectRefs q e, Followed unit new b) :
    blankDocs ((Index.new unit new).rewrite q e) = blankDocs ((Index.new unit old).rewrite p d) := by
  have hkind : withoutMemberDocs e.kind = withoutMemberDocs d.kind := congrArg Decl.kind hsame
  have hrefs : refs e.kind = refs d.kind := by
    rw [← refs_withoutMemberDocs, hkind, refs_withoutMemberDocs]
  have hrewrite : mapRefs ((Index.new unit new).canonicalize q) (withoutMemberDocs e.kind) =
      mapRefs ((Index.new unit old).canonicalize p) (withoutMemberDocs d.kind) := by
    rw [hkind]
    refine mapRefs_congr (fun n hn => ?_)
    rw [refs_withoutMemberDocs] at hn
    refine (h.canonicalize (a := ⟨n, p, .typeRef⟩) (b := ⟨n, q, .typeRef⟩) (hd _ ?_) (he _ ?_)
      ⟨rfl, rfl, hname.symm⟩ rfl).symm
    · exact List.mem_append_left _ (List.mem_map_of_mem hn)
    · exact List.mem_append_left _ (List.mem_map_of_mem (hrefs ▸ hn))
  have hfields := Decl.mk.inj hsame
  simp only [blankDocs, Index.rewrite, mapRefs_withoutMemberDocs, hrewrite]
  simp only [Decl.mk.injEq, true_and]
  exact ⟨hfields.1, hfields.2.1, hfields.2.2.1, hfields.2.2.2.2.2.1, hfields.2.2.2.2.2.2⟩

/-- The declarations of the two inputs are the same where the reached ones are,
    but for their documentation. -/
theorem reducedDecls_eq (h : Agree unit old new)
    (hsame : ∀ (key : String) p d q e, (Index.new unit old).closure[key]? = some (p, d) →
      (Index.new unit new).closure[key]? = some (q, e) → blankDocs e = blankDocs d) :
    (Index.new unit old).closure.toList.map (reducedDecl (Index.new unit old)) =
      (Index.new unit new).closure.toList.map (reducedDecl (Index.new unit new)) := by
  have hfollowed {set : List Package} (hset : CatalogSet set) {key : String} {p : Package}
      {d : Decl} (hget : (Index.new unit set).closure[key]? = some (p, d)) :
      ∀ a ∈ collectRefs p d, Followed unit set a :=
    fun a ha => .inr ⟨(key, (p, d)), (getElem?_closure hset).mp hget, ha⟩
  have hmaps : (Index.new unit old).closure.map (fun key owned =>
        reducedDecl (Index.new unit old) (key, owned)) =
      (Index.new unit new).closure.map (fun key owned =>
        reducedDecl (Index.new unit new) (key, owned)) := by
    refine Std.ExtTreeMap.ext_getElem? (fun key => ?_)
    rw [Std.ExtTreeMap.getElem?_map, Std.ExtTreeMap.getElem?_map]
    rcases hold : (Index.new unit old).closure[key]? with _ | ⟨p, d⟩
    · rcases hnew : (Index.new unit new).closure[key]? with _ | ⟨q, e⟩
      · rfl
      · rcases h.symm.closure hnew with ⟨p, d, hget, -⟩
        rw [hold] at hget
        cases hget
    · rcases h.closure hold with ⟨q, e, hnew, hname, -⟩
      have hblank := h.blank_rewrite hname (hsame key p d q e hold hnew)
        (hfollowed h.oldSet hold) (hfollowed h.newSet hnew)
      have hfields := Decl.mk.inj hblank
      rw [hnew, Option.map_some, Option.map_some, Option.some_inj]
      simp only [reducedDecl, blankDocs, Index.rewrite] at hfields ⊢
      simp only [Decl.mk.injEq, true_and]
      exact ⟨hfields.2.1.symm, hfields.2.2.1.symm, hfields.2.2.2.2.1.symm,
        hfields.2.2.2.2.2.1.symm, hfields.2.2.2.2.2.2.symm⟩
  have hlists := congrArg (fun m => m.toList.map Prod.snd) hmaps
  simpa only [Std.ExtTreeMap.toList_map, List.map_map, Function.comp_def] using hlists

/-- The two shapes are the same in the inputs where they are the same but for
    their documentation. -/
theorem reducedShape_eq (h : Agree unit old new) {p q : Package} {s t : InterfaceShape}
    (hp : p ∈ old) (hpunit : unitOf p = unit) (hs : s ∈ p.shapes) (hq : q ∈ new)
    (hqunit : unitOf q = unit) (ht : t ∈ q.shapes) (hname : q.name = p.name)
    (hcatalog : q.catalogName t = p.catalogName s) (hvisibility : t.visibility = s.visibility)
    (hnumber : t.iface.number = s.iface.number)
    (hprovisional : t.iface.provisional = s.iface.provisional)
    (hbody : t.iface.interactions.map blankDocs = s.iface.interactions.map blankDocs) :
    reducedShape (Index.new unit new) ⟨q, t⟩ = reducedShape (Index.new unit old) ⟨p, s⟩ := by
  have hroot {set : List Package} (hset : CatalogSet set) {r : Package} {u : InterfaceShape}
      (hr : r ∈ set) (hunit : unitOf r = unit) (hu : u ∈ r.shapes) :
      ∀ d ∈ u.iface.interactions, ∀ a ∈ collectRefs r d, Followed unit set a :=
    fun d hd a ha => .inl ((mem_roots hset).mpr ⟨r, hr, hunit, u, hu, d, hd, ha⟩)
  have holdroot := hroot h.oldSet hp hpunit hs
  have hnewroot := hroot h.newSet hq hqunit ht
  have hinteractions : t.iface.interactions.map (fun e =>
      blankDocs ((Index.new unit new).rewrite q e)) =
      s.iface.interactions.map (fun d => blankDocs ((Index.new unit old).rewrite p d)) := by
    generalize t.iface.interactions = es at *
    generalize s.iface.interactions = ds at *
    induction es generalizing ds with
    | nil =>
        rw [List.map_eq_nil_iff.mp hbody.symm]
        rfl
    | cons e es ih =>
        rcases ds with _ | ⟨d, ds⟩
        · cases hbody
        · rcases List.cons.inj hbody with ⟨hhead, htail⟩
          rw [List.map_cons, List.map_cons, h.blank_rewrite hname hhead
            (holdroot d List.mem_cons_self) (hnewroot e List.mem_cons_self),
            ih (fun d hd => hnewroot d (List.mem_cons_of_mem _ hd)) _
              (fun d hd => holdroot d (List.mem_cons_of_mem _ hd)) htail]
  simp only [reducedShape, hcatalog, hvisibility, hnumber, hprovisional, hinteractions]

end Agree

/-! ### The order of the interfaces -/

theorem interfaceLe_total (a b : Interface) : interfaceLe a b = true ∨ interfaceLe b a = true := by
  unfold interfaceLe
  rcases hcmp : compare (interfaceKey a) (interfaceKey b) with _ | _ | _
  · exact .inl rfl
  · exact .inl rfl
  · exact .inr (by rw [Std.OrientedOrd.eq_swap, hcmp]; rfl)

theorem sort_eq_of_perm {l m : List Interface} (hperm : l.Perm m)
    (hkeys : ∀ a ∈ l, ∀ b ∈ l, interfaceKey a = interfaceKey b → a = b) :
    l.insertionSort (fun a b => interfaceLe a b = true) =
      m.insertionSort (fun a b => interfaceLe a b = true) := by
  have : Std.Total (fun a b : Interface => interfaceLe a b = true) := ⟨interfaceLe_total⟩
  have : IsTrans Interface (fun a b => interfaceLe a b = true) :=
    ⟨fun _ _ _ hab hbc => Std.TransCmp.isLE_trans hab hbc⟩
  refine List.Perm.eq_of_pairwise (fun a b ha hb hab hba => ?_)
    (List.pairwise_insertionSort _ _) (List.pairwise_insertionSort _ _)
    (((List.perm_insertionSort _ l).trans hperm).trans (List.perm_insertionSort _ m).symm)
  refine hkeys a (List.mem_insertionSort _ |>.mp ha) b
    (hperm.mem_iff.mpr (List.mem_insertionSort _ |>.mp hb)) ?_
  exact Std.compare_eq_iff_eq.mp (Std.OrientedCmp.isLE_antisymm hab hba)

/-- No two interfaces of the unit have one number and one name. -/
def Numbered (unit : String) (set : List Package) : Prop :=
  ∀ p ∈ set, unitOf p = unit → ∀ s ∈ p.shapes, ∀ q ∈ set, unitOf q = unit → ∀ t ∈ q.shapes,
    s.iface.number = t.iface.number → p.catalogName s = q.catalogName t → p = q ∧ s = t

theorem mem_shapesOf {unit : String} {set : List Package} (hset : CatalogSet set) {held : Held} :
    held ∈ shapesOf (Index.new unit set).members ↔
      held.package ∈ set ∧ unitOf held.package = unit ∧ held.shape ∈ held.package.shapes := by
  simp only [shapesOf, List.mem_flatMap, List.mem_map, mem_members hset]
  constructor
  · rintro ⟨package, ⟨hmem, hunit⟩, shape, hshape, rfl⟩
    exact ⟨hmem, hunit, hshape⟩
  · rintro ⟨hmem, hunit, hshape⟩
    exact ⟨held.package, ⟨hmem, hunit⟩, held.shape, hshape, rfl⟩

theorem Agree.reducedUnit_eq {unit : String} {old new : List Package} (h : Agree unit old new)
    (hnumbered : Numbered unit old)
    (hdecls : ∀ (key : String) p d q e, (Index.new unit old).closure[key]? = some (p, d) →
      (Index.new unit new).closure[key]? = some (q, e) → blankDocs e = blankDocs d)
    (hshapes : ((shapesOf (Index.new unit old).members).map
      (reducedShape (Index.new unit old))).Perm
        ((shapesOf (Index.new unit new).members).map (reducedShape (Index.new unit new)))) :
    reducedUnit unit old = reducedUnit unit new := by
  have hsorted := sort_eq_of_perm hshapes (fun a ha b hb hkey => by
    rcases List.mem_map.mp ha with ⟨x, hx, rfl⟩
    rcases List.mem_map.mp hb with ⟨y, hy, rfl⟩
    rcases (mem_shapesOf h.oldSet).mp hx with ⟨hp, hpunit, hs⟩
    rcases (mem_shapesOf h.oldSet).mp hy with ⟨hq, hqunit, ht⟩
    rcases Prod.mk.inj hkey with ⟨hnumber, hname⟩
    rcases hnumbered _ hp hpunit _ hs _ hq hqunit _ ht hnumber hname with ⟨hpackage, hshape⟩
    rcases x with ⟨p, s⟩
    rcases y with ⟨q, t⟩
    dsimp only at hpackage hshape
    rw [hpackage, hshape])
  simp only [reducedUnit, hsorted, h.reducedDecls_eq hdecls]

end Diff

end Ridl
