import Ridl.Diff.Classify

/-!
# Wire Identity

An interaction is known on the wire by its ordinal, so an edit of an interface
may not give an old ordinal another meaning. What the diff reports as
compatible keeps the ordinals, with one exception.

The walk compares slots by name. A tombstone without a name, and one whose name
is also another slot's, is not compared (`Interface.unnamed`), and it holds a
slot all the same. Dropping one, or writing one ahead of a surviving
interaction, moves the interactions behind it and is no change of any
(`dropped_unnamed`). Where every such tombstone stays out of the survivors'
slots, a report without a breaking change keeps every ordinal.

The argument follows the survivors by their old ordinal. Let those before slot
`k` be in place, and let the survivor of slot `k` stand somewhere else. When it
moved down, the slot it took was an old slot, which kept its survivor or became
a tombstone. When it moved up, something else stands in slot `k` on the new
side, in front of an anchor: a later survivor, which changed its rank, or a new
slot, which was inserted.

## Theorems

* `Silent.spec`: What a report without a breaking change rules out.
* `survivor_kept`: A survivor has its old ordinal.
* `wire_identity`: When the wire identity is kept.
-/

namespace Ridl

namespace Diff

open Library

/-! ### The slots of an interface -/

/-- Every slot is an interaction or a tombstone, and takes the next ordinal. -/
def Interface.Dense (iface : Interface) : Prop :=
  ∀ slot ∈ iface.interactions.zipIdx, slot.1.kind.isSome = true ∧ slot.1.ordinal = slot.2 + 1

instance (iface : Interface) : Decidable iface.Dense :=
  inferInstanceAs (Decidable (∀ slot ∈ iface.interactions.zipIdx,
    slot.1.kind.isSome = true ∧ slot.1.ordinal = slot.2 + 1))

def Interface.UniqueNames (iface : Interface) : Prop :=
  ((liveInteractions iface).map Decl.name).Nodup

instance (iface : Interface) : Decidable iface.UniqueNames :=
  inferInstanceAs (Decidable ((liveInteractions iface).map Decl.name).Nodup)

def Interface.Live (iface : Interface) (name : String) (ordinal : Nat) : Prop :=
  ∃ decl ∈ liveInteractions iface, decl.name = name ∧ decl.ordinal = ordinal

def Decl.isTombstone (decl : Decl) : Bool :=
  match decl.kind with
  | some (.reservedSlot _) => true
  | _ => false

def Interface.Tombstone (iface : Interface) (ordinal : Nat) : Prop :=
  ∃ decl ∈ iface.interactions, decl.isTombstone = true ∧ decl.ordinal = ordinal

def slotName (decl : Decl) : Option String :=
  match decl.kind with
  | some (.reservedSlot reserved) => reserved.name
  | some _ => some decl.name
  | none => none

/-- A tombstone has a name that no other slot has. -/
def Interface.named (iface : Interface) (decl : Decl) : Bool :=
  (slotName decl).any (fun name =>
    iface.interactions.all (fun other =>
      slotName other ≠ some name || other.ordinal == decl.ordinal))

/-- The ordinals of the tombstones that have no name, or share it. -/
def Interface.unnamed (iface : Interface) : List Nat :=
  (iface.interactions.filter (fun decl => decl.isTombstone && !iface.named decl)).map Decl.ordinal

/-- An old peer's ordinals mean what they meant: a survivor keeps its ordinal,
    what is gone keeps it as a tombstone, and nothing new takes it. -/
structure WireKept (old new : Interface) : Prop where
  survivors : ∀ name o n, old.Live name o → new.Live name n → n = o
  gone : ∀ name o, old.Live name o → (∀ n, ¬ new.Live name n) → new.Tombstone o
  tombstones : ∀ o, old.Tombstone o → new.Tombstone o
  fresh : ∀ name n, new.Live name n → (∀ o, ¬ old.Live name o) →
    ∀ decl ∈ old.interactions, decl.ordinal ≠ n

/-- Every old tombstone without a name of its own is a tombstone still, and no
    new one is in the slot of an interaction that is live on both sides. -/
def UnnamedKept (old new : Interface) : Prop :=
  (∀ o ∈ old.unnamed, new.Tombstone o) ∧
    ∀ n ∈ new.unnamed, ∀ name, old.Live name n → ∀ m, ¬ new.Live name m

section Slots

variable {iface : Interface}

theorem isTombstone_iff (decl : Decl) :
    decl.isTombstone = true ↔ ∃ reserved, decl.kind = some (.reservedSlot reserved) := by
  unfold Decl.isTombstone
  constructor
  · intro h
    split at h
    · next reserved hkind => exact ⟨reserved, hkind⟩
    · cases h
  · rintro ⟨reserved, hkind⟩
    rw [hkind]

theorem mem_liveInteractions (decl : Decl) :
    decl ∈ liveInteractions iface ↔
      decl ∈ iface.interactions ∧ decl.kind ≠ none ∧ decl.isTombstone = false := by
  unfold liveInteractions Decl.isTombstone
  rw [List.mem_filter]
  refine and_congr_right fun _ => ?_
  rcases hkind : decl.kind with _ | kind
  · simp only [Bool.false_eq_true, ne_eq, not_true_eq_false, false_and]
  · cases kind <;>
      simp only [Bool.false_eq_true, Bool.true_eq_false, ne_eq, reduceCtorEq, not_false_eq_true,
        and_true, and_false]

theorem slotName_live (decl : Decl) (h : decl ∈ liveInteractions iface) :
    slotName decl = some decl.name := by
  rcases (mem_liveInteractions decl).mp h with ⟨_, hkind, htomb⟩
  unfold slotName
  split
  · next reserved hreserved =>
      rw [(isTombstone_iff decl).mpr ⟨reserved, hreserved⟩] at htomb
      cases htomb
  · rfl
  · next hnone => exact absurd hnone hkind

theorem reservedName_eq (decl : Decl) (name : String) (o : Nat) :
    reservedName decl = some (name, o) ↔
      decl.isTombstone = true ∧ slotName decl = some name ∧ decl.ordinal = o := by
  unfold reservedName Decl.isTombstone slotName
  rcases hkind : decl.kind with _ | kind
  · simp only [reduceCtorEq, Bool.false_eq_true, false_and]
  · cases kind <;>
      simp only [reduceCtorEq, Bool.false_eq_true, false_and, Option.map_eq_some_iff,
        Prod.mk.injEq, true_and]
    constructor
    · rintro ⟨n, hn, rfl, hord⟩
      exact ⟨hn, hord⟩
    · rintro ⟨hn, hord⟩
      exact ⟨name, hn, rfl, hord⟩

theorem Interface.Dense.get (h : iface.Dense) (i : Nat) (decl : Decl)
    (hi : iface.interactions[i]? = some decl) :
    decl.kind.isSome = true ∧ decl.ordinal = i + 1 :=
  h (decl, i) (List.mem_zipIdx_iff_getElem?.mpr hi)

theorem Interface.Dense.pos (h : iface.Dense) (decl : Decl) (hd : decl ∈ iface.interactions) :
    1 ≤ decl.ordinal := by
  rcases List.mem_iff_getElem?.mp hd with ⟨i, hi⟩
  rw [(h.get i decl hi).2]
  exact Nat.le_add_left 1 i

theorem Interface.Dense.ordinal_inj (h : iface.Dense) (a b : Decl) (ha : a ∈ iface.interactions)
    (hb : b ∈ iface.interactions) (hord : a.ordinal = b.ordinal) : a = b := by
  rcases List.mem_iff_getElem?.mp ha with ⟨i, hi⟩
  rcases List.mem_iff_getElem?.mp hb with ⟨j, hj⟩
  have hij : i = j := by
    have hia := (h.get i a hi).2
    have hjb := (h.get j b hj).2
    omega
  rw [hij, hj] at hi
  exact (Option.some.inj hi).symm

theorem Interface.Dense.slot (h : iface.Dense) (last : Decl) (hlast : last ∈ iface.interactions)
    (k : Nat) (hpos : 1 ≤ k) (hle : k ≤ last.ordinal) :
    ∃ decl ∈ iface.interactions, decl.ordinal = k := by
  rcases List.mem_iff_getElem?.mp hlast with ⟨i, hi⟩
  have hilt := (List.getElem?_eq_some_iff.mp hi).1
  have hord := (h.get i last hi).2
  have hk : k - 1 < iface.interactions.length := by omega
  refine ⟨iface.interactions[k - 1], List.getElem_mem hk, ?_⟩
  rw [(h.get (k - 1) _ (List.getElem?_eq_getElem hk)).2]
  omega

theorem Interface.Dense.live_or_tombstone (h : iface.Dense) (decl : Decl)
    (hd : decl ∈ iface.interactions) :
    decl ∈ liveInteractions iface ∨ decl.isTombstone = true := by
  rcases List.mem_iff_getElem?.mp hd with ⟨i, hi⟩
  by_cases htomb : decl.isTombstone = true
  · exact Or.inr htomb
  · exact Or.inl ((mem_liveInteractions decl).mpr
      ⟨hd, Option.isSome_iff_ne_none.mp (h.get i decl hi).1, Bool.eq_false_iff.mpr htomb⟩)

variable {name : String} {o : Nat}

theorem Interface.Live.slot (h : iface.Live name o) :
    ∃ decl ∈ iface.interactions, decl.isTombstone = false ∧ decl.name = name ∧
      decl.ordinal = o := by
  rcases h with ⟨decl, hd, hname, hord⟩
  rcases (mem_liveInteractions decl).mp hd with ⟨hmem, _, htomb⟩
  exact ⟨decl, hmem, htomb, hname, hord⟩

theorem Interface.Live.not_tombstone (h : iface.Dense)
    (hlive : iface.Live name o) : ¬ iface.Tombstone o := by
  rintro ⟨tomb, htomb, hkind, hord⟩
  rcases hlive.slot with ⟨decl, hd, hnot, _, hordinal⟩
  rcases h.ordinal_inj tomb decl htomb hd (hord.trans hordinal.symm) with rfl
  rw [hkind] at hnot
  cases hnot

theorem Interface.Live.name_eq (h : iface.Dense) {a b : String}
    (ha : iface.Live a o) (hb : iface.Live b o) : a = b := by
  rcases ha.slot with ⟨da, hda, _, rfl, horda⟩
  rcases hb.slot with ⟨db, hdb, _, rfl, hordb⟩
  rw [h.ordinal_inj da db hda hdb (horda.trans hordb.symm)]

theorem Interface.Live.ordinal_eq (h : iface.UniqueNames) {a b : Nat}
    (ha : iface.Live name a) (hb : iface.Live name b) : a = b := by
  rcases ha with ⟨da, hda, hna, rfl⟩
  rcases hb with ⟨db, hdb, hnb, rfl⟩
  rw [List.inj_on_of_nodup_map h hda hdb (hna.trans hnb.symm)]

theorem getElem?_liveMap {decl : Decl} (h : (liveMap iface)[name]? = some decl) :
    decl ∈ liveInteractions iface ∧ decl.name = name := by
  have hmem := OrdMap.mem_of_getElem?_collect _ _ _ h
  rcases List.mem_map.mp hmem with ⟨d, hd, heq⟩
  rcases Prod.mk.inj heq with ⟨rfl, rfl⟩
  exact ⟨hd, rfl⟩

theorem liveMap_of_live {n : Nat} (h : iface.Live name n) :
    ∃ decl, (liveMap iface)[name]? = some decl := by
  rcases h with ⟨decl, hd, rfl, _⟩
  exact OrdMap.getElem?_collect_of_mem _ (decl.name, decl) (List.mem_map.mpr ⟨decl, hd, rfl⟩)

theorem live_of_liveMap {decl : Decl} (h : (liveMap iface)[name]? = some decl) :
    iface.Live name decl.ordinal :=
  ⟨decl, (getElem?_liveMap h).1, (getElem?_liveMap h).2, rfl⟩

theorem tombstone_of_reservedNames
    (h : (reservedNames iface)[name]? = some o) : iface.Tombstone o := by
  rcases List.mem_filterMap.mp (OrdMap.mem_of_getElem?_collect _ _ _ h) with ⟨decl, hd, heq⟩
  rcases (reservedName_eq decl name o).mp heq with ⟨htomb, _, hord⟩
  exact ⟨decl, hd, htomb, hord⟩

/-- A tombstone with a name of its own is in the map under it, and no
    interaction at another ordinal has the name. -/
theorem named_tombstone (decl : Decl) (hd : decl ∈ iface.interactions)
    (htomb : decl.isTombstone = true) (hnamed : iface.named decl = true) :
    ∃ name, (reservedNames iface)[name]? = some decl.ordinal ∧
      ∀ n, iface.Live name n → n = decl.ordinal := by
  unfold Interface.named at hnamed
  rcases (Option.any_eq_true _ _).mp hnamed with ⟨name, hname, hall⟩
  have hother : ∀ other ∈ iface.interactions, slotName other = some name →
      other.ordinal = decl.ordinal := by
    intro other ho heq
    have hor := List.all_eq_true.mp hall other ho
    simpa only [heq, ne_eq, not_true_eq_false, decide_false, Bool.false_or, beq_iff_eq] using hor
  refine ⟨name, ?_, fun n hlive => ?_⟩
  · refine OrdMap.getElem?_collect_of_unique _ _ _ (List.mem_filterMap.mpr ⟨decl, hd, ?_⟩) ?_
    · exact (reservedName_eq decl name decl.ordinal).mpr ⟨htomb, hname, rfl⟩
    · intro w hw
      rcases List.mem_filterMap.mp hw with ⟨other, ho, heq⟩
      rcases (reservedName_eq other name w).mp heq with ⟨_, hslot, rfl⟩
      exact hother other ho hslot
  · rcases hlive with ⟨live, hl, rfl, rfl⟩
    exact hother live ((mem_liveInteractions live).mp hl).1 (slotName_live live hl)

end Slots

/-! ### Ranks -/

section Ranks

variable {matched : List Matched} (key : Matched → Nat)

theorem ranked_pairwise : (ranked matched key).Pairwise (fun a b => key a ≤ key b) := by
  have htotal : Std.Total (fun a b : Matched => key a ≤ key b) := ⟨fun a b => Nat.le_total _ _⟩
  have htrans : IsTrans Matched (fun a b => key a ≤ key b) := ⟨fun _ _ _ => Nat.le_trans⟩
  exact List.pairwise_insertionSort _ matched

/-- The rank of an interaction is its place in the order. -/
theorem rankBy_spec (hnodup : (matched.map Matched.name).Nodup) (m : Matched) (hm : m ∈ matched) :
    ∃ i : Nat, (rankBy matched key)[m.name]? = some i ∧ (ranked matched key)[i]? = some m := by
  rcases List.mem_iff_getElem?.mp ((List.mem_insertionSort _).mpr hm :
    m ∈ ranked matched key) with ⟨i, hi⟩
  have hentry : (m.name, i) ∈ (ranked matched key).zipIdx.map (fun e => (e.1.name, e.2)) :=
    List.mem_map.mpr ⟨(m, i), List.mem_zipIdx_iff_getElem?.mpr hi, rfl⟩
  rcases OrdMap.getElem?_collect_of_mem _ _ hentry with ⟨j, hj⟩
  refine ⟨j, hj, ?_⟩
  rcases List.mem_map.mp (OrdMap.mem_of_getElem?_collect _ _ _ hj) with ⟨⟨m', j'⟩, hmem, heq⟩
  rcases Prod.mk.inj heq with ⟨hname, rfl⟩
  have hget : (ranked matched key)[j']? = some m' := List.mem_zipIdx_iff_getElem?.mp hmem
  have hm' : m' ∈ matched := (List.mem_insertionSort _).mp (List.mem_of_getElem? hget)
  rw [hget, List.inj_on_of_nodup_map hnodup hm' hm hname]

theorem rank_order (hnodup : (matched.map Matched.name).Nodup)
    (hranks : ∀ m ∈ matched,
      (rankBy matched Matched.oldOrd)[m.name]? = (rankBy matched Matched.newOrd)[m.name]?)
    (a b : Matched) (ha : a ∈ matched) (hb : b ∈ matched) (h : a.oldOrd < b.oldOrd) :
    a.newOrd ≤ b.newOrd := by
  rcases rankBy_spec Matched.oldOrd hnodup a ha with ⟨i, hi, hai⟩
  rcases rankBy_spec Matched.oldOrd hnodup b hb with ⟨j, hj, hbj⟩
  rcases rankBy_spec Matched.newOrd hnodup a ha with ⟨i', hi', hai'⟩
  rcases rankBy_spec Matched.newOrd hnodup b hb with ⟨j', hj', hbj'⟩
  have hii : i = i' := Option.some.inj ((hi.symm.trans (hranks a ha)).trans hi')
  have hjj : j = j' := Option.some.inj ((hj.symm.trans (hranks b hb)).trans hj')
  subst hii hjj
  have hsorted : ∀ key, (ranked matched key).Pairwise (fun a b => key a ≤ key b) := ranked_pairwise
  have hold := List.pairwise_iff_getElem.mp (hsorted Matched.oldOrd)
  have hnew := List.pairwise_iff_getElem.mp (hsorted Matched.newOrd)
  rcases List.getElem?_eq_some_iff.mp hai with ⟨hil, hai⟩
  rcases List.getElem?_eq_some_iff.mp hbj with ⟨hjl, hbj⟩
  rcases List.getElem?_eq_some_iff.mp hai' with ⟨hil', hai'⟩
  rcases List.getElem?_eq_some_iff.mp hbj' with ⟨hjl', hbj'⟩
  rcases Nat.lt_trichotomy i j with hlt | rfl | hgt
  · have hle := hnew i j hil' hjl' hlt
    rw [hai', hbj'] at hle
    exact hle
  · rw [← hai, ← hbj] at h
    exact absurd h (Nat.lt_irrefl _)
  · have hle := hold j i hjl hil hgt
    rw [hai, hbj] at hle
    omega

end Ranks

/-! ### A report without a breaking change -/

/-- No change that the walk reports of the two interfaces is breaking. -/
def Silent (oldPackage newPackage : Package) (pkg iface : String) (old new : Interface) : Prop :=
  ∀ change ∈ diffInterface pkg iface old new,
    classifyIn change oldPackage newPackage ≠ .breaking

section Silence

variable {oldPackage newPackage : Package} {pkg iface : String} {old new : Interface}

theorem addedCategory_eq (anchors : List Nat) (ordinal : Nat) (anchor : Nat)
    (hmem : anchor ∈ anchors) (hlt : ordinal < anchor) :
    addedCategory anchors ordinal = .interactionInserted := by
  unfold addedCategory
  rw [if_pos (List.any_eq_true.mpr ⟨anchor, hmem, decide_eq_true hlt⟩)]

/-- The anchors of two interfaces. -/
def anchorsOf (old new : Interface) : List Nat :=
  anchorOrdinals (matchedInteractions old new) new ((liveInteractions old).map Decl.name)
    (reservedNames old)

/-- What a report without a breaking change says of each kind of slot. -/
structure Quiet (old new : Interface) : Prop where
  retired : ∀ decl ∈ liveInteractions old, (liveMap new)[decl.name]? = none →
    (reservedNames new)[decl.name]? = some decl.ordinal
  reserved : ∀ (name : String) (o : Nat), (reservedNames old)[name]? = some o →
    (liveMap new)[name]? = none → (reservedNames new)[name]? = some o
  minted : ∀ (name : String) (n : Nat), (reservedNames new)[name]? = some n →
    name ∉ (liveInteractions old).map Decl.name → (reservedNames old)[name]? = none →
      ∀ anchor ∈ anchorsOf old new, anchor ≤ n
  added : ∀ decl ∈ liveInteractions new, decl.name ∉ (liveInteractions old).map Decl.name →
    (reservedNames old)[decl.name]? = none ∧ ∀ anchor ∈ anchorsOf old new, anchor ≤ decl.ordinal
  ranks : ∀ m ∈ matchedInteractions old new,
    (rankBy (matchedInteractions old new) Matched.oldOrd)[m.name]? =
      (rankBy (matchedInteractions old new) Matched.newOrd)[m.name]?

theorem Silent.not_mem (h : Silent oldPackage newPackage pkg iface old new) (path : String)
    (category : Category)
    (hbreaking : classifyIn ⟨path, category⟩ oldPackage newPackage = .breaking) :
    ⟨path, category⟩ ∉ diffInterface pkg iface old new := fun hmem => h _ hmem hbreaking

theorem not_contains_of_not_mem {names : List String} {name : String} (h : name ∉ names) :
    names.contains name = false :=
  Bool.eq_false_iff.mpr fun hcontains => h (List.contains_iff_mem.mp hcontains)

theorem Silent.quiet (h : Silent oldPackage newPackage pkg iface old new) : Quiet old new := by
  refine ⟨fun decl hd hnone => ?_, fun name o hres hnone => ?_, fun name n hres hlive hold => ?_,
    fun decl hd hlive => ?_, fun m hm => ?_⟩
  · by_contra hne
    refine h.not_mem (pkg ++ "/" ++ iface ++ "/" ++ decl.name) .interactionRemoved rfl ?_
    refine List.mem_append_left _ (List.mem_append_left _ (List.mem_append_left _
      (List.mem_append_left _ (List.mem_flatMap.mpr ⟨decl, hd, ?_⟩))))
    simp only [hnone]
    rcases hr : (reservedNames new)[decl.name]? with _ | reservedOrd
    · exact (mem_emit _ _ _ _).mpr ⟨rfl, rfl⟩
    · have hord : reservedOrd ≠ decl.ordinal := fun heq => hne (heq ▸ hr)
      simp only [if_neg hord]
      exact (mem_emit _ _ _ _).mpr ⟨rfl, rfl⟩
  · have hentry : (name, o) ∈ (reservedNames old).toList :=
      Std.ExtTreeMap.mem_toList_iff_getElem?_eq_some.mpr hres
    have htomb : ∀ change, change ∈
        (if (liveMap new).contains name then []
          else (reservedNames new)[name]?.elim
            (emit (pkg ++ "/" ++ iface ++ "/" ++ name) .interactionRemoved true)
            (fun newOrd => emit (pkg ++ "/" ++ iface ++ "/" ++ name) .interactionReordered
              (newOrd ≠ o))) →
        change ∈ diffInterface pkg iface old new := by
      intro change hchange
      refine List.mem_append_left _ (List.mem_append_left _ (List.mem_append_left _
        (List.mem_append_right _ (List.mem_flatMap.mpr ⟨(name, o), hentry, ?_⟩))))
      dsimp only
      cases hr : (reservedNames new)[name]? with
      | none =>
          rw [hr] at hchange
          exact hchange
      | some newOrd =>
          rw [hr] at hchange
          exact hchange
    rw [OrdMap.contains_eq_false _ _ hnone] at htomb
    rcases hr : (reservedNames new)[name]? with _ | newOrd
    · rw [hr] at htomb
      exact absurd (htomb _ ((mem_emit _ _ _ _).mpr ⟨rfl, rfl⟩)) (h.not_mem _ _ rfl)
    · rw [hr] at htomb
      by_contra hne
      have hord : newOrd ≠ o := fun heq => hne (heq ▸ rfl)
      exact absurd (htomb _ ((mem_emit _ _ _ _).mpr ⟨decide_eq_true hord, rfl⟩))
        (h.not_mem _ _ rfl)
  · intro anchor hanchor
    by_contra hlt
    have hcategory := addedCategory_eq (anchorsOf old new) n anchor hanchor (Nat.lt_of_not_le hlt)
    have hentry : (name, n) ∈ (reservedNames new).toList :=
      Std.ExtTreeMap.mem_toList_iff_getElem?_eq_some.mpr hres
    refine h.not_mem (pkg ++ "/" ++ iface ++ "/" ++ name) .interactionInserted rfl ?_
    refine List.mem_append_left _ (List.mem_append_left _ (List.mem_append_right _
      (List.mem_flatMap.mpr ⟨(name, n), hentry, ?_⟩)))
    simp only [not_contains_of_not_mem hlive, OrdMap.contains_eq_false _ _ hold, Bool.or_self,
      Bool.false_eq_true, if_false]
    exact (mem_emit _ _ _ _).mpr ⟨rfl, by rw [← hcategory]; rfl⟩
  · have hadded : ∀ change, change ∈
        (if ((liveInteractions old).map Decl.name).contains decl.name then []
          else if (reservedNames old).contains decl.name then
            emit (pkg ++ "/" ++ iface ++ "/" ++ decl.name) .reservedNameRedeclared true
          else emit (pkg ++ "/" ++ iface ++ "/" ++ decl.name)
            (addedCategory (anchorsOf old new) decl.ordinal) true) →
        change ∈ diffInterface pkg iface old new := by
      intro change hchange
      exact List.mem_append_left _ (List.mem_append_right _
        (List.mem_flatMap.mpr ⟨decl, hd, hchange⟩))
    simp only [not_contains_of_not_mem hlive, Bool.false_eq_true, if_false] at hadded
    rcases hr : (reservedNames old)[decl.name]? with _ | o
    · rw [OrdMap.contains_eq_false _ _ hr] at hadded
      refine ⟨rfl, fun anchor hanchor => ?_⟩
      by_contra hlt
      rw [addedCategory_eq _ _ anchor hanchor (Nat.lt_of_not_le hlt)] at hadded
      exact absurd (hadded _ ((mem_emit _ _ _ _).mpr ⟨rfl, rfl⟩)) (h.not_mem _ _ rfl)
    · have hcontains : (reservedNames old).contains decl.name = true := by
        rw [Std.ExtTreeMap.contains_iff_mem, Std.ExtTreeMap.mem_iff_isSome_getElem?, hr]
        rfl
      rw [if_pos hcontains] at hadded
      exact absurd (hadded _ ((mem_emit _ _ _ _).mpr ⟨rfl, rfl⟩)) (h.not_mem _ _ rfl)
  · by_contra hne
    refine h.not_mem (pkg ++ "/" ++ iface ++ "/" ++ m.name) .interactionReordered rfl ?_
    exact List.mem_append_right _ (List.mem_flatMap.mpr
      ⟨m, hm, (mem_emit _ _ _ _).mpr ⟨decide_eq_true hne, rfl⟩⟩)

end Silence

/-! ### The survivors -/

section Survivors

variable {old new : Interface}

theorem mem_matched {name : String} {o n : Nat} (hunique : new.UniqueNames) (ho : old.Live name o)
    (hn : new.Live name n) : (⟨name, o, n⟩ : Matched) ∈ matchedInteractions old new := by
  rcases liveMap_of_live hn with ⟨newDecl, hnew⟩
  rcases ho with ⟨decl, hd, rfl, rfl⟩
  refine List.mem_filterMap.mpr ⟨decl, hd, ?_⟩
  rw [hnew, Option.map_some, hn.ordinal_eq hunique (live_of_liveMap hnew)]

theorem names_sublist (f : Decl → Option Matched) (hf : ∀ d m, f d = some m → m.name = d.name)
    (l : List Decl) : ((l.filterMap f).map Matched.name).Sublist (l.map Decl.name) := by
  induction l with
  | nil => exact List.Sublist.slnil
  | cons d l ih =>
      rcases hd : f d with _ | m
      · rw [List.filterMap_cons_none hd, List.map_cons]
        exact ih.cons d.name
      · rw [List.filterMap_cons_some hd, List.map_cons, List.map_cons, hf d m hd]
        exact ih.cons_cons d.name

theorem nodup_matched (hunique : old.UniqueNames) :
    ((matchedInteractions old new).map Matched.name).Nodup := by
  refine List.Nodup.sublist (names_sublist _ (fun d m hm => ?_) (liveInteractions old)) hunique
  rcases Option.map_eq_some_iff.mp hm with ⟨_, _, rfl⟩
  rfl

theorem tombstone_kept (hquiet : Quiet old new) (hold : old.Dense)
    (hunnamed : ∀ o ∈ old.unnamed, new.Tombstone o) (o : Nat) (h : old.Tombstone o) :
    new.Tombstone o := by
  rcases h with ⟨decl, hd, htomb, rfl⟩
  by_cases hnamed : old.named decl = true
  · rcases named_tombstone decl hd htomb hnamed with ⟨name, hreserved, hlive⟩
    rcases hnew : (liveMap new)[name]? with _ | newDecl
    · exact tombstone_of_reservedNames (hquiet.reserved name decl.ordinal hreserved hnew)
    · -- The name of a tombstone was declared again.
      have hadded := hquiet.added newDecl (getElem?_liveMap hnew).1
      rw [(getElem?_liveMap hnew).2] at hadded
      refine absurd (hadded fun hmem => ?_).1 (by rw [hreserved]; exact Option.some_ne_none _)
      rcases List.mem_map.mp hmem with ⟨live, hl, hname⟩
      have hord := hlive live.ordinal ⟨live, hl, hname, rfl⟩
      exact Interface.Live.not_tombstone hold ⟨live, hl, hname, hord⟩ ⟨decl, hd, htomb, rfl⟩
  · exact hunnamed decl.ordinal (List.mem_map.mpr ⟨decl, List.mem_filter.mpr ⟨hd, by
      rw [htomb, Bool.eq_false_iff.mpr hnamed]; rfl⟩, rfl⟩)

theorem gone_kept (hquiet : Quiet old new) (name : String) (o : Nat) (h : old.Live name o)
    (hgone : ∀ n, ¬ new.Live name n) : new.Tombstone o := by
  rcases h with ⟨decl, hd, rfl, rfl⟩
  refine tombstone_of_reservedNames (hquiet.retired decl hd ?_)
  rcases hnew : (liveMap new)[decl.name]? with _ | newDecl
  · rfl
  · exact absurd (live_of_liveMap hnew) (hgone newDecl.ordinal)

/-- Where the survivors in front of it are in place, an old slot is not taken
    by one from behind it. -/
theorem not_moved_down (hquiet : Quiet old new) (hold : old.Dense) (hnew : new.Dense)
    (hou : old.UniqueNames) (hunnamed : ∀ o ∈ old.unnamed, new.Tombstone o) (k n : Nat)
    (name : String)
    (ih : ∀ o < k, ∀ other m, old.Live other o → new.Live other m → m = o)
    (ho : old.Live name k) (hn : new.Live name n) : ¬ n < k := by
  intro hlt
  rcases ho.slot with ⟨last, hlast, _, _, hlastord⟩
  rcases hn.slot with ⟨taken, htaken, _, _, htakenord⟩
  have hpos := hnew.pos taken htaken
  rcases hold.slot last hlast n (by omega) (by omega) with ⟨decl, hd, hord⟩
  rcases hold.live_or_tombstone decl hd with hlive | htomb
  · have hthere : old.Live decl.name n := ⟨decl, hlive, rfl, hord⟩
    by_cases hgone : ∀ m, ¬ new.Live decl.name m
    · exact hn.not_tombstone hnew (gone_kept hquiet decl.name n hthere hgone)
    · rcases not_forall.mp hgone with ⟨m, hm⟩
      have hkept := ih n hlt decl.name m hthere (not_not.mp hm)
      have hsame := Interface.Live.name_eq hnew (hkept ▸ not_not.mp hm) hn
      rw [hsame] at hthere
      exact Nat.ne_of_lt hlt (hthere.ordinal_eq hou ho)
  · exact hn.not_tombstone hnew (tombstone_kept hquiet hold hunnamed n ⟨decl, hd, htomb, hord⟩)

/-- Where the survivors in front of it are in place, a survivor is not moved up
    by something in front of it. -/
theorem not_moved_up (hquiet : Quiet old new) (hold : old.Dense) (hnew : new.Dense)
    (hou : old.UniqueNames) (hnu : new.UniqueNames)
    (hunnamed : ∀ n ∈ new.unnamed, ∀ name, old.Live name n → ∀ m, ¬ new.Live name m) (k n : Nat)
    (name : String) (ih : ∀ o < k, ∀ other m, old.Live other o → new.Live other m → m = o)
    (ho : old.Live name k) (hn : new.Live name n) : ¬ k < n := by
  intro hlt
  rcases ho.slot with ⟨first, hfirst, _, _, hfirstord⟩
  rcases hn.slot with ⟨last, hlast, _, _, hlastord⟩
  have hpos := hold.pos first hfirst
  have hanchor : n ∈ anchorsOf old new :=
    List.mem_append_left _ (List.mem_map.mpr ⟨_, mem_matched hnu ho hn, rfl⟩)
  rcases hnew.slot last hlast k (by omega) (by omega) with ⟨decl, hd, hord⟩
  rcases hnew.live_or_tombstone decl hd with hlive | htomb
  · have hthere : new.Live decl.name k := ⟨decl, hlive, rfl, hord⟩
    by_cases hmem : decl.name ∈ (liveInteractions old).map Decl.name
    · -- A survivor that was in front is in place; one from behind changed its rank.
      rcases List.mem_map.mp hmem with ⟨oldDecl, holdDecl, hname⟩
      have hwas : old.Live decl.name oldDecl.ordinal := ⟨oldDecl, holdDecl, hname, rfl⟩
      rcases Nat.lt_trichotomy oldDecl.ordinal k with hbefore | heq | hbehind
      · have hkept := ih oldDecl.ordinal hbefore decl.name k hwas hthere
        omega
      · have hsame := Interface.Live.name_eq hold (heq ▸ hwas) ho
        rw [hsame] at hthere
        exact Nat.ne_of_lt hlt (hthere.ordinal_eq hnu hn)
      · have hle := rank_order (nodup_matched hou) hquiet.ranks _ _ (mem_matched hnu ho hn)
          (mem_matched hnu hwas hthere) hbehind
        exact Nat.not_le.mpr hlt hle
    · have hle := (hquiet.added decl hlive hmem).2 n hanchor
      omega
  · by_cases hnamed : new.named decl = true
    · rcases named_tombstone decl hd htomb hnamed with ⟨retired, hreserved, hown⟩
      rw [hord] at hreserved hown
      -- The name is not live on the new side, since its slot is a tombstone's.
      have hnone : (liveMap new)[retired]? = none := by
        rcases hl : (liveMap new)[retired]? with _ | live
        · rfl
        · have hlives := live_of_liveMap hl
          rw [hown _ hlives] at hlives
          exact absurd ⟨decl, hd, htomb, hord⟩ (hlives.not_tombstone hnew)
      by_cases hmem : retired ∈ (liveInteractions old).map Decl.name
      · rcases List.mem_map.mp hmem with ⟨oldDecl, holdDecl, rfl⟩
        have hsame := hquiet.retired oldDecl holdDecl hnone
        rw [hreserved, Option.some.injEq] at hsame
        have heq := Interface.Live.name_eq hold ⟨oldDecl, holdDecl, rfl, hsame.symm⟩ ho
        rcases liveMap_of_live (heq ▸ hn) with ⟨live, hl⟩
        rw [hnone] at hl
        cases hl
      · rcases hr : (reservedNames old)[retired]? with _ | o
        · have hle := hquiet.minted retired k hreserved hmem hr n hanchor
          omega
        · have hkept := hquiet.reserved retired o hr hnone
          rw [hreserved, Option.some.injEq] at hkept
          exact ho.not_tombstone hold (hkept ▸ tombstone_of_reservedNames hr)
    · refine hunnamed k (List.mem_map.mpr ⟨decl, List.mem_filter.mpr ⟨hd, ?_⟩, hord⟩) name ho n hn
      rw [htomb, Bool.eq_false_iff.mpr hnamed]
      rfl

theorem survivor_kept (hquiet : Quiet old new) (hold : old.Dense) (hnew : new.Dense)
    (hou : old.UniqueNames) (hnu : new.UniqueNames) (hunnamed : UnnamedKept old new) (k : Nat) :
    ∀ name n, old.Live name k → new.Live name n → n = k := by
  induction k using Nat.strongRecOn with
  | ind k ih =>
      intro name n ho hn
      rcases Nat.lt_trichotomy n k with hlt | heq | hgt
      · exact absurd hlt (not_moved_down hquiet hold hnew hou hunnamed.1 k n name ih ho hn)
      · exact heq
      · exact absurd hgt (not_moved_up hquiet hold hnew hou hnu hunnamed.2 k n name ih ho hn)

end Survivors

/-- When no change of two interfaces is breaking, every ordinal keeps its
    meaning if and only if the tombstones that have no name of their own keep
    out of the survivors' slots and keep their own. -/
theorem wire_identity (oldPackage newPackage : Package) (pkg iface : String)
    (old new : Interface) (hold : old.Dense) (hnew : new.Dense) (hou : old.UniqueNames)
    (hnu : new.UniqueNames) (hsilent : Silent oldPackage newPackage pkg iface old new) :
    WireKept old new ↔ UnnamedKept old new := by
  have hquiet := hsilent.quiet
  constructor
  · intro hkept
    refine ⟨fun o ho => hkept.tombstones o ?_, fun n hn name hlive m hm => ?_⟩
    · rcases List.mem_map.mp ho with ⟨decl, hd, rfl⟩
      rcases List.mem_filter.mp hd with ⟨hmem, hboth⟩
      exact ⟨decl, hmem, (Bool.and_eq_true_iff.mp hboth).1, rfl⟩
    · rcases List.mem_map.mp hn with ⟨decl, hd, rfl⟩
      rcases List.mem_filter.mp hd with ⟨hmem, hboth⟩
      refine hm.not_tombstone hnew ⟨decl, hmem, (Bool.and_eq_true_iff.mp hboth).1, ?_⟩
      exact (hkept.survivors name decl.ordinal m hlive hm).symm
  · intro hunnamed
    have hsurvivors := fun name o n => survivor_kept hquiet hold hnew hou hnu hunnamed o name n
    have htombs := tombstone_kept hquiet hold hunnamed.1
    refine ⟨hsurvivors, gone_kept hquiet, htombs, ?_⟩
    rintro name n hn hfresh decl hd rfl
    rcases hold.live_or_tombstone decl hd with hlive | htomb
    · have hthere : old.Live decl.name decl.ordinal := ⟨decl, hlive, rfl, rfl⟩
      by_cases hgone : ∀ m, ¬ new.Live decl.name m
      · exact hn.not_tombstone hnew (gone_kept hquiet _ _ hthere hgone)
      · rcases not_forall.mp hgone with ⟨m, hm⟩
        have hm := not_not.mp hm
        have hkept := hsurvivors decl.name decl.ordinal m hthere hm
        have hsame := Interface.Live.name_eq hnew (hkept ▸ hm) hn
        exact hfresh decl.ordinal (hsame ▸ hthere)
    · exact hn.not_tombstone hnew (htombs decl.ordinal ⟨decl, hd, htomb, rfl⟩)

/-! ### A tombstone without a name -/

def signalAt (name : String) (ordinal : Nat) : Decl :=
  { name := name, visibility := 0, ordinal := ordinal, docs := .empty
    kind := some (.signalDef
      { payload := "T", declaredInit := none, init := none, timing := none, family := 0 })
    limit := none }

/-- A tombstone without a name at the ordinal. -/
def tombstoneAt (ordinal : Nat) : Decl :=
  { name := "", visibility := 0, ordinal := ordinal, docs := .empty
    kind := some (.reservedSlot { ordinal := ordinal, name := none, value := some ordinal })
    limit := none }

/-- A tombstone without a name stands between two signals. -/
def heldOpen : Interface :=
  { name := "I", visibility := 1, number := 1, provisional := false
    interactions := [signalAt "a" 1, tombstoneAt 2, signalAt "b" 3] }

/-- The tombstone is dropped, and the second signal takes its ordinal. -/
def slidDown : Interface := { heldOpen with interactions := [signalAt "a" 1, signalAt "b" 2] }

theorem tombstone_heldOpen : heldOpen.Tombstone 2 :=
  ⟨tombstoneAt 2, List.mem_cons_of_mem _ List.mem_cons_self, rfl, rfl⟩

/-- An interface that is not edited keeps its ordinals. -/
theorem wire_identity_same : WireKept heldOpen heldOpen := by
  have hnone : diffInterface "p" "I" heldOpen heldOpen = [] := by decide +kernel
  have hsilent (package : Package) : Silent package package "p" "I" heldOpen heldOpen := by
    unfold Silent
    rw [hnone]
    exact List.forall_mem_nil _
  have hdense : heldOpen.Dense := by decide
  refine (wire_identity _ _ "p" "I" heldOpen heldOpen hdense hdense (by decide) (by decide)
    (hsilent { name := "p", decls := [], interfaces := [heldOpen], services := [] })).mpr ⟨?_, ?_⟩
  · intro o ho
    rcases List.mem_singleton.mp ho with rfl
    exact tombstone_heldOpen
  · intro n hn name hlive
    rcases List.mem_singleton.mp hn with rfl
    exact absurd tombstone_heldOpen (hlive.not_tombstone hdense)

/-- A tombstone without a name is dropped, the signal behind it takes its
    ordinal, and the walk reports nothing. -/
theorem dropped_unnamed :
    heldOpen.Dense ∧ slidDown.Dense ∧ heldOpen.UniqueNames ∧ slidDown.UniqueNames ∧
      diffInterface "p" "I" heldOpen slidDown = [] ∧ ¬ WireKept heldOpen slidDown := by
  refine ⟨by decide, by decide, by decide, by decide, by decide +kernel, fun hkept => ?_⟩
  have hwas : heldOpen.Live "b" 3 :=
    ⟨signalAt "b" 3, List.mem_filter.mpr ⟨List.mem_of_getElem? (i := 2) rfl, rfl⟩, rfl, rfl⟩
  have hnow : slidDown.Live "b" 2 :=
    ⟨signalAt "b" 2, List.mem_filter.mpr ⟨List.mem_of_getElem? (i := 1) rfl, rfl⟩, rfl, rfl⟩
  cases hkept.survivors "b" 3 2 hwas hnow

end Diff

end Ridl
