import Ridl.Sizing.Recursion

/-!
# The Bound of a Buffer

What the walk answers, and what it is a bound of.

A walk ends, and its answer is the one that is found without a memo
(`runSizer_eq_iff`), so it depends on neither the memo nor the order in which the
declarations are met. A buffer of what is written for a value is no longer than the
bound, in whatever order the objects were pushed.

## Theorems

* `maxSize_eq_some_iff`: The bound, without a memo.
* `length_le_of_maxSize`: The bound holds.
* `maxSize_eq_none_of_recursive`: A recursive declaration has no bound.
* `buffer_le_max_size`: All of it.
-/

namespace Ridl

namespace Sizing

open Diff Library Library.Guarded
open FlatBuffers (Push Pos Builder Built)
open Podbuf (Packages U32_MAX)

variable {packages : Packages} {decl : Decl}

/-! ### The walk -/

theorem key_mem_keys (found : Found packages) : found.key ∈ keys packages := by
  refine List.mem_flatMap.2 ⟨found.declaring.package, List.mem_of_find?_eq_some
    found.declaring.found, ?_⟩
  exact List.mem_map.2 ⟨found.decl, List.mem_of_find?_eq_some found.found, rfl⟩

theorem runSizer_ends (w : SizerM packages Nat) (guard : Guard String Nat) :
    ∃ out guard', runSizer w guard = some (out, guard') :=
  run_isSome key_mem_keys (Nat.lt_succ_self _) w guard

/-- The value of a walk, without a memo: nothing has a value under the keys that are being
    computed. -/
def Bounds (packages : Packages) (decl : Decl) (body : Nat) : Prop :=
  ∃ depth, answer (value (avoid Found.key foundBody (rootWalk packages decl).2) depth)
    (rootWalk packages decl).1 = some body

/-- What may be remembered while a declaration is walked. -/
def Remembered (packages : Packages) (decl : Decl) (computed : List (String × Nat)) : Prop :=
  Sound (N := Found packages) Found.key foundBody (rootWalk packages decl).2 computed

theorem remembered_nil : Remembered packages decl [] := by
  intro _ _ h
  cases h

theorem runSizer_eq_iff {computed : List (String × Nat)} {out : Option Nat}
    {guard : Guard String Nat} (hremembered : Remembered packages decl computed)
    (hrun : runSizer (rootWalk packages decl).1 ⟨(rootWalk packages decl).2, computed⟩
      = some (out, guard)) :
    Remembered packages decl guard.computed ∧ ∀ body, out = some body ↔ Bounds packages decl body :=
  (run_eq_iff key_injective hremembered hrun).2

theorem runSizer_eq_maxSize {computed : List (String × Nat)}
    (hremembered : Remembered packages decl computed) :
    ∃ out guard, runSizer (rootWalk packages decl).1 ⟨(rootWalk packages decl).2, computed⟩
        = some (out, guard) ∧
      Remembered packages decl guard.computed ∧ out.bind encodable = maxSize packages decl := by
  rcases runSizer_ends (rootWalk packages decl).1 ⟨(rootWalk packages decl).2, computed⟩ with
    ⟨out, guard, hrun⟩
  rcases runSizer_ends (rootWalk packages decl).1 ⟨(rootWalk packages decl).2, []⟩ with
    ⟨out', guard', hrun'⟩
  rcases runSizer_eq_iff hremembered hrun with ⟨hafter, hout⟩
  have hout' := (runSizer_eq_iff remembered_nil hrun').2
  have hsame : out = out' := Option.ext fun body => (hout body).trans (hout' body).symm
  refine ⟨out, guard, hrun, hafter, ?_⟩
  rw [hsame, maxSize, hrun']
  rfl

variable {n : Nat} {layout : TableLayout} {owner : String}

theorem maxSize_eq_some_iff :
    maxSize packages decl = some n ↔ ∃ body, Bounds packages decl body ∧ encodable body = some n := by
  rcases runSizer_ends (rootWalk packages decl).1 ⟨(rootWalk packages decl).2, []⟩ with
    ⟨out, guard, hrun⟩
  have hout := (runSizer_eq_iff remembered_nil hrun).2
  have hmax : maxSize packages decl = out.bind encodable := by
    rw [maxSize, hrun]
    rfl
  rw [hmax, Option.bind_eq_some_iff]
  exact exists_congr fun body => and_congr_left fun _ => hout body

theorem encodable_eq {body : Nat} (h : encodable body = some n) :
    n = ROOT + body ∧ n ≤ U32_MAX := by
  rcases Option.bind_eq_some_iff.1 h with ⟨bound, hbound, hrest⟩
  rcases Option.ite_none_right_eq_some.1 hrest with ⟨hle, heq⟩
  cases heq
  exact ⟨checkedAddU64_eq_some hbound, hle⟩

/-! ### What it bounds -/

theorem costOf_le_of_bounds {body : Nat} (hbody : Bounds packages decl body)
    {pushes : List Push} (hwritten : Written packages decl pushes) : costOf pushes ≤ body := by
  rcases hbody with ⟨depth, hbody⟩
  unfold rootWalk at hbody
  rcases hwritten with ⟨p, ⟨hkind, hstored⟩ | ⟨hkind, hstored⟩⟩
  · refine (stored_le (rootWalk packages decl).2 hstored depth
      { inline := OFFSET, outOfLine := body } ⟨rfl, ?_⟩).2
    unfold rootWalk
    generalize hdecl : decl.kind = kind at hkind hbody
    unfold IsComposite at hkind
    split at hkind
    · exact hbody
    · exact hbody
    · exact hkind.elim
  · have hbox : answer (value (avoid Found.key foundBody (rootWalk packages decl).2) depth)
        (rootBoxBound (rootHome packages) decl) = some body := by
      unfold rootWalk
      generalize decl.kind = kind at hkind hbody
      unfold IsBoxed at hkind
      split at hkind
      · exact hbody
      · exact hbody
      · exact hbody
      · exact hkind.elim
    rw [rootBoxBound, answer_bind] at hbox
    rcases Option.bind_eq_some_iff.1 hbox with ⟨charge, hcharge, hn⟩
    exact (stored_le _ hstored depth _ (covers_box rfl hcharge hn)).2

theorem length_le_of_maxSize (hn : maxSize packages decl = some n)
    {pushes : List Push} (hwritten : Written packages decl pushes) {out bytes : Bytes}
    {b : Builder} {objects : List (Pos × Push)} {root : Pos} {align : Nat}
    (hbuilt : Built out b objects) (horder : (objects.map Prod.snd).Perm pushes)
    (halign : align ≤ 8) (hfinish : b.finish root align = .ok bytes) : bytes.length ≤ n := by
  rcases maxSize_eq_some_iff.1 hn with ⟨body, hbody, hencodable⟩
  have hcost := costOf_le_of_bounds hbody hwritten
  have hused := FlatBuffers.built_used_le hbuilt
  have hsum : (objects.map fun object => object.2.cost).sum = costOf pushes := by
    rw [costOf, ← (horder.map Push.cost).sum_eq, List.map_map]
    rfl
  have hlength := FlatBuffers.length_finish_le hfinish
  have hroot : ROOT = 4 + 7 := rfl
  have hoffset : FlatBuffers.OFFSET_SIZE = 4 := rfl
  rw [(encodable_eq hencodable).1, hroot]
  rw [hoffset] at hlength
  omega

theorem maxSize_eq_none_of_recursive (h : Recursive packages decl) :
    maxSize packages decl = none := by
  rcases h with ⟨found, found', hleads, hreach, hself⟩
  by_contra hsome
  rcases Option.ne_none_iff_exists'.1 hsome with ⟨n, hn⟩
  rcases maxSize_eq_some_iff.1 hn with ⟨body, ⟨depth, hbody⟩, -⟩
  have hwalk : rootWalk packages decl
      = (compositeBound (rootHome packages) decl, [rootKey packages decl]) := by
    rcases hleads with ⟨reference, hmentions, -⟩
    unfold rootWalk
    generalize decl.kind = kind at hmentions
    cases hmentions <;> rfl
  rw [hwalk] at hbody
  have hvalue : ∃ d, Valued [rootKey packages decl] d found' := by
    rcases value_of_leads hbody hleads with ⟨v, hv⟩
    rcases Relation.reflTransGen_iff_eq_or_transGen.1 hreach with heq | htrans
    · exact ⟨depth, v, heq ▸ hv⟩
    · rcases value_of_transGen ⟨v, hv⟩ htrans with ⟨d, -, hd⟩
      exact ⟨d, hd⟩
  rcases hvalue with ⟨d, v, hv⟩
  rcases hself with hroot | htrans
  · exact not_mem_of_value hv (hroot ▸ List.mem_singleton_self _)
  · exact not_transGen_self ⟨v, hv⟩ htrans

/-! ### Widths -/

theorem vtableSlots_le {bound : Nat}
    (h : ∀ slot ∈ layout.slots, slot.id + 1 ≤ bound) : layout.vtableSlots ≤ bound := by
  unfold TableLayout.vtableSlots
  cases hmax : (layout.slots.map fun slot => slot.id + 1).max? with
  | none => exact Nat.zero_le _
  | some m => exact (List.max?_le_iff hmax).2 (List.forall_mem_map.2 h)

/-- The ordinal of a member fits a `u32`. -/
def OrdinalFits : Option StructMember → Prop
  | some (.field field) => field.ordinal ≤ U32_MAX
  | some (.reserved reserved) => reserved.ordinal ≤ U32_MAX
  | none => True

theorem slotId_fits {ordinal id : Nat} (h : slotId owner ordinal = .ok id)
    (hfits : ordinal ≤ U32_MAX) : id + 1 ≤ U32_MAX := by
  unfold slotId at h
  split_ifs at h with hzero
  cases h
  omega

theorem memberSlot_fits {member : Option StructMember} {added : List FieldSlot}
    (h : memberSlot owner member = .ok added) (hfits : OrdinalFits member) :
    ∀ slot ∈ added, slot.id + 1 ≤ U32_MAX := by
  rcases member with _ | ⟨field⟩ | ⟨reserved⟩
  · cases h
    nofun
  all_goals
    rcases of_bind_eq_ok h with ⟨id, hid, heq⟩
    cases heq
    exact List.forall_mem_singleton.2 (slotId_fits hid hfits)

theorem foldlM_structSlot_fits {members : List (Option StructMember)}
    {slots slots' : List FieldSlot} (h : members.foldlM (structSlot owner) slots = .ok slots')
    (hfits : ∀ member ∈ members, OrdinalFits member)
    (hslots : ∀ slot ∈ slots, slot.id + 1 ≤ U32_MAX) :
    ∀ slot ∈ slots', slot.id + 1 ≤ U32_MAX := by
  induction members generalizing slots with
  | nil =>
      cases h
      exact hslots
  | cons member members ih =>
      rw [List.foldlM_cons] at h
      rcases of_bind_eq_ok h with ⟨next, hnext, hrest⟩
      rcases of_bind_eq_ok hnext with ⟨added, hadded, hchecked⟩
      rw [checkLast_eq hchecked] at hrest
      refine ih hrest (fun m hm => hfits m (List.mem_cons_of_mem _ hm)) fun slot hslot => ?_
      rcases List.mem_append.1 hslot with hmem | hmem
      · exact hslots slot hmem
      · exact memberSlot_fits hadded (hfits member List.mem_cons_self) slot hmem

theorem structTable_fits {d : StructDef}
    (h : structTable owner d = .ok layout) (hfits : ∀ member ∈ d.members, OrdinalFits member) :
    layout.vtableSlots ≤ U32_MAX := by
  unfold structTable at h
  cases hslots : d.members.foldlM (structSlot owner) [] with
  | error e => simp only [hslots, Except.map, reduceCtorEq] at h
  | ok slots =>
      simp only [hslots, Except.map, Except.ok.injEq] at h
      rw [← h]
      exact vtableSlots_le (foldlM_structSlot_fits hslots hfits nofun)

theorem mapM_tupleSlot_fits {name : String} {indices : List Nat} {slots : List FieldSlot}
    (h : indices.mapM (tupleSlot name) = .ok slots) : ∀ slot ∈ slots, slot.id + 1 ≤ U32_MAX := by
  induction indices generalizing slots with
  | nil =>
      cases h
      nofun
  | cons index indices ih =>
      rw [List.mapM_cons] at h
      rcases of_bind_eq_ok h with ⟨slot, hslot, hrest⟩
      rcases of_bind_eq_ok hrest with ⟨rest, hmap, heq⟩
      cases heq
      refine List.forall_mem_cons.2 ⟨?_, ih hmap⟩
      unfold tupleSlot at hslot
      split_ifs at hslot with hle
      cases hslot
      exact hle

theorem tupleTable_fits {name : String} {fields : List TupleField}
    (h : tupleTable name fields = .ok layout) : layout.vtableSlots ≤ U32_MAX := by
  unfold tupleTable at h
  cases hslots : (List.range fields.length).mapM (tupleSlot name) with
  | error e => simp only [hslots, Except.map, reduceCtorEq] at h
  | ok slots =>
      simp only [hslots, Except.map, Except.ok.injEq] at h
      rw [← h]
      exact vtableSlots_le (mapM_tupleSlot_fits hslots)

/-- The bound of a declaration. The walk ends, and answers the same from anything that is
    remembered; a recursive declaration has no bound; a buffer of what is written for a value is
    no longer than the bound, in whatever order its objects are pushed; and the counts fit. -/
theorem buffer_le_max_size (packages : Packages) (decl : Decl) :
    (∀ computed, Remembered packages decl computed →
      ∃ out guard, runSizer (rootWalk packages decl).1 ⟨(rootWalk packages decl).2, computed⟩
          = some (out, guard) ∧
        Remembered packages decl guard.computed ∧ out.bind encodable = maxSize packages decl) ∧
    (∀ n, maxSize packages decl = some n ↔
      ∃ body, Bounds packages decl body ∧ encodable body = some n) ∧
    (Recursive packages decl → maxSize packages decl = none) ∧
    (∀ n, maxSize packages decl = some n → n ≤ U32_MAX ∧
      ∀ pushes, Written packages decl pushes →
        ∀ (out bytes : Bytes) (b : Builder) (objects : List (Pos × Push)) (root : Pos)
          (align : Nat), Built out b objects → (objects.map Prod.snd).Perm pushes → align ≤ 8 →
          b.finish root align = .ok bytes → bytes.length ≤ n) ∧
    (∀ owner d layout, structTable owner d = .ok layout →
      (∀ member ∈ d.members, OrdinalFits member) → layout.vtableSlots ≤ U32_MAX) ∧
    ∀ name fields layout, tupleTable name fields = .ok layout → layout.vtableSlots ≤ U32_MAX := by
  refine ⟨fun computed => runSizer_eq_maxSize, fun n => maxSize_eq_some_iff,
    maxSize_eq_none_of_recursive, fun n hn => ⟨?_, fun pushes hwritten out bytes b objects root
      align => length_le_of_maxSize hn hwritten⟩, fun owner d layout => structTable_fits,
    fun name fields layout => tupleTable_fits⟩
  rcases maxSize_eq_some_iff.1 hn with ⟨body, -, hencodable⟩
  exact (encodable_eq hencodable).2

end Sizing

end Ridl
