import Mathlib.Data.List.Pairwise
import Ridl.Library.Run
import Ridl.Lock.RoundTrip

/-!
# Lock Numbers are Permanent

What a run of edits leaves of a lock table.

Every edit but an allocation rewrites entries in place. It keeps their numbers, and a
retired entry stays retired (`Rewrites`), so it keeps the table well formed as long as the
live keys stay apart. An allocation adds an entry whose number no entry has, since
`next` is above them all. An edit that fails leaves the table as it was.

Along a run the entries only grow, so a number that an entry held is still held,
and is not allocated again.

## Theorems

* `Rewrites.wellFormed`: Entries rewritten in place stay well formed.
* `permanent_of_keeps`: From one edit to a run.
* `lock_numbers_permanent`: Both kinds of table.
-/

namespace Ridl

namespace Lock

open Library
open TableKey (display fromStr HEADER MAX_NUMBER)

/-! ### Edits -/

/-- An edit of an entry. -/
inductive Edit (K : Type)
  | allocate (key : K)
  | rename (old new : K)
  | retire (key : K)

/-- An edit of an entry or of a component. -/
inductive InstanceEdit
  | entry (edit : Edit InstanceKey)
  | renameComponent (old new : Text)
  | retireComponent (component : Text)

/-- What an edit answers: the number that it allocated, or that it is done. -/
abbrev EditResult (K : Type) := Except (LockEditError K) (Option Nat)

section Apply

variable {K : Type} [TableKey K] [DecidableEq K]

def Edit.apply (table : LockTable K) : Edit K → LockTable K × EditResult K
  | .allocate key =>
      let (table, result) := table.allocate key
      (table, result.map some)
  | .rename old new =>
      let (table, result) := table.rename old new
      (table, result.map fun _ => none)
  | .retire key =>
      let (table, result) := table.retire key
      (table, result.map fun _ => none)

/-- The keys that are put into the table are read as themselves. -/
def Edit.Valid : Edit K → Prop
  | .allocate key => IsKey key
  | .rename _ new => IsKey new
  | .retire _ => True

end Apply

def InstanceEdit.apply (table : LockTable InstanceKey) :
    InstanceEdit → LockTable InstanceKey × EditResult InstanceKey
  | .entry edit => edit.apply table
  | .renameComponent old new =>
      let (table, result) := table.renameComponent old new
      (table, result.map fun _ => none)
  | .retireComponent component =>
      let (table, result) := table.retireComponent component
      (table, result.map fun _ => none)

def InstanceEdit.Valid : InstanceEdit → Prop
  | .entry edit => edit.Valid
  | .renameComponent _ new => isDotted new = true
  | .retireComponent _ => True

/-! ### What is kept -/

section Kept

variable {K : Type}

/-- An entry keeps its number, and stays retired once it is. -/
def KeptEntry (entry entry' : LockEntry K) : Prop :=
  entry'.number = entry.number ∧ (entry.retired = true → entry'.retired = true)

/-- A table keeps what another holds: `next` is no lower, and each entry is still where it was. -/
structure Kept (table table' : LockTable K) : Prop where
  next : table.next ≤ table'.next
  entry : ∀ (i : Nat) (entry : LockEntry K), table.entries[i]? = some entry →
    ∃ entry', table'.entries[i]? = some entry' ∧ KeptEntry entry entry'

theorem Kept.refl (table : LockTable K) : Kept table table :=
  ⟨Nat.le_refl _, fun _ entry hentry => ⟨entry, hentry, rfl, id⟩⟩

theorem Kept.trans {a b c : LockTable K} (h : Kept a b) (h' : Kept b c) : Kept a c := by
  refine ⟨Nat.le_trans h.next h'.next, fun i entry hentry => ?_⟩
  rcases h.entry i entry hentry with ⟨entry', hentry', hnumber, hretired⟩
  rcases h'.entry i entry' hentry' with ⟨entry'', hentry'', hnumber', hretired'⟩
  exact ⟨entry'', hentry'', hnumber'.trans hnumber, fun hr => hretired' (hretired hr)⟩

theorem Kept.number {table table' : LockTable K} (h : Kept table table') {entry : LockEntry K}
    (hentry : entry ∈ table.entries) :
    ∃ entry' ∈ table'.entries, entry'.number = entry.number := by
  rcases List.mem_iff_getElem?.1 hentry with ⟨i, hi⟩
  rcases h.entry i entry hi with ⟨entry', hentry', hkept⟩
  exact ⟨entry', List.mem_of_getElem? hentry', hkept.1⟩

end Kept

/-! ### Entries rewritten in place -/

section Rewrites

variable {K : Type} [TableKey K]

/-- A change of entries in place, which keeps their numbers and leaves the live keys apart. -/
structure Rewrites (entries : List (LockEntry K)) (f : LockEntry K → LockEntry K) : Prop where
  kept : ∀ entry ∈ entries, KeptEntry entry (f entry)
  key : ∀ entry ∈ entries, IsKey (f entry).key
  live : ∀ entry ∈ entries, ∀ entry' ∈ entries, entry.number ≠ entry'.number →
    (f entry).retired = false → (f entry').retired = false → (f entry).key ≠ (f entry').key

omit [TableKey K] in
theorem nodup_live_iff {entries : List (LockEntry K)} :
    ((entries.filter (!·.retired)).map LockEntry.key).Nodup ↔
      entries.Pairwise fun a b => a.retired = false → b.retired = false → a.key ≠ b.key := by
  rw [List.Nodup, List.pairwise_map, List.pairwise_filter]
  simp only [Bool.not_eq_true']

variable {table : LockTable K}

theorem LockTable.WellFormed.key_ne (hwf : table.WellFormed)
    {entry entry' : LockEntry K} (hentry : entry ∈ table.entries) (hentry' : entry' ∈ table.entries)
    (hne : entry.number ≠ entry'.number) (hlive : entry.retired = false)
    (hlive' : entry'.retired = false) : entry.key ≠ entry'.key := by
  have hsymm : Std.Symm fun a b : LockEntry K =>
      a.retired = false → b.retired = false → a.key ≠ b.key :=
    ⟨fun a b h hb ha heq => h ha hb heq.symm⟩
  refine (nodup_live_iff.1 hwf.live).forall hentry hentry' ?_ hlive hlive'
  exact fun heq => hne (congrArg LockEntry.number heq)

theorem Rewrites.wellFormed {f : LockEntry K → LockEntry K}
    (hf : Rewrites table.entries f) (hwf : table.WellFormed) :
    (⟨table.next, table.entries.map f⟩ : LockTable K).WellFormed where
  next := hwf.next
  number := by
    refine List.forall_mem_map.2 fun entry hentry => ?_
    rw [(hf.kept entry hentry).1]
    exact hwf.number entry hentry
  distinct := by
    have hsame : (table.entries.map f).map LockEntry.number
        = table.entries.map LockEntry.number := by
      rw [List.map_map]
      exact List.map_congr_left fun entry hentry => (hf.kept entry hentry).1
    rw [hsame]
    exact hwf.distinct
  live := by
    rw [nodup_live_iff, List.pairwise_map]
    have hdistinct := List.pairwise_map.1 hwf.distinct
    exact hdistinct.imp_of_mem fun hentry hentry' hne => hf.live _ hentry _ hentry' hne
  key := List.forall_mem_map.2 hf.key

theorem Rewrites.keeps {f : LockEntry K → LockEntry K}
    (hf : Rewrites table.entries f) : Kept table ⟨table.next, table.entries.map f⟩ := by
  refine ⟨Nat.le_refl _, fun i entry hentry => ⟨f entry, ?_, ?_⟩⟩
  · rw [List.getElem?_map, hentry]
    rfl
  · exact hf.kept entry (List.mem_of_getElem? hentry)

end Rewrites

/-! ### What one edit keeps -/

/-- An edit keeps the table, changes nothing where it fails, and allocates a new number. -/
structure Keeps {K : Type} [TableKey K] (table table' : LockTable K) (result : EditResult K) :
    Prop where
  wellFormed : table'.WellFormed
  kept : Kept table table'
  failed : ∀ e, result = .error e → table' = table
  fresh : ∀ n, result = .ok (some n) → ∀ entry ∈ table.entries, entry.number ≠ n

section Edit

variable {K : Type} [TableKey K] [DecidableEq K] {table : LockTable K}

variable {key : K}

omit [TableKey K] in
theorem live_eq_none (h : ¬ (table.live key).isSome = true) :
    ∀ entry ∈ table.entries, entry.retired = false → entry.key ≠ key := by
  have hnone := Option.not_isSome_iff_eq_none.1 h
  simpa [LockTable.live] using hnone

omit [DecidableEq K] in
theorem Keeps.failed_of {e : LockEditError K} (hwf : table.WellFormed) :
    Keeps table table (.error e) :=
  ⟨hwf, Kept.refl table, fun _ _ => rfl, nofun⟩

omit [DecidableEq K] in
theorem Keeps.rewritten {f : LockEntry K → LockEntry K} (hf : Rewrites table.entries f)
    (hwf : table.WellFormed) : Keeps table ⟨table.next, table.entries.map f⟩ (.ok none) :=
  ⟨hf.wellFormed hwf, hf.keeps, nofun, nofun⟩

theorem allocate_keeps (hwf : table.WellFormed) (hkey : IsKey key) :
    Keeps table (table.allocate key).1 ((table.allocate key).2.map some) := by
  unfold LockTable.allocate
  by_cases hlive : (table.live key).isSome = true
  · rw [if_pos hlive]
    exact .failed_of hwf
  rw [if_neg hlive]
  by_cases hmax : table.next > MAX_NUMBER K
  · simp only [hmax, if_true]
    exact .failed_of hwf
  simp only [hmax, if_false]
  have hraised : (⟨table.next + 1, table.entries⟩ : LockTable K).WellFormed :=
    { next := ⟨Nat.le_add_left 1 _, Nat.succ_le_succ (Nat.le_of_not_lt hmax)⟩
      number := fun entry hentry =>
        ⟨(hwf.number entry hentry).1, Nat.lt_succ_of_lt (hwf.number entry hentry).2⟩
      distinct := hwf.distinct
      live := hwf.live
      key := hwf.key }
  have hfresh : ∀ entry ∈ table.entries, entry.number ≠ table.next :=
    fun entry hentry => Nat.ne_of_lt (hwf.number entry hentry).2
  refine ⟨hraised.add ⟨Nat.lt_succ_self _, hfresh, fun _ => live_eq_none hlive⟩ hwf.next.1 hkey,
    ⟨Nat.le_succ _, fun i entry hentry => ⟨entry, ?_, rfl, id⟩⟩, nofun, fun n hn => ?_⟩
  · rw [List.getElem?_append_left (List.getElem?_eq_some_iff.1 hentry).1]
    exact hentry
  · cases hn
    exact hfresh

omit [TableKey K] [DecidableEq K] in
/-- Where the numbers differ, changing one entry rewrites the entry of its number. -/
theorem set_eq_map {entries : List (LockEntry K)} (h : (entries.map LockEntry.number).Nodup)
    (f : LockEntry K → LockEntry K) {i : Nat} {entry : LockEntry K}
    (hi : entries[i]? = some entry) :
    entries.set i (f entry) = entries.map fun e => if e.number = entry.number then f e else e := by
  refine List.ext_getElem? fun j => ?_
  rw [List.getElem?_set, List.getElem?_map]
  by_cases hij : i = j
  · rw [if_pos hij, ← hij, hi, Option.map_some, if_pos rfl,
      if_pos (List.getElem?_eq_some_iff.1 hi).1]
  · rw [if_neg hij]
    cases hj : entries[j]? with
    | none => rfl
    | some e =>
        rw [Option.map_some, if_neg]
        intro heq
        have hlength : i < (entries.map LockEntry.number).length := by
          rw [List.length_map]
          exact (List.getElem?_eq_some_iff.1 hi).1
        refine hij ((List.getElem?_inj hlength h).1 ?_)
        rw [List.getElem?_map, List.getElem?_map, hi, hj]
        exact congrArg some heq.symm

theorem rename_keeps (hwf : table.WellFormed) {old new : K} (hkey : IsKey new) :
    Keeps table (table.rename old new).1 ((table.rename old new).2.map fun _ => none) := by
  unfold LockTable.rename
  cases hindex : table.entries.findIdx? fun entry => !entry.retired && entry.key = old with
  | none => exact .failed_of hwf
  | some index =>
      simp only
      by_cases hlive : (table.live new).isSome = true
      · rw [if_pos hlive]
        exact .failed_of hwf
      rw [if_neg hlive]
      cases hentry : table.entries[index]? with
      | none => exact .failed_of hwf
      | some entry =>
          have hnew := live_eq_none hlive
          simp only
          rw [set_eq_map hwf.distinct (fun e => { e with key := new }) hentry]
          refine Keeps.rewritten ⟨fun e _ => ?_, fun e he => ?_, fun e he e' he' hne => ?_⟩ hwf
          · split_ifs
            · exact ⟨rfl, id⟩
            · exact ⟨rfl, id⟩
          · split_ifs
            · exact hkey
            · exact hwf.key e he
          · split_ifs with hn hn'
            · exact absurd (hn.trans hn'.symm) hne
            · exact fun _ hlive' heq => hnew e' he' hlive' heq.symm
            · exact fun hlive' _ => hnew e he hlive'
            · exact hwf.key_ne he he' hne

theorem retire_keeps (hwf : table.WellFormed) :
    Keeps table (table.retire key).1 ((table.retire key).2.map fun _ => none) := by
  unfold LockTable.retire
  cases hindex : table.entries.findIdx? fun entry => !entry.retired && entry.key = key with
  | none => exact .failed_of hwf
  | some index =>
      simp only
      cases hentry : table.entries[index]? with
      | none => exact .failed_of hwf
      | some entry =>
          simp only
          rw [set_eq_map hwf.distinct (fun e => { e with retired := true }) hentry]
          refine Keeps.rewritten ⟨fun e _ => ?_, fun e he => ?_, fun e he e' he' hne => ?_⟩ hwf
          · split_ifs
            · exact ⟨rfl, fun _ => rfl⟩
            · exact ⟨rfl, id⟩
          · split_ifs
            · exact hwf.key e he
            · exact hwf.key e he
          · split_ifs
            · nofun
            · nofun
            · exact fun _ hretired => nomatch hretired
            · exact hwf.key_ne he he' hne

theorem edit_keeps (hwf : table.WellFormed) {edit : Edit K} (hvalid : edit.Valid) :
    Keeps table (edit.apply table).1 (edit.apply table).2 := by
  cases edit with
  | allocate key => exact allocate_keeps hwf hvalid
  | rename old new => exact rename_keeps hwf hvalid
  | retire key => exact retire_keeps hwf

end Edit

section Component

variable {table : LockTable InstanceKey}

variable {old new : Text}

theorem live_of_taken_eq_none (h : table.taken old new = none)
    {entry : LockEntry InstanceKey} (hentry : entry ∈ table.entries)
    (hlive : entry.retired = false) (hold : entry.key.component = old) :
    ∀ other ∈ table.entries, other.retired = false →
      other.key ≠ { component := new, instanceName := entry.key.instanceName } := by
  have hmem : entry ∈ table.entries.filter fun e => !e.retired && e.key.component = old :=
    List.mem_filter.2 ⟨hentry, by simp [hlive, hold]⟩
  have hnone := List.findSome?_eq_none_iff.1 h entry hmem
  refine live_eq_none fun hsome => ?_
  simp only [hsome, if_true, reduceCtorEq] at hnone

theorem renameComponent_rewrites (hwf : table.WellFormed)
    (hnew : isDotted new = true) (htaken : table.taken old new = none) :
    Rewrites table.entries (LockTable.moveEntry old new) where
  kept := by
    intro entry _
    unfold LockTable.moveEntry
    split_ifs
    · exact ⟨rfl, id⟩
    · exact ⟨rfl, id⟩
  key := by
    intro entry hentry
    have hkey := hwf.key entry hentry
    unfold LockTable.moveEntry
    split_ifs
    · exact isKey_instance_iff.2 ⟨hnew, (isKey_instance_iff.1 hkey).2⟩
    · exact hkey
  live := by
    intro entry hentry entry' hentry' hne
    unfold LockTable.moveEntry
    split_ifs with hold hold'
    · -- Both are moved, and their instances differ.
      intro hlive hlive' heq
      refine hwf.key_ne hentry hentry' hne hlive hlive' ?_
      have hinstance := congrArg InstanceKey.instanceName heq
      exact InstanceKey.ext (hold.trans hold'.symm) hinstance
    · exact fun hlive hlive' heq =>
        live_of_taken_eq_none htaken hentry hlive hold entry' hentry' hlive' heq.symm
    · exact fun hlive hlive' heq =>
        live_of_taken_eq_none htaken hentry' hlive' (by assumption) entry hentry hlive heq
    · exact hwf.key_ne hentry hentry' hne

theorem renameComponent_keeps (hwf : table.WellFormed) (hnew : isDotted new = true) :
    Keeps table (table.renameComponent old new).1
      ((table.renameComponent old new).2.map fun _ => none) := by
  unfold LockTable.renameComponent
  split_ifs
  · exact .failed_of hwf
  · cases htaken : table.taken old new with
    | some target => exact .failed_of hwf
    | none => exact .rewritten (renameComponent_rewrites hwf hnew htaken) hwf

theorem retireEntry_eq {component : Text} {entry : LockEntry InstanceKey} :
    (LockTable.retireEntry component entry).key = entry.key ∧
      KeptEntry entry (LockTable.retireEntry component entry) ∧
      ((LockTable.retireEntry component entry).retired = false → entry.retired = false) := by
  unfold LockTable.retireEntry
  split_ifs
  · exact ⟨rfl, ⟨rfl, fun _ => rfl⟩, fun h => nomatch h⟩
  · exact ⟨rfl, ⟨rfl, id⟩, id⟩

theorem retireComponent_rewrites (hwf : table.WellFormed) (component : Text) :
    Rewrites table.entries (LockTable.retireEntry component) where
  kept := fun _ _ => retireEntry_eq.2.1
  key := by
    intro entry hentry
    rw [retireEntry_eq.1]
    exact hwf.key entry hentry
  live := by
    intro entry hentry entry' hentry' hne hlive hlive'
    rw [retireEntry_eq.1, retireEntry_eq.1]
    exact hwf.key_ne hentry hentry' hne (retireEntry_eq.2.2 hlive) (retireEntry_eq.2.2 hlive')

theorem retireComponent_keeps (hwf : table.WellFormed) (component : Text) :
    Keeps table (table.retireComponent component).1
      ((table.retireComponent component).2.map fun _ => none) := by
  unfold LockTable.retireComponent
  by_cases hempty : (table.entries.filter fun entry =>
      !entry.retired && entry.key.component = component) = []
  · -- Without a live entry of the component, nothing was marked.
    have hsame : table.entries.map (LockTable.retireEntry component) = table.entries := by
      refine (List.map_congr_left (g := id) fun entry hentry => if_neg ?_).trans (List.map_id _)
      exact List.filter_eq_nil_iff.1 hempty entry hentry
    simp only [hempty, if_true, hsame]
    exact .failed_of hwf
  · simp only [hempty, if_false]
    exact .rewritten (retireComponent_rewrites hwf component) hwf

theorem instanceEdit_keeps (hwf : table.WellFormed) {edit : InstanceEdit} (hvalid : edit.Valid) :
    Keeps table (edit.apply table).1 (edit.apply table).2 := by
  cases edit with
  | entry edit => exact edit_keeps hwf hvalid
  | renameComponent old new => exact renameComponent_keeps hwf hvalid
  | retireComponent component => exact retireComponent_keeps hwf component

end Component

/-! ### Runs -/

section Runs

variable {K Op : Type} [TableKey K] [DecidableEq K]

def lockMachine (apply : LockTable K → Op → LockTable K × EditResult K) (start : LockTable K) :
    Machine (LockTable K) Op (EditResult K) where
  init := start
  step := fun table op => some (apply table op)

/-- The table is well formed, its numbers are in range, and it is read back from its text with its
    entries in number order. -/
structure Sound (table : LockTable K) : Prop where
  wellFormed : table.WellFormed
  number : ∀ entry ∈ table.entries,
    1 ≤ entry.number ∧ entry.number ≤ min (table.next - 1) (MAX_NUMBER K)
  readBack : ∃ table', parseTable table.render = .ok table' ∧ table'.next = table.next ∧
    table'.entries.map content = (inOrder table.entries).map content

/-- What a run of edits keeps: every table is sound, an edit keeps what there was and changes
    nothing where it fails, and no number is allocated that an earlier table held. -/
structure Permanent (start : LockTable K)
    (items : List (Machine.Item (LockTable K) Op (EditResult K))) (last : LockTable K) : Prop where
  sound : Sound start ∧ Sound last ∧ ∀ item ∈ items, Sound item.pre ∧ Sound item.post
  kept : Kept start last ∧ ∀ item ∈ items, Kept item.pre item.post
  failed : ∀ item ∈ items, ∀ e, item.answer = .error e → item.post = item.pre
  fresh : ∀ front item back, items = front ++ item :: back → ∀ n, item.answer = .ok (some n) →
    ∀ earlier ∈ front ++ [item], ∀ entry ∈ earlier.pre.entries, entry.number ≠ n

variable [LawfulKey K]

theorem sound_of_wellFormed {table : LockTable K} (hwf : table.WellFormed) : Sound table where
  wellFormed := hwf
  number := by
    intro entry hentry
    have hnumber := hwf.number entry hentry
    have hnext := hwf.next
    exact ⟨hnumber.1, by omega⟩
  readBack := parseTable_render hwf

theorem permanent_of_keeps {apply : LockTable K → Op → LockTable K × EditResult K}
    {valid : Op → Prop}
    (hkeeps : ∀ table op, table.WellFormed → valid op →
      Keeps table (apply table op).1 (apply table op).2)
    {start last : LockTable K} (hstart : start.WellFormed)
    {items : List (Machine.Item (LockTable K) Op (EditResult K))}
    (hrun : Machine.IsRun (lockMachine apply start) start items last)
    (hvalid : ∀ item ∈ items, valid item.op) : Permanent start items last := by
  have hstep : ∀ item ∈ items, item.pre.WellFormed →
      Keeps item.pre item.post item.answer := by
    intro item hitem hwf
    have happly := Option.some.inj (hrun.step_of_mem item hitem)
    have hkept := hkeeps item.pre item.op hwf (hvalid item hitem)
    rw [happly] at hkept
    exact hkept
  have hmem : ∀ item ∈ items, item.pre.WellFormed ∧ item.post.WellFormed :=
    hrun.invariant_mem LockTable.WellFormed hstart fun item hitem _ hwf =>
      (hstep item hitem hwf).wellFormed
  have hitem : ∀ item ∈ items, Keeps item.pre item.post item.answer :=
    fun item h => hstep item h (hmem item h).1
  have hlast : last.WellFormed :=
    hrun.invariant LockTable.WellFormed hstart fun item h _ hwf => (hstep item h hwf).wellFormed
  refine ⟨⟨sound_of_wellFormed hstart, sound_of_wellFormed hlast, fun item h =>
      ⟨sound_of_wellFormed (hmem item h).1, sound_of_wellFormed (hmem item h).2⟩⟩,
    ⟨?_, fun item h => (hitem item h).kept⟩, fun item h => (hitem item h).failed, ?_⟩
  · exact hrun.invariant (Kept start) (Kept.refl start) fun item h _ hkept =>
      hkept.trans (hitem item h).kept
  · -- The tables before the allocation are kept in the one that it is made in.
    intro front item back hitems n hn earlier hearlier entry hentry heq
    have hin : item ∈ items := hitems ▸ List.mem_append_right front List.mem_cons_self
    have hkept : Kept earlier.pre item.pre := by
      rcases List.mem_append.1 hearlier with hfront | hself
      · rcases List.append_of_mem hfront with ⟨before, between, hsplit⟩
        rw [hitems, hsplit, List.append_assoc, List.cons_append] at hrun
        rcases (Machine.isRun_append _ _ _ _).1 hrun with ⟨mid, -, hpre, -, hrest⟩
        rcases (Machine.isRun_append _ _ _ _).1 hrest with ⟨mid', hbetween, hpre', -⟩
        have hsub : ∀ x ∈ earlier :: between, x ∈ items := by
          intro x hx
          rw [hitems, hsplit]
          simp only [List.mem_append, List.mem_cons] at hx ⊢
          exact .inl (.inr hx)
        have hall := hbetween.invariant (Kept earlier.pre)
          (hitem earlier (hsub earlier List.mem_cons_self)).kept fun x hx _ hk =>
            hk.trans (hitem x (hsub x (List.mem_cons_of_mem _ hx))).kept
        rw [hpre']
        exact hall
      · rw [List.mem_singleton.1 hself]
        exact Kept.refl _
    rcases hkept.number hentry with ⟨entry', hentry', hnumber⟩
    exact (hitem item hin).fresh n hn entry' hentry' (hnumber.trans heq)

/-- A table that edits start from: an empty one, or one that a file holds. -/
def IsStart (start : LockTable K) : Prop :=
  start = .default K ∨ ∃ text, parseTable text = .ok start

theorem IsStart.wellFormed {start : LockTable K} (h : IsStart start) : start.WellFormed := by
  rcases h with rfl | ⟨text, htext⟩
  · exact LockTable.wellFormed_default
  · exact wellFormed_of_parse htext

end Runs

/-- Lock numbers are permanent, in both kinds of table. -/
theorem lock_numbers_permanent :
    (∀ (start last : LockTable LockKey)
      (items : List (Machine.Item (LockTable LockKey) (Edit LockKey) (EditResult LockKey))),
      IsStart start → Machine.IsRun (lockMachine Edit.apply start) start items last →
      (∀ item ∈ items, item.op.Valid) → Permanent start items last) ∧
    ∀ (start last : LockTable InstanceKey)
      (items : List (Machine.Item (LockTable InstanceKey) InstanceEdit (EditResult InstanceKey))),
      IsStart start → Machine.IsRun (lockMachine InstanceEdit.apply start) start items last →
      (∀ item ∈ items, item.op.Valid) → Permanent start items last :=
  ⟨fun _ _ _ hstart => permanent_of_keeps (fun _ _ hwf => edit_keeps hwf) hstart.wellFormed,
    fun _ _ _ hstart =>
      permanent_of_keeps (fun _ _ hwf => instanceEdit_keeps hwf) hstart.wellFormed⟩

end Lock

end Ridl
