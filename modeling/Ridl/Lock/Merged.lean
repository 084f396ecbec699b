import Mathlib.Data.List.Perm.Basic
import Ridl.Lock.Markers
import Ridl.Lock.Merging

/-!
# Merged Lock Tables are Sound

What the merge of three lock tables owes them, and when it keeps it.

What is merged holds, below the next number of the three, what the rule keeps, and from
it on what is renumbered, in the order of the numbers. So without a conflict the table is
one that a file can hold, as long as its next number is. With one, every entry that is
merged and every entry in conflict has its line in the text, and the markers keep the
text from being read.

The renumbering counts on past the highest number that a file may hold, up to the
highest `u32`. There the merge fails, and in between it gives a table whose text does not
parse.

## Main definitions

* `Versions.keeps`, `Versions.contents`: What the merge of the numbers holds.
* `Versions.Disagree`: The sides disagree about a number or a live key.

## Theorems

* `merge_eq`: With room there is an outcome.
* `conflictsOf_eq_nil_iff`: It has a conflict where the sides disagree.
* `cleanMerge_resolved`, `conflictMerge_resolved`: Each outcome owes nothing.
* `lock_merge_sound`: The merge is sound exactly where there is room.
-/

namespace Ridl

namespace Lock

open Library
open TableKey (HEADER MAX_NUMBER)

variable {K : Type} [DecidableEq K]

namespace Versions

/-- The numbers that any of the three holds. -/
def numbers (v : Versions K) : List Nat := mergeNumbers v.base v.ours v.theirs

/-- What a number means after the merge, where the sides do not disagree about it. -/
def keeps (v : Versions K) (n : Nat) : Option (K × Bool) :=
  match v.rule n with
  | .takes value => value
  | .both c _ => some c
  | .conflict => none

/-- What the merge of the numbers holds. -/
def contents (v : Versions K) : List (K × Bool) :=
  v.numbers.flatMap fun n => (v.keeps n).toList ++ (v.movedAt n).toList

/-- The sides disagree about a number, or what they bring holds a live key twice. -/
def Disagree (v : Versions K) : Prop :=
  (∃ n ∈ v.numbers, v.rule n = .conflict) ∨
    ¬ ((v.contents.filter fun c => !c.2).map Prod.fst).Nodup

/-- Each of the three can be in a file. -/
structure WellFormed [TableKey K] (v : Versions K) : Prop where
  base : v.base.WellFormed
  ours : v.ours.WellFormed
  theirs : v.theirs.WellFormed

end Versions

/-! ### The numbers -/

section Numbers

variable {v : Versions K}

omit [DecidableEq K] in
theorem Versions.WellFormed.distinct [TableKey K] (hv : v.WellFormed) : v.Distinct :=
  ⟨hv.base.distinct, hv.ours.distinct, hv.theirs.distinct⟩

variable {n : Nat} {c : K × Bool}

omit [DecidableEq K] in
theorem mem_keys_byNumber {table : LockTable K} :
    n ∈ (byNumber table).keys ↔ (holds table n).isSome := by
  rw [Std.ExtTreeMap.mem_keys, Std.ExtTreeMap.mem_iff_isSome_getElem?, holds, Option.isSome_map]

omit [DecidableEq K] in
theorem mem_numbers : n ∈ v.numbers ↔
    (holds v.base n).isSome ∨ (holds v.ours n).isSome ∨ (holds v.theirs n).isSome := by
  rw [Versions.numbers, mergeNumbers, Std.ExtTreeSet.mem_toList, Std.ExtTreeSet.mem_ofList,
    List.contains_iff_mem, List.mem_append, List.mem_append, mem_keys_byNumber, mem_keys_byNumber,
    mem_keys_byNumber, or_assoc]

omit [DecidableEq K] in
theorem nodup_numbers : v.numbers.Nodup := by
  unfold Versions.numbers mergeNumbers
  exact Std.ExtTreeSet.distinct_toList.imp fun h heq =>
    h (Std.LawfulEqOrd.compare_eq_iff_eq.2 heq)

omit [DecidableEq K] in
theorem bounds_of_holds [TableKey K] {table : LockTable K} (hwf : table.WellFormed)
    (h : holds table n = some c) : 1 ≤ n ∧ n < table.next ∧ IsKey c.1 := by
  rcases (holds_eq_some hwf.distinct).1 h with ⟨entry, hentry, rfl, rfl⟩
  exact ⟨(hwf.number entry hentry).1, (hwf.number entry hentry).2, hwf.key entry hentry⟩

omit [DecidableEq K] in
theorem bounds_of_mem_numbers [TableKey K] (hv : v.WellFormed) (h : n ∈ v.numbers) :
    1 ≤ n ∧ n < v.next := by
  unfold Versions.next
  rcases mem_numbers.1 h with hsome | hsome | hsome
  · rcases Option.isSome_iff_exists.1 hsome with ⟨c, hc⟩
    have hbounds := bounds_of_holds hv.base hc
    omega
  · rcases Option.isSome_iff_exists.1 hsome with ⟨c, hc⟩
    have hbounds := bounds_of_holds hv.ours hc
    omega
  · rcases Option.isSome_iff_exists.1 hsome with ⟨c, hc⟩
    have hbounds := bounds_of_holds hv.theirs hc
    omega

omit [DecidableEq K] in
theorem next_bounds [TableKey K] (hv : v.WellFormed) : 1 ≤ v.next ∧ v.next ≤ MAX_NUMBER K + 1 := by
  have hbase := hv.base.next
  have hours := hv.ours.next
  have htheirs := hv.theirs.next
  unfold Versions.next
  omega

omit [DecidableEq K] in
theorem not_mem_numbers [TableKey K] (hv : v.WellFormed) (h : v.next ≤ n) :
    holds v.base n = none ∧ holds v.ours n = none ∧ holds v.theirs n = none := by
  have hnot : n ∉ v.numbers := fun hmem => by
    have hbounds := bounds_of_mem_numbers hv hmem
    omega
  rw [mem_numbers, not_or, not_or] at hnot
  simp only [Option.not_isSome_iff_eq_none] at hnot
  exact hnot

theorem of_keeps (h : v.keeps n = some c) :
    holds v.ours n = some c ∨ holds v.theirs n = some c := by
  unfold Versions.keeps at h
  cases hrule : v.rule n with
  | takes value =>
      rw [hrule] at h
      dsimp only at h
      subst h
      exact (eq_or_eq_of_threeWay_takes hrule).imp Eq.symm Eq.symm
  | both a b =>
      rw [hrule] at h
      cases h
      exact .inl (eq_none_of_threeWay_both hrule).2.1
  | conflict =>
      rw [hrule] at h
      cases h

theorem of_movedAt (h : v.movedAt n = some c) :
    ∃ a, v.rule n = .both a c := by
  unfold Versions.movedAt at h
  cases hrule : v.rule n with
  | takes value => rw [hrule] at h; cases h
  | both a b => rw [hrule] at h; cases h; exact ⟨a, rfl⟩
  | conflict => rw [hrule] at h; cases h

theorem mem_numbers_of_movedAt (h : v.movedAt n = some c) :
    n ∈ v.numbers ∧ holds v.theirs n = some c := by
  rcases of_movedAt h with ⟨a, hrule⟩
  have hheld := eq_none_of_threeWay_both hrule
  refine ⟨mem_numbers.2 (.inr (.inr ?_)), hheld.2.2⟩
  rw [hheld.2.2]
  rfl

theorem mem_numbers_of_keeps (h : v.keeps n = some c) : n ∈ v.numbers := by
  rcases of_keeps h with hours | htheirs
  · refine mem_numbers.2 (.inr (.inl ?_))
    rw [hours]
    rfl
  · refine mem_numbers.2 (.inr (.inr ?_))
    rw [htheirs]
    rfl

theorem isKey_of_keeps [TableKey K] (hv : v.WellFormed) (h : v.keeps n = some c) : IsKey c.1 := by
  rcases of_keeps h with hours | htheirs
  · exact (bounds_of_holds hv.ours hours).2.2
  · exact (bounds_of_holds hv.theirs htheirs).2.2

theorem isKey_of_movedAt [TableKey K] (hv : v.WellFormed) (h : v.movedAt n = some c) : IsKey c.1 :=
  (bounds_of_holds hv.theirs (mem_numbers_of_movedAt h).2).2.2

end Numbers

/-! ### What is merged -/

section Resolved

variable {v : Versions K}

/-- The entries that are merged, in whichever order. -/
structure Resolved (v : Versions K) (resolved : List (Side × LockEntry K)) : Prop where
  perm : resolved.Perm (v.numbers.flatMap v.keptAt ++
    ((v.moved v.numbers).zipIdx v.next).map fun entry => (.theirs, lineOf entry.2 entry.1))

theorem map_keptAt (n : Nat) :
    (v.keptAt n).map Prod.snd = (v.keeps n).toList.map (lineOf n) := by
  unfold Versions.keptAt Versions.keeps
  cases v.rule n with
  | takes value => cases value <;> rfl
  | both a b => rfl
  | conflict => rfl

variable {resolved : List (Side × LockEntry K)}

theorem Resolved.entries (h : Resolved v resolved) :
    (resolved.map Prod.snd).Perm (v.numbers.flatMap (fun n => (v.keeps n).toList.map (lineOf n)) ++
      ((v.moved v.numbers).zipIdx v.next).map fun entry => lineOf entry.2 entry.1) := by
  refine (h.perm.map Prod.snd).trans (List.Perm.of_eq ?_)
  rw [List.map_append, List.map_flatMap, List.map_map]
  simp only [map_keptAt]
  rfl

/-- The numbers are below the next one where they are kept, and count on from it where not. -/
theorem Resolved.mem (h : Resolved v resolved)
    {entry : LockEntry K} : entry ∈ resolved.map Prod.snd ↔
      (∃ n c, v.keeps n = some c ∧ entry = lineOf n c) ∨
        ∃ i c, (v.moved v.numbers)[i]? = some c ∧ entry = lineOf (v.next + i) c := by
  rw [h.entries.mem_iff, List.mem_append, List.mem_flatMap, List.mem_map]
  refine or_congr ⟨?_, ?_⟩ ⟨?_, ?_⟩
  · rintro ⟨n, -, hmem⟩
    rcases List.mem_map.1 hmem with ⟨c, hc, rfl⟩
    exact ⟨n, c, Option.mem_toList.1 hc, rfl⟩
  · rintro ⟨n, c, hc, rfl⟩
    exact ⟨n, mem_numbers_of_keeps hc, List.mem_map_of_mem (Option.mem_toList.2 hc)⟩
  · rintro ⟨⟨c, k⟩, hmem, rfl⟩
    have hget := List.mk_mem_zipIdx_iff_le_and_getElem?_sub.1 hmem
    refine ⟨k - v.next, c, hget.2, ?_⟩
    rw [Nat.add_sub_cancel' hget.1]
  · rintro ⟨i, c, hget, rfl⟩
    exact ⟨(c, v.next + i), List.mk_add_mem_zipIdx_iff_getElem?.2 hget, rfl⟩

theorem Resolved.nodup [TableKey K] (hv : v.WellFormed)
    (h : Resolved v resolved) : ((resolved.map Prod.snd).map LockEntry.number).Nodup := by
  refine (h.entries.map LockEntry.number).nodup_iff.2 ?_
  rw [List.map_append, List.map_flatMap, List.map_map]
  have hkept : (v.numbers.flatMap fun n => ((v.keeps n).toList.map (lineOf n)).map LockEntry.number)
      = v.numbers.filter fun n => (v.keeps n).isSome := by
    rw [← List.filterMap_eq_filter, List.filterMap_eq_flatMap_toList]
    refine List.flatMap_congr fun n _ => ?_
    cases hkeeps : v.keeps n with
    | none => simp only [Option.guard, hkeeps]; rfl
    | some c => simp only [Option.guard, hkeeps]; rfl
  have hmoved : ((v.moved v.numbers).zipIdx v.next).map
      (LockEntry.number ∘ fun entry => lineOf entry.2 entry.1)
      = List.range' v.next (v.moved v.numbers).length := by
    rw [← List.zipIdx_map_snd]
    rfl
  rw [hkept, hmoved]
  refine List.nodup_append.2 ⟨nodup_numbers.filter _, List.nodup_range', ?_⟩
  intro n hn k hk heq
  have hlt := (bounds_of_mem_numbers hv (List.mem_of_mem_filter hn)).2
  have hle := (List.mem_range'_1.1 hk).1
  omega

theorem Resolved.contents (h : Resolved v resolved) :
    (resolved.map fun entry => meaning entry.2).Perm v.contents := by
  have hmap := h.entries.map meaning
  rw [List.map_map, List.map_append, List.map_flatMap, List.map_map] at hmap
  refine hmap.trans (List.Perm.trans (List.Perm.of_eq ?_) (List.flatMap_append_perm _ _ _))
  have hkept : ∀ n, ((v.keeps n).toList.map (lineOf n)).map meaning = (v.keeps n).toList := by
    intro n
    cases v.keeps n <;> rfl
  have hmoved : v.moved v.numbers = v.numbers.flatMap fun n => (v.movedAt n).toList := by
    rw [Versions.moved, List.filterMap_eq_flatMap_toList]
  have hsecond : ((v.moved v.numbers).zipIdx v.next).map
      (meaning ∘ fun entry => lineOf entry.2 entry.1) = v.moved v.numbers := by
    have hfst := List.zipIdx_map_fst v.next (v.moved v.numbers)
    exact hfst
  rw [hsecond, hmoved]
  simp only [hkept]

theorem Resolved.liveKeys (h : Resolved v resolved) :
    (liveKeys resolved).Perm ((v.contents.filter fun c => !c.2).map Prod.fst) :=
  (h.contents.filter _).map _

end Resolved

/-! ### The outcome -/

section Outcome

variable [TableKey K] [Ord K] [Std.TransOrd K] {v : Versions K} {markerSize : Nat}

/-- The merge of the three. -/
def Versions.merge (v : Versions K) (markerSize : Nat) : Option (MergeOutcome K) :=
  Lock.merge v.base v.ours v.theirs markerSize

/-- The number of the entries that are renumbered. -/
def Versions.count (v : Versions K) : Nat := (v.moved v.numbers).length

def conflictsOf (v : Versions K) (resolved : List (Side × LockEntry K)) : List (Conflict K) :=
  v.numbers.flatMap v.conflictAt ++ (duplicated resolved).map (keyConflict resolved)

/-- The entries that are in no conflict. -/
def agreed (resolved : List (Side × LockEntry K)) : List (LockEntry K) :=
  inOrder ((resolved.zipIdx.filter fun entry =>
    !(duplicated resolved).flatten.contains entry.2).map fun entry => entry.1.2)

/-- The text of a merge with a conflict. -/
def conflictText (v : Versions K) (resolved : List (Side × LockEntry K)) (markerSize : Nat) :
    Text :=
  HEADER K ++ '\n' :: nextLine (v.next + v.count) ++ '\n' ::
    pushEntries markerSize (agreed resolved)
      ((conflictsOf v resolved).insertionSort fun a b => a.place ≤ b.place)

theorem merge_eq (markerSize : Nat) (hv : v.Distinct) (hroom : v.next + v.count ≤ NUMBER_MAX) :
    ∃ resolved, Resolved v resolved ∧ v.merge markerSize
      = some (if (conflictsOf v resolved).isEmpty then
          .clean { next := v.next + v.count, entries := agreed resolved }
        else .conflict (conflictText v resolved markerSize)) := by
  rcases foldlM_mergeAt hv v.numbers { next := v.next, resolved := [], conflicts := [] } hroom with
    ⟨resolved, hfold, hperm⟩
  refine ⟨resolved, ⟨hperm⟩, ?_⟩
  rw [Versions.merge, Lock.merge]
  change (v.numbers.foldlM (mergeAt (byNumber v.base) (byNumber v.ours) (byNumber v.theirs))
    { next := v.next, resolved := [], conflicts := [] } >>= fun state => _) = _
  rw [hfold]
  show (if (conflictsOf v resolved).isEmpty then _ else _) = _
  cases (conflictsOf v resolved).isEmpty <;> rfl

theorem room_of_merge (hv : v.WellFormed) [LawfulKey K] {outcome : MergeOutcome K}
    (h : v.merge markerSize = some outcome) : v.next + v.count ≤ NUMBER_MAX := by
  rcases Option.bind_eq_some_iff.1 h with ⟨state, hfold, -⟩
  refine room_of_foldlM_mergeAt hv.distinct _ _ ?_ hfold
  exact Nat.le_trans (next_bounds hv).2 (LawfulKey.max (K := K)).2

omit [TableKey K] in
theorem conflictsOf_eq_nil_iff [Std.LawfulEqOrd K] {resolved : List (Side × LockEntry K)}
    (h : Resolved v resolved) : conflictsOf v resolved = [] ↔ ¬ v.Disagree := by
  have hkeys : (duplicated resolved).map (keyConflict resolved) = [] ↔
      ((v.contents.filter fun c => !c.2).map Prod.fst).Nodup := by
    rw [List.map_eq_nil_iff, duplicated_eq_nil_iff, h.liveKeys.nodup_iff]
  have hnumbers : v.numbers.flatMap v.conflictAt = [] ↔
      ∀ n ∈ v.numbers, v.rule n ≠ .conflict := by
    rw [List.flatMap_eq_nil_iff]
    refine forall₂_congr fun n _ => ?_
    unfold Versions.conflictAt
    cases v.rule n with
    | takes value => exact ⟨nofun, fun _ => rfl⟩
    | both a b => exact ⟨nofun, fun _ => rfl⟩
    | conflict => exact ⟨nofun, fun hne => absurd rfl hne⟩
  rw [conflictsOf, List.append_eq_nil_iff, hkeys, hnumbers, Versions.Disagree, not_or, not_not,
    not_exists]
  refine and_congr_left' (forall_congr' fun n => ?_)
  rw [not_and]

end Outcome

/-! ### Without a conflict -/

section Clean

variable [TableKey K] {v : Versions K}

/-- What a merge without a conflict owes its three tables. -/
structure CleanMerge (v : Versions K) (m : LockTable K) : Prop where
  /-- The file is read back. -/
  reads : ∃ table, parseTable m.render = .ok table ∧ table.next = m.next ∧
    table.entries.map content = m.entries.map content
  next : v.base.next ≤ m.next ∧ v.ours.next ≤ m.next ∧ v.theirs.next ≤ m.next
  distinct : (m.entries.map LockEntry.number).Nodup
  live : ((m.entries.filter (!·.retired)).map LockEntry.key).Nodup
  /-- Below the next numbers the rule decides. -/
  rule : ∀ n < v.next, v.rule n ≠ .conflict ∧
    ∀ value, v.rule n = .takes value → holds m n = value
  /-- What both sides allocated is there once for each, theirs under a number that no side used. -/
  renumbered : ∃ place : Nat → Nat,
    (∀ n a b, v.rule n = .both a b → holds m n = some a ∧ holds m (place n) = some b ∧
      holds v.base (place n) = none ∧ holds v.ours (place n) = none ∧
      holds v.theirs (place n) = none) ∧
    (∀ n a b n' a' b', v.rule n = .both a b → v.rule n' = .both a' b' → place n = place n' →
      n = n') ∧
    ∀ k, v.next ≤ k → (holds m k).isSome → ∃ n a b, v.rule n = .both a b ∧ place n = k
  /-- What a side holds is lost only where the other changed it. -/
  ours : ∀ n c, holds v.ours n = some c → holds m n = some c ∨ holds v.theirs n ≠ holds v.base n
  theirs : ∀ n c, holds v.theirs n = some c →
    holds m n = some c ∨ holds v.ours n ≠ holds v.base n

/-- The numbers whose entries are renumbered. -/
def Versions.added (v : Versions K) : List Nat := v.numbers.filter fun n => (v.movedAt n).isSome

omit [TableKey K] in
theorem mem_added {n : Nat} : n ∈ v.added ↔ ∃ a b, v.rule n = .both a b := by
  rw [Versions.added, List.mem_filter]
  constructor
  · rintro ⟨-, hsome⟩
    rcases Option.isSome_iff_exists.1 hsome with ⟨c, hc⟩
    rcases of_movedAt hc with ⟨a, hrule⟩
    exact ⟨a, c, hrule⟩
  · rintro ⟨a, b, hrule⟩
    have hmoved : v.movedAt n = some b := by rw [Versions.movedAt, hrule]
    exact ⟨(mem_numbers_of_movedAt hmoved).1, by rw [hmoved]; rfl⟩

omit [TableKey K] in
/-- What is renumbered, at its place among those numbers. -/
theorem getElem?_moved {i : Nat} {c : K × Bool} :
    (v.moved v.numbers)[i]? = some c ↔ ∃ n, v.added[i]? = some n ∧ v.movedAt n = some c := by
  have hlist : ∀ numbers : List Nat, (numbers.filterMap v.movedAt).map some
      = (numbers.filter fun n => (v.movedAt n).isSome).map v.movedAt := by
    intro numbers
    induction numbers with
    | nil => rfl
    | cons n numbers ih =>
        cases hmoved : v.movedAt n with
        | none =>
            rw [List.filterMap_cons_none hmoved, List.filter_cons_of_neg (by simp [hmoved]), ih]
        | some c =>
            rw [List.filterMap_cons_some hmoved, List.filter_cons_of_pos (by simp [hmoved]),
              List.map_cons, List.map_cons, ih, hmoved]
  have hget := congrArg (·[i]?) (hlist v.numbers)
  simp only [List.getElem?_map] at hget
  constructor
  · intro hc
    rw [Versions.moved] at hc
    rw [hc] at hget
    exact Option.map_eq_some_iff.1 hget.symm
  · rintro ⟨n, hn, hmoved⟩
    have hsome : v.added[i]?.map v.movedAt = some (some c) := by rw [hn, Option.map_some, hmoved]
    rw [Versions.added] at hsome
    rw [hsome] at hget
    rcases Option.map_eq_some_iff.1 hget with ⟨c', hc', heq⟩
    rw [Versions.moved, hc', heq]

variable {resolved : List (Side × LockEntry K)} {m : LockTable K}

/-- A table with the entries that are merged. -/
theorem holds_resolved (hv : v.WellFormed) (h : Resolved v resolved)
    (hentries : m.entries.Perm (resolved.map Prod.snd)) :
    (∀ n < v.next, holds m n = v.keeps n) ∧
      ∀ i, holds m (v.next + i) = (v.moved v.numbers)[i]? := by
  have hdistinct : (m.entries.map LockEntry.number).Nodup :=
    (hentries.map _).nodup_iff.2 (h.nodup hv)
  have hiff : ∀ n c, holds m n = some c ↔ v.keeps n = some c ∨
      ∃ i, (v.moved v.numbers)[i]? = some c ∧ n = v.next + i := by
    intro n c
    rw [holds_eq_some hdistinct]
    constructor
    · rintro ⟨entry, hentry, rfl, rfl⟩
      rcases h.mem.1 (hentries.mem_iff.1 hentry) with ⟨n, c, hc, rfl⟩ | ⟨i, c, hc, rfl⟩
      · exact .inl hc
      · exact .inr ⟨i, hc, rfl⟩
    · rintro (hc | ⟨i, hc, rfl⟩)
      · exact ⟨_, hentries.mem_iff.2 (h.mem.2 (.inl ⟨n, c, hc, rfl⟩)), rfl, rfl⟩
      · exact ⟨_, hentries.mem_iff.2 (h.mem.2 (.inr ⟨i, c, hc, rfl⟩)), rfl, rfl⟩
  constructor
  · intro n hn
    refine Option.ext fun c => ?_
    rw [hiff]
    refine or_iff_left ?_
    rintro ⟨i, -, rfl⟩
    omega
  · intro i
    refine Option.ext fun c => ?_
    rw [hiff]
    constructor
    · rintro (hc | ⟨j, hc, hj⟩)
      · have hlt := (bounds_of_mem_numbers hv (mem_numbers_of_keeps hc)).2
        omega
      · rw [Nat.add_left_cancel hj]
        exact hc
    · exact fun hc => .inr ⟨i, hc, rfl⟩

omit [TableKey K] [DecidableEq K] in
theorem inOrder_inOrder (entries : List (LockEntry K)) :
    inOrder (inOrder entries) = inOrder entries := by
  have hsorted : (inOrder entries).Pairwise fun a b => a.number ≤ b.number := by
    have : Std.Total fun a b : LockEntry K => a.number ≤ b.number := ⟨fun _ _ => Nat.le_total _ _⟩
    have : IsTrans (LockEntry K) fun a b => a.number ≤ b.number :=
      ⟨fun _ _ _ hab hbc => Nat.le_trans hab hbc⟩
    exact List.pairwise_insertionSort _ _
  exact hsorted.insertionSort_eq

variable [LawfulKey K]

omit [LawfulKey K] in
/-- A table with the entries that are merged is well formed, where there is room in a file. -/
theorem wellFormed_resolved (hv : v.WellFormed)
    (h : Resolved v resolved) (hlive : (liveKeys resolved).Nodup)
    (hroom : v.next + (v.moved v.numbers).length ≤ MAX_NUMBER K + 1)
    (hnext : m.next = v.next + (v.moved v.numbers).length)
    (hentries : m.entries.Perm (resolved.map Prod.snd)) : m.WellFormed where
  next := by
    have hbounds := next_bounds hv
    omega
  number := by
    intro entry hentry
    have hbounds := next_bounds hv
    rcases h.mem.1 (hentries.mem_iff.1 hentry) with ⟨n, c, hc, rfl⟩ | ⟨i, c, hc, rfl⟩
    · have hn := bounds_of_mem_numbers hv (mem_numbers_of_keeps hc)
      show 1 ≤ n ∧ n < m.next
      omega
    · have hi := (List.getElem?_eq_some_iff.1 hc).1
      show 1 ≤ v.next + i ∧ v.next + i < m.next
      omega
  distinct := (hentries.map _).nodup_iff.2 (h.nodup hv)
  live := by
    have hperm : ((m.entries.filter (!·.retired)).map LockEntry.key).Perm (liveKeys resolved) := by
      refine ((hentries.filter _).map _).trans (List.Perm.of_eq ?_)
      rw [liveKeys, List.filter_map, List.map_map, List.filter_map, List.map_map]
      rfl
    exact hperm.nodup_iff.2 hlive
  key := by
    intro entry hentry
    rcases h.mem.1 (hentries.mem_iff.1 hentry) with ⟨n, c, hc, rfl⟩ | ⟨i, c, hc, rfl⟩
    · exact isKey_of_keeps hv hc
    · rcases getElem?_moved.1 hc with ⟨n, -, hmoved⟩
      exact isKey_of_movedAt hv hmoved

theorem cleanMerge_resolved (hv : v.WellFormed)
    (h : Resolved v resolved) (hlive : (liveKeys resolved).Nodup)
    (hrule : ∀ n ∈ v.numbers, v.rule n ≠ .conflict)
    (hroom : v.next + (v.moved v.numbers).length ≤ MAX_NUMBER K + 1)
    (hnext : m.next = v.next + (v.moved v.numbers).length)
    (hentries : m.entries = inOrder (resolved.map Prod.snd)) : CleanMerge v m := by
  have hperm : m.entries.Perm (resolved.map Prod.snd) := by
    rw [hentries]
    exact List.perm_insertionSort _ _
  have hwf := wellFormed_resolved hv h hlive hroom hnext hperm
  rcases holds_resolved hv h hperm with ⟨hkept, hmoved⟩
  have hbelow : ∀ n, (∃ c, holds v.ours n = some c ∨ holds v.theirs n = some c) → n < v.next := by
    rintro n ⟨c, hc⟩
    refine (bounds_of_mem_numbers hv (mem_numbers.2 (.inr (hc.imp ?_ ?_)))).2
    · intro hsome
      rw [hsome]
      rfl
    · intro hsome
      rw [hsome]
      rfl
  have hconflict : ∀ n, v.rule n ≠ .conflict := by
    intro n hn
    by_cases hmem : n ∈ v.numbers
    · exact hrule n hmem hn
    · rw [mem_numbers, not_or, not_or] at hmem
      simp only [Option.not_isSome_iff_eq_none] at hmem
      rw [Versions.rule, hmem.1, hmem.2.1, hmem.2.2] at hn
      cases hn
  have htakes : ∀ n value, v.rule n = .takes value → n < v.next → holds m n = value := by
    intro n value hn hlt
    rw [hkept n hlt, Versions.keeps, hn]
  -- Where a side's entry is not kept, the number was decided by the other side.
  have hlost : ∀ n, n < v.next → (holds m n = holds v.ours n ∨ holds v.theirs n ≠ holds v.base n) ∧
      (holds m n = holds v.theirs n ∨ holds v.ours n ≠ holds v.base n) := by
    intro n hlt
    cases hn : v.rule n with
    | takes value =>
        rw [htakes n value hn hlt]
        exact ⟨or_iff_not_imp_left.2 (changed_of_ours_lost hn),
          or_iff_not_imp_left.2 (changed_of_theirs_lost hn)⟩
    | both a b =>
        have hheld := eq_none_of_threeWay_both hn
        refine ⟨.inl ?_, .inr ?_⟩
        · rw [hkept n hlt, Versions.keeps, hn, hheld.2.1]
        · rw [hheld.1, hheld.2.1]
          exact Option.some_ne_none a
    | conflict => exact absurd hn (hconflict n)
  refine ⟨?_, ?_, hwf.distinct, hwf.live, fun n hlt => ⟨hconflict n, fun value hn =>
    htakes n value hn hlt⟩, ⟨fun n => v.next + v.added.idxOf n, ?_, ?_, ?_⟩, ?_, ?_⟩
  · rcases parseTable_render hwf with ⟨table, hparse, htable, hcontents⟩
    refine ⟨table, hparse, htable, ?_⟩
    rw [hcontents, hentries, inOrder_inOrder]
  · rw [hnext]
    unfold Versions.next
    omega
  · intro n a b hn
    have hheld := eq_none_of_threeWay_both hn
    have hmem : n ∈ v.added := mem_added.2 ⟨a, b, hn⟩
    have hplace : holds m (v.next + v.added.idxOf n) = some b := by
      rw [hmoved, getElem?_moved]
      exact ⟨n, List.getElem?_idxOf hmem, by rw [Versions.movedAt, hn]⟩
    refine ⟨?_, hplace, not_mem_numbers hv (Nat.le_add_right _ _)⟩
    rw [hkept n (hbelow n ⟨a, .inl hheld.2.1⟩), Versions.keeps, hn]
  · intro n a b n' a' b' hn hn' heq
    exact (List.idxOf_inj (mem_added.2 ⟨a, b, hn⟩)).1 (Nat.add_left_cancel heq)
  · intro k hk hsome
    rcases Option.isSome_iff_exists.1 hsome with ⟨c, hc⟩
    rcases Nat.exists_eq_add_of_le hk with ⟨i, rfl⟩
    rw [hmoved, getElem?_moved] at hc
    rcases hc with ⟨n, hn, hc⟩
    rcases of_movedAt hc with ⟨a, hrule'⟩
    refine ⟨n, a, c, hrule', ?_⟩
    have hget := List.getElem?_idxOf (List.mem_of_getElem? hn)
    have hi : v.added.idxOf n = i :=
      (List.getElem?_inj (List.getElem?_eq_some_iff.1 hget).1 (nodup_numbers.filter _)).1
        (hget.trans hn.symm)
    exact congrArg (v.next + ·) hi
  · intro n c hc
    rw [← hc]
    exact (hlost n (hbelow n ⟨c, .inl hc⟩)).1
  · intro n c hc
    rw [← hc]
    exact (hlost n (hbelow n ⟨c, .inr hc⟩)).2

end Clean

/-! ### With a conflict -/

section Conflicts

variable [TableKey K] {v : Versions K} {markerSize : Nat}

/-- What a merge with a conflict owes its three tables. -/
structure ConflictMerge (v : Versions K) (text : Text) : Prop where
  /-- The file does not parse. -/
  refused : ∃ e, (parseTable text : Except LockError (LockTable K)) = .error e
  /-- What the rule keeps is there. -/
  takes : ∀ n c, v.rule n = .takes (some c) → HasLine text (entryLine (lineOf n c))
  both : ∀ n a b, v.rule n = .both a b → HasLine text (entryLine (lineOf n a)) ∧
    ∃ k, v.next ≤ k ∧ HasLine text (entryLine (lineOf k b))
  /-- So is what either side holds where the rule does not decide. -/
  conflict : ∀ n, v.rule n = .conflict →
    (∀ c, holds v.ours n = some c → HasLine text (entryLine (lineOf n c))) ∧
      ∀ c, holds v.theirs n = some c → HasLine text (entryLine (lineOf n c))

variable {resolved : List (Side × LockEntry K)} {entry : LockEntry K}

theorem isKey_resolved (hv : v.WellFormed)
    (h : Resolved v resolved) (hentry : entry ∈ resolved.map Prod.snd) :
    IsKey entry.key := by
  rcases h.mem.1 hentry with ⟨n, c, hc, rfl⟩ | ⟨i, c, hc, rfl⟩
  · exact isKey_of_keeps hv hc
  · rcases getElem?_moved.1 hc with ⟨n, -, hmoved⟩
    exact isKey_of_movedAt hv hmoved

omit [TableKey K] [DecidableEq K] in
theorem mem_keyConflict {indices : List Nat}
    (h : entry ∈ (keyConflict resolved indices).ours ++ (keyConflict resolved indices).theirs) :
    entry ∈ resolved.map Prod.snd := by
  have hin : ∀ {p : Side × LockEntry K → Bool},
      entry ∈ ((indices.filterMap (resolved[·]?)).filter p).map Prod.snd →
        entry ∈ resolved.map Prod.snd := by
    intro p hentry
    rcases List.mem_map.1 hentry with ⟨pair, hpair, rfl⟩
    rcases List.mem_filterMap.1 (List.mem_of_mem_filter hpair) with ⟨index, -, hget⟩
    exact List.mem_map_of_mem (List.mem_of_getElem? hget)
  rcases List.mem_append.1 h with hours | htheirs
  · exact hin hours
  · exact hin htheirs

variable [Ord K] [Std.TransOrd K]

theorem hasKeys_conflictsOf (hv : v.WellFormed) (h : Resolved v resolved) {conflict : Conflict K}
    (hconflict : conflict ∈ conflictsOf v resolved) : conflict.HasKeys := by
  intro entry hentry
  rcases List.mem_append.1 hconflict with hnumber | hkey
  · rcases List.mem_flatMap.1 hnumber with ⟨n, -, hmem⟩
    unfold Versions.conflictAt at hmem
    cases hrule : v.rule n with
    | takes value => rw [hrule] at hmem; cases hmem
    | both a b => rw [hrule] at hmem; cases hmem
    | conflict =>
        rw [hrule, List.mem_singleton] at hmem
        subst hmem
        rcases List.mem_append.1 hentry with hours | htheirs
        · rcases Option.map_eq_some_iff.1 (Option.mem_toList.1 hours) with ⟨c, hc, rfl⟩
          exact (bounds_of_holds hv.ours hc).2.2
        · rcases Option.map_eq_some_iff.1 (Option.mem_toList.1 htheirs) with ⟨c, hc, rfl⟩
          exact (bounds_of_holds hv.theirs hc).2.2
  · rcases List.mem_map.1 hkey with ⟨indices, -, rfl⟩
    exact isKey_resolved hv h (mem_keyConflict hentry)

omit [TableKey K] [DecidableEq K] in
/-- An entry that is merged is written on its own or in a conflict. -/
theorem mem_agreed_or (h : entry ∈ resolved.map Prod.snd) : entry ∈ agreed resolved ∨
      ∃ conflict ∈ (duplicated resolved).map (keyConflict resolved),
        entry ∈ conflict.ours ++ conflict.theirs := by
  rcases List.mem_map.1 h with ⟨⟨s, e⟩, hpair, rfl⟩
  rcases List.mem_iff_getElem?.1 hpair with ⟨i, hi⟩
  by_cases hdup : i ∈ (duplicated resolved).flatten
  · rcases List.mem_flatten.1 hdup with ⟨indices, hindices, hin⟩
    refine .inr ⟨_, List.mem_map_of_mem hindices, ?_⟩
    have hmem : (s, e) ∈ indices.filterMap (resolved[·]?) := List.mem_filterMap.2 ⟨i, hin, hi⟩
    by_cases hs : s = .theirs
    · refine List.mem_append_right _ (List.mem_map.2 ⟨(s, e), List.mem_filter.2 ⟨hmem, ?_⟩, rfl⟩)
      rw [hs]
      exact decide_eq_true (show Side.theirs ≠ .ours by decide)
    · refine List.mem_append_left _ (List.mem_map.2 ⟨(s, e), List.mem_filter.2 ⟨hmem, ?_⟩, rfl⟩)
      exact decide_eq_true hs
  · refine .inl ((List.mem_insertionSort _).2 (List.mem_map.2 ⟨((s, e), i), ?_, rfl⟩))
    refine List.mem_filter.2 ⟨List.mem_zipIdx_iff_getElem?.2 hi, ?_⟩
    rw [List.contains_eq_mem, decide_eq_false hdup]
    rfl

variable [LawfulKey K]

theorem hasLine_conflictText (markerSize : Nat) (hv : v.WellFormed)
    (h : Resolved v resolved) :
    (∀ entry ∈ resolved.map Prod.snd,
      HasLine (conflictText v resolved markerSize) (entryLine entry)) ∧
    ∀ conflict ∈ conflictsOf v resolved, ∀ line ∈ conflictLines markerSize conflict,
      HasLine (conflictText v resolved markerSize) line := by
  have hagreed : ∀ entry ∈ agreed resolved, IsKey entry.key := by
    intro entry hentry
    rcases List.mem_map.1 ((List.mem_insertionSort _).1 hentry) with ⟨⟨⟨s, e⟩, i⟩, hmem, rfl⟩
    refine isKey_resolved hv h (List.mem_map_of_mem (f := Prod.snd) (a := (s, e)) ?_)
    exact List.fst_mem_of_mem_zipIdx (List.mem_of_mem_filter hmem)
  have hkeys : ∀ conflict ∈ (conflictsOf v resolved).insertionSort
      (fun a b => a.place ≤ b.place), conflict.HasKeys :=
    fun conflict hconflict => hasKeys_conflictsOf hv h ((List.mem_insertionSort _).1 hconflict)
  rcases lined_pushEntries markerSize hagreed hkeys with
    ⟨lines, hlined, hentries, hmarked⟩
  have hheader : '\n' ∉ HEADER K := by
    rcases LawfulKey.header (K := K) with ⟨rest, hheader, hrest⟩
    rw [hheader]
    exact fun hmem => (List.mem_cons.1 hmem).elim (by decide) hrest
  have htext : Lined (conflictText v resolved markerSize)
      (HEADER K :: nextLine (v.next + v.count) :: lines) := by
    have hcons := Lined.cons hheader
      (Lined.cons (isLine_nextLine (v.next + v.count)).not_mem_newline hlined)
    rw [conflictText, List.append_assoc]
    exact hcons
  have hconflicts : ∀ conflict ∈ conflictsOf v resolved,
      ∀ line ∈ conflictLines markerSize conflict,
        HasLine (conflictText v resolved markerSize) line := by
    intro conflict hconflict line hline
    refine htext.hasLine (List.mem_cons_of_mem _ (List.mem_cons_of_mem _ ?_))
    exact hmarked conflict ((List.mem_insertionSort _).2 hconflict) line hline
  refine ⟨fun entry hentry => ?_, hconflicts⟩
  rcases mem_agreed_or hentry with hown | ⟨conflict, hconflict, hin⟩
  · exact htext.hasLine (List.mem_cons_of_mem _ (List.mem_cons_of_mem _ (hentries entry hown)))
  · refine hconflicts conflict (List.mem_append_right _ hconflict) _ (mem_conflictLines hin)

theorem conflictMerge_resolved (hv : v.WellFormed) (hsize : 1 ≤ markerSize)
    (h : Resolved v resolved)
    (hconflicts : conflictsOf v resolved ≠ []) :
    ConflictMerge v (conflictText v resolved markerSize) := by
  rcases hasLine_conflictText markerSize hv h with ⟨hentries, hmarked⟩
  refine ⟨?_, ?_, ?_, ?_⟩
  · rcases List.exists_mem_of_ne_nil _ hconflicts with ⟨conflict, hconflict⟩
    exact parseTable_openMarker hsize (hmarked conflict hconflict _ List.mem_cons_self)
  · intro n c hrule
    have hc : v.keeps n = some c := by rw [Versions.keeps, hrule]
    exact hentries _ (h.mem.2 (.inl ⟨n, c, hc, rfl⟩))
  · intro n a b hrule
    have ha : v.keeps n = some a := by rw [Versions.keeps, hrule]
    have hb : v.movedAt n = some b := by rw [Versions.movedAt, hrule]
    refine ⟨hentries _ (h.mem.2 (.inl ⟨n, a, ha, rfl⟩)), v.next + v.added.idxOf n,
      Nat.le_add_right _ _, hentries _ (h.mem.2 (.inr ⟨_, b, getElem?_moved.2 ⟨n, ?_, hb⟩, rfl⟩))⟩
    exact List.getElem?_idxOf (mem_added.2 ⟨a, b, hrule⟩)
  · intro n hrule
    have hline : ∀ entry ∈ ((holds v.ours n).map (lineOf n)).toList ++
        ((holds v.theirs n).map (lineOf n)).toList,
        HasLine (conflictText v resolved markerSize) (entryLine entry) := by
      intro entry hentry
      have hat : v.conflictAt n = [{ place := n
                                     ours := ((holds v.ours n).map (lineOf n)).toList
                                     theirs := ((holds v.theirs n).map (lineOf n)).toList }] := by
        rw [Versions.conflictAt, hrule]
      by_cases hmem : n ∈ v.numbers
      · have hconflict : { place := n
                           ours := ((holds v.ours n).map (lineOf n)).toList
                           theirs := ((holds v.theirs n).map (lineOf n)).toList }
            ∈ conflictsOf v resolved :=
          List.mem_append_left _ (List.mem_flatMap.2 ⟨n, hmem, hat ▸ List.mem_singleton_self _⟩)
        exact hmarked _ hconflict _ (mem_conflictLines hentry)
      · rw [mem_numbers, not_or, not_or] at hmem
        simp only [Option.not_isSome_iff_eq_none] at hmem
        rw [hmem.2.1, hmem.2.2] at hentry
        cases hentry
    refine ⟨fun c hc => hline _ (List.mem_append_left _ ?_),
      fun c hc => hline _ (List.mem_append_right _ ?_)⟩
    · rw [hc]
      exact List.mem_singleton_self _
    · rw [hc]
      exact List.mem_singleton_self _

end Conflicts

/-! ### The whole -/

section Whole

variable [TableKey K] [Ord K] [Std.TransOrd K] {v : Versions K} {markerSize : Nat}

/-- The merge does not fail, and its outcome owes nothing. -/
def MergeSound (v : Versions K) (markerSize : Nat) : Prop :=
  ∃ outcome, v.merge markerSize = some outcome ∧
    (∀ m, outcome = .clean m → CleanMerge v m) ∧
      ∀ text, outcome = .conflict text → ConflictMerge v text

omit [Ord K] [Std.TransOrd K] in
/-- What is renumbered fits below the highest number of a file, or the sides disagree and it fits
    below the highest number of all. -/
def MergeRoom (v : Versions K) : Prop :=
  v.next + v.count ≤ MAX_NUMBER K + 1 ∨ v.next + v.count ≤ NUMBER_MAX ∧ v.Disagree

omit [TableKey K] [Ord K] [Std.TransOrd K] in
instance : Decidable v.Disagree := inferInstanceAs (Decidable (_ ∨ _))

omit [Ord K] [Std.TransOrd K] in
instance : Decidable (MergeRoom v) := inferInstanceAs (Decidable (_ ∨ _))

variable [LawfulKey K] [Std.LawfulEqOrd K]

theorem mergeSound_of_room (hv : v.WellFormed) (hsize : 1 ≤ markerSize) (hroom : MergeRoom v) :
    MergeSound v markerSize := by
  have hmax : v.next + v.count ≤ NUMBER_MAX :=
    hroom.elim (fun hle => Nat.le_trans hle (LawfulKey.max (K := K)).2) And.left
  rcases merge_eq markerSize hv.distinct hmax with ⟨resolved, h, hmerge⟩
  refine ⟨_, hmerge, fun m hm => ?_, fun text htext => ?_⟩
  · by_cases hempty : (conflictsOf v resolved).isEmpty = true
    · rw [if_pos hempty] at hm
      cases hm
      have hnone := List.isEmpty_iff.1 hempty
      have hagree : ¬ v.Disagree := (conflictsOf_eq_nil_iff h).1 hnone
      have hdup : duplicated resolved = [] :=
        List.map_eq_nil_iff.1 (List.append_eq_nil_iff.1 hnone).2
      have hle : v.next + v.count ≤ MAX_NUMBER K + 1 :=
        hroom.resolve_right fun hboth => hagree hboth.2
      refine cleanMerge_resolved hv h (duplicated_eq_nil_iff.1 hdup)
        (fun n hn hconflict => hagree (.inl ⟨n, hn, hconflict⟩)) hle rfl ?_
      have hall : (resolved.zipIdx.filter fun entry =>
          !(duplicated resolved).flatten.contains entry.2) = resolved.zipIdx :=
        List.filter_eq_self.2 fun entry _ => by rw [hdup]; rfl
      have hfst : resolved.zipIdx.map (fun entry => entry.1.2) = resolved.map Prod.snd := by
        rw [← List.zipIdx_map_fst 0 resolved, List.map_map, List.zipIdx_map_fst]
        rfl
      show agreed resolved = _
      rw [agreed, hall, hfst]
    · rw [if_neg hempty] at hm
      cases hm
  · by_cases hempty : (conflictsOf v resolved).isEmpty = true
    · rw [if_pos hempty] at htext
      cases htext
    · rw [if_neg hempty] at htext
      cases htext
      exact conflictMerge_resolved hv hsize h fun hnil => hempty (List.isEmpty_iff.2 hnil)

theorem room_of_mergeSound (hv : v.WellFormed) (h : MergeSound v markerSize) : MergeRoom v := by
  rcases h with ⟨outcome, hmerge, hclean, -⟩
  have hmax := room_of_merge hv hmerge
  rcases merge_eq markerSize hv.distinct hmax with ⟨resolved, hresolved, heq⟩
  rw [heq] at hmerge
  by_cases hempty : (conflictsOf v resolved).isEmpty = true
  · rw [if_pos hempty] at hmerge
    cases hmerge
    rcases (hclean _ rfl).reads with ⟨table, hparse, hnext, -⟩
    have hbounds := (wellFormed_of_parse hparse).next.2
    rw [hnext] at hbounds
    exact .inl hbounds
  · refine .inr ⟨hmax, ?_⟩
    by_contra hagree
    exact hempty (List.isEmpty_iff.2 ((conflictsOf_eq_nil_iff hresolved).2 hagree))

end Whole

/-- The merge of three tables that files hold is sound exactly where what is renumbered fits below
    the highest number of a file, or the outcome is a text with markers. -/
theorem lock_merge_sound (K : Type) [DecidableEq K] [TableKey K] [LawfulKey K] [Ord K]
    [Std.TransOrd K] [Std.LawfulEqOrd K] (base ours theirs : LockTable K) (markerSize : Nat)
    (hsize : 1 ≤ markerSize) (hbase : ∃ text, parseTable text = .ok base)
    (hours : ∃ text, parseTable text = .ok ours) (htheirs : ∃ text, parseTable text = .ok theirs) :
    MergeSound ⟨base, ours, theirs⟩ markerSize ↔ MergeRoom ⟨base, ours, theirs⟩ := by
  rcases hbase with ⟨text, hbase⟩
  rcases hours with ⟨text', hours⟩
  rcases htheirs with ⟨text'', htheirs⟩
  have hv : (Versions.mk base ours theirs).WellFormed :=
    ⟨wellFormed_of_parse hbase, wellFormed_of_parse hours, wellFormed_of_parse htheirs⟩
  exact ⟨room_of_mergeSound hv, mergeSound_of_room hv hsize⟩

/-- A table of interfaces with one entry, as it is read from its text. -/
def oneInterface (key : Text) (number next stop : Nat) : LockTable LockKey :=
  { next := next
    entries := [{ key := .interface key, number := number, retired := false
                  range := ⟨stop - (key.length + 1 + (digits number).length), stop⟩ }] }

theorem lock_merge_sound_added : MergeSound ⟨.default LockKey, oneInterface "A".toList 1 2 10,
    oneInterface "B".toList 1 2 10⟩ 7 :=
  (lock_merge_sound LockKey _ _ _ 7 (by decide) ⟨"next 1".toList, by decide +kernel⟩
    ⟨"next 2\nA 1".toList, by decide +kernel⟩ ⟨"next 2\nB 1".toList, by decide +kernel⟩).2
    (by decide +kernel)

/-- A table of instances with one entry, as it is read from its text. -/
def oneInstance (component : Text) (stop : Nat) : LockTable InstanceKey :=
  { next := 2147483648
    entries := [{ key := ⟨component, "Unit".toList⟩, number := 2147483647, retired := false
                  range := ⟨16, stop⟩ }] }

/-- At the highest number, what is renumbered has no number in a file: the merge of interfaces
    fails, and that of instances gives a table whose text does not parse. -/
theorem renumbered_past_max :
    ((∃ text, parseTable text = .ok (oneInterface "A".toList 4294967294 4294967295 28)) ∧
      (∃ text, parseTable text = .ok (oneInterface "B".toList 4294967294 4294967295 28)) ∧
      ¬ MergeSound ⟨.default LockKey, oneInterface "A".toList 4294967294 4294967295 28,
        oneInterface "B".toList 4294967294 4294967295 28⟩ 7) ∧
    (∃ text, parseTable text = .ok (oneInstance "A".toList 33)) ∧
      (∃ text, parseTable text = .ok (oneInstance "B".toList 33)) ∧
      ¬ MergeSound ⟨.default InstanceKey, oneInstance "A".toList 33,
        oneInstance "B".toList 33⟩ 7 := by
  have hA : parseTable "next 4294967295\nA 4294967294".toList
      = .ok (oneInterface "A".toList 4294967294 4294967295 28) := by decide +kernel
  have hB : parseTable "next 4294967295\nB 4294967294".toList
      = .ok (oneInterface "B".toList 4294967294 4294967295 28) := by decide +kernel
  have hA' : parseTable "next 2147483648\nA/Unit 2147483647".toList
      = .ok (oneInstance "A".toList 33) := by decide +kernel
  have hB' : parseTable "next 2147483648\nB/Unit 2147483647".toList
      = .ok (oneInstance "B".toList 33) := by decide +kernel
  refine ⟨⟨⟨_, hA⟩, ⟨_, hB⟩, fun hsound => ?_⟩, ⟨_, hA'⟩, ⟨_, hB'⟩, fun hsound => ?_⟩
  · have hroom := room_of_mergeSound ⟨LockTable.wellFormed_default, wellFormed_of_parse hA,
      wellFormed_of_parse hB⟩ hsound
    revert hroom
    decide +kernel
  · have hroom := room_of_mergeSound ⟨LockTable.wellFormed_default, wellFormed_of_parse hA',
      wellFormed_of_parse hB'⟩ hsound
    revert hroom
    decide +kernel

end Lock

end Ridl
