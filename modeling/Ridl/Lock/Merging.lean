import Ridl.Library.Keyed
import Ridl.Library.ThreeWay
import Ridl.Lock.Allocation
import Ridl.Lock.Merge

/-!
# The Merge, Number by Number

What the merge of three tables makes of each number, and of a live key.

The merge of a number is that of the three-way rule over what the three tables hold
there, so each number that one side decides has at most one entry in what is merged,
under the number itself. What both sides allocated is there twice: ours under the
number, theirs under one from the next number on. Entries hold a live key together exactly
where the live keys of what is merged are not apart.

## Main definitions

* `Versions`, `Versions.rule`: Three tables, and what the rule makes of a number.
* `Versions.keptAt`, `Versions.movedAt`, `Versions.conflictAt`: What becomes of a number.
* `liveKeys`: The keys of the live entries.

## Theorems

* `mergeAt_eq`: The merge of a number is that of the rule.
* `foldlM_mergeAt`: What is merged, number after number.
* `room_of_foldlM_mergeAt`: Without room for what is renumbered the merge fails.
* `duplicated_eq_nil_iff`: No live key is on two numbers where the live keys are apart.
-/

namespace Ridl

namespace Lock

open Library
open TableKey (display HEADER MAX_NUMBER)

variable {K : Type}

/-! ### What a number means -/

/-- What an entry says about its number: the key, and whether it is retired. -/
def meaning (entry : LockEntry K) : K × Bool := (entry.key, entry.retired)

def holds (table : LockTable K) (n : Nat) : Option (K × Bool) := (byNumber table)[n]?.map meaning

/-- The line that gives a number its meaning. -/
def lineOf (n : Nat) (c : K × Bool) : LockEntry K :=
  { key := c.1, number := n, retired := c.2, range := .empty }

section Holds

variable {table : LockTable K}

theorem getElem?_byNumber (hdistinct : (table.entries.map LockEntry.number).Nodup) {n : Nat}
    {entry : LockEntry K} :
    (byNumber table)[n]? = some entry ↔ entry ∈ table.entries ∧ entry.number = n := by
  have hkeys : ((table.entries.map fun entry => (entry.number, entry)).map Prod.fst).Nodup := by
    rw [List.map_map]
    exact hdistinct
  rw [byNumber, getElem?_collect_iff hkeys, List.mem_map]
  constructor
  · rintro ⟨other, hother, heq⟩
    cases heq
    exact ⟨hother, rfl⟩
  · rintro ⟨hentry, rfl⟩
    exact ⟨entry, hentry, rfl⟩

theorem holds_eq_some (hdistinct : (table.entries.map LockEntry.number).Nodup) {n : Nat}
    {c : K × Bool} :
    holds table n = some c ↔ ∃ entry ∈ table.entries, entry.number = n ∧ meaning entry = c := by
  rw [holds, Option.map_eq_some_iff]
  constructor
  · rintro ⟨entry, hentry, rfl⟩
    rcases (getElem?_byNumber hdistinct).1 hentry with ⟨hmem, hnumber⟩
    exact ⟨entry, hmem, hnumber, rfl⟩
  · rintro ⟨entry, hmem, hnumber, rfl⟩
    exact ⟨entry, (getElem?_byNumber hdistinct).2 ⟨hmem, hnumber⟩, rfl⟩

end Holds

variable [DecidableEq K]

/-- Three tables that are merged. -/
structure Versions (K : Type) where
  base : LockTable K
  ours : LockTable K
  theirs : LockTable K

namespace Versions

/-- What the rule makes of a number. -/
def rule (v : Versions K) (n : Nat) : Merged (K × Bool) :=
  threeWay (holds v.base n) (holds v.ours n) (holds v.theirs n)

/-- The next number of the three. -/
def next (v : Versions K) : Nat := max (max v.base.next v.ours.next) v.theirs.next

/-- No number is twice in any of the three. -/
structure Distinct (v : Versions K) : Prop where
  base : (v.base.entries.map LockEntry.number).Nodup
  ours : (v.ours.entries.map LockEntry.number).Nodup
  theirs : (v.theirs.entries.map LockEntry.number).Nodup

/-- The side that an entry is from. -/
def side (v : Versions K) (n : Nat) : Side :=
  if holds v.ours n = holds v.theirs n then .both
  else if holds v.ours n = holds v.base n then .theirs
  else .ours

/-- The entries that keep their number. -/
def keptAt (v : Versions K) (n : Nat) : List (Side × LockEntry K) :=
  match v.rule n with
  | .takes (some c) => [(v.side n, lineOf n c)]
  | .both c _ => [(.ours, lineOf n c)]
  | _ => []

/-- The entry that is renumbered. -/
def movedAt (v : Versions K) (n : Nat) : Option (K × Bool) :=
  match v.rule n with
  | .both _ c => some c
  | _ => none

/-- The conflict of a number. -/
def conflictAt (v : Versions K) (n : Nat) : List (Conflict K) :=
  match v.rule n with
  | .conflict =>
      [{ place := n
         ours := ((holds v.ours n).map (lineOf n)).toList
         theirs := ((holds v.theirs n).map (lineOf n)).toList }]
  | _ => []

end Versions

section Rule

theorem agree_iff {a b : Option (LockEntry K)} :
    agree a b = true ↔ a.map meaning = b.map meaning := by
  rcases a with _ | a <;> rcases b with _ | b
  · exact ⟨fun _ => rfl, fun _ => rfl⟩
  · exact ⟨nofun, nofun⟩
  · exact ⟨nofun, nofun⟩
  · simp only [agree, meaning, Bool.and_eq_true, decide_eq_true_eq, Option.map_some,
      Option.some.injEq, Prod.mk.injEq]

omit [DecidableEq K] in
theorem map_fresh {table : LockTable K} (hdistinct : (table.entries.map LockEntry.number).Nodup)
    (n : Nat) : (byNumber table)[n]?.map fresh = (holds table n).map (lineOf n) := by
  cases hget : (byNumber table)[n]? with
  | none => rw [holds, hget]; rfl
  | some entry =>
      rw [holds, hget]
      rcases (getElem?_byNumber hdistinct).1 hget with ⟨-, rfl⟩
      rfl

theorem mergeAt_eq {v : Versions K} (hv : v.Distinct) (state : MergeState K) (n : Nat) :
    mergeAt (byNumber v.base) (byNumber v.ours) (byNumber v.theirs) state n
      = match v.movedAt n with
        | some c =>
            if state.next < NUMBER_MAX then
              some { next := state.next + 1
                     resolved := state.resolved ++ v.keptAt n ++ [(.theirs, lineOf state.next c)]
                     conflicts := state.conflicts }
            else none
        | none =>
            some { next := state.next
                   resolved := state.resolved ++ v.keptAt n
                   conflicts := state.conflicts ++ v.conflictAt n } := by
  have hkept : ∀ (table : LockTable K), (table.entries.map LockEntry.number).Nodup →
      ∀ s : Side, ((byNumber table)[n]?.map fun entry => (s, fresh entry)).toList
        = ((holds table n).map fun c => (s, lineOf n c)).toList := by
    intro table hdistinct s
    have hmap := congrArg (Option.map (Prod.mk s)) (map_fresh hdistinct n)
    rw [Option.map_map, Option.map_map] at hmap
    exact congrArg Option.toList hmap
  have hot : agree (byNumber v.ours)[n]? (byNumber v.theirs)[n]? = true ↔
      holds v.ours n = holds v.theirs n := agree_iff
  have hob : agree (byNumber v.ours)[n]? (byNumber v.base)[n]? = true ↔
      holds v.ours n = holds v.base n := agree_iff
  have htb : agree (byNumber v.theirs)[n]? (byNumber v.base)[n]? = true ↔
      holds v.theirs n = holds v.base n := agree_iff
  -- A number that one side decides has at most one entry, and no conflict.
  have htakes : ∀ (value : Option (K × Bool)) (s : Side), v.rule n = .takes value → v.side n = s →
      v.movedAt n = none ∧ v.conflictAt n = [] ∧
        v.keptAt n = (value.map fun c => (s, lineOf n c)).toList := by
    intro value s hrule hside
    simp only [Versions.movedAt, Versions.conflictAt, Versions.keptAt, hrule, hside]
    cases value <;> exact ⟨trivial, trivial, rfl⟩
  unfold mergeAt
  dsimp only
  by_cases h1 : holds v.ours n = holds v.theirs n
  · have hrule : v.rule n = .takes (holds v.ours n) := if_pos h1
    rcases htakes _ .both hrule (if_pos h1) with ⟨hmoved, hconflict, hkeep⟩
    rw [if_pos (hot.2 h1), hmoved, hconflict, hkeep, hkept _ hv.ours, List.append_nil]
  rw [if_neg (mt hot.1 h1)]
  by_cases h2 : holds v.ours n = holds v.base n
  · have hrule : v.rule n = .takes (holds v.theirs n) := (if_neg h1).trans (if_pos h2)
    have hside : v.side n = .theirs := (if_neg h1).trans (if_pos h2)
    rcases htakes _ .theirs hrule hside with ⟨hmoved, hconflict, hkeep⟩
    rw [if_pos (hob.2 h2), hmoved, hconflict, hkeep, hkept _ hv.theirs, List.append_nil]
  rw [if_neg (mt hob.1 h2)]
  have hside : v.side n = .ours := (if_neg h1).trans (if_neg h2)
  by_cases h3 : holds v.theirs n = holds v.base n
  · have hrule : v.rule n = .takes (holds v.ours n) :=
      (if_neg h1).trans ((if_neg h2).trans (if_pos h3))
    rcases htakes _ .ours hrule hside with ⟨hmoved, hconflict, hkeep⟩
    rw [if_pos (htb.2 h3), hmoved, hconflict, hkeep, hkept _ hv.ours, List.append_nil]
  rw [if_neg (mt htb.1 h3)]
  have hours := map_fresh hv.ours n
  have htheirs := map_fresh hv.theirs n
  have hbase : holds v.base n = (byNumber v.base)[n]?.map meaning := rfl
  have hours' : holds v.ours n = (byNumber v.ours)[n]?.map meaning := rfl
  have htheirs' : holds v.theirs n = (byNumber v.theirs)[n]?.map meaning := rfl
  have hconflict : v.rule n = .conflict → v.movedAt n = none ∧ v.keptAt n = [] ∧
      v.conflictAt n = [{ place := n, ours := ((byNumber v.ours)[n]?.map fresh).toList
                          theirs := ((byNumber v.theirs)[n]?.map fresh).toList }] := by
    intro hrule
    simp only [Versions.movedAt, Versions.conflictAt, Versions.keptAt, hrule, hours, htheirs]
    exact ⟨trivial, trivial, trivial⟩
  cases hb : (byNumber v.base)[n]? with
  | some b =>
      have hrule : v.rule n = .conflict := by
        rw [hbase, hb] at h2 h3
        rw [Versions.rule, hbase, hb]
        exact threeWay_of_base h1 h2 h3
      rcases hconflict hrule with ⟨hmoved, hkeep, hlist⟩
      rw [hmoved, hkeep, hlist, List.append_nil]
  | none =>
      cases ho : (byNumber v.ours)[n]? with
      | none =>
          rw [hours', hbase, ho, hb] at h2
          exact absurd rfl h2
      | some o =>
          cases ht : (byNumber v.theirs)[n]? with
          | none =>
              rw [htheirs', hbase, ht, hb] at h3
              exact absurd rfl h3
          | some t =>
              have hrule : v.rule n = .both (meaning o) (meaning t) := by
                rw [hours', htheirs', ho, ht] at h1
                rw [Versions.rule, hbase, hours', htheirs', hb, ho, ht]
                exact threeWay_of_added fun heq => h1 (congrArg some heq)
              rw [ho, hours', ho] at hours
              rw [ht, htheirs', ht] at htheirs
              have hfresh : fresh o = lineOf n (meaning o) := Option.some.inj hours
              have hfresh' : fresh t = lineOf n (meaning t) := Option.some.inj htheirs
              simp only [Versions.movedAt, Versions.keptAt, hrule, hfresh, hfresh',
                List.append_assoc]
              rfl

end Rule

/-! ### One number after another -/

namespace Versions

/-- What is renumbered among the numbers. -/
def moved (v : Versions K) (numbers : List Nat) : List (K × Bool) := numbers.filterMap v.movedAt

end Versions

theorem conflictAt_of_moved {v : Versions K} {n : Nat} {c : K × Bool} (h : v.movedAt n = some c) :
    v.conflictAt n = [] := by
  unfold Versions.movedAt at h
  unfold Versions.conflictAt
  cases hrule : v.rule n with
  | takes value => rfl
  | both a b => rfl
  | conflict => rw [hrule] at h; cases h

theorem foldlM_mergeAt {v : Versions K} (hv : v.Distinct) (numbers : List Nat)
    (state : MergeState K) (hroom : state.next + (v.moved numbers).length ≤ NUMBER_MAX) :
    ∃ resolved,
      numbers.foldlM (mergeAt (byNumber v.base) (byNumber v.ours) (byNumber v.theirs)) state
        = some { next := state.next + (v.moved numbers).length
                 resolved := state.resolved ++ resolved
                 conflicts := state.conflicts ++ numbers.flatMap v.conflictAt } ∧
      resolved.Perm (numbers.flatMap v.keptAt ++
        ((v.moved numbers).zipIdx state.next).map fun entry =>
          (.theirs, lineOf entry.2 entry.1)) := by
  induction numbers generalizing state with
  | nil =>
      refine ⟨[], ?_, List.Perm.refl _⟩
      simp only [List.flatMap_nil, List.append_nil]
      rfl
  | cons n numbers ih =>
      rw [List.foldlM_cons, mergeAt_eq hv]
      cases hmoved : v.movedAt n with
      | some c =>
          have hcons : v.moved (n :: numbers) = c :: v.moved numbers :=
            List.filterMap_cons_some hmoved
          rw [hcons, List.length_cons] at hroom ⊢
          have hlt : state.next < NUMBER_MAX := by omega
          have hroom' : state.next + 1 + (v.moved numbers).length ≤ NUMBER_MAX := by omega
          rcases ih { next := state.next + 1
                      resolved := state.resolved ++ v.keptAt n ++
                        [(.theirs, lineOf state.next c)]
                      conflicts := state.conflicts } hroom' with
            ⟨resolved, hfold, hperm⟩
          refine ⟨v.keptAt n ++ [(.theirs, lineOf state.next c)] ++ resolved, ?_, ?_⟩
          · dsimp only
            rw [if_pos hlt]
            refine hfold.trans ?_
            simp only [List.flatMap_cons, conflictAt_of_moved hmoved, List.nil_append,
              List.append_assoc, Option.some.injEq, MergeState.mk.injEq, and_true]
            omega
          · rw [List.flatMap_cons, List.zipIdx_cons, List.map_cons, List.append_assoc,
              List.append_assoc]
            refine List.Perm.append_left _ ?_
            exact (List.Perm.cons _ hperm).trans List.perm_middle.symm
      | none =>
          have hcons : v.moved (n :: numbers) = v.moved numbers :=
            List.filterMap_cons_none hmoved
          rw [hcons] at hroom ⊢
          rcases ih { next := state.next
                      resolved := state.resolved ++ v.keptAt n
                      conflicts := state.conflicts ++ v.conflictAt n } hroom with
            ⟨resolved, hfold, hperm⟩
          refine ⟨v.keptAt n ++ resolved, ?_, ?_⟩
          · refine hfold.trans ?_
            simp only [List.flatMap_cons, List.append_assoc]
          · rw [List.flatMap_cons, List.append_assoc]
            exact List.Perm.append_left _ hperm

theorem room_of_foldlM_mergeAt {v : Versions K} (hv : v.Distinct) (numbers : List Nat)
    (state : MergeState K) {result : MergeState K} (hnext : state.next ≤ NUMBER_MAX)
    (h : numbers.foldlM (mergeAt (byNumber v.base) (byNumber v.ours) (byNumber v.theirs)) state
      = some result) : state.next + (v.moved numbers).length ≤ NUMBER_MAX := by
  induction numbers generalizing state with
  | nil => exact hnext
  | cons n numbers ih =>
      rw [List.foldlM_cons, mergeAt_eq hv] at h
      rcases Option.bind_eq_some_iff.1 h with ⟨next, hstep, hrest⟩
      cases hmoved : v.movedAt n with
      | some c =>
          rw [hmoved] at hstep
          dsimp only at hstep
          split_ifs at hstep with hlt
          cases hstep
          have hle := ih _ (Nat.succ_le_of_lt hlt) hrest
          have hcons : v.moved (n :: numbers) = c :: v.moved numbers :=
            List.filterMap_cons_some hmoved
          rw [hcons, List.length_cons]
          dsimp only at hle
          omega
      | none =>
          rw [hmoved] at hstep
          cases hstep
          have hcons : v.moved (n :: numbers) = v.moved numbers :=
            List.filterMap_cons_none hmoved
          rw [hcons]
          exact ih { next := state.next
                     resolved := state.resolved ++ v.keptAt n
                     conflicts := state.conflicts ++ v.conflictAt n } hnext hrest

/-! ### Live keys -/

section Keys

variable [Ord K] [Std.TransOrd K] [Std.LawfulEqOrd K]

def holdsLive (key : K) (entry : (Side × LockEntry K) × Nat) : Bool :=
  !entry.1.2.retired && entry.1.2.key = key

/-- The places of a key are those of its live entries. -/
theorem getElem?_byKey (resolved : List (Side × LockEntry K)) (key : K) :
    ((byKey resolved)[key]?).getD []
      = (resolved.zipIdx.filter (holdsLive key)).map Prod.snd := by
  have hfold : ∀ (list : List ((Side × LockEntry K) × Nat)) (keys : OrdMap K (List Nat)),
      ((list.foldl (fun keys entry =>
        if entry.1.2.retired then keys
        else keys.insert entry.1.2.key ((keys[entry.1.2.key]?).getD [] ++ [entry.2])) keys)[key]?
        ).getD []
        = (keys[key]?).getD [] ++ (list.filter (holdsLive key)).map Prod.snd := by
    intro list
    induction list with
    | nil => exact fun keys => (List.append_nil _).symm
    | cons entry list ih =>
        intro keys
        rcases entry with ⟨⟨s, entry⟩, index⟩
        rw [List.foldl_cons, ih]
        cases hretired : entry.retired with
        | true =>
            have hnot : ¬ holdsLive key ((s, entry), index) = true := by
              simp only [holdsLive, hretired, Bool.not_true, Bool.false_and]
              exact Bool.false_ne_true
            rw [List.filter_cons_of_neg hnot]
            dsimp only
            rw [if_pos rfl]
        | false =>
            by_cases hkey : entry.key = key
            · have hyes : holdsLive key ((s, entry), index) = true := by
                simp only [holdsLive, hretired, hkey, Bool.not_false, decide_true, Bool.and_self]
              rw [List.filter_cons_of_pos hyes, List.map_cons]
              dsimp only
              rw [if_neg Bool.false_ne_true, hkey, OrdMap.getElem?_insert_self,
                Option.getD_some,
                List.append_assoc]
              rfl
            · have hnot : ¬ holdsLive key ((s, entry), index) = true := by
                simp only [holdsLive, hkey, decide_false, Bool.and_false]
                exact Bool.false_ne_true
              rw [List.filter_cons_of_neg hnot]
              dsimp only
              rw [if_neg Bool.false_ne_true, OrdMap.getElem?_insert_of_ne _ _ _ _ hkey]
  have hempty : (∅ : OrdMap K (List Nat))[key]? = none := Std.ExtTreeMap.getElem?_empty
  refine (hfold resolved.zipIdx ∅).trans ?_
  rw [hempty]
  rfl

def liveKeys (resolved : List (Side × LockEntry K)) : List K :=
  ((resolved.map fun entry => meaning entry.2).filter fun c => !c.2).map Prod.fst

omit [Ord K] [Std.TransOrd K] [Std.LawfulEqOrd K] in
theorem count_liveKeys (resolved : List (Side × LockEntry K)) (key : K) :
    (liveKeys resolved).count key
      = ((resolved.zipIdx.filter (holdsLive key)).map Prod.snd).length := by
  rw [List.length_map, ← List.countP_eq_length_filter]
  have hfst : resolved.zipIdx.countP (holdsLive key)
      = (resolved.zipIdx.map Prod.fst).countP fun entry =>
          !entry.2.retired && decide (entry.2.key = key) := by
    rw [List.countP_map]
    rfl
  rw [hfst, List.zipIdx_map_fst, liveKeys, List.count_eq_countP, List.countP_map,
    List.countP_filter, List.countP_map]
  refine List.countP_congr fun entry _ => ?_
  simp only [Function.comp_apply, meaning, Bool.and_eq_true, beq_iff_eq, decide_eq_true_eq]
  exact and_comm

omit [DecidableEq K] in
theorem mem_duplicated {resolved : List (Side × LockEntry K)} {indices : List Nat} :
    indices ∈ duplicated resolved ↔
      ∃ key : K, (byKey resolved)[key]? = some indices ∧ 1 < indices.length := by
  simp only [duplicated, List.mem_filter, List.mem_map, decide_eq_true_eq, Prod.exists,
    Std.ExtTreeMap.mem_toList_iff_getElem?_eq_some, exists_and_right, exists_eq_right]

theorem duplicated_eq_nil_iff {resolved : List (Side × LockEntry K)} :
    duplicated resolved = [] ↔ (liveKeys resolved).Nodup := by
  rw [List.nodup_iff_count_le_one, List.eq_nil_iff_forall_not_mem]
  constructor
  · intro hnone key
    rw [count_liveKeys, ← getElem?_byKey]
    cases hget : (byKey resolved)[key]? with
    | none => exact Nat.zero_le 1
    | some indices =>
        by_contra hlt
        exact hnone indices (mem_duplicated.2 ⟨key, hget, Nat.lt_of_not_le hlt⟩)
  · intro hcount indices hindices
    rcases mem_duplicated.1 hindices with ⟨key, hget, hlt⟩
    have hle := hcount key
    rw [count_liveKeys, ← getElem?_byKey, hget] at hle
    exact absurd hlt (Nat.not_lt.2 hle)

end Keys

end Lock

end Ridl
