import Ridl.Lock.Edits

/-!
# Allocating in Order

What a lock stands for, the live entry that holds a key, and the table that an
allocation of several keys leaves.

Keys without a live entry get the numbers from `next` on, in their order. The
allocation stops only where a number would pass the maximum, so one that comes to
its end leaves `next` at most one above it. The table that it leaves is well formed,
and its text is read back with every key under its number.

## Theorems

* `live_eq`: A live entry is what its key finds.
* `insertionSort_ascending`: Keys with numbers of their own are sorted by them.
* `foldlM_allocateKey`: The allocation counts from `next` on.
* `next_of_foldlM_allocateKey`: An allocation that ends did not pass the maximum.
* `live_written`: What is live in a table is live in what is read back.
-/

namespace Ridl

namespace Lock

open Library
open TableKey (display fromStr HEADER MAX_NUMBER)

variable {K : Type} [TableKey K] [DecidableEq K]

/-! ### The lock -/

omit [TableKey K] [DecidableEq K] in
/-- The table that a lock stands for. -/
def tableOf (lock : Option (LockTable K)) : LockTable K := lock.getD (.default K)

omit [TableKey K] in
theorem bind_live (lock : Option (LockTable K)) (key : K) :
    lock.bind (·.live key) = (tableOf lock).live key := by
  cases lock with
  | none => rfl
  | some table => rfl

omit [TableKey K] [DecidableEq K] in
theorem elim_next (lock : Option (LockTable K)) : lock.elim 1 (·.next) = (tableOf lock).next := by
  cases lock with
  | none => rfl
  | some table => rfl

theorem wellFormed_tableOf [LawfulKey K] {lock : Option (LockTable K)}
    (h : ∀ table, lock = some table → ∃ text, parseTable text = .ok table) :
    (tableOf lock).WellFormed := by
  cases lock with
  | none => exact LockTable.wellFormed_default
  | some table =>
      rcases h table rfl with ⟨text, htext⟩
      exact wellFormed_of_parse htext

/-! ### Live entries -/

variable {table : LockTable K} {key : K} {entry : LockEntry K} {keys : List K}

omit [TableKey K] in
theorem live_mem (h : table.live key = some entry) :
    entry ∈ table.entries ∧ entry.retired = false ∧ entry.key = key := by
  have hholds : (!entry.retired && decide (entry.key = key)) = true := by
    have hfind := List.find?_some h
    exact hfind
  simp only [Bool.and_eq_true, Bool.not_eq_true', decide_eq_true_eq] at hholds
  exact ⟨List.mem_of_find?_eq_some h, hholds⟩

theorem live_eq (hwf : table.WellFormed)
    (hentry : entry ∈ table.entries) (hlive : entry.retired = false) :
    ∃ entry', table.live entry.key = some entry' ∧ entry'.number = entry.number := by
  cases hfind : table.live entry.key with
  | none =>
      refine absurd rfl (live_eq_none ?_ entry hentry hlive)
      rw [hfind]
      exact Bool.false_ne_true
  | some entry' =>
      rcases live_mem hfind with ⟨hentry', hlive', hkey⟩
      refine ⟨entry', rfl, ?_⟩
      by_contra hne
      exact hwf.key_ne hentry' hentry hne hlive' hlive hkey

theorem live_number_le {lock : Option (LockTable K)} (hwf : (tableOf lock).WellFormed)
    (h : (tableOf lock).live key = some entry) :
    1 ≤ entry.number ∧ entry.number < (tableOf lock).next ∧ entry.number ≤ MAX_NUMBER K := by
  have hnumber := hwf.number entry (live_mem h).1
  exact ⟨hnumber.1, hnumber.2,
    Nat.le_of_lt_succ (Nat.lt_of_lt_of_le hnumber.2 hwf.next.2)⟩

/-! ### The order of the numbers -/

theorem pairwise_zipIdx {α : Type} (list : List α) (n : Nat) :
    (list.zipIdx n).Pairwise fun a b => a.2 < b.2 := by
  induction list generalizing n with
  | nil => exact List.Pairwise.nil
  | cons a list ih =>
      rw [List.zipIdx_cons]
      exact List.pairwise_cons.2 ⟨fun b hb => List.le_snd_of_mem_zipIdx hb, ih (n + 1)⟩

section Ascending

variable {N : Type} [LinearOrder N] {κ : Type} [Ord κ]

/-- Ascending by number, and by key where the numbers are the same. -/
def Ascending (a b : N × κ) : Prop := a.1 < b.1 ∨ a.1 = b.1 ∧ (compare a.2 b.2).isLE

instance : DecidableRel (Ascending (N := N) (κ := κ)) :=
  fun _ _ => inferInstanceAs (Decidable (_ ∨ _))

variable [Std.TransOrd κ]

instance : Std.Total (Ascending (N := N) (κ := κ)) where
  total a b := by
    unfold Ascending
    rcases lt_trichotomy a.1 b.1 with hlt | heq | hgt
    · exact .inl (.inl hlt)
    · by_cases hle : (compare a.2 b.2).isLE = true
      · exact .inl (.inr ⟨heq, hle⟩)
      · refine .inr (.inr ⟨heq.symm, ?_⟩)
        rw [Std.OrientedCmp.lt_of_not_isLE hle]
        rfl
    · exact .inr (.inl hgt)

instance : IsTrans (N × κ) Ascending where
  trans a b c hab hbc := by
    unfold Ascending at hab hbc ⊢
    rcases hab with hab | ⟨hab, hle⟩
    · rcases hbc with hbc | ⟨hbc, -⟩
      · exact .inl (hab.trans hbc)
      · exact .inl (hab.trans_eq hbc)
    · rcases hbc with hbc | ⟨hbc, hle'⟩
      · exact .inl (hab.trans_lt hbc)
      · exact .inr ⟨hab.trans hbc, Std.TransCmp.isLE_trans hle hle'⟩

theorem insertionSort_ascending [Std.LawfulEqOrd κ] {list sorted : List (N × κ)}
    (hperm : list.Perm sorted) (hsorted : sorted.Pairwise fun a b => a.1 < b.1) :
    list.insertionSort Ascending = sorted := by
  refine @List.Perm.eq_of_pairwise _ Ascending _ _ ?_ (List.pairwise_insertionSort Ascending _)
    (hsorted.imp fun hlt => .inl hlt) ((List.perm_insertionSort _ _).trans hperm)
  intro a b _ _ hab hba
  rcases hab with hab | ⟨hab, hle⟩
  · rcases hba with hba | ⟨hba, -⟩
    · exact absurd hba (lt_asymm hab)
    · exact absurd hba hab.ne'
  · rcases hba with hba | ⟨-, hle'⟩
    · exact absurd hab hba.ne'
    · exact Prod.ext hab (Std.LawfulEqOrd.eq_of_compare (Std.OrientedCmp.isLE_antisymm hle hle'))

end Ascending

/-! ### The allocation -/

omit [TableKey K] [DecidableEq K] in
/-- The entries that an allocation from a number on adds. -/
def added (keys : List K) (next : Nat) : List (LockEntry K) :=
  (keys.zipIdx next).map fun entry =>
    { key := entry.1, number := entry.2, retired := false, range := .empty }

omit [TableKey K] [DecidableEq K] in
/-- The table after the allocation. -/
def allocated (table : LockTable K) (keys : List K) : LockTable K :=
  { next := table.next + keys.length, entries := table.entries ++ added keys table.next }

omit [TableKey K] [DecidableEq K] in
theorem allocated_nil (table : LockTable K) : allocated table [] = table := by
  simp only [allocated, added, List.zipIdx_nil, List.map_nil, List.append_nil]
  rfl

omit [TableKey K] [DecidableEq K] in
theorem allocated_cons (table : LockTable K) (key : K) (keys : List K) :
    allocated (allocated table [key]) keys = allocated table (key :: keys) := by
  simp only [allocated, added, List.zipIdx_cons, List.map_cons, List.length_cons,
    List.zipIdx_nil, List.map_nil, List.length_nil, List.append_assoc, List.cons_append,
    List.nil_append, LockTable.mk.injEq, and_true]
  omega

theorem allocate_eq (hlive : table.live key = none) (hmax : table.next ≤ MAX_NUMBER K) :
    table.allocate key = (allocated table [key], .ok table.next) := by
  unfold LockTable.allocate
  rw [if_neg (by rw [hlive]; exact Bool.false_ne_true)]
  exact if_neg (Nat.not_lt.2 hmax)

theorem allocate_eq_ok {table' : LockTable K} {number : Nat}
    (h : table.allocate key = (table', .ok number)) :
    table.next ≤ MAX_NUMBER K ∧ table' = allocated table [key] ∧ number = table.next := by
  unfold LockTable.allocate at h
  by_cases hlive : (table.live key).isSome = true
  · rw [if_pos hlive] at h
    cases h
  rw [if_neg hlive] at h
  dsimp only at h
  split_ifs at h with hmax
  · cases (Prod.mk.inj h).2
  · rcases Prod.mk.inj h with ⟨rfl, hnumber⟩
    exact ⟨Nat.le_of_not_lt hmax, rfl, (Except.ok.inj hnumber).symm⟩

omit [TableKey K] in
theorem live_allocated {other : K} (hlive : table.live other = none)
    (hne : key ≠ other) : (allocated table [key]).live other = none := by
  refine List.find?_eq_none.2 fun entry hentry => ?_
  rcases List.mem_append.1 hentry with hold | hnew
  · exact List.find?_eq_none.1 hlive entry hold
  · rw [List.mem_singleton.1 hnew]
    simp [hne]

/-- Allocates for one key, and notes the number. -/
def allocateKey (state : LockTable K × List (K × Nat)) (key : K) :
    Except (LockEditError K) (LockTable K × List (K × Nat)) :=
  match state.1.allocate key with
  | (table, .ok number) => .ok (table, state.2 ++ [(key, number)])
  | (_, .error e) => .error e

theorem foldlM_allocateKey (hnodup : keys.Nodup) (hlive : ∀ key ∈ keys, table.live key = none)
    (hmax : table.next + keys.length ≤ MAX_NUMBER K + 1) (lines : List (K × Nat)) :
    keys.foldlM allocateKey (table, lines)
      = .ok (allocated table keys, lines ++ keys.zipIdx table.next) := by
  induction keys generalizing table lines with
  | nil =>
      rw [allocated_nil, List.zipIdx_nil, List.append_nil]
      rfl
  | cons key keys ih =>
      rcases List.nodup_cons.1 hnodup with ⟨hkey, hkeys⟩
      rw [List.length_cons] at hmax
      have hnext : allocateKey (table, lines) key
          = .ok (allocated table [key], lines ++ [(key, table.next)]) := by
        unfold allocateKey
        rw [allocate_eq (hlive key List.mem_cons_self) (by omega)]
      have hlive' : ∀ other ∈ keys, (allocated table [key]).live other = none :=
        fun other hother => live_allocated (hlive other (List.mem_cons_of_mem _ hother))
          fun heq => hkey (heq ▸ hother)
      have hmax' : (allocated table [key]).next + keys.length ≤ MAX_NUMBER K + 1 := by
        show table.next + 1 + keys.length ≤ _
        omega
      rw [List.foldlM_cons, hnext]
      refine (ih hkeys hlive' hmax' (lines ++ [(key, table.next)])).trans ?_
      rw [allocated_cons, List.append_assoc]
      rfl

theorem next_of_foldlM_allocateKey {lines : List (K × Nat)}
    {result : LockTable K × List (K × Nat)} (hnext : table.next ≤ MAX_NUMBER K + 1)
    (h : keys.foldlM allocateKey (table, lines) = .ok result) :
    table.next + keys.length ≤ MAX_NUMBER K + 1 := by
  induction keys generalizing table lines with
  | nil => exact hnext
  | cons key keys ih =>
      rw [List.foldlM_cons] at h
      rcases of_bind_eq_ok h with ⟨state, hkey, hrest⟩
      unfold allocateKey at hkey
      rcases hallocate : table.allocate key with ⟨table', result' | number⟩
      · rw [hallocate] at hkey
        cases hkey
      · rw [hallocate] at hkey
        cases hkey
        rcases allocate_eq_ok hallocate with ⟨hmax, rfl, -⟩
        have hrest' : (allocated table [key]).next + keys.length ≤ MAX_NUMBER K + 1 :=
          ih (Nat.succ_le_succ hmax) hrest
        have hone : (allocated table [key]).next = table.next + 1 := rfl
        rw [List.length_cons]
        omega

theorem allocated_wellFormed [LawfulKey K] (hnodup : keys.Nodup)
    (hwf : table.WellFormed) (hlive : ∀ key ∈ keys, table.live key = none)
    (hmax : table.next + keys.length ≤ MAX_NUMBER K + 1) (hkeys : ∀ key ∈ keys, IsKey key) :
    (allocated table keys).WellFormed := by
  induction keys generalizing table with
  | nil =>
      rw [allocated_nil]
      exact hwf
  | cons key keys ih =>
      rcases List.nodup_cons.1 hnodup with ⟨hkey, hnodup'⟩
      rw [List.length_cons] at hmax
      have hone : (allocated table [key]).WellFormed := by
        have hkeep := (allocate_keeps hwf (hkeys key List.mem_cons_self)).wellFormed
        rwa [allocate_eq (hlive key List.mem_cons_self) (by omega)] at hkeep
      have hmax' : (allocated table [key]).next + keys.length ≤ MAX_NUMBER K + 1 := by
        show table.next + 1 + keys.length ≤ _
        omega
      rw [← allocated_cons]
      exact ih hnodup' hone (fun other hother =>
        live_allocated (hlive other (List.mem_cons_of_mem _ hother))
          fun heq => hkey (heq ▸ hother)) hmax' fun other hother =>
            hkeys other (List.mem_cons_of_mem _ hother)

theorem live_written [LawfulKey K] {table' : LockTable K} (hwf : table.WellFormed)
    (hparse : parseTable table.render = .ok table')
    (hentry : entry ∈ table.entries) (hlive : entry.retired = false) :
    ∃ entry', table'.live entry.key = some entry' ∧ entry'.number = entry.number := by
  rcases parseTable_render hwf with ⟨table'', hparse', -, hentries⟩
  cases hparse.symm.trans hparse'
  have hmem : content entry ∈ table'.entries.map content := by
    rw [hentries]
    exact List.mem_map_of_mem ((List.mem_insertionSort _).2 hentry)
  rcases List.mem_map.1 hmem with ⟨entry', hentry', hcontent⟩
  simp only [content, Prod.mk.injEq] at hcontent
  rcases hcontent with ⟨hkey', hnumber, hretired⟩
  rcases live_eq (wellFormed_of_parse hparse) hentry' (hretired.trans hlive) with
    ⟨entry'', hfind, hnumber'⟩
  rw [hkey'] at hfind
  exact ⟨entry'', hfind, hnumber'.trans hnumber⟩

end Lock

end Ridl
