import Ridl.Lock.UnitKeys

/-!
# The Numbers of a Unit

What the numbering gives the keys of the shapes of a unit.

The keys are numbered in the order of their names, each once. One with a live entry
has the number of the entry. The others count from `next` on, and from 0 again above
the highest `u32`.

## Theorems

* `byName_congr`: The order that the keys come in does not count.
-/

namespace Ridl

namespace Lock

open Library
open Diff (Package)

variable {unit : String} {lock : Option (LockTable LockKey)} {packages : List Package}

/-! ### The order of the keys -/

instance : Std.Total fun a b : LockKey => provisionalOrder a ≤ provisionalOrder b :=
  ⟨fun _ _ => le_total _ _⟩

instance : IsTrans LockKey fun a b => provisionalOrder a ≤ provisionalOrder b :=
  ⟨fun _ _ _ hab hbc => le_trans hab hbc⟩

theorem provisionalOrder_injective : Function.Injective provisionalOrder := by
  intro a b heq
  cases a with
  | interface name =>
      cases b with
      | interface name' => exact congrArg LockKey.interface (Prod.mk.inj (toLex.injective heq)).1
      | service name' => exact Bool.noConfusion (Prod.mk.inj (toLex.injective heq)).2
  | service name =>
      cases b with
      | interface name' => exact Bool.noConfusion (Prod.mk.inj (toLex.injective heq)).2
      | service name' => exact congrArg LockKey.service (Prod.mk.inj (toLex.injective heq)).1

/-- The keys in the order of their names. -/
def byName (keys : List LockKey) : List LockKey :=
  keys.insertionSort fun a b => provisionalOrder a ≤ provisionalOrder b

theorem perm_byName (keys : List LockKey) : (byName keys).Perm keys := List.perm_insertionSort _ _

theorem byName_congr {keys keys' : List LockKey} (h : keys.Perm keys') :
    byName keys = byName keys' := by
  refine List.Perm.eq_of_pairwise ?_ (List.pairwise_insertionSort _ _)
    (List.pairwise_insertionSort _ _) (((perm_byName keys).trans h).trans (perm_byName keys').symm)
  exact fun a b _ _ hab hba => provisionalOrder_injective (le_antisymm hab hba)

/-! ### One key after another -/

/-- The key has no live entry. -/
def isNew (lock : Option (LockTable LockKey)) (key : LockKey) : Bool :=
  ((tableOf lock).live key).isNone

variable {count : Count} {key : LockKey}

theorem numberKey_live {entry : LockEntry LockKey}
    (hfresh : key ∉ count.numbers) (hlive : (tableOf lock).live key = some entry) :
    numberKey lock count key
      = { count with numbers := count.numbers.insert key (entry.number, false) } := by
  unfold numberKey
  rw [if_neg hfresh, bind_live, hlive]

theorem numberKey_new (hfresh : key ∉ count.numbers) (hlive : (tableOf lock).live key = none) :
    numberKey lock count key
      = { numbers := count.numbers.insert key (count.next, true)
          next := (count.next + 1) % (NUMBER_MAX + 1)
          anyProvisional := true } := by
  unfold numberKey
  rw [if_neg hfresh, bind_live, hlive]

theorem numberKey_of_ne {other : LockKey} (hne : key ≠ other) :
    (numberKey lock count key).numbers[other]? = count.numbers[other]? := by
  by_cases hfresh : key ∈ count.numbers
  · rw [numberKey, if_pos hfresh]
  · cases hlive : (tableOf lock).live key with
    | some entry =>
        rw [numberKey_live hfresh hlive]
        exact OrdMap.getElem?_insert_of_ne _ _ _ _ hne
    | none =>
        rw [numberKey_new hfresh hlive]
        exact OrdMap.getElem?_insert_of_ne _ _ _ _ hne

theorem not_mem_numberKey {other : LockKey} (hne : key ≠ other)
    (h : other ∉ count.numbers) : other ∉ (numberKey lock count key).numbers := by
  rw [Std.ExtTreeMap.mem_iff_isSome_getElem?] at h ⊢
  rw [numberKey_of_ne hne]
  exact h

/-- What the keys are given, where none has a number yet: those of live entries their numbers,
    and the others those from the next one on. -/
structure Counted (lock : Option (LockTable LockKey)) (keys : List LockKey) (n : Nat)
    (count result : Count) : Prop where
  live : ∀ key ∈ keys, ∀ entry, (tableOf lock).live key = some entry →
    result.numbers[key]? = some (entry.number, false)
  new : ∀ key k, (key, k) ∈ (keys.filter (isNew lock)).zipIdx n →
    result.numbers[key]? = some (k % (NUMBER_MAX + 1), true)
  others : ∀ key, key ∉ keys → result.numbers[key]? = count.numbers[key]?
  any : result.anyProvisional = (count.anyProvisional || keys.any (isNew lock))

theorem foldl_numberKey {keys : List LockKey} (hnodup : keys.Nodup) {n : Nat}
    (hnext : count.next = n % (NUMBER_MAX + 1)) (hfresh : ∀ key ∈ keys, key ∉ count.numbers) :
    Counted lock keys n count (keys.foldl (numberKey lock) count) := by
  induction keys generalizing count n with
  | nil => exact ⟨nofun, nofun, fun _ _ => rfl, by rw [List.any_nil, Bool.or_false]; rfl⟩
  | cons key keys ih =>
      rcases List.nodup_cons.1 hnodup with ⟨hkey, hkeys⟩
      have hfresh' : ∀ other ∈ keys, other ∉ (numberKey lock count key).numbers := by
        intro other hother
        refine not_mem_numberKey (fun heq => hkey (heq ▸ hother)) ?_
        exact hfresh other (List.mem_cons_of_mem _ hother)
      have hfirst := hfresh key List.mem_cons_self
      have hothers : ∀ result : Count, (∀ other, other ∉ keys →
          result.numbers[other]? = (numberKey lock count key).numbers[other]?) →
          ∀ other, other ∉ key :: keys → result.numbers[other]? = count.numbers[other]? := by
        intro result hresult other hother
        rw [hresult other fun hmem => hother (List.mem_cons_of_mem _ hmem)]
        exact numberKey_of_ne fun heq => hother (List.mem_cons.2 (.inl heq.symm))
      rw [List.foldl_cons]
      cases hlive : (tableOf lock).live key with
      | some entry =>
          have hold : isNew lock key = false := by rw [isNew, hlive]; rfl
          have hstep := numberKey_live hfirst hlive
          have hcounted := ih (n := n) hkeys (by rw [hstep]; exact hnext) hfresh'
          refine ⟨fun other hother entry' hlive' => ?_, ?_, hothers _ hcounted.others, ?_⟩
          · rcases List.mem_cons.1 hother with rfl | hmem
            · cases hlive.symm.trans hlive'
              rw [hcounted.others _ hkey, hstep]
              exact OrdMap.getElem?_insert_self _ _ _
            · exact hcounted.live other hmem entry' hlive'
          · rw [List.filter_cons_of_neg (by rw [hold]; exact Bool.false_ne_true)]
            exact hcounted.new
          · rw [hcounted.any, hstep, List.any_cons, hold, Bool.false_or]
      | none =>
          have hnew : isNew lock key = true := by rw [isNew, hlive]; rfl
          have hstep := numberKey_new hfirst hlive
          have hcounted := ih (n := n + 1) hkeys (by
            rw [hstep]
            show (count.next + 1) % _ = _
            rw [hnext, Nat.mod_add_mod]) hfresh'
          refine ⟨fun other hother entry' hlive' => ?_, ?_, hothers _ hcounted.others, ?_⟩
          · rcases List.mem_cons.1 hother with rfl | hmem
            · cases hlive.symm.trans hlive'
            · exact hcounted.live other hmem entry' hlive'
          · rw [List.filter_cons_of_pos hnew, List.zipIdx_cons]
            intro other k hk
            rcases List.mem_cons.1 hk with heq | hmem
            · cases heq
              rw [hcounted.others _ hkey, hstep, ← hnext]
              exact OrdMap.getElem?_insert_self _ _ _
            · exact hcounted.new other k hmem
          · rw [hcounted.any, hstep, List.any_cons, hnew, Bool.true_or, Bool.or_true]

/-! ### The numbers of a unit -/

/-- The keys without a live entry, in the order of their names. -/
def newKeys (lock : Option (LockTable LockKey)) (packages : List Package) : List LockKey :=
  (byName (unitKeys packages)).filter (isNew lock)

/-- The number that the order of the names gives to a key. -/
def IsNext (lock : Option (LockTable LockKey)) (packages : List Package) (key : LockKey) (k : Nat) :
    Prop :=
  (key, k) ∈ (newKeys lock packages).zipIdx (tableOf lock).next

section Numbers

variable (h : UnitPackages unit packages) (hwf : (tableOf lock).WellFormed)

include h

theorem nodup_newKeys : (newKeys lock packages).Nodup :=
  ((perm_byName _).nodup_iff.2 (nodup_unitKeys h)).filter _

variable {key : LockKey}

omit h in
theorem mem_newKeys :
    key ∈ newKeys lock packages ↔ key ∈ unitKeys packages ∧ (tableOf lock).live key = none := by
  rw [newKeys, List.mem_filter, (perm_byName _).mem_iff, isNew, Option.isNone_iff_eq_none]

include hwf

theorem counted_numberUnit : ∃ count,
    Counted lock (byName (unitKeys packages)) (tableOf lock).next
      { numbers := ∅, next := (tableOf lock).next, anyProvisional := false } count ∧
    (numberUnit unit lock packages).numbers = count.numbers ∧
    (numberUnit unit lock packages).anyProvisional = count.anyProvisional := by
  have hnext : (tableOf lock).next < NUMBER_MAX + 1 :=
    Nat.lt_succ_of_le (Nat.le_trans hwf.next.2 (LawfulKey.max (K := LockKey)).2)
  refine ⟨_, foldl_numberKey ((perm_byName _).nodup_iff.2 (nodup_unitKeys h))
    (Nat.mod_eq_of_lt hnext).symm (fun key _ => Std.ExtTreeMap.not_mem_empty), ?_, ?_⟩
  · rw [numberUnit, elim_next]
    rfl
  · rw [numberUnit, elim_next]
    rfl

theorem numbers_live {entry : LockEntry LockKey} (hkey : key ∈ unitKeys packages)
    (hlive : (tableOf lock).live key = some entry) :
    (numberUnit unit lock packages).numbers[key]? = some (entry.number, false) := by
  rcases counted_numberUnit h hwf with ⟨count, hcounted, hnumbers, -⟩
  rw [hnumbers]
  exact hcounted.live key ((perm_byName _).mem_iff.2 hkey) entry hlive

theorem numbers_new {k : Nat} (hk : IsNext lock packages key k) :
    (numberUnit unit lock packages).numbers[key]? = some (k % (NUMBER_MAX + 1), true) := by
  rcases counted_numberUnit h hwf with ⟨count, hcounted, hnumbers, -⟩
  rw [hnumbers]
  exact hcounted.new key k hk

theorem numbers_none (hkey : key ∉ unitKeys packages) :
    (numberUnit unit lock packages).numbers[key]? = none := by
  rcases counted_numberUnit h hwf with ⟨count, hcounted, hnumbers, -⟩
  rw [hnumbers, hcounted.others key fun hmem => hkey ((perm_byName _).mem_iff.1 hmem)]
  exact Std.ExtTreeMap.getElem?_empty

theorem of_numbers {n : Nat} {provisional : Bool}
    (hget : (numberUnit unit lock packages).numbers[key]? = some (n, provisional)) :
    key ∈ unitKeys packages ∧
      ((provisional = false ∧ ∃ entry, (tableOf lock).live key = some entry ∧ n = entry.number) ∨
        provisional = true ∧ ∃ k, IsNext lock packages key k ∧ n = k % (NUMBER_MAX + 1)) := by
  by_cases hkey : key ∈ unitKeys packages
  · refine ⟨hkey, ?_⟩
    cases hlive : (tableOf lock).live key with
    | some entry =>
        rw [numbers_live h hwf hkey hlive] at hget
        cases hget
        exact .inl ⟨rfl, entry, rfl, rfl⟩
    | none =>
        rcases List.mem_iff_getElem?.1 (mem_newKeys.2 ⟨hkey, hlive⟩) with ⟨i, hi⟩
        have hk : IsNext lock packages key ((tableOf lock).next + i) :=
          List.mk_add_mem_zipIdx_iff_getElem?.2 hi
        rw [numbers_new h hwf hk] at hget
        cases hget
        exact .inr ⟨rfl, _, hk, rfl⟩
  · rw [numbers_none h hwf hkey] at hget
    cases hget

/-- Every key of the unit has a number, and is provisional where it has no live entry. -/
theorem exists_numbers (hkey : key ∈ unitKeys packages) :
    ∃ n, (numberUnit unit lock packages).numbers[key]? = some (n, isNew lock key) := by
  unfold isNew
  cases hlive : (tableOf lock).live key with
  | some entry => exact ⟨_, numbers_live h hwf hkey hlive⟩
  | none =>
      rcases List.mem_iff_getElem?.1 (mem_newKeys.2 ⟨hkey, hlive⟩) with ⟨i, hi⟩
      exact ⟨_, numbers_new h hwf (List.mk_add_mem_zipIdx_iff_getElem?.2 hi)⟩

theorem contains_numbers :
    (numberUnit unit lock packages).numbers.contains key = decide (key ∈ unitKeys packages) := by
  rw [Std.ExtTreeMap.contains_eq_isSome_getElem?]
  by_cases hkey : key ∈ unitKeys packages
  · rcases exists_numbers h hwf hkey with ⟨n, hn⟩
    rw [hn, decide_eq_true hkey]
    rfl
  · rw [numbers_none h hwf hkey, decide_eq_false hkey]
    rfl

end Numbers

end Lock

end Ridl
