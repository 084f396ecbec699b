import Ridl.Lock.Allocation
import Ridl.Lock.Numbering

/-!
# Provisional Numbers are Written

What the numbering of the instances gives each of them, and that `ridl lock` writes
the same.

The instances are a set, so their order in the closure does not count. Those with a
live entry have numbers below `next`, and the others are counted from `next` on,
so no number is given twice. The provisional numbers ascend with the texts, and
allocating in their order counts from `next` on in the same way.

## Main definitions

* `numbersOf`: The numbers of a closure.
* `allocated`: The table after the allocation.

## Theorems

* `allocateInstances_eq`: The allocation succeeds, with these numbers.
* `provisional_numbers_written`: All of it.
-/

namespace Ridl

namespace Lock

open Library
open TableKey (display fromStr HEADER MAX_NUMBER)

variable {closure : Closure} {lock : Option (LockTable InstanceKey)}

/-! ### The instances -/

variable {key : InstanceKey} {keys : List InstanceKey} {errors : Bool}

theorem mem_keySet :
    key ∈ (keySet closure).toList ↔ key ∈ instanceKeys closure := by
  rw [Std.ExtTreeSet.mem_toList, keySet, Std.ExtTreeSet.mem_ofList, List.contains_iff_mem]

theorem nodup_keySet : (keySet closure).toList.Nodup :=
  Std.ExtTreeSet.distinct_toList.imp fun h heq => h (Std.LawfulEqOrd.compare_eq_iff_eq.2 heq)

theorem perm_byText (keys : List InstanceKey) : (byText keys).Perm keys :=
  List.perm_insertionSort _ keys

theorem nodup_provisionalKeys : (provisionalKeys closure lock).Nodup :=
  (perm_byText _).nodup_iff.2 (nodup_keySet.filter _)

theorem mem_provisionalKeys :
    key ∈ provisionalKeys closure lock ↔
      key ∈ instanceKeys closure ∧ (tableOf lock).live key = none := by
  rw [provisionalKeys, (perm_byText _).mem_iff, List.mem_filter, mem_keySet, bind_live,
    Option.isNone_iff_eq_none]

theorem keySet_congr {closure' : Closure}
    (h : ∀ key, key ∈ instanceKeys closure ↔ key ∈ instanceKeys closure') :
    keySet closure = keySet closure' := by
  refine Std.ExtTreeSet.ext_mem fun key => ?_
  rw [← Std.ExtTreeSet.mem_toList, ← Std.ExtTreeSet.mem_toList, mem_keySet, mem_keySet]
  exact h key

/-! ### The numbers -/

theorem foldl_liveNumber (keys : List InstanceKey) (numbers : OrdMap InstanceKey (Int × Bool))
    (key : InstanceKey) :
    (keys.foldl (liveNumber lock) numbers)[key]?
      = if key ∈ keys then
          ((tableOf lock).live key).elim numbers[key]? fun entry =>
            some (asI32 entry.number, false)
        else numbers[key]? := by
  induction keys generalizing numbers with
  | nil => rfl
  | cons k keys ih =>
      rw [List.foldl_cons, ih]
      have hlive : (liveNumber lock numbers k)[key]?
          = if key = k then
              ((tableOf lock).live key).elim numbers[key]? fun entry =>
                some (asI32 entry.number, false)
            else numbers[key]? := by
        unfold liveNumber
        rw [bind_live]
        by_cases hk : key = k
        · rw [if_pos hk, hk]
          cases (tableOf lock).live k with
          | none => rfl
          | some entry => exact OrdMap.getElem?_insert_self _ _ _
        · rw [if_neg hk]
          cases (tableOf lock).live k with
          | none => rfl
          | some entry => exact OrdMap.getElem?_insert_of_ne _ _ _ _ (Ne.symm hk)
      rw [hlive]
      by_cases hk : key = k
      · have hmem : key ∈ k :: keys := List.mem_cons.2 (.inl hk)
        rw [if_pos hk, if_pos hmem]
        cases (tableOf lock).live key with
        | none => split_ifs <;> rfl
        | some entry => split_ifs <;> rfl
      · rw [if_neg hk]
        refine if_congr ?_ rfl rfl
        rw [List.mem_cons, or_iff_right hk]

theorem foldl_assign_overflow (keys : List InstanceKey) {a : Assignment} (h : MAX < a.next) :
    keys.foldl assign a = { a with overflow := a.overflow ++ keys } := by
  induction keys generalizing a with
  | nil => rw [List.foldl_nil, List.append_nil]
  | cons key keys ih =>
      have hassign : assign a key = { a with overflow := a.overflow ++ [key] } := if_pos h
      rw [List.foldl_cons, hassign,
        ih (a := { a with overflow := a.overflow ++ [key] }) h, List.append_assoc]
      rfl

/-- The keys that are counted above the maximum. -/
def above (keys : List InstanceKey) (next : Nat) : List InstanceKey :=
  ((keys.zipIdx next).filter fun entry => MAX < entry.2).map Prod.fst

theorem above_eq_self {next : Nat} (h : MAX < next) :
    above keys next = keys := by
  have hall : (keys.zipIdx next).filter (fun entry => MAX < entry.2) = keys.zipIdx next := by
    refine List.filter_eq_self.2 fun entry hentry => decide_eq_true ?_
    exact Nat.lt_of_lt_of_le h (List.le_snd_of_mem_zipIdx hentry)
  rw [above, hall, List.zipIdx_map_fst]

/-- Counting from a number on, up to the maximum. -/
theorem foldl_assign (hnodup : keys.Nodup) (a : Assignment) :
    (∀ key k, (key, k) ∈ keys.zipIdx a.next → k ≤ MAX →
      (keys.foldl assign a).numbers[key]? = some (asI32 k, true)) ∧
    (∀ key, (∀ k, (key, k) ∈ keys.zipIdx a.next → MAX < k) →
      (keys.foldl assign a).numbers[key]? = a.numbers[key]?) ∧
    (keys.foldl assign a).overflow = a.overflow ++ above keys a.next := by
  induction keys generalizing a with
  | nil => exact ⟨nofun, fun _ _ => rfl, (List.append_nil _).symm⟩
  | cons first keys ih =>
      by_cases hmax : MAX < a.next
      · rw [foldl_assign_overflow _ hmax, above_eq_self hmax]
        refine ⟨fun key k hk hle => ?_, fun _ _ => rfl, rfl⟩
        have hle' := List.le_snd_of_mem_zipIdx hk
        dsimp only at hle'
        omega
      have hassign : assign a first
          = { a with numbers := a.numbers.insert first (asI32 a.next, true)
                     next := a.next + 1 } := if_neg hmax
      rcases List.nodup_cons.1 hnodup with ⟨hfirst, hkeys⟩
      rcases ih hkeys (assign a first) with ⟨hnumbered, hothers, hoverflow⟩
      rw [hassign] at hnumbered hothers hoverflow
      have hfresh : ∀ k, (first, k) ∉ keys.zipIdx (a.next + 1) :=
        fun k hk => hfirst (List.fst_mem_of_mem_zipIdx hk)
      rw [List.foldl_cons, hassign, List.zipIdx_cons]
      refine ⟨fun key k hk hle => ?_, fun key hkey => ?_, ?_⟩
      · rcases List.mem_cons.1 hk with heq | hmem
        · cases heq
          rw [hothers first fun k hk => absurd hk (hfresh k)]
          exact OrdMap.getElem?_insert_self _ _ _
        · exact hnumbered key k hmem hle
      · have hne : first ≠ key := by
          rintro rfl
          exact hmax (hkey a.next List.mem_cons_self)
        rw [hothers key fun k hk => hkey k (List.mem_cons_of_mem _ hk)]
        exact OrdMap.getElem?_insert_of_ne _ _ _ _ hne
      · rw [hoverflow, above, above, List.zipIdx_cons,
          List.filter_cons_of_neg (by simpa using hmax)]

def numbersOf (closure : Closure) (lock : Option (LockTable InstanceKey)) :
    OrdMap InstanceKey (Int × Bool) :=
  ((provisionalKeys closure lock).foldl assign
    { numbers := (keySet closure).toList.foldl (liveNumber lock) ∅
      overflow := []
      next := (tableOf lock).next }).numbers

theorem numbers_numberInstances :
    (numberInstances ⟨some closure, errors⟩ lock).numbers = numbersOf closure lock := by
  unfold numberInstances numbersOf
  simp only [elim_next]

theorem overflow_numberInstances :
    (numberInstances ⟨some closure, errors⟩ lock).overflow
      = above (provisionalKeys closure lock) (tableOf lock).next := by
  unfold numberInstances
  simp only [elim_next]
  exact (foldl_assign nodup_provisionalKeys _).2.2

/-- The provisional number of an instance is its place in the order of the texts. -/
def IsProvisional (closure : Closure) (lock : Option (LockTable InstanceKey)) (key : InstanceKey)
    (k : Nat) : Prop :=
  (key, k) ∈ (provisionalKeys closure lock).zipIdx (tableOf lock).next

theorem numbersOf_provisional {k : Nat} (h : IsProvisional closure lock key k)
    (hle : k ≤ MAX) : (numbersOf closure lock)[key]? = some (asI32 k, true) :=
  (foldl_assign nodup_provisionalKeys _).1 key k h hle

theorem numbersOf_of_not_provisional (h : ∀ k, IsProvisional closure lock key k → MAX < k) :
    (numbersOf closure lock)[key]?
      = if key ∈ instanceKeys closure then
          ((tableOf lock).live key).map fun entry => (asI32 entry.number, false)
        else none := by
  have hnodup : (provisionalKeys closure lock).Nodup := nodup_provisionalKeys
  have hkeep := (foldl_assign hnodup
    { numbers := (keySet closure).toList.foldl (liveNumber lock) ∅, overflow := []
      next := (tableOf lock).next }).2.1 key h
  rw [numbersOf, hkeep, foldl_liveNumber]
  have hempty : (∅ : OrdMap InstanceKey (Int × Bool))[key]? = none :=
    Std.ExtTreeMap.getElem?_empty
  rw [hempty]
  refine if_congr mem_keySet ?_ rfl
  cases (tableOf lock).live key with
  | none => rfl
  | some entry => rfl

theorem numbersOf_live {entry : LockEntry InstanceKey}
    (hkey : key ∈ instanceKeys closure) (hlive : (tableOf lock).live key = some entry) :
    (numbersOf closure lock)[key]? = some (asI32 entry.number, false) := by
  rw [numbersOf_of_not_provisional, if_pos hkey, hlive, Option.map_some]
  intro k hk
  have hmem := (mem_provisionalKeys.1 (List.fst_mem_of_mem_zipIdx hk)).2
  rw [hlive] at hmem
  cases hmem

theorem of_numbersOf {n : Int} {provisional : Bool}
    (h : (numbersOf closure lock)[key]? = some (n, provisional)) :
    key ∈ instanceKeys closure ∧
      ((provisional = false ∧ ∃ entry, (tableOf lock).live key = some entry ∧
          n = asI32 entry.number) ∨
        provisional = true ∧ ∃ k, IsProvisional closure lock key k ∧ k ≤ MAX ∧ n = asI32 k) := by
  by_cases hprovisional : ∃ k, IsProvisional closure lock key k ∧ k ≤ MAX
  · rcases hprovisional with ⟨k, hk, hle⟩
    rw [numbersOf_provisional hk hle] at h
    cases h
    exact ⟨(mem_provisionalKeys.1 (List.fst_mem_of_mem_zipIdx hk)).1, .inr ⟨rfl, k, hk, hle, rfl⟩⟩
  · rw [numbersOf_of_not_provisional fun k hk =>
      Nat.lt_of_not_le fun hle => hprovisional ⟨k, hk, hle⟩] at h
    rcases Option.ite_none_right_eq_some.1 h with ⟨hkey, hlive⟩
    rcases Option.map_eq_some_iff.1 hlive with ⟨entry, hentry, heq⟩
    cases heq
    exact ⟨hkey, .inl ⟨rfl, entry, hentry, rfl⟩⟩

/-! ### Numbers in range -/

theorem asI32_eq {n : Nat} (h : n ≤ MAX) : asI32 n = n := by
  have hlt : n < 2 ^ 31 := Nat.lt_of_le_of_lt h (by decide)
  unfold asI32
  split_ifs
  · omega
  · omega

section WellFormed

variable (hwf : (tableOf lock).WellFormed)

include hwf

/-- No number is given twice. -/
theorem numbersOf_injective {key key' : InstanceKey} {n : Int} {b b' : Bool}
    (h : (numbersOf closure lock)[key]? = some (n, b))
    (h' : (numbersOf closure lock)[key']? = some (n, b')) : key = key' := by
  rcases (of_numbersOf h).2 with ⟨-, entry, hlive, hn⟩ | ⟨-, k, hk, hle, hn⟩ <;>
    rcases (of_numbersOf h').2 with ⟨-, entry', hlive', hn'⟩ | ⟨-, k', hk', hle', hn'⟩
  · have hle := live_number_le hwf hlive
    have hle' := live_number_le hwf hlive'
    rw [asI32_eq hle.2.2] at hn
    rw [asI32_eq hle'.2.2] at hn'
    rcases live_mem hlive with ⟨hentry, hretired, hkey⟩
    rcases live_mem hlive' with ⟨hentry', hretired', hkey'⟩
    by_contra hne
    have hsame : entry.number = entry'.number := by omega
    refine hne ?_
    rw [← hkey, ← hkey']
    exact congrArg LockEntry.key (List.inj_on_of_nodup_map hwf.distinct hentry hentry' hsame)
  · have hle := live_number_le hwf hlive
    have hge := List.le_snd_of_mem_zipIdx hk'
    rw [asI32_eq hle.2.2] at hn
    rw [asI32_eq hle'] at hn'
    dsimp only at hge
    omega
  · have hle'' := live_number_le hwf hlive'
    have hge := List.le_snd_of_mem_zipIdx hk
    rw [asI32_eq hle] at hn
    rw [asI32_eq hle''.2.2] at hn'
    dsimp only at hge
    omega
  · rw [asI32_eq hle] at hn
    rw [asI32_eq hle'] at hn'
    have hsame : k = k' := by omega
    rw [hsame] at hk
    have hget := List.mk_mem_zipIdx_iff_le_and_getElem?_sub.1 hk
    have hget' := List.mk_mem_zipIdx_iff_le_and_getElem?_sub.1 hk'
    exact Option.some.inj (hget.2.symm.trans hget'.2)

end WellFormed

/-! ### The provisional numbers in order -/

/-- The instances that have a provisional number. -/
def within (closure : Closure) (lock : Option (LockTable InstanceKey)) : List InstanceKey :=
  (provisionalKeys closure lock).take (MAX + 1 - (tableOf lock).next)

theorem mem_zipIdx_within {k : Nat} :
    (key, k) ∈ (within closure lock).zipIdx (tableOf lock).next ↔
      IsProvisional closure lock key k ∧ k ≤ MAX := by
  rw [IsProvisional, List.mk_mem_zipIdx_iff_le_and_getElem?_sub,
    List.mk_mem_zipIdx_iff_le_and_getElem?_sub, within, List.getElem?_take]
  constructor
  · rintro ⟨hge, hget⟩
    rcases Option.ite_none_right_eq_some.1 hget with ⟨hlt, hget⟩
    exact ⟨⟨hge, hget⟩, by omega⟩
  · rintro ⟨⟨hge, hget⟩, hle⟩
    exact ⟨hge, by rw [if_pos (by omega)]; exact hget⟩

theorem provisionalNumbers_eq (numbering : InstanceNumbering)
    (h : numbering.numbers = numbersOf closure lock) :
    provisionalNumbers numbering
      = ((within closure lock).zipIdx (tableOf lock).next).map fun entry =>
          ((entry.2 : Int), entry.1) := by
  have hascending : (((within closure lock).zipIdx (tableOf lock).next).map fun entry =>
      ((entry.2 : Int), entry.1)).Pairwise fun a b => a.1 < b.1 :=
    List.pairwise_map.2 ((pairwise_zipIdx _ _).imp fun hlt => Int.ofNat_lt.2 hlt)
  have hperm : ((numbering.numbers.toList.filter fun entry => entry.2.2).map fun entry =>
      (entry.2.1, entry.1)).Perm (((within closure lock).zipIdx (tableOf lock).next).map
        fun entry => ((entry.2 : Int), entry.1)) := by
    refine (List.perm_ext_iff_of_nodup ?_ ?_).2 ?_
    · refine List.Nodup.map_on ?_ (List.Nodup.filter _ ?_)
      · rintro ⟨key, n, b⟩ ha ⟨key', n', b'⟩ ha' heq
        rcases Prod.mk.inj heq with ⟨rfl, rfl⟩
        have hb := (List.mem_filter.1 ha).2
        have hb' := (List.mem_filter.1 ha').2
        dsimp only at hb hb'
        rw [hb, hb']
      · exact Std.ExtTreeMap.distinct_keys_toList.imp fun hne heq =>
          hne (by rw [heq]; exact Std.ReflOrd.compare_self)
    · exact hascending.imp fun hlt heq => absurd (congrArg Prod.fst heq) (Int.ne_of_lt hlt)
    · rintro ⟨n, key⟩
      simp only [List.mem_map, List.mem_filter, Std.ExtTreeMap.mem_toList_iff_getElem?_eq_some, h,
        Prod.exists, Prod.mk.injEq]
      constructor
      · rintro ⟨key', n', b, ⟨hget, rfl⟩, rfl, rfl⟩
        rcases (of_numbersOf hget).2 with ⟨hfalse, -⟩ | ⟨-, k, hk, hle, rfl⟩
        · cases hfalse
        · exact ⟨key', k, mem_zipIdx_within.2 ⟨hk, hle⟩, (asI32_eq hle).symm, rfl⟩
      · rintro ⟨key', k, hmem, rfl, rfl⟩
        rcases mem_zipIdx_within.1 hmem with ⟨hk, hle⟩
        refine ⟨key', k, true, ⟨?_, rfl⟩, rfl, rfl⟩
        rw [numbersOf_provisional hk hle, asI32_eq hle]
  exact insertionSort_ascending hperm hascending

/-! ### The allocation -/

theorem foldlM_allocateNext (hnodup : keys.Nodup)
    {table : LockTable InstanceKey} (hlive : ∀ key ∈ keys, table.live key = none)
    (hmax : table.next + keys.length ≤ MAX + 1) (lines : List (InstanceKey × Nat)) :
    ((keys.zipIdx table.next).map fun entry => ((entry.2 : Int), entry.1)).foldlM allocateNext
        (table, lines)
      = .ok (allocated table keys, lines ++ keys.zipIdx table.next) := by
  have hone : ∀ (state : LockTable InstanceKey × List (InstanceKey × Nat))
      (entry : InstanceKey × Nat),
      allocateNext state ((entry.2 : Int), entry.1) = allocateKey state entry.1 := by
    intro state entry
    unfold allocateNext allocateKey
    rcases state.1.allocate entry.1 with ⟨table', result | number⟩ <;> rfl
  rw [List.foldlM_map]
  simp only [hone]
  rw [← List.foldlM_map, List.zipIdx_map_fst]
  exact foldlM_allocateKey hnodup hlive hmax lines

theorem nodup_within : (within closure lock).Nodup :=
  nodup_provisionalKeys.sublist (List.take_sublist _ _)

theorem mem_within (h : key ∈ within closure lock) :
    key ∈ instanceKeys closure ∧ (tableOf lock).live key = none :=
  mem_provisionalKeys.1 (List.mem_of_mem_take h)

theorem length_within (closure : Closure) (hwf : (tableOf lock).WellFormed) :
    (tableOf lock).next + (within closure lock).length ≤ MAX + 1 := by
  have hlength : (within closure lock).length ≤ MAX + 1 - (tableOf lock).next :=
    List.length_take_le _ _
  have hnext : (tableOf lock).next ≤ MAX + 1 := hwf.next.2
  omega

theorem allocateInstances_eq (hwf : (tableOf lock).WellFormed) {numbering : InstanceNumbering}
    (h : numbering.numbers = numbersOf closure lock) :
    allocateInstances numbering (tableOf lock)
      = .ok (allocated (tableOf lock) (within closure lock),
          (within closure lock).zipIdx (tableOf lock).next) := by
  rw [allocateInstances, provisionalNumbers_eq numbering h,
    foldlM_allocateNext nodup_within (fun key hkey => (mem_within hkey).2)
      (length_within closure hwf)]
  rfl

/-- Numbered against the table that is read back, every instance has its number. -/
theorem numbersOf_written {table' : LockTable InstanceKey} (hwf : (tableOf lock).WellFormed)
    (hkeys : ∀ key ∈ instanceKeys closure, IsKey key)
    (hparse : parseTable (allocated (tableOf lock) (within closure lock)).render = .ok table')
    {n : Int} {b : Bool}
    (h : (numbersOf closure lock)[key]? = some (n, b)) :
    (numbersOf closure (some table'))[key]? = some (n, false) := by
  have hwf' := allocated_wellFormed nodup_within hwf (fun key hkey => (mem_within hkey).2)
    (length_within closure hwf) fun key hkey => hkeys key (mem_within hkey).1
  -- A live entry of the table is found in what is read back.
  have hread : ∀ entry ∈ (allocated (tableOf lock) (within closure lock)).entries,
      entry.retired = false → entry.key = key →
      (numbersOf closure (some table'))[key]? = some (asI32 entry.number, false) := by
    intro entry hentry hlive hkey
    rcases live_written hwf' hparse hentry hlive with ⟨entry', hfind, hnumber⟩
    rw [hkey] at hfind
    rw [← hnumber]
    exact numbersOf_live (of_numbersOf h).1 hfind
  rcases (of_numbersOf h).2 with ⟨-, entry, hlive, hn⟩ | ⟨-, k, hk, hle, hn⟩
  · rcases live_mem hlive with ⟨hentry, hretired, hkey⟩
    rw [hn]
    exact hread entry (List.mem_append_left _ hentry) hretired hkey
  · have hmem : (key, k) ∈ (within closure lock).zipIdx (tableOf lock).next :=
      mem_zipIdx_within.2 ⟨hk, hle⟩
    rw [hn]
    exact hread ⟨key, k, false, .empty⟩
      (List.mem_append_right _ (List.mem_map.2 ⟨(key, k), hmem, rfl⟩)) rfl rfl

theorem numberInstances_congr {closure' : Closure}
    (h : ∀ key, key ∈ instanceKeys closure ↔ key ∈ instanceKeys closure') :
    numberInstances ⟨some closure, errors⟩ lock = numberInstances ⟨some closure', errors⟩ lock := by
  simp only [numberInstances, provisionalKeys, keySet_congr h]

/-- An instance is above the maximum exactly where it has no number. -/
theorem mem_above_iff (hkey : key ∈ instanceKeys closure) :
    key ∈ above (provisionalKeys closure lock) (tableOf lock).next ↔
      (numbersOf closure lock)[key]? = none := by
  have habove : key ∈ above (provisionalKeys closure lock) (tableOf lock).next ↔
      ∃ k, IsProvisional closure lock key k ∧ MAX < k := by
    simp only [above, List.mem_map, List.mem_filter, decide_eq_true_eq, Prod.exists,
      exists_and_right, exists_eq_right]
    rfl
  rw [habove]
  constructor
  · rintro ⟨k, hk, hlt⟩
    have hunique : ∀ k', IsProvisional closure lock key k' → MAX < k' := by
      intro k' hk'
      have hget := List.mk_mem_zipIdx_iff_le_and_getElem?_sub.1 hk
      have hget' := List.mk_mem_zipIdx_iff_le_and_getElem?_sub.1 hk'
      have hi := (List.getElem?_inj (List.getElem?_eq_some_iff.1 hget.2).1
        nodup_provisionalKeys).1 (hget.2.trans hget'.2.symm)
      omega
    have hlive := (mem_provisionalKeys.1 (List.fst_mem_of_mem_zipIdx hk)).2
    rw [numbersOf_of_not_provisional hunique, hlive]
    exact ite_self none
  · intro hnone
    cases hlive : (tableOf lock).live key with
    | some entry =>
        rw [numbersOf_live hkey hlive] at hnone
        cases hnone
    | none =>
        have hmem := mem_provisionalKeys.2 ⟨hkey, hlive⟩
        rcases List.mem_iff_getElem?.1 hmem with ⟨i, hi⟩
        have hk : IsProvisional closure lock key ((tableOf lock).next + i) :=
          List.mk_add_mem_zipIdx_iff_getElem?.2 hi
        refine ⟨_, hk, Nat.lt_of_not_le fun hle => ?_⟩
        rw [numbersOf_provisional hk hle] at hnone
        cases hnone

/-- The numbers of the instances of a closure, against a lock that a file holds or against none.
    They are all different, those of live entries are kept, and the others are counted from `next`
    on, whatever the order of the closure. Plain `ridl lock` allocates the provisional ones, and
    afterwards every instance has the same number, and none is provisional. -/
theorem provisional_numbers_written (closure : Closure) (errors : Bool)
    (lock : Option (LockTable InstanceKey))
    (hlock : ∀ table, lock = some table → ∃ text, parseTable text = .ok table) :
    let numbering := numberInstances ⟨some closure, errors⟩ lock
    (∀ (key key' : InstanceKey) (n : Int) (b b' : Bool), numbering.numbers[key]? = some (n, b) →
      numbering.numbers[key']? = some (n, b') → key = key') ∧
    (∀ key ∈ instanceKeys closure, ∀ entry, (tableOf lock).live key = some entry →
      numbering.numbers[key]? = some ((entry.number : Int), false)) ∧
    (∀ (key : InstanceKey) (n : Int), numbering.numbers[key]? = some (n, true) →
      (tableOf lock).live key = none ∧ ((tableOf lock).next : Int) ≤ n ∧
        ∀ entry ∈ (tableOf lock).entries, (entry.number : Int) ≠ n) ∧
    (∀ key ∈ instanceKeys closure, key ∈ numbering.overflow ↔ numbering.numbers[key]? = none) ∧
    (∀ i key, (provisionalKeys closure lock)[i]? = some key →
      numbering.numbers[key]? = if (tableOf lock).next + i ≤ MAX
        then some ((((tableOf lock).next + i : Nat) : Int), true) else none) ∧
    (∀ closure', (∀ key, key ∈ instanceKeys closure ↔ key ∈ instanceKeys closure') →
      numberInstances ⟨some closure', errors⟩ lock = numbering) ∧
    ∃ table lines, allocateInstances numbering (tableOf lock) = .ok (table, lines) ∧
      (∀ (key : InstanceKey) (n : Int), numbering.numbers[key]? = some (n, true) ↔
        ∃ k : Nat, (key, k) ∈ lines ∧ n = k) ∧
      ((∀ key ∈ instanceKeys closure, IsKey key) →
        ∃ table', parseTable table.render = .ok table' ∧
          ∀ (key : InstanceKey) (n : Int) (b : Bool), numbering.numbers[key]? = some (n, b) →
            (numberInstances ⟨some closure, errors⟩ (some table')).numbers[key]?
              = some (n, false)) := by
  have hwf := wellFormed_tableOf hlock
  simp only [numbers_numberInstances, overflow_numberInstances]
  refine ⟨fun key key' n b b' => numbersOf_injective hwf, fun key hkey entry hlive => ?_,
    fun key n hn => ?_, fun key hkey => mem_above_iff hkey, fun i key hi => ?_,
    fun closure' hsame => (numberInstances_congr hsame).symm, _, _,
    allocateInstances_eq hwf numbers_numberInstances, fun key n => ?_, fun hkeys => ?_⟩
  · rw [numbersOf_live hkey hlive, asI32_eq (live_number_le hwf hlive).2.2]
  · rcases (of_numbersOf hn).2 with ⟨hfalse, -⟩ | ⟨-, k, hk, hle, rfl⟩
    · cases hfalse
    · have hge := List.le_snd_of_mem_zipIdx hk
      dsimp only at hge
      rw [asI32_eq hle]
      refine ⟨(mem_provisionalKeys.1 (List.fst_mem_of_mem_zipIdx hk)).2, by omega,
        fun entry hentry => ?_⟩
      have hlt := (hwf.number entry hentry).2
      omega
  · have hk : IsProvisional closure lock key ((tableOf lock).next + i) :=
      List.mk_add_mem_zipIdx_iff_getElem?.2 hi
    split_ifs with hle
    · rw [numbersOf_provisional hk hle, asI32_eq hle]
    · have hmem := mem_provisionalKeys.1 (List.mem_of_getElem? hi)
      refine (mem_above_iff hmem.1).1 (List.mem_map.2 ⟨_, List.mem_filter.2 ⟨hk, ?_⟩, rfl⟩)
      exact decide_eq_true (Nat.lt_of_not_le hle)
  · constructor
    · intro hn
      rcases (of_numbersOf hn).2 with ⟨hfalse, -⟩ | ⟨-, k, hk, hle, rfl⟩
      · cases hfalse
      · exact ⟨k, mem_zipIdx_within.2 ⟨hk, hle⟩, asI32_eq hle⟩
    · rintro ⟨k, hk, rfl⟩
      rcases mem_zipIdx_within.1 hk with ⟨hk, hle⟩
      rw [numbersOf_provisional hk hle, asI32_eq hle]
  · have hwf' := allocated_wellFormed nodup_within hwf (fun key hkey => (mem_within hkey).2)
      (length_within closure hwf) fun key hkey => hkeys key (mem_within hkey).1
    rcases parseTable_render hwf' with ⟨table', hparse, -⟩
    exact ⟨table', hparse, fun key n b hn => numbersOf_written hwf hkeys hparse hn⟩

/-- A component with two instances. -/
def primaryBackup : Closure where
  components :=
    [{ id := .declared "veh".toList "Cruise".toList
       instances := ["primary".toList, "backup".toList] }]

theorem provisional_numbers_written_primaryBackup :
    (∀ key ∈ instanceKeys primaryBackup,
      key ∈ (numberInstances ⟨some primaryBackup, false⟩ none).overflow ↔
        (numberInstances ⟨some primaryBackup, false⟩ none).numbers[key]? = none) ∧
    ∃ table lines, allocateInstances (numberInstances ⟨some primaryBackup, false⟩ none)
      (tableOf none) = .ok (table, lines) :=
  have h := provisional_numbers_written primaryBackup false none nofun
  ⟨h.2.2.2.1, let ⟨table, lines, hlines, _⟩ := h.2.2.2.2.2.2; ⟨table, lines, hlines⟩⟩

end Lock

end Ridl
