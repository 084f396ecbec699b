import Mathlib.Algebra.Order.Ring.Int
import Mathlib.Data.List.Induction
import Std.Data.ExtTreeMap.Lemmas

/-!
# Ordered Maps

What an ordered map holds after each operation, read by looking keys up. The
lookups are stated with equality of keys rather than with the comparison, so
that a proof about a map is a case split on whether two keys are the same.

`sweep` is the loop that visits every entry in key order, changes it, and
collects what each visit hands back. It stands for the `for .. in
map.values_mut()` loops of the programs verified here: what an entry becomes
depends on that entry alone, so the swept map is known entry by entry
(`getElem?_sweep`), and so is what was collected (`mem_sweep`).

## Main definitions

* `OrdMap.collect`: The map of a list of entries.
* `OrdMap.total`: The sum of a measure of the entries.

## Theorems

* `OrdMap.getElem?_insert`, `OrdMap.getElem?_erase`: Lookups after a change.
* `OrdMap.mem_of_getElem?_collect`: What is looked up was in the list.
* `OrdMap.total_insert`, `OrdMap.total_erase`: The sum after a change.
* `mem_sweep`: Each thing collected came out of an entry.
-/

namespace Ridl

namespace Library

/-- A map from ordered keys. -/
abbrev OrdMap (κ ν : Type) [Ord κ] := Std.ExtTreeMap κ ν compare

variable {κ ν ω : Type} [Ord κ] [Std.TransOrd κ] [Std.LawfulEqOrd κ]

namespace OrdMap

theorem getElem?_insert [DecidableEq κ] (m : OrdMap κ ν) (k a : κ) (v : ν) :
    (m.insert k v)[a]? = if k = a then some v else m[a]? := by
  simp only [Std.ExtTreeMap.getElem?_insert, Std.compare_eq_iff_eq]

theorem getElem?_erase [DecidableEq κ] (m : OrdMap κ ν) (k a : κ) :
    (m.erase k)[a]? = if k = a then none else m[a]? := by
  simp only [Std.ExtTreeMap.getElem?_erase, Std.compare_eq_iff_eq]

@[simp] theorem getElem?_insert_self (m : OrdMap κ ν) (k : κ) (v : ν) :
    (m.insert k v)[k]? = some v := by
  simp only [Std.ExtTreeMap.getElem?_insert, Std.compare_self, if_true]

theorem getElem?_insert_of_ne (m : OrdMap κ ν) (k a : κ) (v : ν) (h : k ≠ a) :
    (m.insert k v)[a]? = m[a]? := by
  classical rw [getElem?_insert, if_neg h]

@[simp] theorem getElem?_erase_self (m : OrdMap κ ν) (k : κ) : (m.erase k)[k]? = none := by
  simp only [Std.ExtTreeMap.getElem?_erase, Std.compare_self, if_true]

theorem getElem?_erase_of_ne (m : OrdMap κ ν) (k a : κ) (h : k ≠ a) :
    (m.erase k)[a]? = m[a]? := by
  classical rw [getElem?_erase, if_neg h]

theorem insert_insert (m : OrdMap κ ν) (k : κ) (v w : ν) :
    (m.insert k v).insert k w = m.insert k w := by
  classical
  refine Std.ExtTreeMap.ext_getElem? fun a => ?_
  simp only [getElem?_insert]
  split <;> rfl

theorem erase_insert (m : OrdMap κ ν) (k : κ) (v : ν) : (m.insert k v).erase k = m.erase k := by
  classical
  refine Std.ExtTreeMap.ext_getElem? fun a => ?_
  simp only [getElem?_insert, getElem?_erase]
  split <;> rfl

theorem insert_same (m : OrdMap κ ν) (k : κ) (v : ν) (h : m[k]? = some v) : m.insert k v = m := by
  classical
  refine Std.ExtTreeMap.ext_getElem? fun a => ?_
  rw [getElem?_insert]
  split
  · next hka => rw [← hka, h]
  · rfl

theorem forall_insert (m : OrdMap κ ν) (k : κ) (v : ν) (P : κ → ν → Prop) (hv : P k v)
    (hm : ∀ a w, m[a]? = some w → P a w) (a : κ) (w : ν) (h : (m.insert k v)[a]? = some w) :
    P a w := by
  classical
  rw [getElem?_insert] at h
  by_cases hka : k = a
  · rw [if_pos hka, Option.some.injEq] at h
    exact hka ▸ h ▸ hv
  · rw [if_neg hka] at h
    exact hm a w h

theorem insert_ne_none (m : OrdMap κ ν) (k a : κ) (v : ν) (h : m[a]? ≠ none) :
    (m.insert k v)[a]? ≠ none := by
  classical
  rw [getElem?_insert]
  split
  · exact Option.some_ne_none v
  · exact h

theorem getElem?_of_erase (m : OrdMap κ ν) (k a : κ) (v : ν) (h : (m.erase k)[a]? = some v) :
    m[a]? = some v := by
  classical
  rw [getElem?_erase] at h
  by_cases hka : k = a
  · rw [if_pos hka] at h
    cases h
  · rw [if_neg hka] at h
    exact h

omit [Std.LawfulEqOrd κ] in
theorem contains_eq_false (m : OrdMap κ ν) (k : κ) (h : m[k]? = none) : m.contains k = false := by
  rw [← Bool.not_eq_true, Std.ExtTreeMap.contains_iff_mem, Std.ExtTreeMap.mem_iff_isSome_getElem?,
    h]
  exact Bool.false_ne_true

/-- The map of a list of entries; of two entries with one key the last stays. -/
def collect (l : List (κ × ν)) : OrdMap κ ν := l.foldl (fun m e => m.insert e.1 e.2) ∅

omit [Std.LawfulEqOrd κ] in
theorem collect_append (l : List (κ × ν)) (e : κ × ν) :
    collect (l ++ [e]) = (collect l).insert e.1 e.2 := by
  rw [collect, collect, List.foldl_append]
  rfl

theorem mem_of_getElem?_collect (l : List (κ × ν)) (k : κ) (v : ν)
    (h : (collect l)[k]? = some v) : (k, v) ∈ l := by
  classical
  induction l using List.reverseRecOn with
  | nil => cases (Std.ExtTreeMap.getElem?_empty (a := k)).symm.trans h
  | append_singleton l e ih =>
      rw [collect_append, getElem?_insert] at h
      by_cases hkey : e.1 = k
      · rw [if_pos hkey, Option.some.injEq] at h
        rw [← hkey, ← h]
        exact List.mem_append_right l (List.mem_singleton_self e)
      · rw [if_neg hkey] at h
        exact List.mem_append_left [e] (ih h)

theorem getElem?_collect_of_mem (l : List (κ × ν)) (e : κ × ν) (h : e ∈ l) :
    ∃ v, (collect l)[e.1]? = some v := by
  classical
  induction l using List.reverseRecOn with
  | nil => cases h
  | append_singleton l last ih =>
      rw [collect_append, getElem?_insert]
      by_cases hkey : last.1 = e.1
      · exact ⟨last.2, if_pos hkey⟩
      · rw [if_neg hkey]
        rcases List.mem_append.mp h with hin | hlast
        · exact ih hin
        · rw [List.mem_singleton.mp hlast] at hkey
          exact absurd rfl hkey

theorem getElem?_collect_of_unique (l : List (κ × ν)) (k : κ) (v : ν) (h : (k, v) ∈ l)
    (hunique : ∀ w, (k, w) ∈ l → w = v) : (collect l)[k]? = some v := by
  rcases getElem?_collect_of_mem l (k, v) h with ⟨w, hw⟩
  rw [hw, hunique w (mem_of_getElem?_collect l k w hw)]

/-- The sum of a measure of the entries. -/
def total (size : ν → Nat) (m : OrdMap κ ν) : Nat := (m.toList.map fun e => size e.2).sum

omit [Std.LawfulEqOrd κ] in
theorem nodup_toList (m : OrdMap κ ν) : m.toList.Nodup :=
  Std.ExtTreeMap.distinct_keys_toList.imp fun h heq => h (by rw [heq]; exact Std.compare_self)

theorem total_insert (size : ν → Nat) (m : OrdMap κ ν) (k : κ) (v : ν) (h : m[k]? = none) :
    total size (m.insert k v) = size v + total size m := by
  classical
  have hperm : (m.insert k v).toList.Perm ((k, v) :: m.toList) := by
    have hnodup : ((k, v) :: m.toList).Nodup := by
      refine List.nodup_cons.mpr ⟨fun hmem => ?_, nodup_toList m⟩
      rw [Std.ExtTreeMap.mem_toList_iff_getElem?_eq_some, h] at hmem
      cases hmem
    refine (List.perm_ext_iff_of_nodup (nodup_toList _) hnodup).mpr fun e => ?_
    rw [Std.ExtTreeMap.mem_toList_iff_getElem?_eq_some, getElem?_insert, List.mem_cons,
      Std.ExtTreeMap.mem_toList_iff_getElem?_eq_some]
    by_cases hkey : k = e.1
    · rw [if_pos hkey, ← hkey, h]
      constructor
      · intro heq
        exact .inl (Prod.ext hkey.symm (Option.some.inj heq).symm)
      · rintro (rfl | hnone)
        · rfl
        · cases hnone
    · rw [if_neg hkey]
      constructor
      · exact .inr
      · rintro (rfl | hsome)
        · exact absurd rfl hkey
        · exact hsome
  exact (hperm.map fun e => size e.2).sum_nat

theorem total_erase (size : ν → Nat) (m : OrdMap κ ν) (k : κ) (v : ν) (h : m[k]? = some v) :
    total size m = size v + total size (m.erase k) := by
  classical
  have hback : (m.erase k).insert k v = m := by
    refine Std.ExtTreeMap.ext_getElem? fun a => ?_
    rw [getElem?_insert, getElem?_erase]
    by_cases hka : k = a
    · rw [if_pos hka, ← hka, h]
    · rw [if_neg hka, if_neg hka]
  conv => lhs; rw [← hback]
  exact total_insert size _ k v (getElem?_erase_self m k)

theorem total_replace (size : ν → Nat) (m : OrdMap κ ν) (k : κ) (v w : ν) (h : m[k]? = some w) :
    total size (m.insert k v) + size w = size v + total size m := by
  have hinsert : (m.erase k).insert k v = m.insert k v := by
    classical
    refine Std.ExtTreeMap.ext_getElem? fun a => ?_
    rw [getElem?_insert, getElem?_insert, getElem?_erase]
    by_cases hka : k = a
    · rw [if_pos hka, if_pos hka]
    · rw [if_neg hka, if_neg hka, if_neg hka]
  rw [← hinsert, total_insert size _ k v (getElem?_erase_self m k), total_erase size m k w h]
  omega

end OrdMap

/-- Change every entry in key order, and collect what each one hands back. -/
def sweep (f : κ → ν → ν × List ω) (m : OrdMap κ ν) : OrdMap κ ν × List ω :=
  (m.map (fun k v => (f k v).1), m.toList.flatMap (fun p => (f p.1 p.2).2))

theorem getElem?_sweep (f : κ → ν → ν × List ω) (m : OrdMap κ ν) (k : κ) :
    (sweep f m).1[k]? = m[k]?.map (fun v => (f k v).1) := by
  simp only [sweep, Std.ExtTreeMap.getElem?_map]

theorem mem_sweep (f : κ → ν → ν × List ω) (m : OrdMap κ ν) (w : ω) :
    w ∈ (sweep f m).2 ↔ ∃ k v, m[k]? = some v ∧ w ∈ (f k v).2 := by
  simp only [sweep, List.mem_flatMap, Prod.exists, Std.ExtTreeMap.mem_toList_iff_getElem?_eq_some]

end Library

end Ridl
