import Mathlib.Data.List.Basic

/-!
# Chunks of a List

A list in chunks of `n` elements, the last one possibly shorter. The chunks are
collected by a loop with two accumulators; what it computes is said by the two
cases of a recursion over the list, `n` elements at a time.

## Theorems

* `toChunks_append`: A full chunk comes before the chunks of the rest.
-/

namespace Ridl

namespace Library

variable {α : Type}

theorem toChunks_go_eq (n : Nat) (xs : List α) (chunk : Array α) (done : Array (List α)) :
    List.toChunks.go n xs chunk done = done.toList ++ List.toChunks.go n xs chunk #[] := by
  induction xs generalizing chunk done with
  | nil => simp [List.toChunks.go]
  | cons x xs ih =>
      unfold List.toChunks.go
      split_ifs
      · rw [ih _ (done.push chunk.toList), ih _ (#[].push chunk.toList)]
        simp
      · exact ih _ done

theorem toChunks_go_of_le (n : Nat) (xs : List α) (chunk : Array α)
    (h : chunk.size + xs.length ≤ n) :
    List.toChunks.go n xs chunk #[] = [chunk.toList ++ xs] := by
  induction xs generalizing chunk with
  | nil => simp [List.toChunks.go]
  | cons x xs ih =>
      rw [List.length_cons] at h
      have hnot : ¬ (chunk.size == n) = true := by
        rw [beq_iff_eq]
        omega
      unfold List.toChunks.go
      rw [if_neg hnot, ih _ (by rw [Array.size_push]; omega)]
      simp

theorem toChunks_go_append (n : Nat) (xs : List α) (y : α) (ys : List α) (chunk : Array α)
    (h : chunk.size + xs.length = n) :
    List.toChunks.go n (xs ++ y :: ys) chunk #[] =
      (chunk.toList ++ xs) :: List.toChunks.go n ys #[y] #[] := by
  induction xs generalizing chunk with
  | nil =>
      have hfull : (chunk.size == n) = true := beq_iff_eq.mpr h
      rw [List.nil_append, List.toChunks.go, if_pos hfull, toChunks_go_eq]
      simp
  | cons x xs ih =>
      rw [List.length_cons] at h
      have hnot : ¬ (chunk.size == n) = true := by
        rw [beq_iff_eq]
        omega
      rw [List.cons_append, List.toChunks.go, if_neg hnot,
        ih _ (by rw [Array.size_push]; omega)]
      simp

theorem toChunks_of_le {n : Nat} {xs : List α} (hne : xs ≠ []) (h : xs.length ≤ n) :
    xs.toChunks n = [xs] := by
  cases xs with
  | nil => exact absurd rfl hne
  | cons x xs =>
      cases n with
      | zero => cases h
      | succ n => exact toChunks_go_of_le (n + 1) xs #[x] (by simpa [Nat.add_comm] using h)

theorem toChunks_append {n : Nat} {xs ys : List α} (hpos : 0 < n) (h : xs.length = n)
    (hne : ys ≠ []) : (xs ++ ys).toChunks n = xs :: ys.toChunks n := by
  cases xs with
  | nil => exact absurd h (Nat.ne_of_lt hpos)
  | cons x xs =>
      cases ys with
      | nil => exact absurd rfl hne
      | cons y ys =>
          cases n with
          | zero => cases hpos
          | succ n =>
              exact toChunks_go_append (n + 1) xs y ys #[x] (by simpa [Nat.add_comm] using h)

theorem chunks_induction {n : Nat} (hpos : 0 < n) {motive : List α → Prop}
    (last : ∀ xs, xs ≠ [] → xs.length ≤ n → motive xs)
    (full : ∀ xs ys, xs.length = n → ys ≠ [] → motive ys → motive (xs ++ ys))
    (xs : List α) (hne : xs ≠ []) : motive xs := by
  induction hlen : xs.length using Nat.strongRecOn generalizing xs with
  | ind len ih =>
      by_cases hfits : xs.length ≤ n
      · exact last xs hne hfits
      · have hrest : xs.drop n ≠ [] := by
          intro h
          exact hfits (List.drop_eq_nil_iff.mp h)
        have hshort : (xs.drop n).length < len := by
          rw [List.length_drop]
          omega
        have htake : (xs.take n).length = n := by
          rw [List.length_take]
          omega
        have h := full (xs.take n) (xs.drop n) htake hrest (ih _ hshort _ hrest rfl)
        rwa [List.take_append_drop] at h

theorem toChunks_ne_nil {n : Nat} (hpos : 0 < n) {xs : List α} (hne : xs ≠ []) :
    xs.toChunks n ≠ [] := by
  refine chunks_induction hpos (motive := fun xs => xs.toChunks n ≠ [])
    (fun xs hxs hlen => ?_) (fun xs ys hlen hys _ => ?_) xs hne
  · rw [toChunks_of_le hxs hlen]
    exact List.cons_ne_nil _ _
  · rw [toChunks_append hpos hlen hys]
    exact List.cons_ne_nil _ _

end Library

end Ridl
