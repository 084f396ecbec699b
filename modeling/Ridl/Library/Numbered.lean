import Mathlib.Data.List.Chain

/-!
# Numbered Lists

A list of numbered things that grows at its end. The next number goes to a new
thing, or the last number goes to the last thing once more; nothing else is
ever appended. The first number is 1, so a number in the list says which thing
it is about.

This is how a sender numbers what it sends when it may send a thing again: a
receiver that compares numbers alone tells a new thing from a repeat.
-/

namespace Ridl

namespace Library

/-- A list numbered from 1, with its last number and the thing it is on. -/
inductive Numbered {α : Type} : List (Nat × α) → Nat → Option α → Prop
  | nil : Numbered [] 0 none
  | again (l n a) : Numbered l n (some a) → Numbered (l ++ [(n, a)]) n (some a)
  | next (l n o a) : Numbered l n o → Numbered (l ++ [(n + 1, a)]) (n + 1) (some a)

namespace Numbered

variable {α : Type} {l : List (Nat × α)} {n : Nat} {o : Option α}

theorem le (h : Numbered l n o) : ∀ p ∈ l, p.1 ≤ n := by
  induction h with
  | nil => exact List.forall_mem_nil _
  | again l n a _ ih =>
      intro p hp
      rcases List.mem_append.mp hp with hl | hlast
      · exact ih p hl
      · exact Nat.le_of_eq (congrArg Prod.fst (List.mem_singleton.mp hlast))
  | next l n o a _ ih =>
      intro p hp
      rcases List.mem_append.mp hp with hl | hlast
      · exact Nat.le_succ_of_le (ih p hl)
      · exact Nat.le_of_eq (congrArg Prod.fst (List.mem_singleton.mp hlast))

theorem last (h : Numbered l n o) : l.getLast? = o.map (fun a => (n, a)) := by
  cases h with
  | nil => rfl
  | again => rw [List.getLast?_append, List.getLast?_singleton]; rfl
  | next => rw [List.getLast?_append, List.getLast?_singleton]; rfl

theorem eq_nil_iff (h : Numbered l n o) : n = 0 ↔ l = [] := by
  induction h with
  | nil => exact iff_of_true rfl rfl
  | again l n a hl ih =>
      refine ⟨fun hn => ?_, fun hnil => absurd hnil (List.append_ne_nil_of_right_ne_nil _ (by simp))⟩
      have hlast := hl.last
      rw [ih.mp hn] at hlast
      exact absurd hlast (by simp)
  | next l n o a _ ih =>
      exact ⟨fun hn => absurd hn (Nat.succ_ne_zero n),
        fun hnil => absurd hnil (List.append_ne_nil_of_right_ne_nil _ (by simp))⟩

theorem starts (h : Numbered l n o) : ∀ p, l.head? = some p → p.1 = 1 := by
  induction h with
  | nil => intro p hp; exact absurd hp (by simp)
  | again l n a hl ih =>
      intro p hp
      refine ih p ?_
      -- a number that is on a thing already stands in the list before it
      have hne : l ≠ [] := fun hnil => by
        have hlast := hl.last
        rw [hnil] at hlast
        exact absurd hlast (by simp)
      rwa [List.head?_append_of_ne_nil _ hne] at hp
  | next l n o a hl ih =>
      intro p hp
      by_cases hne : l = []
      · rw [hne, List.nil_append, List.head?_cons, Option.some.injEq] at hp
        rw [← hp, hl.eq_nil_iff.mpr hne]
      · rw [List.head?_append_of_ne_nil _ hne] at hp
        exact ih p hp

theorem climbs (h : Numbered l n o) :
    l.IsChain (fun p q => q.1 = p.1 ∨ q.1 = p.1 + 1) := by
  induction h with
  | nil => exact List.isChain_nil
  | again l n a hl ih =>
      refine List.isChain_append.mpr ⟨ih, List.isChain_singleton _, fun p hp q hq => Or.inl ?_⟩
      rw [hl.last] at hp
      rw [List.head?_cons] at hq
      rw [← Option.some.inj hp, ← Option.some.inj hq]
  | next l n o a hl ih =>
      refine List.isChain_append.mpr ⟨ih, List.isChain_singleton _, fun p hp q hq => Or.inr ?_⟩
      rw [hl.last] at hp
      rw [List.head?_cons] at hq
      rcases Option.map_eq_some_iff.mp hp with ⟨b, _, hb⟩
      rw [← hb, ← Option.some.inj hq]

theorem unique (h : Numbered l n o) : ∀ p ∈ l, ∀ q ∈ l, p.1 = q.1 → p = q := by
  induction h with
  | nil => exact List.forall_mem_nil _
  | again l n a hl ih =>
      -- the entry appended is in the list already
      have hmem : (n, a) ∈ l := List.mem_of_getLast? hl.last
      intro p hp q hq
      refine ih p ?_ q ?_
      · rcases List.mem_append.mp hp with h | h
        · exact h
        · rw [List.mem_singleton.mp h]; exact hmem
      · rcases List.mem_append.mp hq with h | h
        · exact h
        · rw [List.mem_singleton.mp h]; exact hmem
  | next l n o a hl ih =>
      intro p hp q hq heq
      rcases List.mem_append.mp hp with hp | hp <;> rcases List.mem_append.mp hq with hq | hq
      · exact ih p hp q hq heq
      · have hle := hl.le p hp
        rw [List.mem_singleton.mp hq] at heq
        omega
      · have hle := hl.le q hq
        rw [List.mem_singleton.mp hp] at heq
        omega
      · rw [List.mem_singleton.mp hp, List.mem_singleton.mp hq]

end Numbered

end Library

end Ridl
