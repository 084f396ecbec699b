import Mathlib.Data.List.Basic

/-!
# The First Occurrence of a List

A list is cut around the first place where another one stands in it. Where all the
elements of some kind stand together, in one block, a list of that kind can only
stand within the block, and the block is determined by the whole
(`block_unique`).

## Theorems

* `splitInfix_eq_some`: Around the occurrence is the rest of the list.
* `splitInfix_block`: An occurrence within a block.
* `block_unique`: Around one block there is one way to cut.
-/

namespace Ridl

namespace Library

variable {α : Type} [DecidableEq α]

/-- What is before and after the first occurrence of a list. -/
def splitInfix (needle : List α) : List α → Option (List α × List α)
  | [] => if needle = [] then some ([], []) else none
  | a :: list =>
      if needle.isPrefixOf (a :: list) then some ([], (a :: list).drop needle.length)
      else (splitInfix needle list).map (fun split => (a :: split.1, split.2))

theorem splitInfix_eq_some {needle list before behind : List α}
    (h : splitInfix needle list = some (before, behind)) :
    list = before ++ needle ++ behind := by
  induction list generalizing before behind with
  | nil =>
      rw [splitInfix] at h
      split at h
      · rename_i hnil
        cases h
        rw [hnil]
        rfl
      · cases h
  | cons a list ih =>
      rw [splitInfix] at h
      split at h
      · rename_i hprefix
        cases h
        replace hprefix := List.isPrefixOf_iff_prefix.mp hprefix
        rcases hprefix with ⟨rest, hrest⟩
        rw [← hrest, List.drop_left, List.nil_append]
      · rcases Option.map_eq_some_iff.mp h with ⟨⟨before, behind⟩, hsplit, heq⟩
        cases heq
        rw [ih hsplit]
        rfl

section Block

variable {p : α → Bool} {needle : List α}

/-- Nothing of the kind is before the block. -/
theorem splitInfix_append_left (hne : needle ≠ []) (hneedle : ∀ a ∈ needle, p a = true)
    {front : List α} (hfront : ∀ a ∈ front, p a = false) (list : List α) :
    splitInfix needle (front ++ list) =
      (splitInfix needle list).map (fun split => (front ++ split.1, split.2)) := by
  induction front with
  | nil => simp only [List.nil_append, Option.map_id']
  | cons a front ih =>
      rcases List.exists_cons_of_ne_nil hne with ⟨b, needle, rfl⟩
      have hab : ¬ (b == a) = true := by
        rw [beq_iff_eq]
        rintro rfl
        exact Bool.false_ne_true ((hfront b List.mem_cons_self).symm.trans
          (hneedle b List.mem_cons_self))
      have hnot : ¬ List.isPrefixOf (b :: needle) (a :: (front ++ list)) = true := by
        rw [List.isPrefixOf, Bool.and_eq_true]
        exact fun h => hab h.1
      rw [List.cons_append, splitInfix, if_neg hnot,
        ih fun c hc => hfront c (List.mem_cons_of_mem a hc), Option.map_map]
      rfl

omit [DecidableEq α] in
theorem prefix_append_iff (hneedle : ∀ a ∈ needle, p a = true) (block : List α) {back : List α}
    (hback : ∀ a ∈ back, p a = false) : needle <+: block ++ back ↔ needle <+: block := by
  refine ⟨fun h => ?_, fun h => h.trans (List.prefix_append block back)⟩
  rcases List.prefix_or_prefix_of_prefix h (List.prefix_append block back) with hshort | hlong
  · exact hshort
  · rcases hlong with ⟨rest, rfl⟩
    rw [List.prefix_append_right_inj] at h
    -- What the occurrence has of the rest is of both kinds.
    cases rest with
    | nil => exact (List.append_nil block).symm ▸ List.prefix_refl block
    | cons a rest =>
        have hmem : a ∈ back := h.subset List.mem_cons_self
        have hkind := hneedle a (List.mem_append_right block List.mem_cons_self)
        exact absurd ((hback a hmem).symm.trans hkind) Bool.false_ne_true

theorem splitInfix_append_right (hne : needle ≠ []) (hneedle : ∀ a ∈ needle, p a = true)
    (block : List α) {back : List α} (hback : ∀ a ∈ back, p a = false) :
    splitInfix needle (block ++ back) =
      (splitInfix needle block).map (fun split => (split.1, split.2 ++ back)) := by
  induction block with
  | nil =>
      have hnone : splitInfix needle (back ++ []) = none := by
        rw [splitInfix_append_left hne hneedle hback, splitInfix, if_neg hne, Option.map_none]
      rw [List.append_nil] at hnone
      rw [List.nil_append, hnone, splitInfix, if_neg hne, Option.map_none]
  | cons a block ih =>
      have hsame : List.isPrefixOf needle (a :: (block ++ back)) =
          List.isPrefixOf needle (a :: block) := by
        have hiff := prefix_append_iff hneedle (a :: block) hback
        exact Bool.eq_iff_iff.mpr (List.isPrefixOf_iff_prefix.trans
          (hiff.trans List.isPrefixOf_iff_prefix.symm))
      rw [List.cons_append, splitInfix, splitInfix, hsame, ih]
      split
      · rename_i hprefix
        replace hprefix := List.isPrefixOf_iff_prefix.mp hprefix
        rw [Option.map_some, ← List.cons_append, List.drop_append_of_le_length hprefix.length_le]
      · rw [Option.map_map, Option.map_map]
        rfl

theorem splitInfix_block (hne : needle ≠ []) (hneedle : ∀ a ∈ needle, p a = true)
    {front back : List α} (hfront : ∀ a ∈ front, p a = false) (block : List α)
    (hback : ∀ a ∈ back, p a = false) :
    splitInfix needle (front ++ (block ++ back)) =
      (splitInfix needle block).map (fun split => (front ++ split.1, split.2 ++ back)) := by
  rw [splitInfix_append_left hne hneedle hfront, splitInfix_append_right hne hneedle block hback,
    Option.map_map]
  rfl

omit [DecidableEq α] in
/-- A block between others that starts where one of the kind does. -/
theorem block_unique_back {block block' back back' : List α} {a : α}
    (hblock : ∀ b ∈ block, p b = true) (hback : ∀ b ∈ back, p b = false)
    (hblock' : ∀ b ∈ block', p b = true) (ha : p a = false)
    (h : block ++ back = block' ++ a :: back') : block = block' ∧ back = a :: back' := by
  rcases List.append_eq_append_iff.mp h with ⟨rest, rfl, hrest⟩ | ⟨rest, rfl, hrest⟩
  · cases rest with
    | nil => exact ⟨(List.append_nil block).symm, hrest⟩
    | cons b rest =>
        have hmem : b ∈ back := hrest ▸ List.mem_cons_self
        have hkind := hblock' b (List.mem_append_right block List.mem_cons_self)
        exact absurd ((hback b hmem).symm.trans hkind) Bool.false_ne_true
  · cases rest with
    | nil => exact ⟨List.append_nil block', hrest.symm⟩
    | cons b rest =>
        have heq : a = b := (List.cons.inj hrest).1
        have hkind := hblock b (List.mem_append_right block' List.mem_cons_self)
        exact absurd ((heq ▸ ha).symm.trans hkind) Bool.false_ne_true

omit [DecidableEq α] in
theorem block_unique {front block back front' block' back' : List α} {a b : α}
    (hfront : ∀ c ∈ front, p c = false) (hblock : ∀ c ∈ block, p c = true)
    (hback : ∀ c ∈ back, p c = false) (hne : block' ≠ [])
    (hblock' : ∀ c ∈ block', p c = true) (ha : p a = false) (hb : p b = false)
    (h : front ++ (block ++ back) = front' ++ [a] ++ (block' ++ b :: back')) :
    front = front' ++ [a] ∧ block = block' ∧ back = b :: back' := by
  rcases List.exists_cons_of_ne_nil hne with ⟨c, rest', rfl⟩
  have hc : p c = true := hblock' c List.mem_cons_self
  have hnot : c ∉ back := fun hmem =>
    Bool.false_ne_true ((hback c hmem).symm.trans hc)
  rcases List.append_eq_append_iff.mp h with ⟨rest, hleft, hrest⟩ | ⟨rest, rfl, hrest⟩
  · rcases List.eq_nil_or_concat rest with rfl | ⟨init, d, hd⟩
    · rw [List.append_nil] at hleft
      rw [List.nil_append] at hrest
      exact ⟨hleft.symm, block_unique_back hblock hback hblock' hb hrest⟩
    · -- Then the delimiter would be in the block, or the other block behind it.
      rw [List.concat_eq_append] at hd
      subst hd
      have hlast : d = a := by
        rw [← List.append_assoc] at hleft
        exact (List.cons.inj (List.append_inj' hleft rfl).2).1.symm
      rcases List.append_eq_append_iff.mp hrest with ⟨tail, hmid, htail⟩ | ⟨tail, rfl, htail⟩
      · exact absurd (htail ▸ List.mem_append_right tail
          (List.mem_append_left _ List.mem_cons_self)) hnot
      · have hkind := hblock d (List.mem_append_left tail (List.mem_append_right init
          List.mem_cons_self))
        exact absurd ((hlast ▸ ha).symm.trans hkind) Bool.false_ne_true
  · cases rest with
    | nil =>
        rw [List.append_nil]
        exact ⟨rfl, block_unique_back hblock hback hblock' hb hrest.symm⟩
    | cons d rest =>
        have heq : c = d := (List.cons.inj hrest).1
        have hkind := hfront d (List.mem_append_right _ List.mem_cons_self)
        exact absurd (hkind.symm.trans (heq ▸ hc)) Bool.false_ne_true

end Block

end Library

end Ridl
