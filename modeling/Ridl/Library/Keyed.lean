import Mathlib.Data.List.Nodup
import Ridl.Library.Map

/-!
# Lists Searched by Key

A list whose entries have a key, of which no two are the same. A search by key
then finds the entry that has it, wherever in the list it stands, and the map of
the list holds every entry.

Lists that are put together from parts have no entry twice when each entry tells
which part it is from (`nodup_flatMap_of_owner`).

## Theorems

* `find?_key`: The search by an entry's own key finds that entry.
* `getElem?_collect_iff`: What the map of the list holds.
* `nodup_flatMap_of_owner`: Parts that their entries tell apart.
* `perm_flatMap_of_keys`: Lists of the same keys, in any order.
-/

namespace Ridl

namespace Library

variable {α κ : Type} {key : α → κ} {l : List α}

theorem eq_of_key_eq (hkeys : (l.map key).Nodup) {a b : α} (ha : a ∈ l) (hb : b ∈ l)
    (h : key a = key b) : a = b :=
  List.inj_on_of_nodup_map hkeys ha hb h

theorem find?_key_iff [DecidableEq κ] (hkeys : (l.map key).Nodup) {k : κ} {a : α} :
    l.find? (fun b => key b == k) = some a ↔ a ∈ l ∧ key a = k := by
  constructor
  · intro h
    have hkey := List.find?_some h
    exact ⟨List.mem_of_find?_eq_some h, eq_of_beq hkey⟩
  · rintro ⟨ha, rfl⟩
    rcases hfound : l.find? (fun b => key b == key a) with _ | b
    · exact absurd (beq_self_eq_true _) (List.find?_eq_none.mp hfound a ha)
    · have hkey := List.find?_some hfound
      rw [eq_of_key_eq hkeys (List.mem_of_find?_eq_some hfound) ha (eq_of_beq hkey)]

theorem find?_key [DecidableEq κ] (hkeys : (l.map key).Nodup) {a : α} (ha : a ∈ l) :
    l.find? (fun b => key b == key a) = some a :=
  (find?_key_iff hkeys).mpr ⟨ha, rfl⟩

theorem getElem?_collect_iff {ν : Type} [Ord κ] [Std.TransOrd κ] [Std.LawfulEqOrd κ]
    {entries : List (κ × ν)} (hkeys : (entries.map Prod.fst).Nodup) {k : κ} {v : ν} :
    (OrdMap.collect entries)[k]? = some v ↔ (k, v) ∈ entries := by
  refine ⟨OrdMap.mem_of_getElem?_collect entries k v, fun h => ?_⟩
  refine OrdMap.getElem?_collect_of_unique entries k v h (fun w hw => ?_)
  exact (Prod.mk.inj (eq_of_key_eq hkeys hw h rfl)).2

theorem nodup_flatMap_of_owner {β : Type} {f : α → List β} (owns : κ → β → Prop)
    (hkeys : (l.map key).Nodup) (hparts : ∀ a ∈ l, (f a).Nodup)
    (howns : ∀ a ∈ l, ∀ b ∈ f a, owns (key a) b)
    (hone : ∀ j k b, owns j b → owns k b → j = k) : (l.flatMap f).Nodup := by
  refine List.nodup_flatMap.mpr ⟨hparts, ?_⟩
  refine (List.pairwise_map.mp hkeys).imp_of_mem (fun {a c} ha hc hne b hba hbc => ?_)
  exact hne (hone _ _ b (howns a ha b hba) (howns c hc b hbc))

theorem perm_flatMap_of_keys {β γ : Type} {m : List β} {f : α → List γ} {g : β → List γ}
    {otherKey : β → κ} (hkeys : (l.map key).Perm (m.map otherKey))
    (hparts : ∀ a ∈ l, ∀ b ∈ m, key a = otherKey b → (f a).Perm (g b)) :
    (l.flatMap f).Perm (m.flatMap g) := by
  induction m generalizing l with
  | nil =>
      rw [List.map_eq_nil_iff.mp (List.perm_nil.mp hkeys)]
      exact List.Perm.refl _
  | cons b m ih =>
      rcases List.mem_map.mp (hkeys.mem_iff.mpr List.mem_cons_self) with ⟨a, ha, hkey⟩
      rcases List.append_of_mem ha with ⟨front, back, rfl⟩
      have hmiddle : (front ++ a :: back).Perm (a :: (front ++ back)) := List.perm_middle
      have hrest : ((front ++ back).map key).Perm (m.map otherKey) := by
        have := (hmiddle.map key).symm.trans hkeys
        rw [List.map_cons, List.map_cons, hkey] at this
        exact this.cons_inv
      have hparts' := ih hrest (fun c hc d hd =>
        hparts c (hmiddle.mem_iff.mpr (List.mem_cons_of_mem _ hc)) d (List.mem_cons_of_mem _ hd))
      refine (hmiddle.flatMap_right f).trans ?_
      rw [List.flatMap_cons, List.flatMap_cons]
      exact (hparts a ha b List.mem_cons_self hkey).append hparts'

end Library

end Ridl
