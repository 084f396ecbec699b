import Mathlib.Logic.Relation

/-!
# Depth-First Search

The search whether a node can be reached from another one, over a graph that is
given by the edges of each node. The nodes that were visited are handed from one
edge to the next, and a node that was visited is not searched again.

A search that finds nothing leaves a record of why there is nothing: each node that
it has visited has only edges to visited nodes, and none to the target
(`Exhausted`). So the target is not reached from any of them, and a node that was
visited before and found nothing did not lead there either.

The search ends because each call visits one more node. The calls are bounded by
`fuel`, and one more than there are nodes is enough (`search_answers`).

## Theorems

* `search_spec`: What an answer of the search says.
* `search_iff`: The search from no visited node finds exactly what can be reached.
-/

namespace Ridl

namespace Library

namespace Graph

variable {α : Type} [DecidableEq α]

/-- The search through the edges of a node. The first edge that leads to the target
    ends it. -/
def searchEdges (target : α) (from_ : α → List α → Option (Bool × List α)) :
    List α → List α → Option (Bool × List α)
  | [], visited => some (false, visited)
  | edge :: edges, visited =>
      if edge = target then some (true, visited)
      else
        match from_ edge visited with
        | none => none
        | some (true, visited) => some (true, visited)
        | some (false, visited) => searchEdges target from_ edges visited

/-- Whether the target is found from a node, and what was visited then. -/
def search (edges : α → List α) (target : α) : Nat → α → List α → Option (Bool × List α)
  | 0, _, _ => none
  | fuel + 1, node, visited =>
      if node ∈ visited then some (false, visited)
      else searchEdges target (search edges target fuel) (edges node) (node :: visited)

/-- What is visited in `after` and not in `before` leads only to what is visited, and
    not to the target. -/
def Exhausted (edges : α → List α) (target : α) (before after : List α) : Prop :=
  ∀ node ∈ after, node ∉ before → ∀ next ∈ edges node, next ≠ target ∧ next ∈ after

/-- One node leads to another one by an edge. -/
def Edge (edges : α → List α) (node next : α) : Prop := next ∈ edges node

section Spec

variable {edges : α → List α} {target : α}

theorem Exhausted.trans {a b c : List α} (hab : Exhausted edges target a b)
    (hbc : Exhausted edges target b c) (hsub : b ⊆ c) : Exhausted edges target a c := by
  intro node hnode hnot next hnext
  by_cases hb : node ∈ b
  · rcases hab node hb hnot next hnext with ⟨hne, hmem⟩
    exact ⟨hne, hsub hmem⟩
  · exact hbc node hnode hb next hnext

/-- What an answer says of a search: nothing is forgotten, what is found is reached,
    and what is not found is nowhere that was visited. -/
def Answers (edges : α → List α) (target : α) (node : α) (visited : List α)
    (answer : Bool × List α) : Prop :=
  visited ⊆ answer.2 ∧
    (answer.1 = true → Relation.TransGen (Edge edges) node target) ∧
    (answer.1 = false → node ∈ answer.2 ∧ Exhausted edges target visited answer.2)

theorem searchEdges_spec {from_ : α → List α → Option (Bool × List α)}
    (hfrom : ∀ node visited answer, from_ node visited = some answer →
      Answers edges target node visited answer)
    (todo : List α) (visited : List α) (answer : Bool × List α)
    (h : searchEdges target from_ todo visited = some answer) :
    visited ⊆ answer.2 ∧
      (answer.1 = true → ∃ edge ∈ todo, edge = target ∨
        Relation.TransGen (Edge edges) edge target) ∧
      (answer.1 = false → (∀ edge ∈ todo, edge ≠ target ∧ edge ∈ answer.2) ∧
        Exhausted edges target visited answer.2) := by
  induction todo generalizing visited with
  | nil =>
      cases h
      exact ⟨List.Subset.refl _, nofun,
        fun _ => ⟨nofun, fun node hnode hnot => absurd hnode hnot⟩⟩
  | cons edge todo ih =>
      rw [searchEdges] at h
      by_cases hedge : edge = target
      · rw [if_pos hedge] at h
        cases h
        exact ⟨List.Subset.refl _, fun _ => ⟨edge, List.mem_cons_self, .inl hedge⟩, nofun⟩
      · rw [if_neg hedge] at h
        cases hrun : from_ edge visited with
        | none =>
            rw [hrun] at h
            cases h
        | some first =>
            rw [hrun] at h
            rcases hfrom edge visited first hrun with ⟨hsub, hfound, hnone⟩
            rcases first with ⟨_ | _, visited'⟩
            · rcases ih visited' h with ⟨hsub', hfound', hnone'⟩
              rcases hnone rfl with ⟨hmem, hexhausted⟩
              refine ⟨fun node hnode => hsub' (hsub hnode), fun htrue => ?_, fun hfalse => ?_⟩
              · rcases hfound' htrue with ⟨other, hother, hreach⟩
                exact ⟨other, List.mem_cons_of_mem _ hother, hreach⟩
              · rcases hnone' hfalse with ⟨htodo, hexhausted'⟩
                refine ⟨fun other hother => ?_, hexhausted.trans hexhausted' hsub'⟩
                rcases List.mem_cons.mp hother with rfl | hother
                · exact ⟨hedge, hsub' hmem⟩
                · exact htodo other hother
            · cases h
              exact ⟨hsub, fun _ => ⟨edge, List.mem_cons_self, .inr (hfound rfl)⟩, nofun⟩

theorem search_spec (fuel : Nat) (node : α) (visited : List α) (answer : Bool × List α)
    (h : search edges target fuel node visited = some answer) :
    Answers edges target node visited answer := by
  induction fuel generalizing node visited answer with
  | zero => cases h
  | succ fuel ih =>
      rw [search] at h
      by_cases hnode : node ∈ visited
      · rw [if_pos hnode] at h
        cases h
        exact ⟨List.Subset.refl _, nofun,
          fun _ => ⟨hnode, fun other hother hnot => absurd hother hnot⟩⟩
      · rw [if_neg hnode] at h
        rcases searchEdges_spec ih _ _ _ h with ⟨hsub, hfound, hnone⟩
        refine ⟨fun other hother => hsub (List.mem_cons_of_mem _ hother), fun htrue => ?_,
          fun hfalse => ⟨hsub List.mem_cons_self, ?_⟩⟩
        · rcases hfound htrue with ⟨edge, hedge, rfl | hreach⟩
          · exact .single hedge
          · exact .head hedge hreach
        · rcases hnone hfalse with ⟨hedges, hexhausted⟩
          intro other hother hnot next hnext
          by_cases hsame : other = node
          · exact hedges next (hsame ▸ hnext)
          · exact hexhausted other hother
              (fun hmem => (List.mem_cons.mp hmem).elim hsame hnot) next hnext

end Spec

section Ends

variable {edges : α → List α} {target : α} {nodes : List α}

/-- How many nodes are not visited. -/
def unvisited (nodes visited : List α) : Nat := nodes.countP (· ∉ visited)

theorem unvisited_mono {visited visited' : List α} (h : visited ⊆ visited') :
    unvisited nodes visited' ≤ unvisited nodes visited :=
  List.countP_mono_left fun _ _ hnot => by
    simp only [decide_eq_true_eq] at hnot ⊢
    exact fun hmem => hnot (h hmem)

theorem unvisited_cons_lt {node : α} {visited : List α} (hnode : node ∈ nodes)
    (hnot : node ∉ visited) : unvisited nodes (node :: visited) < unvisited nodes visited := by
  unfold unvisited
  induction nodes with
  | nil => cases hnode
  | cons first rest ih =>
      have hle : rest.countP (· ∉ node :: visited) ≤ rest.countP (· ∉ visited) :=
        unvisited_mono (List.subset_cons_self _ _)
      rw [List.countP_cons, List.countP_cons]
      by_cases hfirst : first = node
      · have hout : decide (first ∉ node :: visited) = false :=
          decide_eq_false fun h => h (hfirst ▸ List.mem_cons_self)
        have hin : decide (first ∉ visited) = true := decide_eq_true (hfirst ▸ hnot)
        rw [hout, hin, if_neg Bool.false_ne_true, if_pos rfl]
        omega
      · have hrest := ih ((List.mem_cons.mp hnode).resolve_left fun h => hfirst h.symm)
        have hsame : decide (first ∉ node :: visited) = decide (first ∉ visited) := by
          simp [hfirst]
        rw [hsame]
        omega

theorem searchEdges_answers {from_ : α → List α → Option (Bool × List α)} {bound : Nat}
    (hsub : ∀ node visited answer, from_ node visited = some answer → visited ⊆ answer.2)
    (hfrom : ∀ node ∈ nodes, ∀ visited, unvisited nodes visited < bound →
      ∃ answer, from_ node visited = some answer)
    (todo : List α) (htodo : todo ⊆ nodes) (visited : List α)
    (hvisited : unvisited nodes visited < bound) :
    ∃ answer, searchEdges target from_ todo visited = some answer := by
  induction todo generalizing visited with
  | nil => exact ⟨_, rfl⟩
  | cons edge todo ih =>
      rw [searchEdges]
      split
      · exact ⟨_, rfl⟩
      · rcases hfrom edge (htodo List.mem_cons_self) visited hvisited with ⟨⟨found, visited'⟩, hrun⟩
        rw [hrun]
        cases found with
        | true => exact ⟨_, rfl⟩
        | false =>
            exact ih (fun other hother => htodo (List.mem_cons_of_mem _ hother)) visited'
              (Nat.lt_of_le_of_lt (unvisited_mono (hsub _ _ _ hrun)) hvisited)

theorem search_answers (target : α) (hedges : ∀ node ∈ nodes, edges node ⊆ nodes) (fuel : Nat)
    {node : α} (hnode : node ∈ nodes) (visited : List α) (hfuel : unvisited nodes visited < fuel) :
    ∃ answer, search edges target fuel node visited = some answer := by
  induction fuel generalizing node visited with
  | zero => exact absurd hfuel (Nat.not_lt_zero _)
  | succ fuel ih =>
      rw [search]
      split
      · exact ⟨_, rfl⟩
      · rename_i hnot
        have hlt := unvisited_cons_lt hnode hnot
        exact searchEdges_answers (fun node visited answer h => (search_spec fuel _ _ _ h).1)
          (fun node hnode visited hvisited => ih hnode visited hvisited) (edges node)
          (hedges node hnode) _ (by omega)

omit [DecidableEq α] in
theorem Exhausted.closed {visited : List α} (h : Exhausted edges target [] visited) {node next : α}
    (hnode : node ∈ visited) (hreach : Relation.TransGen (Edge edges) node next) :
    next ≠ target ∧ next ∈ visited := by
  induction hreach with
  | single hedge => exact h _ hnode List.not_mem_nil _ hedge
  | tail _ hedge ih => exact h _ ih.2 List.not_mem_nil _ hedge

theorem search_iff (hedges : ∀ node ∈ nodes, edges node ⊆ nodes) {fuel : Nat}
    (hfuel : nodes.length < fuel) {node : α} (hnode : node ∈ nodes) :
    ∃ found visited, search edges target fuel node [] = some (found, visited) ∧
      (found = true ↔ Relation.TransGen (Edge edges) node target) := by
  have hbound : unvisited nodes [] < fuel := Nat.lt_of_le_of_lt List.countP_le_length hfuel
  rcases search_answers target hedges fuel hnode [] hbound with
    ⟨⟨found, visited⟩, hrun⟩
  rcases search_spec fuel node [] _ hrun with ⟨-, hfound, hnone⟩
  refine ⟨found, visited, hrun, hfound, fun hreach => ?_⟩
  cases found with
  | true => rfl
  | false =>
      rcases hnone rfl with ⟨hmem, hexhausted⟩
      exact absurd rfl (hexhausted.closed hmem hreach).1

end Ends

end Graph

end Library

end Ridl
