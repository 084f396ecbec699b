import Ridl.Syntax.Steps

/-!
# The Steps of the Expression Grammar

Each function of the expression grammar returns, wherever the cursor stands. An
expression recurses into a group one level deeper, so with more fuel than there
are levels left it does not run out. The loops of the grammar consume an
operator in each iteration.

## Theorems

* `chain_parses`: A level that associates to the left returns if its operands do.
* `orExpr_parses`: An expression returns.
-/

namespace Ridl

namespace Syntax

open Library.Descent

variable {σ : Type} [GreenNodeBuilder σ] {α : Type} {room : Nat → Prop} {floor fuel : Nat}
  {look : List Token → Prop} {eats : α → List Token → Prop}

/-- A depth within the bound at which the fuel is enough. -/
def within (fuel depth : Nat) : Prop := depth ≤ MAX_TYPE_DEPTH ∧ MAX_TYPE_DEPTH < depth + fuel

/-- A depth at which a node of some height fits. -/
def fits (fuel height depth : Nat) : Prop := within fuel depth ∧ depth + height ≤ MAX_TYPE_DEPTH

theorem within_succ {height depth : Nat} (hheight : 2 ≤ height) (h : fits fuel height depth) :
    within fuel (depth + 1) := by
  have := h.1.2
  have := h.2
  exact ⟨by omega, by omega⟩

theorem within_group {depth : Nat} (h : fits (fuel + 1) 2 depth) : within fuel (depth + 1) := by
  have := h.1.2
  have := h.2
  exact ⟨by omega, by omega⟩

section Refuse

theorem refused_parses (refused : Bool) :
    Parses room floor look Plain
      (modify fun parser => { parser with exprRefused := refused } : ParseM σ Unit) := by
  intro parser hinv _ _
  have h := hinv.1
  refine ⟨(), _, rfl, ⟨⟨h.placed, h.offsets, h.short, h.sorted, h.passed, h.single⟩, hinv.2⟩, ?_,
    False.elim⟩
  exact ⟨rfl, rfl, rfl, rfl, rfl, [], [], rfl, rfl, (List.append_nil _).symm,
    List.Forall₂.nil⟩

theorem refuseExpr_parses : Parses room floor look Plain (refuseExpr : ParseM σ Unit) :=
  Runs.inspect _ (fun _ => rfl) fun _ =>
    Runs.ite (fun _ => (refused_parses true).bind fun _ => errorAtCurrent_parses _ _) fun _ =>
      Runs.pure fun _ _ => id

/-- Where the node fits, what follows may use that it does. -/
theorem exprFits_bind {height : Nat} {f : Bool → ParseM σ α}
    (htrue : Parses (fits fuel height) floor look eats (f true))
    (hfalse : Parses (within fuel) floor Any eats (f false)) :
    Parses (within fuel) floor look eats (exprFits height >>= f) := by
  intro parser hinv hroom hlook
  by_cases hdepth : parser.depth + height ≤ MAX_TYPE_DEPTH
  · rcases htrue parser hinv ⟨hroom, hdepth⟩ hlook with ⟨a, next, hrun, h⟩
    refine ⟨a, next, ?_, h⟩
    have hfits : exprFits height parser = some (true, parser) := by
      change (if parser.depth + height ≤ MAX_TYPE_DEPTH then _ else _ : ParseM σ Bool) parser = _
      rw [if_pos hdepth]
      rfl
    change (exprFits height parser).bind _ = _
    rw [hfits]
    exact hrun
  · have hrefuse := refuseExpr_parses.bind (fun _ => hfalse) parser hinv hroom hlook
    rcases hrefuse with ⟨a, next, hrun, h⟩
    refine ⟨a, next, ?_, h⟩
    have hfits : exprFits height parser = (refuseExpr >>= fun _ => pure false) parser := by
      change (if parser.depth + height ≤ MAX_TYPE_DEPTH then _ else _ : ParseM σ Bool) parser = _
      rw [if_neg hdepth]
    change (exprFits height parser).bind _ = _
    rw [hfits, ← hrun]
    change ((refuseExpr parser).bind _).bind _ = (refuseExpr parser).bind _
    cases refuseExpr parser <;> rfl

theorem skipExprTokens_parses : Parses room floor look Plain (skipExprTokens : ParseM σ Unit) := by
  refine (loop_parses fun state => ?_).bind fun _ => Runs.pure fun _ _ => id
  refine current_bind fun list _ => ?_
  rcases list with _ | ⟨token, list⟩
  · exact Runs.done
  · refine Runs.ite (fun _ => Runs.done) fun _ => Runs.ite (fun _ => Runs.done) fun _ =>
      Runs.ite (fun _ => Runs.done) fun _ => Runs.ite (fun _ => Runs.done) fun _ => ?_
    exact bump_parses.yield fun _ _ h => by rw [h]; exact List.cons_ne_nil _ _

theorem skipExprRest_parses : Parses room floor look Plain (skipExprRest : ParseM σ Unit) :=
  node_parses _ fun _ => skipExprTokens_parses

end Refuse

section Levels

variable {operand orExpr : ParseM σ Nat}

theorem kindAt_any {list : List Token} {p : SyntaxKind → Bool} (h : (kindAt list 0).any p) :
    list ≠ [] := by
  rintro rfl
  simp [kindAt] at h

theorem wrap_parses (kind : SyntaxKind) {height : Nat} (hheight : 2 ≤ height)
    (hoperand : ∀ floor look, Parses (within fuel) floor look Plain operand) :
    Parses (fits fuel height) floor look IfAny
      (nodeAt floor kind (bump >>= fun _ => deeper operand)) :=
  nodeAt_parses _ <| bump_parses.first
    (fun _ => deeper_parses (fun _ h => within_succ hheight h) (hoperand _ _))
    fun _ _ _ _ => id

theorem chain_parses (isOp : SyntaxKind → Bool)
    (hoperand : ∀ floor look, Parses (within fuel) floor look Plain operand) :
    Parses (within fuel) floor look Plain (chain isOp operand) := by
  refine eatTrivia_parses.bind fun _ => checkpoint_bind fun checkpoint => ?_
  refine (hoperand _ _).bind fun height => loop_parses fun height => ?_
  refine current_bind fun list _ => Runs.ite (fun hop => ?_) fun _ => Runs.done
  refine exprFits_bind ?_ (skipExprRest_parses.finish)
  refine (wrap_parses _ (by omega) hoperand).yield fun _ _ h => ?_
  rw [h]
  exact kindAt_any hop

theorem flagLeadingZeros_parses (hlook : ∀ list, look list → list ≠ []) :
    Parses room floor look Plain (flagLeadingZeros : ParseM σ Unit) :=
  currentToken_bind hlook fun _ =>
    Runs.ite (fun _ => errorAtCurrent_parses _ _) fun _ => Runs.pure fun _ _ => id

theorem primary_parses (horExpr : ∀ floor look, Parses (within fuel) floor look Plain orExpr) :
    Parses (within (fuel + 1)) floor look Plain (primary orExpr) := by
  refine current_bind fun list _ => ?_
  rcases list with _ | ⟨token, list⟩
  · exact (errorAtCurrent_parses _ _).bind fun _ => Runs.pure fun _ _ => id
  refine Runs.ite (fun _ => ?_) fun _ => Runs.ite (fun _ => ?_) fun _ => Runs.ite (fun _ => ?_)
    fun _ => ?_
  · refine Runs.bind (node_parses _ fun _ => ?_) fun _ => Runs.pure fun _ _ => id
    refine atKind_bind _ fun _ h => Runs.option (fun _ => flagLeadingZeros_parses ?_) fun _ =>
      bump_parses.plain
    rintro _ rfl
    rw [h]
    exact List.cons_ne_nil _ _
  · exact Runs.bind (node_parses _ fun _ => bump_parses.plain) fun _ => Runs.pure fun _ _ => id
  · refine exprFits_bind ?_ ?_
    · refine Runs.bind (node_parses _ fun _ => bump_parses.seq fun _ => ?_) fun _ =>
        Runs.pure fun _ _ => id
      exact (deeper_parses (fun _ => within_group) (horExpr _ _)).bind fun _ =>
        (expect_parses _).bind fun _ => Runs.pure fun _ _ => id
    · refine Runs.bind (node_parses _ fun _ => bump_parses.seq fun _ => ?_) fun _ =>
        Runs.pure fun _ _ => id
      exact skipExprTokens_parses.bind fun _ => Runs.inspect _ (fun _ => rfl) fun _ =>
        Runs.ite (fun _ => bump_parses.plain) fun _ => Runs.pure fun _ _ => id
  · exact (errorAtCurrent_parses _ _).bind fun _ => Runs.pure fun _ _ => id

theorem postfixExpr_parses (horExpr : ∀ floor look, Parses (within fuel) floor look Plain orExpr) :
    Parses (within (fuel + 1)) floor look Plain (postfixExpr orExpr) := by
  refine eatTrivia_parses.bind fun _ => checkpoint_bind fun checkpoint => ?_
  refine (primary_parses horExpr).bind fun height => loop_parses fun height => ?_
  refine atKind_bind _ fun list _ => Runs.ite (fun hdot => ?_) fun _ => Runs.done
  refine exprFits_bind ?_ (skipExprRest_parses.finish)
  have hmember : ∀ room floor look, Parses room floor look IfAny
      (do
        bump
        if ← atKind .ident then bump
        else errorAtCurrent "FORM-101" "expected a member name" : ParseM σ Unit) := by
    intro room floor look
    refine bump_parses.first (fun _ => Runs.inspect _ (fun _ => rfl) fun _ => ?_) fun _ _ _ _ => id
    exact Runs.ite (fun _ => bump_parses.plain) fun _ => errorAtCurrent_parses _ _
  refine Runs.yield (nodeAt_parses _ (hmember _ _ _)) fun _ _ h => ?_
  rw [h]
  rintro rfl
  simp [kindAt] at hdot

theorem unaryExpr_parses (horExpr : ∀ floor look, Parses (within fuel) floor look Plain orExpr) :
    Parses (within (fuel + 1)) floor look Plain (unaryExpr orExpr) := by
  refine Runs.inspect _ (fun _ => rfl) fun _ => Runs.ite (fun _ => ?_) fun _ =>
    postfixExpr_parses horExpr
  refine exprFits_bind ?_ (skipExprRest_parses.bind fun _ => Runs.pure fun _ _ => id)
  refine Runs.bind (node_parses _ fun _ => bump_parses.seq fun _ => ?_) fun _ =>
    Runs.pure fun _ _ => id
  exact deeper_parses (fun _ h => within_succ (Nat.le_refl _) h) (postfixExpr_parses horExpr)

theorem addExpr_parses (horExpr : ∀ floor look, Parses (within fuel) floor look Plain orExpr) :
    Parses (within (fuel + 1)) floor look Plain (addExpr orExpr) :=
  chain_parses _ fun _ _ => chain_parses _ fun _ _ => unaryExpr_parses horExpr

theorem cmpExpr_parses (horExpr : ∀ floor look, Parses (within fuel) floor look Plain orExpr) :
    Parses (within (fuel + 1)) floor look Plain (cmpExpr orExpr) := by
  refine eatTrivia_parses.bind fun _ => checkpoint_bind fun checkpoint => ?_
  refine (addExpr_parses horExpr).bind fun height => Runs.inspect _ (fun _ => rfl) fun _ =>
    Runs.ite (fun _ => ?_) fun _ => Runs.pure fun _ _ => id
  refine exprFits_bind ?_ (skipExprRest_parses.bind fun _ => Runs.pure fun _ _ => id)
  exact (wrap_parses _ (by omega) fun _ _ => addExpr_parses horExpr).seq fun _ =>
    Runs.pure fun _ _ => id

theorem orExpr_parses (fuel floor : Nat) (look : List Token → Prop) :
    Parses (within fuel) floor look Plain (Syntax.orExpr fuel : ParseM σ Nat) := by
  induction fuel generalizing floor look with
  | zero =>
      intro parser _ hroom _
      have hroom' : within 0 parser.depth := hroom
      have := hroom'.1
      have := hroom'.2
      omega
  | succ fuel ih => exact chain_parses _ fun _ _ => chain_parses _ fun _ _ => cmpExpr_parses ih

/-- The depths at which productions that bound the nesting themselves can be called. -/
abbrev roomy : Nat → Prop := within (MAX_TYPE_DEPTH + 1)

theorem expr_parses : Parses roomy floor look Plain (expr : ParseM σ Unit) :=
  (refused_parses false).bind fun _ =>
    (orExpr_parses _ _ _).bind fun _ => Runs.pure fun _ _ => id

end Levels

end Syntax

end Ridl
