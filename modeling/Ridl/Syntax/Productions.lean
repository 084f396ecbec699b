import Mathlib.Data.List.TakeWhile
import Ridl.Syntax.ExpressionSteps

/-!
# The Steps of the Productions

Each production of the grammar returns from every valid state. Most of them
consume a token whatever is ahead, because they bump the word that announces
them. The others consume a token if what is ahead starts them, which is what
the loops of the bodies and lists have looked at.

## Theorems

* `fieldType_parses`: A type returns, however deep it is nested.
* `attrBlock_parses`: The attributes of an interaction return.
* `topLevel_parses`: A construct of the top level consumes a token.
-/

namespace Ridl

namespace Syntax

open Library.Descent

variable {σ : Type} [GreenNodeBuilder σ] {α : Type} {room : Nat → Prop} {floor fuel : Nat}
  {look : List Token → Prop} {eats : α → List Token → Prop}

section Names

/-- A name, or a reserved word in its place, is ahead. -/
def Named : α → List Token → Prop := fun _ list =>
  kindAt list 0 = some .ident ∨ kindAt list 0 = some .reservedWord

/-- A segment of a path is ahead. -/
def Pathed : α → List Token → Prop := fun _ list => (kindAt list 0).any isPathSegment

theorem kindAt_ne_nil {list : List Token} {kind : SyntaxKind} (h : kindAt list 0 = some kind) :
    list ≠ [] := by
  rintro rfl
  simp [kindAt] at h

theorem Named.ne_nil {a : α} {list : List Token} (h : Named a list) : list ≠ [] := by
  rcases h with h | h
  · exact kindAt_ne_nil h
  · exact kindAt_ne_nil h

theorem announced {m : ParseM σ α} (hm : Parses room floor look IfAny m)
    (h : ∀ a list, eats a list → list ≠ []) : Parses room floor look eats m :=
  hm.mono (fun _ => id) (fun _ => id) fun a list _ => h a list

theorem whenAt_parses (kind : SyntaxKind) {m : ParseM σ Unit}
    (hm : Parses room floor Any Plain m) :
    Parses room floor look Plain (do if ← atKind kind then m) :=
  Runs.inspect _ (fun _ => rfl) fun _ =>
    Runs.ite (fun _ => hm.looking fun _ _ => trivial) fun _ => Runs.pure fun _ _ => id

theorem optionAt_parses (kind : SyntaxKind) {m : ParseM σ Unit} {f : Unit → ParseM σ α}
    (hm : Parses room floor Any Plain m) (hf : ∀ u, Parses room floor Any eats (f u)) :
    Parses room floor look eats
      (atKind kind >>= fun b => if b = true then m >>= f else f ()) :=
  Runs.inspect _ (fun _ => rfl) fun _ =>
    Runs.option (fun _ => hm.looking fun _ _ => trivial) hf

theorem name_parses : Parses room floor look Named (name : ParseM σ Unit) := by
  refine atKind_bind _ fun list _ => Runs.ite (fun h => ?_) fun hident => ?_
  · exact announced (node_parses _ fun _ => bump_parses) fun _ _ => Named.ne_nil
  refine atKind_bind _ fun list' hlist => Runs.ite (fun h => ?_) fun hreserved => ?_
  · have hne := kindAt_ne_nil (of_decide_eq_true h)
    refine currentToken_bind (by rintro _ rfl; exact hne) fun _ => ?_
    refine (errorAtCurrent_parses _ _).bind fun _ => ?_
    exact announced (node_parses _ fun _ => bump_parses) fun _ _ => Named.ne_nil
  · refine (errorAtCurrent_parses _ _).mono (fun _ => id) (fun _ => id) ?_
    rintro _ _ rfl (h | h)
    · exact hident (by rw [← hlist]; exact decide_eq_true h)
    · exact hreserved (decide_eq_true h)

theorem atPathSegment_bind {f : Bool → ParseM σ α}
    (hf : ∀ list, look list →
      Parses room floor (· = list) eats (f ((kindAt list 0).any isPathSegment))) :
    Parses room floor look eats (atPathSegment >>= f) := by
  refine Runs.read (fun list => (kindAt list 0).any isPathSegment) (fun parser _ => ?_) hf
  have h : atPathSegment parser
      = some (((parser.tokens[parser.significantPos]?).map (·.kind)).any isPathSegment, parser) :=
    rfl
  rw [h, Parser.getElem?_significantPos, List.head?_eq_getElem?]
  rfl

theorem pathed_parses {m : ParseM σ Unit} (code message : String)
    (hm : Parses room floor Any Pathed m) :
    Parses room floor look Pathed
      (do if ← atPathSegment then m else errorAtCurrent code message) := by
  refine atPathSegment_bind fun list _ => Runs.ite (fun _ => hm.looking fun _ _ => trivial)
    fun h => ?_
  refine (errorAtCurrent_parses _ _).mono (fun _ => id) (fun _ => id) ?_
  rintro _ _ rfl hpath
  exact h hpath

/-- The rest of a dotted name: each iteration consumes a dot. -/
theorem dotted_parses {segment : ParseM σ Bool} (code message : String)
    (hsegment : ∀ look eats (f : Bool → ParseM σ (ForInStep Unit)),
      (∀ b, Parses room floor look eats (f b)) → Parses room floor look eats (segment >>= f)) :
    Parses room floor look Plain
      (loop () fun _ => do
        if ← atKind .dot then
          bump
          if ← segment then
            bump
            return .yield ()
          else
            errorAtCurrent code message
            return .done ()
        else return .done ()) := by
  refine loop_parses fun _ => atKind_bind _ fun list _ => Runs.ite (fun h => ?_) fun _ => Runs.done
  refine bump_parses.first (fun _ => hsegment _ _ _ fun _ => Runs.ite (fun _ => ?_) fun _ => ?_)
    fun _ _ _ h' _ => ?_
  · exact bump_parses.seq fun _ => Runs.pure fun _ _ => id
  · exact (errorAtCurrent_parses _ _).seq fun _ => Runs.pure fun _ _ => id
  · rw [h']
    exact kindAt_ne_nil (of_decide_eq_true h)

theorem qualifiedName_parses : Parses room floor look Pathed (qualifiedName : ParseM σ Unit) := by
  refine pathed_parses _ _ (announced (node_parses _ fun _ => ?_) fun _ _ => kindAt_any)
  refine bump_parses.first (fun _ => ?_) fun _ _ _ _ => id
  exact dotted_parses _ _ fun _ _ _ hf => Runs.inspect _ (fun _ => rfl) hf

theorem pathType_parses : Parses room floor look Pathed (pathType : ParseM σ Unit) :=
  pathed_parses _ _ (node_parses _ fun _ => qualifiedName_parses)

theorem reference_parses : Parses room floor look Pathed (reference : ParseM σ Unit) :=
  pathed_parses _ _ (node_parses _ fun _ => qualifiedName_parses)

theorem dottedName_parses : Parses room floor look Plain (dottedName : ParseM σ Unit) := by
  refine node_parses _ fun _ => Runs.inspect _ (fun _ => rfl) fun _ => Runs.ite (fun _ => ?_)
    fun _ => errorAtCurrent_parses _ _
  refine bump_parses.seq fun _ => dotted_parses _ _ fun _ _ _ hf => Runs.inspect _ (fun _ => rfl) hf

end Names

section Literals

/-- How many tokens the literal has that starts at the `n`-th one. -/
def literalLen (list : List Token) (n : Nat) : Nat :=
  match kindAt list n with
  | some .minus => if (kindAt list (n + 1)).any isValueToken then 2 else 0
  | some kind => if isValueToken kind then 1 else 0
  | none => 0

/-- A literal is ahead. -/
def Valued : α → List Token → Prop := fun _ list => 0 < literalLen list 0

omit [GreenNodeBuilder σ] in
theorem literalLenAt_eq (n : Nat) (parser : Parser σ) :
    literalLenAt n parser = some (literalLen parser.ahead n, parser) := by
  have h : literalLenAt n parser
      = (match kindAt parser.ahead n with
        | some .minus => (do return if (← nth (n + 1)).any isValueToken then 2 else 0 : ParseM σ Nat)
        | some kind => return if isValueToken kind then 1 else 0
        | none => return 0) parser := rfl
  rw [h, literalLen]
  generalize kindAt parser.ahead n = ahead
  rcases ahead with _ | kind
  · rfl
  · cases kind <;> rfl

theorem literalLenAt_bind (n : Nat) {f : Nat → ParseM σ α}
    (hf : ∀ list, look list → Parses room floor (· = list) eats (f (literalLen list n))) :
    Parses room floor look eats (literalLenAt n >>= f) :=
  Runs.read (literalLen · n) (fun parser _ => literalLenAt_eq n parser) hf

theorem literalLen_ne_nil {list : List Token} (h : 0 < literalLen list 0) : list ≠ [] := by
  rintro rfl
  simp [literalLen, kindAt] at h

theorem literal_parses : Parses room floor look Valued (literal : ParseM σ Unit) := by
  refine Runs.inspect _ (fun _ => rfl) fun _ => atKind_bind _ fun list _ =>
    Runs.ite (fun _ => ?_) fun _ => ?_
  · exact (errorAtCurrent_parses _ _).bind fun _ =>
      announced (node_parses _ fun _ => bump_parses) fun _ _ => literalLen_ne_nil
  refine literalLenAt_bind _ fun list' hlist => Runs.ite (fun h => ?_) fun h => ?_
  · refine (errorAtCurrent_parses _ _).mono (fun _ => id) (fun _ => id) ?_
    intro _ other hother hvalued
    rw [hother] at hvalued
    exact absurd h (Nat.ne_of_gt hvalued)
  · refine announced (node_parses _ fun _ => ?_) fun _ _ => literalLen_ne_nil
    refine optionAt_parses _ bump_parses.plain fun _ => atKind_bind _ fun list hlist => ?_
    refine Runs.option (fun h => flagLeadingZeros_parses ?_) fun _ => bump_parses
    rintro _ rfl
    exact kindAt_ne_nil (of_decide_eq_true h)

theorem stepOpt_parses : Parses room floor look Plain (stepOpt : ParseM σ Unit) :=
  whenAt_parses _ (bump_parses.seq fun _ => literal_parses.plain)

theorem matchOpt_parses : Parses room floor look Plain (matchOpt : ParseM σ Unit) :=
  whenAt_parses _ (bump_parses.seq fun _ => literal_parses.plain)

theorem initValueOpt_parses : Parses room floor look Plain (initValueOpt : ParseM σ Unit) :=
  whenAt_parses _ (node_parses _ fun _ => bump_parses.seq fun _ => literal_parses.plain)

theorem bound_parses : Parses room floor look Plain (bound : ParseM σ Unit) := by
  refine literalLenAt_bind _ fun _ _ => Runs.ite (fun _ => errorAtCurrent_parses _ _) fun _ => ?_
  exact node_parses _ fun _ => literal_parses.seq fun _ =>
    whenAt_parses _ (bump_parses.seq fun _ => literal_parses.plain)

theorem literalIsFloatAt_parses (n : Nat) :
    Parses room floor look Plain (literalIsFloatAt n : ParseM σ Bool) := by
  refine Runs.inspect _ (fun _ => rfl) fun _ => ?_
  split
  · exact Runs.pure fun _ _ => id
  · exact Runs.inspect _ (fun _ => rfl) fun _ => Runs.pure fun _ _ => id
  · exact Runs.pure fun _ _ => id

theorem constraintLedByLiteral_parses (stringish : Bool) :
    Parses room floor look Plain (constraintLedByLiteral stringish : ParseM σ Unit) := by
  refine literalLenAt_bind _ fun _ _ => Runs.inspect _ (fun _ => rfl) fun next => ?_
  split
  · refine literalLenAt_bind _ fun _ _ => Runs.inspect _ (fun _ => rfl) fun _ => ?_
    refine (literalIsFloatAt_parses _).bind fun _ => (literalIsFloatAt_parses _).bind fun _ => ?_
    refine Runs.ite (fun _ => bound_parses.bind fun _ => matchOpt_parses) fun _ => ?_
    refine literal_parses.seq fun _ => bump_parses.seq fun _ => literalLenAt_bind _ fun _ _ => ?_
    exact Runs.option (fun _ => literal_parses.plain) fun _ => stepOpt_parses
  · exact bound_parses.bind fun _ => matchOpt_parses

theorem constraintBody_parses (stringish : Bool) :
    Parses room floor look Plain (constraintBody stringish : ParseM σ Unit) := by
  refine Runs.inspect _ (fun _ => rfl) fun next => ?_
  split
  · exact bump_parses.seq fun _ => literal_parses.plain
  · exact bump_parses.seq fun _ => literal_parses.seq fun _ => stepOpt_parses
  · exact literalLenAt_bind _ fun _ _ => Runs.ite (fun _ => constraintLedByLiteral_parses _)
      fun _ => errorAtCurrent_parses _ _

theorem constraint_parses (stringish : Bool) :
    Parses room floor look Plain (constraint stringish : ParseM σ Unit) :=
  node_parses _ fun _ => bump_parses.seq fun _ =>
    (constraintBody_parses _).bind fun _ => expect_parses _

theorem literalValueKindAt_parses (n : Nat) :
    Parses room floor look Plain (literalValueKindAt n : ParseM σ (Option SyntaxKind)) := by
  refine Runs.inspect _ (fun _ => rfl) fun _ => ?_
  split
  · exact Runs.inspect _ (fun _ => rfl) fun _ => Runs.pure fun _ _ => id
  · exact Runs.pure fun _ _ => id
  · exact Runs.pure fun _ _ => id

theorem reservedEntry_parses : Parses room floor look IfAny (reservedEntry : ParseM σ Unit) := by
  refine node_parses _ fun _ => bump_parses.first (fun _ => ?_) fun _ _ _ _ => id
  refine Runs.inspect _ (fun _ => rfl) fun _ => Runs.ite (fun _ => name_parses.plain) fun _ => ?_
  refine (literalValueKindAt_parses _).bind fun kind => ?_
  rcases kind with _ | kind
  · exact errorAtCurrent_parses _ _
  refine Runs.ite (fun _ => literal_parses.plain) fun _ => node_parses _ fun _ => ?_
  exact optionAt_parses _ bump_parses.plain fun _ =>
    (errorAtCurrent_parses _ _).bind fun _ => bump_parses.plain

end Literals

section Types

theorem streamType_parses : Parses room floor look IfAny (streamType : ParseM σ Unit) := by
  refine node_parses _ fun _ => bump_parses.first (fun _ => ?_) fun _ _ _ _ => id
  refine Runs.inspect _ (fun _ => rfl) fun _ => Runs.inspect _ (fun _ => rfl) fun _ => ?_
  refine Runs.ite (fun _ => bump_parses.seq fun _ => expect_parses _) fun _ => ?_
  refine Runs.inspect _ (fun _ => rfl) fun _ => Runs.ite (fun _ => ?_) fun _ => ?_
  · exact pathType_parses.seq fun _ => expect_parses _
  · exact (errorAtCurrent_parses _ _).bind fun _ => expect_parses _

variable {token : Token} {tokens : List Token}

theorem item {m : ParseM σ Unit} {β : Type} {b : β}
    {eats : Unit → List Token → Prop} (hm : Parses room floor Any eats m)
    (h : ∀ u, eats u (token :: tokens)) :
    Parses room floor (· = token :: tokens) IfYield
      (m >>= fun _ => pure (ForInStep.yield b)) :=
  (hm.looking fun _ _ => trivial).yield fun u _ hlist => by rw [hlist]; exact h u

theorem cons_ne_nil (u : Unit) :
    IfAny u (token :: tokens) := List.cons_ne_nil _ _

theorem named (h : token.kind = .ident) (u : Unit) :
    Named u (token :: tokens) := Or.inl (by simp [kindAt, h])

variable {fieldType : ParseM σ Unit}

theorem tupleField_parses (hfieldType : ∀ floor, Parses room floor Any Plain fieldType) :
    Parses room floor look Named (tupleField fieldType) :=
  node_parses _ fun _ => name_parses.first
    (fun _ => (expect_parses _).bind fun _ => hfieldType _) fun _ _ _ _ => id

theorem tupleType_parses (hfieldType : ∀ floor, Parses room floor Any Plain fieldType) :
    Parses room floor look IfAny (tupleType fieldType) := by
  refine node_parses _ fun _ => bump_parses.first (fun _ => ?_) fun _ _ _ _ => id
  refine loop_parses fun _ => eatTrivia_parses.bind fun _ => current_bind fun list _ => ?_
  rcases list with _ | ⟨token, tokens⟩
  · exact (errorAtCurrent_parses _ _).finish
  refine Runs.ite (fun _ => bump_parses.finish) fun _ => ?_
  refine Runs.ite (fun _ => item bump_parses cons_ne_nil) fun _ => ?_
  refine Runs.ite (fun h => item (tupleField_parses hfieldType) (named h)) fun _ => ?_
  refine Runs.ite (fun _ => (errorAtCurrent_parses _ _).finish) fun _ => ?_
  exact item (errAndRecover_parses _ _) cons_ne_nil

theorem arrayOrMap_parses (hfieldType : ∀ floor, Parses room floor Any Plain fieldType) :
    Parses room floor look Plain (arrayOrMap fieldType floor) := by
  have hbounded : ∀ floor, Parses room floor Any Plain
      (do expect .semicolon; bound; expect .rBracket : ParseM σ Unit) := fun _ =>
    (expect_parses _).bind fun _ => bound_parses.bind fun _ => expect_parses _
  refine bump_parses.seq fun _ => (hfieldType _).bind fun _ => ?_
  refine Runs.inspect _ (fun _ => rfl) fun _ => Runs.ite (fun _ => ?_) fun _ => ?_
  · exact nodeAt_parses _ (bump_parses.seq fun _ => (hfieldType _).bind fun _ => hbounded _)
  · exact nodeAt_parses _ (hbounded _)

theorem optionalWraps_parses :
    Parses room floor look Plain (optionalWraps floor : ParseM σ Unit) := by
  refine (loop_parses fun wraps => ?_).bind fun _ => Runs.pure fun _ _ => id
  refine atKind_bind _ fun list _ => Runs.ite (fun h => ?_) fun _ => Runs.done
  refine Runs.ite (fun _ => ?_) fun _ => ?_
  · refine Runs.yield (nodeAt_parses _ bump_parses) fun _ _ hlist => ?_
    rw [hlist]
    exact kindAt_ne_nil (of_decide_eq_true h)
  · exact (errorAtCurrent_parses _ _).bind fun _ =>
      Runs.finish (node_parses _ fun _ => bumpWhile_parses _)

theorem fieldTypeInner_parses (hfieldType : ∀ floor, Parses room floor Any Plain fieldType) :
    Parses room floor look Plain (fieldTypeInner fieldType) := by
  refine eatTrivia_parses.bind fun _ => checkpoint_bind fun checkpoint => ?_
  refine current_bind fun list _ => ?_
  rcases list with _ | ⟨token, tokens⟩
  · exact errorAtCurrent_parses _ _
  refine Runs.ite (fun _ => ?_) fun _ => ?_
  · refine Runs.bind (node_parses _ fun _ => bump_parses.seq fun _ => ?_) fun _ =>
      optionalWraps_parses
    exact whenAt_parses _ (constraint_parses _)
  refine Runs.ite (fun _ => pathType_parses.seq fun _ => optionalWraps_parses) fun _ => ?_
  refine Runs.ite (fun _ => ?_) fun _ => ?_
  · exact (tupleType_parses hfieldType).seq fun _ => optionalWraps_parses
  refine Runs.ite (fun _ => ?_) fun _ => ?_
  · exact (arrayOrMap_parses hfieldType).bind fun _ => optionalWraps_parses
  refine Runs.ite (fun _ => ?_) fun _ => errorAtCurrent_parses _ _
  refine Runs.inspect _ (fun _ => rfl) fun _ => Runs.option (fun _ => errorAtCurrent_parses _ _)
    fun _ => ?_
  exact streamType_parses.seq fun _ => optionalWraps_parses

theorem nested_parses {m n : ParseM σ α}
    (hm : Parses (fits (fuel + 1) 1) floor look eats m)
    (hn : Parses (within (fuel + 1)) floor look eats n) :
    Parses (within (fuel + 1)) floor look eats
      (do if (← get).depth < MAX_TYPE_DEPTH then m else n) := by
  intro parser hinv hroom hlook
  by_cases hdepth : parser.depth < MAX_TYPE_DEPTH
  · rcases hm parser hinv ⟨hroom, hdepth⟩ hlook with ⟨a, next, hrun, h⟩
    refine ⟨a, next, ?_, h⟩
    change (if parser.depth < MAX_TYPE_DEPTH then m else n) parser = _
    rw [if_pos hdepth, hrun]
  · rcases hn parser hinv hroom hlook with ⟨a, next, hrun, h⟩
    refine ⟨a, next, ?_, h⟩
    change (if parser.depth < MAX_TYPE_DEPTH then m else n) parser = _
    rw [if_neg hdepth, hrun]

theorem within_nested {depth : Nat} (h : fits (fuel + 1) 1 depth) : within fuel (depth + 1) := by
  have := h.1.2
  have := h.2
  exact ⟨by omega, by omega⟩

theorem not_within_zero {m : ParseM σ α} : Parses (within 0) floor look eats m := by
  intro parser _ hroom _
  have hroom' : within 0 parser.depth := hroom
  have := hroom'.1
  have := hroom'.2
  omega

theorem fieldTypeAt_parses (fuel floor : Nat) (look : List Token → Prop) :
    Parses (within fuel) floor look Plain (fieldTypeAt fuel : ParseM σ Unit) := by
  induction fuel generalizing floor look with
  | zero => exact not_within_zero
  | succ fuel ih =>
      refine nested_parses ?_ ?_
      · exact deeper_parses (fun _ => within_nested) (fieldTypeInner_parses fun _ => ih _ _)
      · exact (errorAtCurrent_parses _ _).bind fun _ => node_parses _ fun _ => bump_parses.plain

theorem fieldType_parses : Parses roomy floor look Plain (Syntax.fieldType : ParseM σ Unit) :=
  fieldTypeAt_parses _ _ _

theorem backing_parses : Parses room floor look Plain (backing : ParseM σ Bool) := by
  refine Runs.inspect _ (fun _ => rfl) fun kind => ?_
  rcases kind with _ | kind
  · exact (errorAtCurrent_parses _ _).bind fun _ => Runs.pure fun _ _ => id
  refine Runs.ite (fun _ => ?_) fun _ => Runs.ite (fun _ => ?_) fun _ => ?_
  · exact Runs.bind (node_parses _ fun _ => bump_parses.plain) fun _ => Runs.pure fun _ _ => id
  · exact Runs.bind (node_parses _ fun _ => bumpWhile_parses _) fun _ => Runs.pure fun _ _ => id
  · exact (errorAtCurrent_parses _ _).bind fun _ => Runs.pure fun _ _ => id

theorem returnType_parses : Parses roomy floor look Plain (returnType : ParseM σ Unit) := by
  refine eatTrivia_parses.bind fun _ => ?_
  refine Runs.inspect _ (fun _ => rfl) fun _ => Runs.ite (fun _ => ?_) fun _ => ?_
  · exact node_parses _ fun _ => (tupleType_parses fun _ => fieldType_parses).plain
  refine Runs.inspect _ (fun _ => rfl) fun _ => Runs.ite (fun _ => ?_) fun _ => ?_
  · exact node_parses _ fun _ => streamType_parses.plain
  refine Runs.inspect _ (fun _ => rfl) fun _ => Runs.ite (fun _ => ?_) fun _ => ?_
  · refine node_parses _ fun _ => checkpoint_bind fun _ => pathType_parses.seq fun _ => ?_
    exact whenAt_parses _ (nodeAt_parses _ (bump_parses.seq fun _ => pathType_parses.plain))
  · refine (errorAtCurrent_parses _ _).bind fun _ => Runs.inspect _ (fun _ => rfl) fun _ => ?_
    exact Runs.ite (fun _ => (recover_parses _).plain) fun _ => Runs.pure fun _ _ => id

end Types

section Attributes

variable {attrValue : ParseM σ Unit}

/-- A value, or a list of values, is ahead. -/
def Listed : α → List Token → Prop := fun _ list =>
  kindAt list 0 = some .lParen ∨ 0 < literalLen list 0

variable {list : List Token}

theorem Listed.ne_nil {a : α} (h : Listed a list) : list ≠ [] := by
  rcases h with h | h
  · exact kindAt_ne_nil h
  · exact literalLen_ne_nil h

theorem attrValueInner_parses (hattrValue : ∀ floor, Parses room floor Any Listed attrValue) :
    Parses room floor look Listed (attrValueInner attrValue) := by
  refine eatTrivia_parses.bind fun _ => atKind_bind _ fun list _ => Runs.ite (fun _ => ?_)
    fun hparen => ?_
  · refine announced (node_parses _ fun _ => bump_parses.first (fun _ => ?_) fun _ _ _ _ => id)
      fun _ _ => Listed.ne_nil
    refine loop_parses fun _ => eatTrivia_parses.bind fun _ => current_bind fun list _ => ?_
    rcases list with _ | ⟨token, tokens⟩
    · exact (errorAtCurrent_parses _ _).finish
    refine Runs.ite (fun _ => bump_parses.finish) fun _ => ?_
    refine Runs.ite (fun _ => item bump_parses cons_ne_nil) fun _ => ?_
    refine Runs.ite (fun h => item (hattrValue _) fun _ => Or.inl (by simp [kindAt, h])) fun _ => ?_
    refine Runs.ite (fun _ => (errorAtCurrent_parses _ _).finish) fun _ => ?_
    refine literalLenAt_bind _ fun list hlist => ?_
    rw [hlist]
    refine Runs.ite (fun h => item (hattrValue _) fun _ => Or.inr h) fun _ => ?_
    exact item (errAndRecover_parses _ _) cons_ne_nil
  refine literalLenAt_bind _ fun list' hlist => Runs.ite (fun h => ?_) fun h => ?_
  · refine (node_parses _ fun _ => literal_parses).mono (fun _ => id) (fun _ => id) ?_
    intro _ other hother _
    rw [hother]
    exact h
  · refine (errorAtCurrent_parses _ _).mono (fun _ => id) (fun _ => id) ?_
    intro _ other hother hlisted
    rw [hother] at hlisted
    rcases hlisted with hlisted | hlisted
    · exact hparen (by rw [← hlist]; exact decide_eq_true hlisted)
    · exact h hlisted

theorem attrValueAt_parses (fuel floor : Nat) (look : List Token → Prop) :
    Parses (within fuel) floor look Listed (attrValueAt fuel : ParseM σ Unit) := by
  induction fuel generalizing floor look with
  | zero => exact not_within_zero
  | succ fuel ih =>
      refine nested_parses ?_ ?_
      · exact deeper_parses (fun _ => within_nested) (attrValueInner_parses fun _ => ih _ _)
      · refine (errorAtCurrent_parses _ _).bind fun _ => ?_
        exact announced (node_parses _ fun _ => bump_parses) fun _ _ => Listed.ne_nil

theorem attrValue_parses : Parses roomy floor look Listed (Syntax.attrValue : ParseM σ Unit) :=
  attrValueAt_parses _ _ _

/-- What starts an attribute is ahead. -/
def Attributed : α → List Token → Prop := fun _ list => (kindAt list 0).any isAttributeStart

/-- A predicate keyword is read off a token that can be attached as one. Without one an attribute
    starts with a name. -/
structure Predicate (list : List Token) (predicate : Option SyntaxKind) : Prop where
  attached : ∀ kind, predicate = some kind →
    ∃ token tokens, list = token :: tokens ∧ Attached { kind := kind, text := token.text } token
  named : predicate = none → Attributed () list → Named () list

theorem Predicate.of_kind {kind : SyntaxKind} (h : kindAt list 0 = some kind) :
    Predicate list (some kind) := by
  refine ⟨fun other hother => ?_, nofun⟩
  rcases list with _ | ⟨token, tokens⟩
  · simp [kindAt] at h
  · refine ⟨token, tokens, rfl, rfl, Or.inl ?_⟩
    rw [← Option.some.inj hother, ← Option.some.inj h]

theorem Predicate.of_reserved {kind : SyntaxKind}
    (h : kindAt list 0 = some .reservedWord) (hkind : kind = .requireKw ∨ kind = .ensureKw) :
    Predicate list (some kind) := by
  refine ⟨fun other hother => ?_, nofun⟩
  rcases list with _ | ⟨token, tokens⟩
  · simp [kindAt] at h
  · refine ⟨token, tokens, rfl, rfl, Or.inr (Or.inr ⟨Option.some.inj h, ?_⟩)⟩
    rw [← Option.some.inj hother]
    exact hkind

theorem predicate_of (profile : Profile) (text : String) (list : List Token) :
    Predicate list (predicateOf profile text (kindAt list 0)) := by
  have hreserved (kind : SyntaxKind) (hkind : kind = .requireKw ∨ kind = .ensureKw)
      (h : kindAt list 0 = some .reservedWord) := Predicate.of_reserved h hkind
  generalize hkind : kindAt list 0 = kind
  unfold predicateOf
  split
  · exact Predicate.of_kind hkind
  · exact Predicate.of_kind hkind
  · split
    · split
      · exact hreserved _ (Or.inl rfl) hkind
      · split
        · exact hreserved _ (Or.inr rfl) hkind
        · exact ⟨nofun, fun _ _ => Or.inr hkind⟩
    · exact ⟨nofun, fun _ _ => Or.inr hkind⟩
  · rename_i hrequire hensure hreserved
    refine ⟨nofun, fun _ hattributed => ?_⟩
    rcases kind with _ | kind
    · simp [Attributed, hkind] at hattributed
    · simp only [Attributed, hkind, Option.any_some] at hattributed
      refine Or.inl (hkind.trans (congrArg some ?_))
      unfold isAttributeStart at hattributed
      split at hattributed
      · rfl
      · exact absurd rfl hrequire
      · exact absurd rfl hensure
      · exact absurd rfl hreserved
      · cases hattributed

omit [GreenNodeBuilder σ] in
theorem predicateKind_eq (parser : Parser σ) :
    ∃ predicate, predicateKind parser = some (predicate, parser) ∧
      Predicate parser.ahead predicate := by
  refine ⟨_, ?_, predicate_of parser.profile
    (((parser.tokens[parser.significantPos]?).map (String.ofList ·.text)).getD "") parser.ahead⟩
  have h : predicateKind parser = (current parser).bind fun result =>
      some (predicateOf parser.profile
        (((parser.tokens[parser.significantPos]?).map (String.ofList ·.text)).getD "") result.1,
        result.2) := rfl
  rw [h, current_eq]
  rfl

theorem predicateKind_bind {f : Option SyntaxKind → ParseM σ α}
    (hf : ∀ list predicate, look list → Predicate list predicate →
      Parses room floor (· = list) eats (f predicate)) :
    Parses room floor look eats (predicateKind >>= f) := by
  intro parser hinv hroom hlook
  rcases predicateKind_eq parser with ⟨predicate, hrun, hpredicate⟩
  rcases hf _ _ hlook hpredicate parser hinv hroom rfl with ⟨a, next, hrun', h⟩
  refine ⟨a, next, ?_, h⟩
  have hbind : (predicateKind >>= f) parser
      = (predicateKind parser).bind fun result => f result.1 result.2 := rfl
  rw [hbind, hrun]
  exact hrun'

theorem attribute_parses : Parses roomy floor look Attributed (attribute_ : ParseM σ Unit) := by
  refine node_parses _ fun _ => predicateKind_bind fun list predicate _ hpredicate => ?_
  rcases predicate with _ | kind
  · refine name_parses.first (fun _ => ?_) fun _ _ list' hlist hattributed => ?_
    · refine Runs.inspect _ (fun _ => rfl) fun _ => Runs.inspect _ (fun _ => rfl) fun _ => ?_
      have hvalue : ∀ floor look, Parses roomy floor look Plain
          (do if ← atKind .eq then bump; attrValue : ParseM σ Unit) := fun _ _ =>
        whenAt_parses _ (bump_parses.seq fun _ => attrValue_parses.plain)
      exact Runs.ite (fun _ => bump_parses.seq fun _ => name_parses.seq fun _ => hvalue _ _) fun _ =>
        hvalue _ _
    · rw [hlist] at hattributed ⊢
      exact hpredicate.named rfl hattributed
  · refine (bumpAs_parses kind ?_).first (fun _ => expr_parses) fun _ _ _ hlist hattributed => ?_
    · rintro _ rfl
      exact hpredicate.attached kind rfl
    · exact kindAt_any hattributed

theorem attrBlock_parses : Parses roomy floor look IfAny (attrBlock : ParseM σ Unit) := by
  refine node_parses _ fun _ => bump_parses.first (fun _ => ?_) fun _ _ _ _ => id
  refine (loop_parses fun sawAttribute => ?_).bind fun _ => Runs.pure fun _ _ => id
  refine current_bind fun list _ => ?_
  rcases list with _ | ⟨token, tokens⟩
  · exact (errorAtCurrent_parses _ _).finish
  refine Runs.ite (fun _ => ?_) fun _ => ?_
  · exact Runs.option (fun _ => errorAtCurrent_parses _ _) fun _ => bump_parses.finish
  refine Runs.ite (fun _ => item bump_parses cons_ne_nil) fun _ => ?_
  refine Runs.ite (fun h => item attribute_parses fun _ => h) fun _ => ?_
  refine Runs.ite (fun _ => (errorAtCurrent_parses _ _).finish) fun _ => ?_
  exact item (errAndRecover_parses _ _) cons_ne_nil

end Attributes

section Interactions

theorem timingRange_parses : Parses room floor look Plain (timingRange : ParseM σ Unit) := by
  refine node_parses _ fun _ => Runs.inspect _ (fun _ => rfl) fun _ => ?_
  refine Runs.option (fun _ => bump_parses.plain) fun _ => (expect_parses _).bind fun _ => ?_
  refine Runs.inspect _ (fun _ => rfl) fun _ => Runs.option (fun _ => bump_parses.plain) fun _ => ?_
  exact Runs.ite (fun _ => errorAtCurrent_parses _ _) fun _ => Runs.pure fun _ _ => id

theorem timing_parses : Parses room floor look IfAny (timing : ParseM σ Unit) := by
  refine node_parses _ fun _ => bump_parses.first (fun _ => ?_) fun _ _ _ _ => id
  refine Runs.inspect _ (fun _ => rfl) fun _ => Runs.ite (fun _ => bump_parses.plain) fun _ => ?_
  refine Runs.inspect _ (fun _ => rfl) fun _ => Runs.ite (fun _ => ?_) fun _ =>
    errorAtCurrent_parses _ _
  exact bump_parses.seq fun _ => timingRange_parses.bind fun _ => expect_parses _

theorem interactionAnnotations_parses :
    Parses roomy floor look Plain (interactionAnnotations : ParseM σ Unit) := by
  refine (loop_parses fun seen => ?_).bind fun _ => Runs.pure fun _ _ => id
  refine atKind_bind _ fun list _ => Runs.ite (fun h => ?_) fun _ => ?_
  · refine timing_parses.yield fun _ _ hlist => ?_
    rw [hlist]
    exact kindAt_ne_nil (of_decide_eq_true h.1)
  refine atKind_bind _ fun list' _ => Runs.ite (fun h => ?_) fun _ => Runs.done
  refine attrBlock_parses.yield fun _ _ hlist => ?_
  rw [hlist]
  exact kindAt_ne_nil (of_decide_eq_true h.1)

theorem param_parses : Parses roomy floor look Named (param : ParseM σ Unit) :=
  node_parses _ fun _ => name_parses.first
    (fun _ => (expect_parses _).bind fun _ => fieldType_parses) fun _ _ _ _ => id

theorem paramList_parses : Parses roomy floor look Plain (paramList : ParseM σ Unit) := by
  refine Runs.inspect _ (fun _ => rfl) fun _ => Runs.ite (fun _ => ?_) fun _ =>
    errorAtCurrent_parses _ _
  refine node_parses _ fun _ => bump_parses.seq fun _ => ?_
  refine loop_parses fun _ => eatTrivia_parses.bind fun _ => current_bind fun list _ => ?_
  rcases list with _ | ⟨token, tokens⟩
  · exact (errorAtCurrent_parses _ _).finish
  refine Runs.ite (fun _ => bump_parses.finish) fun _ => ?_
  refine Runs.ite (fun _ => item bump_parses cons_ne_nil) fun _ => ?_
  refine Runs.ite (fun h => item param_parses (named h)) fun _ => ?_
  refine Runs.ite (fun _ => (errorAtCurrent_parses _ _).finish) fun _ => ?_
  exact item (errAndRecover_parses _ _) cons_ne_nil

theorem word_parses (kind : SyntaxKind) {rest : ParseM σ α}
    (hrest : ∀ floor, Parses room floor Any Plain rest) :
    Parses room floor look IfAny (node kind do bump; rest) :=
  node_parses _ fun _ => bump_parses.first (fun _ => hrest _) fun _ _ _ _ => id

theorem valueInteraction_parses (kind : SyntaxKind) :
    Parses roomy floor look IfAny (valueInteraction kind : ParseM σ Unit) :=
  word_parses _ fun _ => name_parses.seq fun _ => (expect_parses _).bind fun _ =>
    fieldType_parses.bind fun _ => initValueOpt_parses.bind fun _ => interactionAnnotations_parses

theorem callableInteraction_parses (kind : SyntaxKind) :
    Parses roomy floor look IfAny (callableInteraction kind : ParseM σ Unit) := by
  refine word_parses _ fun _ => name_parses.seq fun _ => paramList_parses.bind fun _ => ?_
  refine Runs.inspect _ (fun _ => rfl) fun _ => Runs.ite (fun _ => ?_) fun _ => ?_
  · exact bump_parses.seq fun _ => returnType_parses.bind fun _ => interactionAnnotations_parses
  · exact Runs.option (fun _ => errorAtCurrent_parses _ _) fun _ => interactionAnnotations_parses

theorem bumpBalanced_parses (isSync : SyntaxKind → Bool) :
    Parses room floor look Plain (bumpBalanced isSync : ParseM σ Unit) := by
  refine (loop_parses fun depth => ?_).bind fun _ => Runs.pure fun _ _ => id
  refine current_bind fun list _ => ?_
  rcases list with _ | ⟨token, tokens⟩
  · exact Runs.done
  refine Runs.ite (fun _ => item bump_parses cons_ne_nil) fun _ => ?_
  refine Runs.ite (fun _ => item bump_parses cons_ne_nil) fun _ => ?_
  exact Runs.ite (fun _ => Runs.done) fun _ => item bump_parses cons_ne_nil

theorem recoverDefinitionInBody_parses :
    Parses room floor look IfAny (recoverDefinitionInBody : ParseM σ Unit) :=
  word_parses _ fun _ => bumpBalanced_parses _

theorem reportedItem {token : Token} {tokens : List Token} {m : ParseM σ Unit} {β : Type} {b : β}
    (code message : String) (hm : Parses room floor Any IfAny m) :
    Parses room floor (· = token :: tokens) IfYield
      (errorAtCurrent code message >>= fun _ => m >>= fun _ => pure (ForInStep.yield b)) := by
  have hconsumed : Parses room floor Any (fun _ list => list ≠ [])
      (m >>= fun _ => pure (ForInStep.yield b)) :=
    hm.first (fun _ => Runs.pure fun _ _ => id) fun _ _ _ _ => id
  refine Runs.mono ((errorAtCurrent_parses code message).bind fun _ => hconsumed) (fun _ => id)
    (fun _ => id) ?_
  intro _ list hlist _
  rw [hlist]
  exact List.cons_ne_nil _ _

theorem interfaceBody_parses (noun shape : String) :
    Parses roomy floor look Plain (interfaceBody noun shape : ParseM σ Unit) := by
  refine loop_parses fun _ => eatTrivia_parses.bind fun _ => current_bind fun list _ => ?_
  rcases list with _ | ⟨token, tokens⟩
  · exact (errorAtCurrent_parses _ _).finish
  refine Runs.ite (fun _ => bump_parses.finish) fun _ => ?_
  refine Runs.ite (fun _ => item bump_parses cons_ne_nil) fun _ => ?_
  refine Runs.ite (fun _ => item reservedEntry_parses cons_ne_nil) fun _ => ?_
  refine Runs.ite (fun _ => item (valueInteraction_parses _) cons_ne_nil) fun _ => ?_
  refine Runs.ite (fun _ => item (valueInteraction_parses _) cons_ne_nil) fun _ => ?_
  refine Runs.ite (fun _ => item (callableInteraction_parses _) cons_ne_nil) fun _ => ?_
  refine Runs.ite (fun _ => item (callableInteraction_parses _) cons_ne_nil) fun _ => ?_
  refine Runs.ite (fun _ => item (valueInteraction_parses _) cons_ne_nil) fun _ => ?_
  refine Runs.inspect _ (fun _ => rfl) fun _ => Runs.ite (fun _ => ?_) fun _ => ?_
  · exact Runs.inspect _ (fun _ => rfl) fun _ => reportedItem _ _ recoverDefinitionInBody_parses
  refine Runs.ite (fun _ => (errorAtCurrent_parses _ _).finish) fun _ => ?_
  exact item (errAndRecover_parses _ _) cons_ne_nil

end Interactions

section Definitions

theorem openModifierAt_any (n : Nat) {f : Bool → ParseM σ α}
    (hf : ∀ b, Parses room floor look eats (f b)) :
    Parses room floor look eats (openModifierAt n >>= f) :=
  Runs.inspect _ (fun _ => rfl) hf

theorem openModifierAt_bind (n : Nat) {f : Bool → ParseM σ α}
    (htrue : ∀ list, look list → kindAt list n = some .ident →
      Parses room floor (· = list) eats (f true))
    (hfalse : Parses room floor look eats (f false)) :
    Parses room floor look eats (openModifierAt n >>= f) := by
  intro parser hinv hroom hlook
  rcases hopen : openModifierAt n parser with _ | ⟨isOpen, next⟩
  · cases hopen
  have hnext : next = parser := congrArg Prod.snd (Option.some.inj hopen).symm
  have hbind : (openModifierAt n >>= f) parser = f isOpen parser := by
    have h : (openModifierAt n >>= f) parser
        = (openModifierAt n parser).bind fun result => f result.1 result.2 := rfl
    rw [h, hopen, hnext]
    rfl
  rw [hbind]
  cases isOpen with
  | false => exact hfalse parser hinv hroom hlook
  | true =>
      refine htrue _ hlook ?_ parser hinv hroom rfl
      have hvalue := congrArg Prod.fst (Option.some.inj hopen)
      have hand := (Bool.and_eq_true_iff.1 hvalue).1
      exact of_decide_eq_true (Bool.and_eq_true_iff.1 hand).1

theorem modifiers_parses : Parses room floor look Plain (modifiers : ParseM σ Unit) := by
  refine (bumpWhile_parses _).bind fun _ => openModifierAt_bind _ (fun list _ hident => ?_) ?_
  · refine Runs.plain (bumpAs_parses _ fun list' hlist => ?_)
    rw [hlist]
    rcases list with _ | ⟨token, tokens⟩
    · exact absurd hident nofun
    · exact ⟨token, tokens, rfl, rfl, Or.inr (Or.inl ⟨Option.some.inj hident, rfl⟩)⟩
  · exact Runs.pure fun _ _ => id

theorem blockOpen_bind {f : Bool → ParseM σ α} (hf : ∀ b, Parses room floor Any Plain (f b)) :
    Parses room floor look Plain (blockOpen >>= f) := by
  refine Runs.bind (Runs.inspect _ (fun _ => rfl) fun _ => Runs.ite (fun _ => ?_) fun _ => ?_) hf
  · exact bump_parses.seq fun _ => Runs.pure fun _ _ => id
  · exact (errorAtCurrent_parses _ _).bind fun _ => Runs.pure fun _ _ => id

theorem blockBody_parses (context : String) (allowReserved : Bool) {member : ParseM σ Unit}
    (hmember : ∀ floor, Parses room floor Any Named member) :
    Parses room floor look Plain (blockBody context allowReserved member) := by
  refine blockOpen_bind fun _ => Runs.ite (fun _ => ?_) fun _ => Runs.pure fun _ _ => id
  refine loop_parses fun _ => eatTrivia_parses.bind fun _ => current_bind fun list _ => ?_
  rcases list with _ | ⟨token, tokens⟩
  · exact (errorAtCurrent_parses _ _).finish
  refine Runs.ite (fun _ => bump_parses.finish) fun _ => ?_
  refine Runs.ite (fun _ => item bump_parses cons_ne_nil) fun _ => ?_
  refine Runs.ite (fun _ => item reservedEntry_parses cons_ne_nil) fun _ => ?_
  refine Runs.ite (fun h => item (hmember _) (named h)) fun _ => ?_
  refine Runs.ite (fun _ => (errorAtCurrent_parses _ _).finish) fun _ => ?_
  exact item (errAndRecover_parses _ _) cons_ne_nil

theorem fieldDef_parses : Parses roomy floor look Named (fieldDef : ParseM σ Unit) :=
  node_parses _ fun _ => name_parses.first (fun _ => (expect_parses _).bind fun _ =>
    fieldType_parses.bind fun _ => initValueOpt_parses) fun _ _ _ _ => id

theorem valueAssignment_parses (kind : SyntaxKind) :
    Parses room floor look Named (valueAssignment kind : ParseM σ Unit) :=
  node_parses _ fun _ => name_parses.first (fun _ => (expect_parses _).bind fun _ =>
    literal_parses.plain) fun _ _ _ _ => id

theorem unionArm_parses : Parses room floor look Named (unionArm : ParseM σ Unit) :=
  node_parses _ fun _ => name_parses.first (fun _ => (expect_parses _).bind fun _ =>
    pathType_parses.plain) fun _ _ _ _ => id

theorem definition_of (kind : SyntaxKind) {rest : ParseM σ Unit}
    (hrest : ∀ floor, Parses room floor Any Plain rest) :
    Parses room floor look IfAny
      (node kind do
        modifiers
        bump
        name
        rest) :=
  node_parses _ fun _ => modifiers_parses.bind fun _ =>
    bump_parses.first (fun _ => name_parses.seq fun _ => hrest _) fun _ _ _ _ => id

theorem typeDef_parses : Parses room floor look IfAny (typeDef : ParseM σ Unit) := by
  refine definition_of _ fun _ => (expect_parses _).bind fun _ => backing_parses.bind fun _ => ?_
  exact optionAt_parses _ (constraint_parses _) fun _ => initValueOpt_parses

theorem constDef_parses : Parses room floor look IfAny (constDef : ParseM σ Unit) := by
  refine definition_of _ fun _ => Runs.inspect _ (fun _ => rfl) fun _ => ?_
  have hvalue : ∀ floor look, Parses room floor look Plain
      (do expect .eq; literal : ParseM σ Unit) := fun _ _ =>
    (expect_parses _).bind fun _ => literal_parses.plain
  exact Runs.ite (fun _ => bump_parses.seq fun _ => pathType_parses.seq fun _ => hvalue _ _) fun _ =>
    hvalue _ _

theorem structDef_parses : Parses roomy floor look IfAny (structDef : ParseM σ Unit) :=
  definition_of _ fun _ => blockBody_parses _ _ fun _ => fieldDef_parses

theorem enumDef_parses : Parses room floor look IfAny (enumDef : ParseM σ Unit) :=
  definition_of _ fun _ => blockBody_parses _ _ fun _ => valueAssignment_parses _

theorem enumSetDef_parses : Parses room floor look IfAny (enumSetDef : ParseM σ Unit) :=
  definition_of _ fun _ => Runs.inspect _ (fun _ => rfl) fun _ =>
    Runs.ite (fun _ => bump_parses.seq fun _ => pathType_parses.plain) fun _ =>
      blockBody_parses _ _ fun _ => valueAssignment_parses _

theorem unionDef_parses : Parses room floor look IfAny (unionDef : ParseM σ Unit) :=
  definition_of _ fun _ => blockBody_parses _ _ fun _ => unionArm_parses

theorem interfaceDef_parses : Parses roomy floor look IfAny (interfaceDef : ParseM σ Unit) :=
  definition_of _ fun _ => blockOpen_bind fun _ =>
    Runs.ite (fun _ => interfaceBody_parses _ _) fun _ => Runs.pure fun _ _ => id

theorem definition_parses : Parses roomy floor look IfAny (definition : ParseM σ Unit) := by
  refine Runs.inspect _ (fun _ => rfl) fun run => openModifierAt_any _ fun _ => ?_
  refine Runs.inspect _ (fun _ => rfl) fun _ => Runs.inspect _ (fun _ => rfl) fun _ => ?_
  refine Runs.ite (fun _ => ?_) fun _ => ?_
  · refine Runs.bind (Runs.looking (Runs.times bump_parses.plain _) fun _ _ => trivial) fun _ => ?_
    exact (errorAtCurrent_parses _ _).bind fun _ => recover_parses _
  refine openModifierAt_any _ fun _ => Runs.inspect _ (fun _ => rfl) fun _ => ?_
  split
  · exact typeDef_parses
  · exact constDef_parses
  · exact structDef_parses
  · exact enumDef_parses
  · exact enumSetDef_parses
  · exact unionDef_parses
  · exact interfaceDef_parses
  · exact errAndRecover_parses _ _

theorem serviceShapeList_parses :
    Parses room floor look Plain (serviceShapeList : ParseM σ Unit) := by
  refine pathType_parses.seq fun _ => loop_parses fun _ => atKind_bind _ fun list _ =>
    Runs.ite (fun h => ?_) fun _ => Runs.done
  refine bump_parses.first (fun _ => Runs.inspect _ (fun _ => rfl) fun _ => Runs.ite (fun _ => ?_)
    fun _ => Runs.pure fun _ _ => id) fun _ _ _ hlist _ => ?_
  · exact pathType_parses.seq fun _ => Runs.pure fun _ _ => id
  · rw [hlist]
    exact kindAt_ne_nil (of_decide_eq_true h)

theorem serviceDef_parses : Parses roomy floor look IfAny (serviceDef : ParseM σ Unit) := by
  refine word_parses _ fun _ => dottedName_parses.bind fun _ => Runs.inspect _ (fun _ => rfl)
    fun _ => ?_
  split
  · exact bump_parses.seq fun _ => serviceShapeList_parses
  · exact bump_parses.seq fun _ => interfaceBody_parses _ _
  · exact errorAtCurrent_parses _ _

theorem packageDecl_parses : Parses room floor look IfAny (packageDecl : ParseM σ Unit) :=
  word_parses _ fun _ => qualifiedName_parses.plain

theorem importDecl_parses : Parses room floor look IfAny (importDecl : ParseM σ Unit) :=
  word_parses _ fun _ => qualifiedName_parses.seq fun _ =>
    whenAt_parses _ (bump_parses.seq fun _ => name_parses.plain)

end Definitions

section Rsdl

theorem attrBlockOpt_parses :
    Parses roomy floor look Plain (do if ← atKind .lBracket then attrBlock : ParseM σ Unit) :=
  whenAt_parses _ attrBlock_parses.plain

theorem memberLine_parses : Parses roomy floor look Pathed (memberLine : ParseM σ Unit) :=
  node_parses _ fun _ => reference_parses.first (fun _ => attrBlockOpt_parses) fun _ _ _ _ => id

theorem componentLine_parses : Parses roomy floor look IfAny (componentLine : ParseM σ Unit) :=
  word_parses _ fun _ => reference_parses.seq fun _ => attrBlockOpt_parses

theorem rsdlBodyOf_parses (body : RsdlBody) {line : ParseM σ Unit}
    (hline : ∀ floor, Parses room floor Any
      (fun _ list => (kindAt list 0).any body.startsLine) line) :
    Parses room floor look Plain (rsdlBodyOf body line) := by
  refine blockOpen_bind fun _ => Runs.ite (fun _ => ?_) fun _ => Runs.pure fun _ _ => id
  refine loop_parses fun _ => eatTrivia_parses.bind fun _ => current_bind fun list _ => ?_
  rcases list with _ | ⟨token, tokens⟩
  · exact (errorAtCurrent_parses _ _).finish
  refine Runs.ite (fun _ => bump_parses.finish) fun _ => ?_
  refine Runs.ite (fun _ => item bump_parses cons_ne_nil) fun _ => ?_
  refine Runs.ite (fun h => item (hline _) fun _ => h) fun _ => ?_
  refine Runs.ite (fun _ => (errorAtCurrent_parses _ _).finish) fun _ => ?_
  refine Runs.inspect _ (fun _ => rfl) fun _ => Runs.ite (fun _ => ?_) fun _ => ?_
  · exact Runs.inspect _ (fun _ => rfl) fun _ => reportedItem _ _ (recover_parses _)
  · exact item (errAndRecover_parses _ _) cons_ne_nil

theorem rsdlContainerOf_parses (kind : SyntaxKind) {body : ParseM σ Unit}
    (hbody : ∀ floor, Parses roomy floor Any Plain body) :
    Parses roomy floor look IfAny (rsdlContainerOf kind body) := by
  refine word_parses _ fun _ => name_parses.seq fun _ => ?_
  exact optionAt_parses _ attrBlock_parses.plain fun _ => hbody _

theorem members_parses :
    Parses roomy floor look Plain (rsdlBodyOf .members memberLine : ParseM σ Unit) :=
  rsdlBodyOf_parses _ fun _ => memberLine_parses

theorem rsdlBody_parses (body : RsdlBody) :
    Parses roomy floor look Plain (rsdlBody body : ParseM σ Unit) := by
  cases body with
  | members => exact members_parses
  | componentLines =>
      exact rsdlBodyOf_parses _ fun _ => announced componentLine_parses fun _ _ => kindAt_any
  | machines =>
      refine rsdlBodyOf_parses _ fun _ => announced ?_ fun _ _ => kindAt_any
      exact rsdlContainerOf_parses _ fun _ => members_parses

theorem rsdlContainer_parses (kind : SyntaxKind) (body : RsdlBody) :
    Parses roomy floor look IfAny (rsdlContainer kind body : ParseM σ Unit) :=
  rsdlContainerOf_parses _ fun _ => rsdlBody_parses _

theorem deploymentDef_parses : Parses roomy floor look IfAny (deploymentDef : ParseM σ Unit) := by
  refine word_parses _ fun _ => name_parses.seq fun _ => ?_
  have hbody : ∀ floor look, Parses roomy floor look Plain
      (do
        if ← atKind .lBracket then attrBlock
        rsdlBody .machines : ParseM σ Unit) := fun _ _ =>
    optionAt_parses _ attrBlock_parses.plain fun _ => rsdlBody_parses _
  refine Runs.inspect _ (fun _ => rfl) fun _ => Runs.ite (fun _ => ?_) fun _ => ?_
  · exact bump_parses.seq fun _ => reference_parses.seq fun _ => hbody _ _
  · exact (errorAtCurrent_parses _ _).bind fun _ => hbody _ _

theorem times_parses {body : ParseM σ Unit} (hbody : ∀ look, Parses room floor look IfAny body)
    {n : Nat} (hn : 0 < n) : Parses room floor look IfAny (times n body) := by
  cases n with
  | zero => omega
  | succ n =>
      exact (hbody _).first (fun _ => Runs.times (hbody _).plain n) fun _ _ _ _ => id

theorem rsdlForeignDeclaration_parses (modifiers : Nat) :
    Parses room floor look IfAny (rsdlForeignDeclaration modifiers : ParseM σ Unit) := by
  refine Runs.inspect _ (fun _ => rfl) fun _ => (errorAtCurrent_parses _ _).bind fun _ => ?_
  exact node_parses _ fun _ => (times_parses (fun _ => bump_parses) (Nat.succ_pos _)).first
    (fun _ => bumpBalanced_parses _) fun _ _ _ _ => id

theorem rsdlTyplWordAtTopLevel_parses :
    Parses room floor look IfAny (rsdlTyplWordAtTopLevel : ParseM σ Unit) := by
  refine Runs.inspect _ (fun _ => rfl) fun run => openModifierAt_any _ fun isOpen => ?_
  refine Runs.inspect _ (fun _ => rfl) fun _ => Runs.ite (fun h => ?_) fun _ =>
    rsdlForeignDeclaration_parses _
  refine times_parses (fun _ => ?_) (of_decide_eq_true (Bool.and_eq_true_iff.1 h).1)
  exact Runs.inspect _ (fun _ => rfl) fun _ => (errorAtCurrent_parses _ _).bind fun _ =>
    node_parses _ fun _ => bump_parses

end Rsdl

section File

theorem profileBoundaryAtTopLevel_parses (hlook : ∀ list, look list → list ≠ []) :
    Parses room floor look (fun isBoundary list => isBoundary = true ∧ list ≠ [])
      (profileBoundaryAtTopLevel : ParseM σ Bool) := by
  have hrecover : Parses room floor Any (fun isBoundary list => isBoundary = true ∧ list ≠ [])
      (do recover isTopLevelStart; return true : ParseM σ Bool) :=
    (recover_parses _).first (fun _ => Runs.pure fun _ _ => id) fun _ _ _ _ h => h.2
  refine currentToken_bind hlook fun token => Runs.inspect _ (fun _ => rfl) fun profile => ?_
  cases profile with
  | typl =>
      dsimp only
      cases ridlKeyword (String.ofList token.text) with
      | none => exact Runs.pure fun _ _ h => Bool.noConfusion h.1
      | some kind =>
          exact Runs.ite (fun _ => (errorAtCurrent_parses _ _).bind fun _ => hrecover) fun _ =>
            (errorAtCurrent_parses _ _).bind fun _ => hrecover
  | ridl => exact (errorAtCurrent_parses _ _).bind fun _ => hrecover
  | rsdl =>
      exact (rsdlForeignDeclaration_parses 0).first (fun _ => Runs.pure fun _ _ => id)
        fun _ _ _ _ h => h.2

theorem topLevel_parses (kind : SyntaxKind) (hlook : ∀ list, look list → list ≠ []) :
    Parses roomy floor look IfAny (topLevel kind : ParseM σ Unit) := by
  refine Runs.inspect _ (fun _ => rfl) fun _ => Runs.inspect _ (fun _ => rfl) fun _ => ?_
  refine Runs.ite (fun _ => packageDecl_parses) fun _ => ?_
  refine Runs.ite (fun _ => importDecl_parses) fun _ => ?_
  refine Runs.ite (fun _ => ?_) fun _ => ?_
  · exact Runs.ite (fun _ => rsdlTyplWordAtTopLevel_parses) fun _ => definition_parses
  refine Runs.ite (fun _ => ?_) fun _ => ?_
  · exact openModifierAt_any _ fun _ =>
      Runs.ite (fun _ => rsdlForeignDeclaration_parses _) fun _ => definition_parses
  refine Runs.ite (fun _ => serviceDef_parses) fun _ => ?_
  refine Runs.ite (fun _ => rsdlContainer_parses _ _) fun _ => ?_
  refine Runs.ite (fun _ => rsdlContainer_parses _ _) fun _ => ?_
  refine Runs.ite (fun _ => rsdlContainer_parses _ _) fun _ => ?_
  refine Runs.ite (fun _ => deploymentDef_parses) fun _ => ?_
  refine Runs.ite (fun _ => ?_) fun _ => errAndRecover_parses _ _
  refine (profileBoundaryAtTopLevel_parses hlook).either fun isBoundary => ?_
  refine Runs.ite (fun _ => ?_) fun h => Runs.pure fun list _ hlist => ?_
  · exact announced (errAndRecover_parses _ _) fun _ _ h => h.1
  · exact hlist.2 ⟨by simpa using h, hlist.1⟩

theorem sourceFileHead_parses : Parses room floor look Plain (sourceFileHead : ParseM σ Unit) :=
  eatTrivia_parses.bind fun _ => Runs.inspect _ (fun _ => rfl) fun _ =>
    Runs.ite (fun _ => packageDecl_parses.plain) fun _ => errorAtCurrent_parses _ _

theorem sourceFileItems_parses :
    Parses roomy floor look Plain (sourceFileItems : ParseM σ Unit) := by
  refine loop_parses fun _ => eatTrivia_parses.bind fun _ => current_bind fun list _ => ?_
  rcases list with _ | ⟨token, tokens⟩
  · exact Runs.done
  · refine Runs.yield (topLevel_parses _ ?_) fun _ _ h => ?_
    · rintro _ rfl
      exact List.cons_ne_nil _ _
    · rw [h]
      exact List.cons_ne_nil _ _

theorem sourceFileItems_rest {parser next : Parser σ}
    (h : sourceFileItems parser = some ((), next)) : next.rest = [] := by
  rcases iterate_exit h with ⟨_, before, hbody⟩
  rcases bind_eq_some hbody with ⟨_, eaten, heat, hbody⟩
  rcases bind_eq_some hbody with ⟨kind, same, hcurrent, hbody⟩
  have heaten : eaten = before.eaten := congrArg Prod.snd (Option.some.inj heat).symm
  rw [heaten, current_eq, Parser.ahead_eaten] at hcurrent
  cases hahead : before.ahead with
  | nil =>
      rw [hahead] at hcurrent
      cases hcurrent
      cases hbody
      rw [Parser.rest_eaten]
      refine List.dropWhile_eq_nil_iff.2 fun token htoken => ?_
      have hfilter := List.filter_eq_nil_iff.1 hahead token htoken
      simpa using hfilter
  | cons token tokens =>
      rw [hahead] at hcurrent
      cases hcurrent
      rcases bind_eq_some hbody with ⟨_, _, -, hyield⟩
      cases hyield

end File

end Syntax

end Ridl
