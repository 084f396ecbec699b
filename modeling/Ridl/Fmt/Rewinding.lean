import Mathlib.Data.List.Basic
import Ridl.Fmt.Drawing

/-!
# Rewinding

The state the incremental renderer keeps.

At every step the renderer stands at a point of the drawing: what is pending in the
arena is what is still to be drawn, and its lines and its line state are those of the
page (`Holds`). The candidates of the line, from the last one back, are earlier points
of the same drawing on the same line (`Stacked`), each good for every set of broken
constructs that agrees on the constructs before it. So the renderer stands at a point
of the new drawing after it rewound, if it is then outside a block comment.

## Theorems

* `Kept.append`, `Kept.appendLine`, `Kept.group`: The steps keep it.
* `Kept.finish`: A complete line is committed, or the renderer rewinds to a point.
-/

namespace Ridl

namespace Fmt

open Library

/-- The instructions behind a cursor of the arena. -/
inductive Chain (arena : List Continuation) : Cursor → List Instruction → Prop
  | nil : Chain arena none []
  | cons {i : Nat} {entry : Continuation} {is : List Instruction} :
      arena[i]? = some entry → Chain arena entry.next is →
        Chain arena (some i) (entry.instruction :: is)

theorem Chain.push {arena : List Continuation} {cursor : Cursor} {is : List Instruction}
    (h : Chain arena cursor is) (entry : Continuation) : Chain (arena ++ [entry]) cursor is := by
  induction h with
  | nil => exact .nil
  | cons hentry hnext ih =>
      refine .cons ?_ ih
      rw [List.getElem?_append_left (List.getElem?_eq_some_iff.1 hentry).1]
      exact hentry

def Line.state (line : Line) : LineState :=
  { columns := line.text.length
    codeColumns := line.code
    indent := indentOf line.text
    hasCode := line.text.any (· ≠ ' ') }

theorem indentOf_append_of_any {line : Text} (h : line.any (· ≠ ' ') = true) (text : Text) :
    indentOf (line ++ text) = indentOf line := by
  induction line with
  | nil => exact nomatch h
  | cons c line ih =>
      by_cases hc : c = ' '
      · have hrest : line.any (· ≠ ' ') = true := by simpa [hc] using h
        simp only [indentOf, List.cons_append, List.takeWhile_cons, hc, decide_true, if_true,
          List.length_cons] at ih ⊢
        rw [ih hrest]
      · simp [indentOf, hc]

theorem indentOf_concat {line : Text} (h : line.any (· ≠ ' ') = false) (c : Char) :
    indentOf (line ++ [c]) = indentOf line + if c = ' ' then 1 else 0 := by
  induction line with
  | nil =>
      by_cases hc : c = ' '
      · rw [hc]
        rfl
      · simp [indentOf, hc]
  | cons d line ih =>
      have hd : d = ' ' ∧ line.any (· ≠ ' ') = false := by simpa using h
      have hrest := ih hd.2
      simp only [indentOf, List.cons_append, List.takeWhile_cons, hd.1, decide_true, if_true,
        List.length_cons] at hrest ⊢
      omega

theorem appendChar_state (line : Line) (c : Char) :
    Renderer.appendChar line.state c = { line with text := line.text ++ [c] }.state := by
  cases hcode : line.text.any (· ≠ ' ') with
  | true =>
      have hindent := indentOf_append_of_any hcode [c]
      simp only [Renderer.appendChar, Line.state, hcode, if_true, List.length_append,
        List.length_singleton, hindent, List.any_append, Bool.true_or]
  | false =>
      have hindent := indentOf_concat hcode c
      by_cases hc : c = ' '
      · simp only [Renderer.appendChar, Line.state, hcode, Bool.false_eq_true, if_false, hc,
          if_true, hc ▸ hindent, List.length_append, List.length_singleton, List.any_append,
          List.any_cons, List.any_nil, ne_eq, not_true_eq_false, decide_false, Bool.or_false]
      · simp only [Renderer.appendChar, Line.state, hcode, Bool.false_eq_true, if_false, hc,
          hindent, List.length_append, List.length_singleton, List.any_append, List.any_cons,
          List.any_nil, Bool.false_or, ne_eq, not_false_eq_true, decide_true, Bool.true_or,
          Nat.add_zero]

theorem append_state (text : Text) (line : Line) :
    text.foldl Renderer.appendChar line.state = { line with text := line.text ++ text }.state := by
  induction text generalizing line with
  | nil => rw [List.foldl_nil, List.append_nil]
  | cons c text ih => rw [List.foldl_cons, appendChar_state, ih, List.append_assoc]; rfl

/-- What is pending and what was rendered, as a point of a drawing. -/
structure Holds (r : Renderer) (is : List Instruction) (p : Page) : Prop where
  pending : Chain r.continuations r.pending is
  lines : r.lines = p.done.map Line.text
  line : r.line = p.line.text
  state : r.state = p.line.state
  block : r.inBlockComment = p.inBlock

/-- Every text of the instruction closes every block comment it opens. -/
def Instruction.Closed : Instruction → Prop
  | .layout _ item _ => item.Closed
  | .text body | .comment body => Closes body
  | .spaces _ | .lineBreak => True

section Kept

variable (whole : List Nat → Page) (last : Nat)

/-- The candidates of a line from a cursor back, which are earlier points of the line and
    constructs before `bound`. -/
inductive Stacked (arena : List Continuation) (candidates : List Candidate)
    (broken : List Nat) : Cursor → Page → Nat → Prop
  | nil {p : Page} {bound : Nat} :
      p.line.candidate = none → Stacked arena candidates broken none p bound
  | cons {i bound : Nat} {p page : Page} {candidate : Candidate} {is : List Instruction}
      (found : candidates[i]? = some candidate)
      (offered : p.line.candidate = some candidate.group)
      (before : candidate.group < bound) (unbroken : candidate.group ∉ broken)
      (pending : Chain arena candidate.cursor is)
      (reached : Reached whole last broken is page candidate.group)
      (inside : candidate.group < last)
      (closed : ∀ i ∈ is, i.Closed) (outside : page.inBlock = false)
      (bytes : candidate.bytes = page.line.text.length)
      (state : candidate.state = page.line.state)
      (done : page.done = p.done) (grown : page.line.text <+: p.line.text)
      (rest : Stacked arena candidates broken candidate.previous page candidate.group) :
      Stacked arena candidates broken (some i) p bound

/-- What the renderer keeps at every step: its point, the candidates of the line, and that no
    complete line can be broken. -/
structure Kept (r : Renderer) (is : List Instruction) (p : Page) (n : Nat) : Prop where
  holds : Holds r is p
  stacked : ∀ w, r.width = some w →
    Stacked whole last r.continuations r.candidates r.broken r.lastCandidate p n
  committed : ∀ w, r.width = some w → ∀ line ∈ p.done, line.breaks w = none
  unlimited : r.width = none → r.lastCandidate = none

variable {whole : List Nat → Page} {last : Nat} {arena : List Continuation}
variable {candidates : List Candidate} {broken : List Nat} {cursor : Cursor} {p q : Page}
variable {n : Nat} {r : Renderer} {is : List Instruction}

theorem Stacked.line (h : Stacked whole last arena candidates broken cursor p n) (q : Page)
    (hcandidate : q.line.candidate = p.line.candidate) (hdone : q.done = p.done)
    (hgrown : p.line.text <+: q.line.text) {m : Nat} (hle : n ≤ m) :
    Stacked whole last arena candidates broken cursor q m := by
  cases h with
  | nil hnone => exact .nil (hcandidate.trans hnone)
  | cons found offered before unbroken pending reached inside closed outside bytes state done grown
      rest =>
      exact .cons found (hcandidate.trans offered) (Nat.lt_of_lt_of_le before hle) unbroken pending
        reached inside closed outside bytes state (done.trans hdone.symm) (grown.trans hgrown) rest

theorem Stacked.push (h : Stacked whole last arena candidates broken cursor p n)
    (entry : Continuation) :
    Stacked whole last (arena ++ [entry]) candidates broken cursor p n := by
  induction h with
  | nil hnone => exact .nil hnone
  | cons found offered before unbroken pending reached inside closed outside bytes state done grown
      rest ih =>
      exact .cons found offered before unbroken (pending.push entry) reached inside closed outside
        bytes state done grown ih

theorem Stacked.addCandidate (h : Stacked whole last arena candidates broken cursor p n)
    (candidate : Candidate) :
    Stacked whole last arena (candidates ++ [candidate]) broken cursor p n := by
  induction h with
  | nil hnone => exact .nil hnone
  | cons found offered before unbroken pending reached inside closed outside bytes state done grown
      rest ih =>
      refine .cons ?_ offered before unbroken pending reached inside closed outside bytes state done
        grown ih
      rw [List.getElem?_append_left (List.getElem?_eq_some_iff.1 found).1]
      exact found

theorem Stacked.insert {id : Nat} (h : Stacked whole last arena candidates broken cursor p n)
    (hle : n ≤ id) : Stacked whole last arena candidates (id :: broken) cursor p n := by
  induction h with
  | nil hnone => exact .nil hnone
  | cons found offered before unbroken pending reached inside closed outside bytes state done grown
      rest ih =>
      have hlt := Nat.lt_of_lt_of_le before hle
      refine .cons found offered before ?_ pending (reached.insert (Nat.le_of_lt hlt)) inside closed
        outside bytes state done grown (ih (Nat.le_of_lt hlt))
      exact fun hmem => (List.mem_cons.1 hmem).elim (fun heq => by omega) unbroken

theorem Holds.prepend (h : Holds r is p) (i : Instruction) :
    Holds (r.prepend i) (i :: is) p := by
  have hentry : (r.continuations ++ [⟨i, r.pending⟩])[r.continuations.length]? =
      some ⟨i, r.pending⟩ := List.getElem?_concat_length
  exact ⟨.cons hentry (h.pending.push _), h.lines, h.line, h.state, h.block⟩

theorem Kept.prepend (h : Kept whole last r is p n) (i : Instruction) :
    Kept whole last (r.prepend i) (i :: is) p n :=
  ⟨h.holds.prepend i, fun w hw => (h.stacked w hw).push _, h.committed, h.unlimited⟩

theorem Kept.prependAll (h : Kept whole last r is p n) (js : List Instruction) :
    Kept whole last (r.prependAll js) (js ++ is) p n := by
  induction js with
  | nil => exact h
  | cons j js ih => exact ih.prepend j

theorem Kept.append (h : Kept whole last r is p n) (text : Text) :
    Kept whole last (r.append text) is (p.put text) n := by
  refine ⟨⟨h.holds.pending, h.holds.lines, ?_, ?_, h.holds.block⟩, fun w hw => ?_, h.committed,
    h.unlimited⟩
  · exact congrArg (· ++ text) h.holds.line
  · rw [Renderer.append, h.holds.state]
    exact append_state text p.line
  · exact (h.stacked w hw).line (p.put text) rfl rfl (List.prefix_append _ _) (Nat.le_refl n)

theorem Kept.mark (h : Kept whole last r is p n) : Kept whole last r.markCode is p.mark n := by
  refine ⟨⟨h.holds.pending, h.holds.lines, h.holds.line, ?_, h.holds.block⟩, fun w hw => ?_,
    h.committed, h.unlimited⟩
  · rw [Renderer.markCode, h.holds.state]
    rfl
  · exact (h.stacked w hw).line p.mark rfl rfl (List.prefix_refl _) (Nat.le_refl n)

theorem Kept.appendLine (h : Kept whole last r is p n) (line : Text) :
    Kept whole last (r.appendLine line) is (p.writeLine line) n := by
  have hblock := h.holds.block
  have hcomment : Kept whole last
      { r with inBlockComment := (lineCommentStart line p.inBlock).2 } is
      { p with inBlock := (lineCommentStart line p.inBlock).2 } n :=
    ⟨⟨h.holds.pending, h.holds.lines, h.holds.line, h.holds.state, rfl⟩,
      fun w hw => (h.stacked w hw).line { p with inBlock := (lineCommentStart line p.inBlock).2 }
        rfl rfl (List.prefix_refl _) (Nat.le_refl n), h.committed, h.unlimited⟩
  rw [Renderer.appendLine, hblock, Page.writeLine]
  generalize lineCommentStart line p.inBlock = found at *
  rcases found with ⟨found, inBlock⟩
  cases found with
  | none => exact hcomment.append line
  | some start => exact ((hcomment.append _).mark).append _

theorem Kept.later (h : Kept whole last r is p n) {m : Nat} (hle : n ≤ m) :
    Kept whole last r is p m :=
  ⟨h.holds, fun w hw => (h.stacked w hw).line p rfl rfl (List.prefix_refl _) hle, h.committed,
    h.unlimited⟩

theorem Kept.indent (h : Kept whole last r is p n) : r.state.indent = indentOf p.line.text := by
  rw [h.holds.state]
  rfl

theorem Kept.group {id : Nat} {item : Layout} {inline : Bool} {cursor : Cursor}
    (h : Kept whole last r is p id) (hown : item.own = 1)
    (hcursor : Chain r.continuations cursor (.layout id item inline :: is))
    (hreached : Reached whole last r.broken (.layout id item inline :: is) p id)
    (hclosed : ∀ i ∈ .layout id item inline :: is, i.Closed) (houtside : p.inBlock = false)
    (nonempty : Bool) :
    (r.group id nonempty inline cursor).1 = decide (id ∈ r.broken) ∧
      Kept whole last (r.group id nonempty inline cursor).2 is
        (p.offerUnless (id ∈ r.broken) id nonempty inline) (id + 1) ∧
      (r.group id nonempty inline cursor).2.broken = r.broken ∧
      (r.group id nonempty inline cursor).2.width = r.width := by
  have hinside : id < last := by
    have hle := numbered_le hreached.advance.numbered
    have hone : (Instruction.layout id item inline).own = 1 := hown
    omega
  by_cases hbroken : id ∈ r.broken
  · rw [Renderer.group, if_pos hbroken, Page.offerUnless, if_pos (decide_eq_true hbroken)]
    exact ⟨(decide_eq_true hbroken).symm, h.later (Nat.le_succ id), rfl, rfl⟩
  · rw [Renderer.group, if_neg hbroken, Page.offerUnless]
    simp only [hbroken, decide_false, Bool.false_eq_true, if_false]
    by_cases hoffer : nonempty = true ∧ (!inline) = true
    · rw [if_pos hoffer]
      by_cases hwidth : r.width.isSome = true
      · rw [if_pos ⟨hoffer.1, hoffer.2, hwidth⟩]
        refine ⟨rfl, ⟨⟨h.holds.pending, h.holds.lines, h.holds.line,
          h.holds.state, h.holds.block⟩, fun w hw => ?_, h.committed, ?_⟩, rfl, rfl⟩
        · refine .cons List.getElem?_concat_length rfl (Nat.lt_succ_self id) hbroken
            hcursor hreached hinside hclosed houtside (congrArg List.length h.holds.line)
            h.holds.state rfl (List.prefix_refl _) ?_
          exact (h.stacked w hw).addCandidate _
        · intro hnone
          rw [show r.width = none from hnone] at hwidth
          exact absurd hwidth Bool.false_ne_true
      · rw [if_neg fun hall => hwidth hall.2.2]
        have hnone : r.width = none := Option.not_isSome_iff_eq_none.1 hwidth
        refine ⟨rfl, ⟨⟨h.holds.pending, h.holds.lines, h.holds.line,
          h.holds.state, h.holds.block⟩, fun w hw => ?_, h.committed, h.unlimited⟩, rfl, rfl⟩
        rw [hnone] at hw
        cases hw
    · rw [if_neg hoffer, if_neg fun hall => hoffer ⟨hall.1, hall.2.1⟩]
      exact ⟨rfl, h.later (Nat.le_succ id), rfl, rfl⟩

theorem Kept.commit (h : Kept whole last r is p n)
    (hbreaks : ∀ w, r.width = some w → p.line.breaks w = none) :
    Kept whole last r.commit is p.close n := by
  refine ⟨⟨h.holds.pending, ?_, rfl, rfl, h.holds.block⟩, fun w hw => .nil rfl, fun w hw => ?_,
    fun _ => rfl⟩
  · rw [Renderer.commit, h.holds.lines, h.holds.line, Page.close, List.map_append]
    rfl
  · intro line hmem
    rcases List.mem_append.1 hmem with hmem | hmem
    · exact h.committed w hw line hmem
    · rw [List.mem_singleton.1 hmem]
      exact hbreaks w hw

/-- What a rewind leaves: a point before a construct that is now broken. -/
structure Rewound (whole : List Nat → Page) (last : Nat) (r r' : Renderer) (line : Line) :
    Prop where
  width : r'.width = r.width
  block : r'.inBlockComment = r.inBlockComment
  point : ∃ id is page w, r.width = some w ∧ line.breaks w = some id ∧ id ∉ r.broken ∧
    id < last ∧ r'.broken = id :: r.broken ∧ Reached whole last r'.broken is page id ∧
    (∀ i ∈ is, i.Closed) ∧ page.inBlock = false ∧
    (r'.inBlockComment = false → Kept whole last r' is page id)

/-- Going back to the last candidate of a line that is too long. -/
theorem Kept.rewind (h : Kept whole last r is p n) {w i : Nat} (hwidth : r.width = some w)
    (hlong : p.line.columns > w)
    (hstacked : Stacked whole last r.continuations r.candidates r.broken (some i) p n) :
    ∃ candidate, r.candidates[i]? = some candidate ∧
      Rewound whole last r (r.rewind candidate) p.line := by
  cases hstacked with
  | @cons _ _ _ page candidate is found offered before unbroken pending reached inside closed
      outside bytes state done grown rest =>
      refine ⟨candidate, found, rfl, rfl, candidate.group, is, page, w, hwidth, ?_, unbroken,
        inside, rfl, reached.insert (Nat.le_refl _), closed, outside, fun hblock => ?_⟩
      · rw [Line.breaks, if_neg (Nat.not_le_of_lt hlong), offered]
      · refine ⟨⟨pending, ?_, ?_, state, hblock.trans outside.symm⟩, fun v hv =>
          rest.insert (Nat.le_refl _), fun v hv => ?_, fun hnone => ?_⟩
        · rw [done]
          exact h.holds.lines
        · rw [Renderer.rewind, h.holds.line, bytes]
          exact (List.prefix_iff_eq_take.1 grown).symm
        · rw [done]
          exact h.committed v hv
        · rw [show r.width = none from hnone] at hwidth
          exact nomatch hwidth

theorem Kept.finish (h : Kept whole last r is p n) :
    (r.finishLine = some (true, r.commit) ∧ (∀ w, r.width = some w → p.line.breaks w = none)) ∨
      ∃ r', r.finishLine = some (false, r') ∧ Rewound whole last r r' p.line := by
  cases hwidth : r.width with
  | none =>
      refine .inl ⟨by rw [Renderer.finishLine, hwidth], fun w hw => nomatch hw⟩
  | some w =>
      have hcolumns : r.state.codeColumns.getD r.state.columns = p.line.columns := by
        rw [h.holds.state]
        rfl
      have hstacked := h.stacked w hwidth
      cases hlast : r.lastCandidate with
      | none =>
          refine .inl ⟨by rw [Renderer.finishLine, hwidth, hlast], fun v hv => ?_⟩
          rw [hlast] at hstacked
          cases hstacked with
          | nil hnone => rw [Line.breaks, hnone, ite_self]
      | some i =>
          rw [hlast] at hstacked
          by_cases hlong : p.line.columns > w
          · rcases h.rewind hwidth hlong hstacked with ⟨candidate, hfound, hrewound⟩
            refine .inr ⟨r.rewind candidate, ?_, hrewound⟩
            rw [Renderer.finishLine, hwidth, hlast]
            dsimp only
            rw [hcolumns, if_pos hlong, hfound]
            rfl
          · refine .inl ⟨?_, fun v hv => ?_⟩
            · rw [Renderer.finishLine, hwidth, hlast]
              dsimp only
              rw [hcolumns, if_neg hlong]
            · cases hv
              rw [Line.breaks, if_pos (Nat.le_of_not_lt hlong)]

end Kept

end Fmt

end Ridl
