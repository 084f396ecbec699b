import Mathlib.Data.Finset.Card
import Mathlib.Logic.Relation
import Ridl.Fmt.Rewinding
import Ridl.Fmt.Written

/-!
# The Incremental Renderer Against the Reference

Both renderers give the same lines.

A step of the incremental renderer is a step of the drawing for its set of broken
constructs, unless it rewinds (`Stands.step`). It rewinds at the first line of that
drawing that is too long and on which a construct can be broken, and it breaks the last
such construct: the one the reference renderer breaks next. So both break the same
constructs one after the other, and both end with the drawing in which no line can
break.

A rewind restores the state of the line but not whether the text is inside a block
comment. The two renderers agree where no rewind happens at the end of a line that ends
inside a block comment.

## Theorems

* `Stands.step`: A step draws, rewinds or ends.
* `render_eq_reference`: The incremental renderer gives the lines of the reference.
-/

namespace Ridl

namespace Fmt

open Library

section Closed

theorem closed_text {text : Text} (h : text.splitOn '\n' = [text])
    (hcomment : lineCommentStart text false = (none, false)) : (Instruction.text text).Closed := by
  change blockAfter false (text.splitOn '\n') = false
  rw [h, blockAfter, List.foldl_cons, List.foldl_nil, hcomment]

theorem closed_symbol (text : Text) (h : IsSymbol text) : (Instruction.text text).Closed :=
  closed_text h.1 h.2

variable {is : List Instruction}

theorem closed_if {c : Prop} [Decidable c] {js : List Instruction}
    (his : ∀ i ∈ is, i.Closed) (hjs : ∀ i ∈ js, i.Closed) :
    ∀ i ∈ if c then is else js, i.Closed := by
  split_ifs
  · exact his
  · exact hjs

theorem closed_append {js : List Instruction} (his : ∀ i ∈ is, i.Closed)
    (hjs : ∀ i ∈ js, i.Closed) : ∀ i ∈ is ++ js, i.Closed :=
  List.forall_mem_append.2 ⟨his, hjs⟩

theorem closed_cons {i : Instruction} (hi : i.Closed)
    (his : ∀ i ∈ is, i.Closed) : ∀ j ∈ i :: is, j.Closed :=
  List.forall_mem_cons.2 ⟨hi, his⟩

theorem closed_nil : ∀ i ∈ ([] : List Instruction), i.Closed := nofun

theorem closed_concat {parts : List Layout}
    (h : Layout.EachOf (fun _ text => Closes text) parts) (inline : Bool) (group : Nat) :
    ∀ i ∈ concatInstructions inline group parts, i.Closed := by
  induction parts generalizing group with
  | nil => exact closed_nil
  | cons part parts ih => exact closed_cons h.1 (ih h.2 _)

theorem closed_separator (i : Nat) :
    ∀ j ∈ if i > 0 then [Instruction.text [',', ' ']] else [], j.Closed :=
  closed_if (closed_cons (closed_symbol _ (by decide)) closed_nil) closed_nil

theorem closed_before (broken : Bool) (indent i : Nat) :
    ∀ j ∈ if broken then [Instruction.lineBreak, .spaces (indent + 2)]
      else if i > 0 then [.text [',', ' ']] else [], j.Closed :=
  closed_if (closed_cons trivial (closed_cons trivial closed_nil)) (closed_separator i)

theorem closed_comma (c : Prop) [Decidable c] :
    ∀ j ∈ if c then [Instruction.text [',']] else [], j.Closed :=
  closed_if (closed_cons (closed_symbol _ (by decide)) closed_nil) closed_nil

theorem closed_tupleItems {items : List Layout}
    (h : Layout.EachOf (fun _ text => Closes text) items) (broken : Bool)
    (indent count i group : Nat) :
    ∀ j ∈ tupleItems broken indent count i group items, j.Closed := by
  induction items generalizing i group with
  | nil => exact closed_nil
  | cons item items ih =>
      rw [tupleItems]
      exact closed_append (closed_append (closed_append (closed_before broken indent i)
        (closed_cons h.1 closed_nil)) (closed_comma _)) (ih h.2 _ _)

theorem closed_shapeItems {items : List Text} (h : ∀ item ∈ items, Closes item) (broken : Bool)
    (indent count i : Nat) : ∀ j ∈ shapeItems broken indent count i items, j.Closed := by
  induction items generalizing i with
  | nil => exact closed_nil
  | cons item items ih =>
      rcases List.forall_mem_cons.1 h with ⟨hitem, hitems⟩
      rw [shapeItems]
      exact closed_append (closed_append (closed_append (closed_before broken indent i)
        (closed_cons hitem closed_nil)) (closed_comma _)) (ih hitems _)

theorem closed_leading {comments : List PendingComment}
    (h : ∀ comment ∈ comments, Closes comment.text) (indent i : Nat) :
    ∀ j ∈ leadingInstructions indent i comments, j.Closed := by
  induction comments generalizing i with
  | nil => exact closed_nil
  | cons comment comments ih =>
      rcases List.forall_mem_cons.1 h with ⟨hcomment, hcomments⟩
      rw [leadingInstructions]
      exact closed_append (closed_append (closed_if (closed_cons trivial closed_nil) closed_nil)
        (closed_cons trivial (closed_cons trivial (closed_cons hcomment closed_nil))))
        (ih hcomments _)

theorem closed_comments {comments : List Text} (h : ∀ comment ∈ comments, Closes comment) :
    ∀ j ∈ comments.map Instruction.comment, j.Closed := by
  intro j hj
  rcases List.mem_map.1 hj with ⟨comment, hmem, rfl⟩
  exact h comment hmem

theorem closed_gap (c : Prop) [Decidable c] :
    ∀ j ∈ if c then [Instruction.lineBreak] else [], j.Closed :=
  closed_if (closed_cons trivial closed_nil) closed_nil

theorem closed_block {blocks : List (AttributeLayout Layout)}
    (h : Layout.EachIn (fun _ text => Closes text) blocks) (broken : Bool)
    (indent index group : Nat) :
    ∀ j ∈ blockInstructions broken indent index group blocks, j.Closed := by
  induction blocks generalizing index group with
  | nil => exact closed_nil
  | cons block blocks ih =>
      rcases block with ⟨gapBlank, leading, blankBeforeNode, item, trailing⟩
      cases item with
      | none =>
          rw [blockInstructions]
          refine closed_append (closed_if ?_ ?_) (ih h.2.2 _ _)
          · exact closed_append (closed_append (closed_append (closed_append (closed_gap _)
              (closed_leading h.1 indent 0)) (closed_gap _)) closed_nil) (closed_comments h.2.1)
          · exact closed_append (closed_separator index) closed_nil
      | some item =>
          rw [blockInstructions]
          refine closed_append (closed_if ?_ ?_) (ih h.2.2.2 _ _)
          · exact closed_append (closed_append (closed_append (closed_append (closed_gap _)
              (closed_leading h.1 indent 0)) (closed_gap _)) (closed_cons trivial
              (closed_cons trivial (closed_cons h.2.2.1 closed_nil)))) (closed_comments h.2.1)
          · exact closed_append (closed_separator index) (closed_cons h.2.2.1 closed_nil)

/-- What replaces a layout closes its block comments as the layout does. -/
theorem closed_advance (broken : List Nat) (id : Nat) {item : Layout} (h : item.Closed)
    (inline : Bool) (p : Page) :
    ∀ i ∈ (advance broken (.layout id item inline) p).1, i.Closed := by
  cases item with
  | text body => exact closed_cons h closed_nil
  | trailingComment body => exact closed_cons h closed_nil
  | lineBreak => exact closed_cons trivial (closed_cons trivial closed_nil)
  | concat parts => exact closed_concat h inline id
  | tuple items =>
      exact closed_append (closed_append (closed_append
        (closed_cons (closed_symbol _ (by decide)) closed_nil) (closed_tupleItems h _ _ _ _ _))
        (closed_if (closed_cons trivial (closed_cons trivial closed_nil)) closed_nil))
        (closed_cons (closed_symbol _ (by decide)) closed_nil)
  | shapes items =>
      exact closed_append (closed_if (closed_cons (closed_symbol _ (by decide)) closed_nil)
        closed_nil) (closed_shapeItems h _ _ _ _)
  | attributes blocks forceBlock =>
      refine closed_append (closed_append (closed_cons ?_ closed_nil) (closed_block h _ _ _ _))
        (closed_if (closed_cons trivial (closed_cons trivial
          (closed_cons (closed_symbol _ (by decide)) closed_nil)))
          (closed_cons (closed_symbol _ (by decide)) closed_nil))
      split_ifs
      · exact closed_symbol _ (by decide)
      · exact closed_symbol _ (by decide)

end Closed

section Steps

/-- What is pending closes the block comment the text is in, and every other. -/
def Settled (inBlock : Bool) : List Instruction → Prop
  | .text body :: is => blockAfter inBlock (body.splitOn '\n') = false ∧ ∀ i ∈ is, i.Closed
  | is => inBlock = false ∧ ∀ i ∈ is, i.Closed

theorem Settled.of_closed {is : List Instruction} (h : ∀ i ∈ is, i.Closed) : Settled false is := by
  cases is with
  | nil => exact ⟨rfl, h⟩
  | cons i is =>
      rcases List.forall_mem_cons.1 h with ⟨hi, his⟩
      cases i with
      | text body => exact ⟨hi, his⟩
      | layout | spaces | comment | lineBreak => exact ⟨rfl, h⟩

/-- The renderer is between two steps, at a point of the drawing. -/
structure Stands (whole : List Nat → Page) (last : Nat) (r : Renderer) (is : List Instruction)
    (p : Page) (n : Nat) : Prop where
  kept : Kept whole last r is p n
  reached : Reached whole last r.broken is p n
  settled : Settled p.inBlock is

/-- The renderer broke the construct to break next, and stands before it if it is outside
    a block comment. -/
structure Back (whole : List Nat → Page) (last : Nat) (r r' : Renderer) : Prop where
  width : r'.width = r.width
  point : ∃ id is page w, r.width = some w ∧
    (whole r.broken).lines.findSome? (Line.breaks w) = some id ∧ id ∉ r.broken ∧ id < last ∧
    r'.broken = id :: r.broken ∧ (r'.inBlockComment = false → Stands whole last r' is page id)

/-- The renderer came to a point with less to draw. -/
structure Onward (whole : List Nat → Page) (last : Nat) (r r' : Renderer) (work : Nat) :
    Prop where
  width : r'.width = r.width
  broken : r'.broken = r.broken
  point : ∃ is p n, Stands whole last r' is p n ∧ weight is < work

variable {whole : List Nat → Page} {last : Nat} {r : Renderer} {is : List Instruction}
variable {p : Page} {n : Nat}

theorem findSome?_done {p q : Page} (h : p.done ++ [p.line] <+: q.lines) {w id : Nat}
    (hdone : ∀ line ∈ p.done, line.breaks w = none) (hline : p.line.breaks w = some id) :
    q.lines.findSome? (Line.breaks w) = some id := by
  rcases h with ⟨rest, hrest⟩
  rw [← hrest, List.append_assoc, List.findSome?_append, List.findSome?_eq_none_iff.2 hdone,
    Option.none_or, List.findSome?_append, List.findSome?_cons, hline]
  rfl

variable {r' : Renderer} {cursor : Cursor}

theorem Kept.back (h : Kept whole last r is p n)
    (hlines : p.done ++ [p.line] <+: (whole r.broken).lines)
    (hrewound : Rewound whole last r r' p.line) : Back whole last r r' := by
  rcases hrewound with ⟨hwidth, hblock, id, is', page, w, hw, hbreaks, hunbroken, hinside, hbroken,
    hreached, hclosed, houtside, hkept⟩
  refine ⟨hwidth, id, is', page, w, hw, findSome?_done hlines (h.committed w hw) hbreaks, hunbroken,
    hinside, hbroken, fun hnot => ⟨hkept hnot, hreached, ?_⟩⟩
  rw [houtside]
  exact Settled.of_closed hclosed

theorem Reached.close (h : Reached whole last r.broken (.lineBreak :: is) p n) :
    Reached whole last r.broken is p.close n := h.advance

theorem Kept.lineBreak (h : Kept whole last r is p n)
    (hreached : Reached whole last r.broken (.lineBreak :: is) p n)
    (hsettled : Settled p.inBlock is) :
    ∃ b r', r.finishLine = some (b, r') ∧
      (Back whole last r r' ∨
        Stands whole last r' is p.close n ∧ r'.width = r.width ∧ r'.broken = r.broken) := by
  rcases h.finish with ⟨hfinish, hbreaks⟩ | ⟨r', hfinish, hrewound⟩
  · exact ⟨true, r.commit, hfinish, .inr ⟨⟨h.commit hbreaks, hreached.close, hsettled⟩, rfl, rfl⟩⟩
  · refine ⟨false, r', hfinish, .inl (h.back ?_ hrewound)⟩
    have hdone := drawAll_done r.broken is p.close
    rw [hreached.close.drawAll_eq] at hdone
    exact hdone.trans (List.prefix_append _ _)

/-- A step either goes on drawing or goes back. -/
def Goes (whole : List Nat → Page) (last : Nat) (r r' : Renderer) (work : Nat) : Prop :=
  Back whole last r r' ∨ Onward whole last r r' work

theorem Goes.mono {m m' : Nat} (h : Goes whole last r r' m) (hle : m ≤ m') :
    Goes whole last r r' m' := by
  rcases h with hback | ⟨hwidth, hbroken, is, p, n, hstands, hlt⟩
  · exact .inl hback
  · exact .inr ⟨hwidth, hbroken, is, p, n, hstands, Nat.lt_of_lt_of_le hlt hle⟩

theorem appendLine_width (line : Text) : (r.appendLine line).width = r.width := by
  rw [Renderer.appendLine]
  rcases lineCommentStart line r.inBlockComment with ⟨_ | _, _⟩ <;> rfl

theorem appendLine_broken (line : Text) : (r.appendLine line).broken = r.broken := by
  rw [Renderer.appendLine]
  rcases lineCommentStart line r.inBlockComment with ⟨_ | _, _⟩ <;> rfl

/-- A text is drawn to its first line break. -/
theorem Kept.text {body : Text} (h : Kept whole last r is p n)
    (hreached : Reached whole last r.broken (.text body :: is) p n)
    (hsettled : Settled p.inBlock (.text body :: is)) :
    ∃ r', r.text body = some r' ∧ Goes whole last r r' (weight (.text body :: is)) := by
  have hadvanced := hreached.advance
  have hlight := weight_advance r.broken (.text body) p
  rw [Renderer.text]
  rw [advance] at hadvanced hlight
  cases hsplit : splitLine body with
  | none =>
      rw [hsplit] at hadvanced hlight
      refine ⟨_, rfl, .inr ⟨appendLine_width body, appendLine_broken body, is, p.writeLine body, n,
        ⟨h.appendLine body, ?_, ?_⟩, ?_⟩⟩
      · rw [appendLine_broken]
        exact hadvanced
      · have hafter := hsettled.1
        rw [List.splitOn_eq_singleton (splitLine_eq_none hsplit)] at hafter
        change Settled (lineCommentStart body p.inBlock).2 is
        rw [show (lineCommentStart body p.inBlock).2 = false from hafter]
        exact Settled.of_closed hsettled.2
      · rw [weight_cons]
        exact Nat.lt_add_of_pos_left (Nat.zero_lt_of_lt hlight)
  | some split =>
      rcases split with ⟨line, rest⟩
      rw [hsplit] at hadvanced hlight
      rcases splitLine_eq_some hsplit with ⟨hbody, hline⟩
      have hprepend := (h.appendLine line).prepend (.text rest)
      have hbroken : ((r.appendLine line).prepend (.text rest)).broken = r.broken :=
        appendLine_broken line
      have hwidth : ((r.appendLine line).prepend (.text rest)).width = r.width :=
        appendLine_width line
      have hafter := hsettled.1
      rw [hbody, List.splitOn_append_cons_self_of_not_mem hline] at hafter
      rcases hprepend.lineBreak (hbroken.symm ▸ hadvanced) ⟨hafter, hsettled.2⟩ with
        ⟨b, r', hfinish, hback | ⟨hstands, hwidth', hbroken'⟩⟩
      · refine ⟨r', by dsimp only; rw [hfinish]; rfl, .inl ?_⟩
        rcases hback with ⟨hw, hpoint⟩
        exact ⟨hw.trans hwidth, by rw [← hwidth, ← hbroken]; exact hpoint⟩
      · refine ⟨r', by dsimp only; rw [hfinish]; rfl, .inr ⟨hwidth'.trans hwidth,
          hbroken'.trans hbroken, _, _, _, hstands, ?_⟩⟩
        simp only [weight_cons, weight_nil] at hlight ⊢
        omega

theorem prependAll_broken (r : Renderer) (js : List Instruction) :
    (r.prependAll js).broken = r.broken ∧ (r.prependAll js).width = r.width := by
  induction js with
  | nil => exact ⟨rfl, rfl⟩
  | cons j js ih => exact ih

/-- A construct is replaced by its instructions, after it may have become a candidate. -/
theorem Stands.replaced {item : Layout} {inline : Bool} {group : Nat} {r : Renderer}
    (hreached : Reached whole last r.broken (.layout group item inline :: is) p n)
    (hclosed : ∀ i ∈ .layout group item inline :: is, i.Closed) (houtside : p.inBlock = false)
    (hinside : (advance r.broken (.layout group item inline) p).2.inBlock = p.inBlock)
    (hbroken : r'.broken = r.broken) (hwidth : r'.width = r.width)
    (hkept : Kept whole last r' is (advance r.broken (.layout group item inline) p).2
      (n + item.own)) :
    Goes whole last r (r'.prependAll (advance r.broken (.layout group item inline) p).1)
      (weight (.layout group item inline :: is)) := by
  rcases List.forall_mem_cons.1 hclosed with ⟨hitem, his⟩
  have hprepended := prependAll_broken r' (advance r.broken (.layout group item inline) p).1
  rcases hprepended with ⟨hb, hw⟩
  refine .inr ⟨hw.trans hwidth, hb.trans hbroken, _, _, _, ⟨hkept.prependAll _, ?_, ?_⟩, ?_⟩
  · rw [hb, hbroken]
    exact hreached.advance
  · rw [hinside, houtside]
    exact Settled.of_closed (closed_append (closed_advance r.broken group hitem inline p) his)
  · rw [weight_append, weight_cons]
    exact Nat.add_lt_add_right (weight_advance r.broken _ p) _

theorem offerUnless_inBlock (broken : Bool) (id : Nat) (nonempty inline : Bool) (p : Page) :
    (p.offerUnless broken id nonempty inline).inBlock = p.inBlock := by
  rw [Page.offerUnless]
  split_ifs <;> rfl

theorem offerUnless_text (broken : Bool) (id : Nat) (nonempty inline : Bool) (p : Page) :
    (p.offerUnless broken id nonempty inline).line.text = p.line.text := by
  rw [Page.offerUnless]
  split_ifs <;> rfl

/-- A layout is drawn as its instructions are. -/
theorem Kept.layout {item : Layout} {inline : Bool} {group : Nat} (h : Kept whole last r is p n)
    (hcursor : Chain r.continuations cursor (.layout group item inline :: is))
    (hreached : Reached whole last r.broken (.layout group item inline :: is) p n)
    (hsettled : Settled p.inBlock (.layout group item inline :: is)) :
    ∃ r', r.layout group item inline cursor = some r' ∧
      Goes whole last r r' (weight (.layout group item inline :: is)) := by
  rcases hsettled with ⟨houtside, hclosed⟩
  have hgroup : group = n := hreached.numbered.1
  cases item with
  | text body =>
      rcases List.forall_mem_cons.1 hclosed with ⟨hitem, his⟩
      rcases h.text hreached.advance ⟨by rw [houtside]; exact hitem, his⟩ with ⟨r', htext, hgoes⟩
      refine ⟨r', htext, hgoes.mono ?_⟩
      simp only [weight_cons, Instruction.weight, Layout.weight]
      omega
  | trailingComment body =>
      exact ⟨_, rfl, Stands.replaced hreached hclosed houtside rfl rfl rfl h⟩
  | lineBreak =>
      refine ⟨_, rfl, ?_⟩
      rw [h.indent]
      exact Stands.replaced hreached hclosed houtside rfl rfl rfl h
  | concat parts => exact ⟨_, rfl, Stands.replaced hreached hclosed houtside rfl rfl rfl h⟩
  | tuple items =>
      rw [hgroup] at hcursor hreached hclosed ⊢
      rcases h.group rfl hcursor hreached hclosed houtside (items ≠ []) with ⟨hb, hk, hbr, hw⟩
      have hlayout : r.layout n (.tuple items) inline cursor =
          some ((r.group n (items ≠ []) inline cursor).2.prependAll
            (tupleInstructions (r.group n (items ≠ []) inline cursor).1
              (r.group n (items ≠ []) inline cursor).2.state.indent n items)) := rfl
      rw [hlayout, hb, hk.indent, offerUnless_text]
      exact ⟨_, rfl, Stands.replaced hreached hclosed houtside (offerUnless_inBlock _ _ _ _ _) hbr
        hw hk⟩
  | shapes items =>
      rw [hgroup] at hcursor hreached hclosed ⊢
      rcases h.group rfl hcursor hreached hclosed houtside (items ≠ []) with ⟨hb, hk, hbr, hw⟩
      have hlayout : r.layout n (.shapes items) inline cursor =
          some ((r.group n (items ≠ []) inline cursor).2.prependAll
            (shapesInstructions (r.group n (items ≠ []) inline cursor).1
              (r.group n (items ≠ []) inline cursor).2.state.indent items)) := rfl
      rw [hlayout, hb, hk.indent, offerUnless_text]
      exact ⟨_, rfl, Stands.replaced hreached hclosed houtside (offerUnless_inBlock _ _ _ _ _) hbr
        hw hk⟩
  | attributes blocks forceBlock =>
      rw [hgroup] at hcursor hreached hclosed ⊢
      cases forceBlock with
      | true =>
          have hlayout : r.layout n (.attributes blocks true) inline cursor =
              some (r.prependAll (attributesInstructions true r.state.indent n blocks)) := rfl
          have hadvance : advance r.broken (.layout n (.attributes blocks true) inline) p =
              (attributesInstructions true (indentOf p.line.text) n blocks, p) := by
            simp only [advance, true_or, decide_true, Page.offerUnless, if_true]
          have hlater : Kept whole last r is
              (advance r.broken (.layout n (.attributes blocks true) inline) p).2 (n + 1) := by
            rw [hadvance]
            exact h.later (Nat.le_succ n)
          have hreplaced := Stands.replaced hreached hclosed houtside (by rw [hadvance]) rfl rfl
            hlater
          rw [hadvance] at hreplaced
          rw [hlayout, h.indent]
          exact ⟨_, rfl, hreplaced⟩
      | false =>
          rcases h.group rfl hcursor hreached hclosed houtside (blocks ≠ []) with ⟨hb, hk, hbr, hw⟩
          have hlayout : r.layout n (.attributes blocks false) inline cursor =
              some ((r.group n (blocks ≠ []) inline cursor).2.prependAll
                (attributesInstructions (r.group n (blocks ≠ []) inline cursor).1
                  (r.group n (blocks ≠ []) inline cursor).2.state.indent n blocks)) := rfl
          have hadvance : advance r.broken (.layout n (.attributes blocks false) inline) p =
              (attributesInstructions (n ∈ r.broken) (indentOf p.line.text) n blocks,
                p.offerUnless (n ∈ r.broken) n (blocks ≠ []) inline) := by
            simp only [advance, Bool.false_eq_true, false_or]
          have hreplaced := Stands.replaced hreached hclosed houtside
            (by rw [hadvance]; exact offerUnless_inBlock _ _ _ _ _) hbr hw
            (by rw [hadvance]; exact hk)
          rw [hadvance] at hreplaced
          rw [hlayout, hb, hk.indent, offerUnless_text]
          exact ⟨_, rfl, hreplaced⟩

theorem Holds.pop (h : Holds r (i :: is) p)
    (hnext : Chain r.continuations cursor is) (hr : r' = { r with pending := cursor }) :
    Holds r' is p := by
  rw [hr]
  exact ⟨hnext, h.lines, h.line, h.state, h.block⟩

theorem Goes.unpop {m : Nat}
    (h : Goes whole last { r with pending := cursor } r' m) : Goes whole last r r' m := by
  rcases h with ⟨hwidth, hpoint⟩ | ⟨hwidth, hbroken, hpoint⟩
  · exact .inl ⟨hwidth, hpoint⟩
  · exact .inr ⟨hwidth, hbroken, hpoint⟩

theorem Stands.step {i : Instruction} (h : Stands whole last r (i :: is) p n) :
    ∃ r', r.step = some (.inl r') ∧ Goes whole last r r' (weight (i :: is)) := by
  generalize hpending : r.pending = cursor
  have hchain := h.kept.holds.pending
  rw [hpending] at hchain
  cases hchain with
  | @cons k entry _ hentry hnext =>
      have hpopped : Kept whole last { r with pending := entry.next } is p n :=
        ⟨h.kept.holds.pop hnext rfl, h.kept.stacked, h.kept.committed, h.kept.unlimited⟩
      have hreached : Reached whole last r.broken (entry.instruction :: is) p n := h.reached
      have hsettled : Settled p.inBlock (entry.instruction :: is) := h.settled
      rw [Renderer.step, hpending]
      dsimp only
      rw [hentry, Option.bind_eq_bind, Option.bind_some]
      cases hi : entry.instruction with
      | layout group item inline =>
          rw [hi] at hreached hsettled
          have hcursor : Chain r.continuations (some k) (.layout group item inline :: is) :=
            hi ▸ .cons hentry hnext
          rcases hpopped.layout hcursor hreached hsettled with ⟨r', hlayout, hgoes⟩
          exact ⟨r', by dsimp only; rw [hlayout]; rfl, hgoes.unpop⟩
      | text body =>
          rw [hi] at hreached hsettled
          rcases hpopped.text hreached hsettled with ⟨r', htext, hgoes⟩
          exact ⟨r', by dsimp only; rw [htext]; rfl, hgoes.unpop⟩
      | spaces count =>
          rw [hi] at hreached hsettled
          rcases List.forall_mem_cons.1 hsettled.2 with ⟨-, his⟩
          refine ⟨_, rfl, .inr ⟨rfl, rfl, is, _, n, ⟨hpopped.append _, hreached.advance, ?_⟩, ?_⟩⟩
          · rw [show (p.put (spaces count)).inBlock = false from hsettled.1]
            exact Settled.of_closed his
          · rw [weight_cons]
            exact Nat.lt_add_of_pos_left Nat.one_pos
      | comment body =>
          rw [hi] at hreached hsettled
          rcases List.forall_mem_cons.1 hsettled.2 with ⟨hbody, his⟩
          refine ⟨_, rfl, .inr ⟨rfl, rfl, .text body :: is, _, n,
            ⟨(hpopped.mark.append _).prepend _, hreached.advance, ?_⟩, ?_⟩⟩
          · rw [show (p.mark.put [' ']).inBlock = false from hsettled.1]
            exact Settled.of_closed (closed_cons hbody his)
          · rw [weight_cons, weight_cons]
            exact Nat.add_lt_add_right (Nat.lt_add_of_pos_left Nat.one_pos) _
      | lineBreak =>
          rw [hi] at hreached hsettled
          rcases List.forall_mem_cons.1 hsettled.2 with ⟨-, his⟩
          have hafter : Settled p.inBlock is := by
            rw [hsettled.1]
            exact Settled.of_closed his
          rcases hpopped.lineBreak hreached hafter with ⟨b, r', hfinish, hback | ⟨hstands, hw, hb⟩⟩
          · exact ⟨r', by dsimp only; rw [hfinish]; rfl, .inl ⟨hback.width, hback.point⟩⟩
          · refine ⟨r', by dsimp only; rw [hfinish]; rfl, .inr ⟨hw, hb, is, _, n, hstands, ?_⟩⟩
            rw [weight_cons]
            exact Nat.lt_add_of_pos_left Nat.one_pos

/-- With nothing left, the last line is committed and rendering ends, or it goes back. -/
theorem Stands.finish (h : Stands whole last r [] p n) :
    (r.step = some (.inr ((whole r.broken).lines.map Line.text)) ∧
      ∀ w, r.width = some w → (whole r.broken).lines.findSome? (Line.breaks w) = none) ∨
      ∃ r', r.step = some (.inl r') ∧ Back whole last r r' := by
  have hwhole : p = whole r.broken := by
    rw [← h.reached.drawAll_eq, drawAll_nil]
  have hpending : r.pending = none := by
    generalize hcursor : r.pending = cursor
    have hchain := h.kept.holds.pending
    rw [hcursor] at hchain
    cases hchain
    rfl
  rcases h.kept.finish with ⟨hfinish, hbreaks⟩ | ⟨r', hfinish, hrewound⟩
  · refine .inl ⟨?_, fun w hw => ?_⟩
    · have hlines : r.commit.lines = p.lines.map Line.text := by
        rw [Renderer.commit, h.kept.holds.lines, h.kept.holds.line, Page.lines, List.map_append]
        rfl
      rw [Renderer.step, hpending]
      dsimp only
      rw [hfinish, Option.map_some, if_pos rfl, hlines, hwhole]
    · rw [List.findSome?_eq_none_iff]
      intro line hmem
      rw [← hwhole] at hmem
      rcases List.mem_append.1 hmem with hmem | hmem
      · exact h.kept.committed w hw line hmem
      · rw [List.mem_singleton.1 hmem]
        exact hbreaks w hw
  · refine .inr ⟨r', ?_, h.kept.back ?_ hrewound⟩
    · rw [Renderer.step, hpending]
      dsimp only
      rw [hfinish, Option.map_some, if_neg Bool.false_ne_true]
    · rw [hwhole]
      exact List.prefix_refl _

end Steps

section Runs

/-- The constructs that are not broken yet. -/
def unbroken (last : Nat) (broken : List Nat) : Nat :=
  (Finset.range last \ broken.toFinset).card

theorem unbroken_cons {last id : Nat} {broken : List Nat} (hlt : id < last)
    (hnot : id ∉ broken) : unbroken last (id :: broken) < unbroken last broken := by
  refine Finset.card_lt_card ⟨fun n hn => ?_, fun hsub => ?_⟩
  · simp only [Finset.mem_sdiff, List.mem_toFinset, List.mem_cons, not_or] at hn ⊢
    exact ⟨hn.1, hn.2.2⟩
  · have hmem : id ∈ Finset.range last \ broken.toFinset := by
      simp only [Finset.mem_sdiff, Finset.mem_range, List.mem_toFinset]
      exact ⟨hlt, hnot⟩
    exact (Finset.mem_sdiff.1 (hsub hmem)).2 (List.mem_toFinset.2 List.mem_cons_self)

/-- One state comes from another by steps. -/
def Steps : Renderer → Renderer → Prop :=
  Relation.ReflTransGen fun r r' => r.step = some (.inl r')

/-- After a rewind the text is outside a block comment. -/
def RewindsOutside (start : Renderer) : Prop :=
  ∀ r r', Steps start r → r.step = some (.inl r') → r'.broken ≠ r.broken →
    r'.inBlockComment = false

variable {r r' : Renderer}

theorem RewindsOutside.step (h : RewindsOutside r)
    (hstep : r.step = some (.inl r')) : RewindsOutside r' := fun s s' hsteps =>
  h s s' (Relation.ReflTransGen.head hstep hsteps)

theorem run_step (hstep : r.step = some (.inl r')) (fuel : Nat) :
    r.run (fuel + 1) = r'.run fuel := by
  rw [Renderer.run, hstep]

theorem run_mono {fuel : Nat} {lines : List Text}
    (h : r.run fuel = some lines) (more : Nat) : r.run (fuel + more) = some lines := by
  induction fuel generalizing r with
  | zero => exact nomatch h
  | succ fuel ih =>
      rw [Nat.add_right_comm]
      rw [Renderer.run] at h ⊢
      cases hstep : r.step with
      | none =>
          rw [hstep] at h
          exact nomatch h
      | some next =>
          rw [hstep] at h
          cases next with
          | inl r' => exact ih h
          | inr lines' => exact h

variable {layout : Layout} {indent : Nat} {width : Option Nat}

theorem reference_mono {fuel : Nat} {broken : List Nat} {lines : List Text}
    (h : renderLayoutReference layout indent width fuel broken = some lines) (more : Nat) :
    renderLayoutReference layout indent width (fuel + more) broken = some lines := by
  induction fuel generalizing broken with
  | zero => exact nomatch h
  | succ fuel ih =>
      rw [Nat.add_right_comm]
      rw [renderLayoutReference] at h ⊢
      split at h
      · exact ih h
      · exact h

/-- What a run from `r` ends with is what the reference ends with from its broken
    constructs. -/
def Agrees (layout : Layout) (indent : Nat) (width : Option Nat) (r : Renderer) : Prop :=
  ∃ lines, (∃ fuel, r.run fuel = some lines) ∧
    ∃ rounds, renderLayoutReference layout indent width rounds r.broken = some lines

theorem Agrees.of_onward (h : Agrees layout indent width r')
    (hstep : r.step = some (.inl r')) (hbroken : r'.broken = r.broken) :
    Agrees layout indent width r := by
  rcases h with ⟨lines, ⟨fuel, hrun⟩, hrounds⟩
  exact ⟨lines, ⟨fuel + 1, (run_step hstep fuel).trans hrun⟩, hbroken ▸ hrounds⟩

variable (hclosed : layout.Closed) (hplain : layout.Plain)

include hclosed hplain

theorem breakCandidate_rendered (broken : List Nat) (w : Nat) :
    (rendered layout indent broken).breakCandidate w =
      (drawn layout indent broken).lines.findSome? (Line.breaks w) :=
  (rendered_shows hclosed hplain indent broken).breakCandidate w

theorem Agrees.of_back (h : Agrees layout indent width r')
    (hstep : r.step = some (.inl r')) {id w : Nat} (hwidth : width = some w)
    (hid : (drawn layout indent r.broken).lines.findSome? (Line.breaks w) = some id)
    (hbroken : r'.broken = id :: r.broken) : Agrees layout indent width r := by
  rcases h with ⟨lines, ⟨fuel, hrun⟩, rounds, hrounds⟩
  refine ⟨lines, ⟨fuel + 1, (run_step hstep fuel).trans hrun⟩, rounds + 1, ?_⟩
  rw [← breakCandidate_rendered hclosed hplain] at hid
  rw [renderLayoutReference, hwidth, Option.bind_some, hid]
  dsimp only
  rw [← hwidth, ← hbroken]
  exact hrounds

theorem Agrees.of_end (hwidth : r.width = width)
    (hstep : r.step = some (.inr ((drawn layout indent r.broken).lines.map Line.text)))
    (hnone : ∀ w, r.width = some w →
      (drawn layout indent r.broken).lines.findSome? (Line.breaks w) = none) :
    Agrees layout indent width r := by
  refine ⟨_, ⟨1, by rw [Renderer.run, hstep]⟩, 1, ?_⟩
  have hbreak : width.bind (rendered layout indent r.broken).breakCandidate = none := by
    cases hw : width with
    | none => rfl
    | some w =>
        rw [Option.bind_some, breakCandidate_rendered hclosed hplain]
        exact hnone w (hwidth.trans hw)
  rw [renderLayoutReference, hbreak, (rendered_shows hclosed hplain indent r.broken).splitOn]

/-- From every point of the drawing the renderer ends with the lines of the reference. -/
theorem Stands.agrees {is : List Instruction} {p : Page} {n : Nat}
    (h : Stands (drawn layout indent) layout.constructs r is p n) (hwidth : r.width = width)
    (hrewinds : RewindsOutside r) : Agrees layout indent width r := by
  -- The constructs that are not broken decrease where the renderer goes back, and what is
  -- left to draw decreases between two rewinds.
  induction hfree : unbroken layout.constructs r.broken using Nat.strongRecOn
    generalizing r is p n with
  | ind free ihFree =>
      induction hwork : weight is using Nat.strongRecOn generalizing r is p n with
      | ind work ihWork =>
          have hback : ∀ r', r.step = some (.inl r') →
              Back (drawn layout indent) layout.constructs r r' →
                Agrees layout indent width r := by
            rintro r' hstep ⟨hw, id, is', page, w, hsome, hid, hnot, hlt, hbroken, hstands⟩
            have hne : r'.broken ≠ r.broken := by
              rw [hbroken]
              exact List.cons_ne_self id r.broken
            have houtside := hrewinds r r' Relation.ReflTransGen.refl hstep hne
            have hfewer : unbroken layout.constructs r'.broken < free := by
              rw [hbroken, ← hfree]
              exact unbroken_cons hlt hnot
            exact Agrees.of_back hclosed hplain (ihFree _ hfewer (hstands houtside)
              (hw.trans hwidth) (hrewinds.step hstep) rfl) hstep (hwidth.symm.trans hsome) hid
              hbroken
          cases is with
          | nil =>
              rcases h.finish with ⟨hstep, hnone⟩ | ⟨r', hstep, hgoes⟩
              · exact Agrees.of_end hclosed hplain hwidth hstep hnone
              · exact hback r' hstep hgoes
          | cons i is =>
              rcases h.step with ⟨r', hstep, hgoes | ⟨hw, hb, is', page, m, hstands, hlt⟩⟩
              · exact hback r' hstep hgoes
              · exact Agrees.of_onward (ihWork _ (hwork ▸ hlt) hstands (hw.trans hwidth)
                  (hrewinds.step hstep) (hb ▸ hfree) rfl) hstep hb

end Runs

section Whole

theorem stands_start {layout : Layout} (hclosed : layout.Closed) (indent : Nat)
    (width : Option Nat) :
    Stands (drawn layout indent) layout.constructs (Renderer.start layout indent width)
      [.layout 0 layout false] (Page.start indent) 0 := by
  refine ⟨?_, Reached.start layout indent [], rfl, closed_cons hclosed closed_nil⟩
  have hempty : ∀ r : Renderer, r.pending = none → r.lines = [] → r.line = [] →
      r.state = LineState.default → r.inBlockComment = false → r.lastCandidate = none →
        Kept (drawn layout indent) layout.constructs r []
          { done := [], line := Line.blank, inBlock := false } 0 := by
    intro r hpending hlines hline hstate hblock hcandidate
    refine ⟨⟨hpending ▸ .nil, hlines, hline, hstate, hblock⟩, fun _ _ => ?_, fun _ _ => nofun,
      fun _ => hcandidate⟩
    rw [hcandidate]
    exact .nil rfl
  exact ((hempty _ rfl rfl rfl rfl rfl rfl).append (indentStr indent)).prepend _

/-- The check of `RewindsOutside` along a run of at most `fuel` steps. -/
def rewindsOutside : Nat → Renderer → Bool
  | 0, _ => false
  | fuel + 1, r =>
      match r.step with
      | some (.inl r') => (r'.broken = r.broken || !r'.inBlockComment) && rewindsOutside fuel r'
      | _ => true

theorem rewindsOutside_sound (fuel : Nat) {start : Renderer}
    (h : rewindsOutside fuel start = true) : RewindsOutside start := by
  induction fuel generalizing start with
  | zero => exact nomatch h
  | succ fuel ih =>
      intro r r' hsteps hstep hne
      rw [rewindsOutside] at h
      rcases Relation.ReflTransGen.cases_head hsteps with rfl | ⟨next, hnext, hrest⟩
      · rw [hstep] at h
        simp only [Bool.and_eq_true, Bool.or_eq_true, decide_eq_true_eq, Bool.not_eq_true'] at h
        exact h.1.resolve_left hne
      · rw [hnext] at h
        simp only [Bool.and_eq_true] at h
        exact ih h.2 r r' hrest hstep hne

/-- The incremental renderer ends with the lines of the reference, where each text closes the
    block comments it opens, no shape and no later line of a trailing comment holds a line
    comment, and no rewind happens inside a block comment. -/
theorem render_eq_reference (layout : Layout) (hclosed : layout.Closed) (hplain : layout.Plain)
    (indent : Nat) (width : Option Nat)
    (hrewinds : RewindsOutside (Renderer.start layout indent width)) :
    ∃ lines, (∃ fuel, ∀ more, render (fuel + more) layout indent width = some lines) ∧
      ∃ rounds, ∀ more,
        renderLayoutReference layout indent width (rounds + more) [] = some lines := by
  rcases (stands_start hclosed indent width).agrees hclosed hplain rfl hrewinds with
    ⟨lines, ⟨fuel, hrun⟩, rounds, hrounds⟩
  exact ⟨lines, ⟨fuel, run_mono hrun⟩, rounds, reference_mono hrounds⟩

theorem render_eq_reference_tuple :
    ∃ lines, (∃ fuel, ∀ more, render (fuel + more)
        (.tuple [.text ['a', 'a'], .tuple [.text ['b', 'b']]]) 1 (some 6) = some lines) ∧
      ∃ rounds, ∀ more, renderLayoutReference
        (.tuple [.text ['a', 'a'], .tuple [.text ['b', 'b']]]) 1 (some 6) (rounds + more) [] =
          some lines :=
  render_eq_reference (.tuple [.text ['a', 'a'], .tuple [.text ['b', 'b']]])
    ⟨rfl, ⟨rfl, trivial⟩, trivial⟩ ⟨trivial, ⟨trivial, trivial⟩, trivial⟩ 1 (some 6)
    (rewindsOutside_sound 60 (by decide +kernel))

/-- The first line of the comment is too long, so the tuple is broken, and then the comment
    `// c` is taken for a part of the comment that the first line opened. -/
theorem stale_block_comment :
    let layout : Layout := .concat [.text "pp".toList,
      .tuple [.concat [.tuple [.text ['a']], .text "b // c".toList], .text "/* d\n e */".toList]]
    layout.Closed ∧
      render 60 layout 0 (some 6) = some ["pp(".toList, "  (".toList, "    a".toList,
        "  )b // c,".toList, "  /* d".toList, " e */".toList, ")".toList] ∧
      renderLayoutReference layout 0 (some 6) 10 [] = some ["pp(".toList, "  (a)b // c,".toList,
        "  /* d".toList, " e */".toList, ")".toList] := by
  refine ⟨⟨rfl, ⟨⟨⟨rfl, trivial⟩, rfl, trivial⟩, rfl, trivial⟩, trivial⟩, ?_, ?_⟩
  · decide +kernel
  · decide +kernel

end Whole

end Fmt

end Ridl
