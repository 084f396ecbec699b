import Ridl.Fmt.Page

/-!
# Drawing

What a list of instructions draws, and what it depends on.

The drawing of a list is that of its first instruction and then of what is left. It
never changes a complete line (`drawAll_done`), and it visits the constructs of a
layout in the order of their numbers (`numbered_advance`). A point of a drawing is
therefore good for every set of broken constructs that agrees on the constructs before
it (`Reached`), which is what allows a rendering to be resumed there.

## Main definitions

* `drawAll`: What a list of instructions draws.

## Theorems

* `drawAll_append`: Instructions are drawn one after the other.
* `drawAll_text`: A text is drawn line by line.
* `drawAll_done`: Complete lines stay.
* `Reached.advance`: The point after the next instruction.
* `Reached.insert`: A point before a construct stays when the construct is broken.
-/

namespace Ridl

namespace Fmt

open Library

theorem splitLine_eq_none {text : Text} (h : splitLine text = none) : '\n' ∉ text := by
  induction text with
  | nil => exact List.not_mem_nil
  | cons c text ih =>
      rw [splitLine] at h
      split_ifs at h with hc
      rw [List.mem_cons, not_or]
      exact ⟨fun heq => hc heq.symm, ih (Option.map_eq_none_iff.1 h)⟩

theorem splitLine_eq_some {text line rest : Text} (h : splitLine text = some (line, rest)) :
    text = line ++ '\n' :: rest ∧ '\n' ∉ line := by
  induction text generalizing line with
  | nil => exact nomatch h
  | cons c text ih =>
      rw [splitLine] at h
      split_ifs at h with hc
      · cases h
        exact ⟨congrArg (· :: rest) hc, List.not_mem_nil⟩
      · rcases Option.map_eq_some_iff.1 h with ⟨⟨front, back⟩, hsplit, heq⟩
        cases heq
        rcases ih hsplit with ⟨htext, hfront⟩
        refine ⟨congrArg (c :: ·) htext, fun hmem => ?_⟩
        rcases List.mem_cons.1 hmem with heq | hmem
        · exact hc heq.symm
        · exact hfront hmem

theorem text_induction {P : Text → Prop} (line : ∀ text, '\n' ∉ text → P text)
    (lines : ∀ text rest, '\n' ∉ text → P rest → P (text ++ '\n' :: rest)) (text : Text) :
    P text := by
  induction hn : text.length using Nat.strongRecOn generalizing text with
  | ind n ih =>
      cases hsplit : splitLine text with
      | none => exact line text (splitLine_eq_none hsplit)
      | some split =>
          rcases split with ⟨front, rest⟩
          rcases splitLine_eq_some hsplit with ⟨htext, hfront⟩
          have hlength : rest.length < n := by
            rw [← hn, htext, List.length_append, List.length_cons]
            omega
          exact htext ▸ lines front rest hfront (ih _ hlength rest rfl)

theorem not_mem_of_mem_splitOn (text : Text) :
    ∀ line ∈ text.splitOn '\n', '\n' ∉ line := by
  induction text using text_induction with
  | line text h =>
      rw [List.splitOn_eq_singleton h]
      exact List.forall_mem_singleton.2 h
  | lines text rest h ih =>
      rw [List.splitOn_append_cons_self_of_not_mem h]
      exact List.forall_mem_cons.2 ⟨h, ih⟩

theorem splitLine_of_not_mem {text : Text} (h : '\n' ∉ text) : splitLine text = none := by
  cases hsplit : splitLine text with
  | none => rfl
  | some split =>
      rw [(splitLine_eq_some hsplit).1] at h
      exact absurd (List.mem_append_right _ List.mem_cons_self) h

theorem splitLine_append {line : Text} (h : '\n' ∉ line) (rest : Text) :
    splitLine (line ++ '\n' :: rest) = some (line, rest) := by
  induction line with
  | nil => rfl
  | cons c line ih =>
      rcases not_or.1 (fun hor => h (List.mem_cons.2 hor)) with ⟨hc, hline⟩
      rw [List.cons_append, splitLine, if_neg (Ne.symm hc), ih hline]
      rfl

section Drawing

variable (broken : List Nat)

def drawAll : List Instruction → Page → Page
  | [], p => p
  | i :: is, p => drawAll ((advance broken i p).1 ++ is) (advance broken i p).2
termination_by is => weight is
decreasing_by
  rw [weight_append, weight_cons]
  exact Nat.add_lt_add_right (weight_advance broken i p) _

theorem drawAll_nil (p : Page) : drawAll broken [] p = p := by rw [drawAll]

theorem drawAll_cons (i : Instruction) (is : List Instruction) (p : Page) :
    drawAll broken (i :: is) p =
      drawAll broken ((advance broken i p).1 ++ is) (advance broken i p).2 := by
  rw [drawAll]

/-- What holds when nothing is left, and before an instruction if it holds after it. -/
theorem drawing_induction {P : List Instruction → Page → Prop} (nil : ∀ p, P [] p)
    (cons : ∀ i is p, P ((advance broken i p).1 ++ is) (advance broken i p).2 → P (i :: is) p)
    (is : List Instruction) (p : Page) : P is p := by
  induction hw : weight is using Nat.strongRecOn generalizing is p with
  | ind n ih =>
      cases is with
      | nil => exact nil p
      | cons i is =>
          refine cons i is p (ih _ ?_ _ _ rfl)
          rw [← hw, weight_append, weight_cons]
          exact Nat.add_lt_add_right (weight_advance broken i p) _

theorem drawAll_append (is js : List Instruction) (p : Page) :
    drawAll broken (is ++ js) p = drawAll broken js (drawAll broken is p) := by
  induction is, p using drawing_induction broken with
  | nil p => rw [List.nil_append, drawAll_nil]
  | cons i is p ih => rw [List.cons_append, drawAll_cons, drawAll_cons, ← List.append_assoc, ih]

theorem drawAll_lineBreak (is : List Instruction) (p : Page) :
    drawAll broken (.lineBreak :: is) p = drawAll broken is p.close := by
  rw [drawAll_cons]
  rfl

theorem drawAll_spaces (count : Nat) (is : List Instruction) (p : Page) :
    drawAll broken (.spaces count :: is) p = drawAll broken is (p.put (spaces count)) := by
  rw [drawAll_cons]
  rfl

theorem drawAll_text_break {text line rest : Text} (h : splitLine text = some (line, rest))
    (is : List Instruction) (p : Page) :
    drawAll broken (.text text :: is) p =
      drawAll broken (.text rest :: is) (p.writeLine line).close := by
  rw [drawAll_cons, advance, h]
  exact drawAll_lineBreak broken _ _

theorem drawAll_text_line {text : Text} (h : splitLine text = none) (is : List Instruction)
    (p : Page) : drawAll broken (.text text :: is) p = drawAll broken is (p.writeLine text) := by
  rw [drawAll_cons, advance, h]
  rfl

theorem drawAll_text (text : Text) (is : List Instruction) (p : Page) :
    drawAll broken (.text text :: is) p =
      drawAll broken is (p.writeLines (text.splitOn '\n')) := by
  induction text using text_induction generalizing p with
  | line text h =>
      rw [drawAll_text_line broken (splitLine_of_not_mem h), List.splitOn_eq_singleton h]
      rfl
  | lines text rest h ih =>
      rw [drawAll_text_break broken (splitLine_append h rest), ih,
        List.splitOn_append_cons_self_of_not_mem h,
        Page.writeLines_cons (List.splitOn_ne_nil _ _)]

theorem advance_done (i : Instruction) (p : Page) :
    (advance broken i p).2.done = p.done ∨ (advance broken i p).2 = p.close := by
  cases i with
  | text body =>
      rw [advance]
      split <;> exact .inl (Page.writeLine_done _ _)
  | spaces count => exact .inl rfl
  | comment body => exact .inl rfl
  | lineBreak => exact .inr rfl
  | layout id item inline =>
      cases item <;> exact .inl (by first | rfl | exact Page.offerUnless_done _ _ _ _ _)

theorem drawAll_done (is : List Instruction) (p : Page) :
    p.done <+: (drawAll broken is p).done := by
  induction is, p using drawing_induction broken with
  | nil p =>
      have hnil := congrArg Page.done (drawAll_nil broken p)
      exact hnil ▸ List.prefix_refl _
  | cons i is p ih =>
      rw [drawAll_cons]
      refine List.IsPrefix.trans ?_ ih
      rcases advance_done broken i p with hdone | hdone
      · exact hdone ▸ List.prefix_refl _
      · exact hdone ▸ List.prefix_append _ _

end Drawing

section Numbering

/-- The instructions visit the constructs numbered from `first` to before `last`. -/
def Numbered (first : Nat) : List Instruction → Nat → Prop
  | [], last => first = last
  | .layout group item _ :: is, last =>
      group = first ∧ Numbered (first + item.constructs) is last
  | .text _ :: is, last | .spaces _ :: is, last | .comment _ :: is, last
  | .lineBreak :: is, last => Numbered first is last

theorem numbered_append {first middle last : Nat} {is js : List Instruction}
    (his : Numbered first is middle) (hjs : Numbered middle js last) :
    Numbered first (is ++ js) last := by
  induction is generalizing first with
  | nil =>
      cases his
      exact hjs
  | cons i is ih =>
      cases i with
      | layout group item inline => exact ⟨his.1, ih his.2⟩
      | text | spaces | comment | lineBreak => exact ih his

theorem numbered_concat (inline : Bool) (group : Nat) (parts : List Layout) :
    Numbered group (concatInstructions inline group parts)
      (group + Layout.constructsOf parts) := by
  induction parts generalizing group with
  | nil => rfl
  | cons part parts ih =>
      refine ⟨rfl, ?_⟩
      rw [Layout.constructsOf, ← Nat.add_assoc]
      exact ih _

theorem numbered_if (c : Prop) [Decidable c] {n : Nat} {is js : List Instruction}
    (his : Numbered n is n) (hjs : Numbered n js n) : Numbered n (if c then is else js) n := by
  split_ifs
  · exact his
  · exact hjs

theorem numbered_before (broken : Bool) (indent i n : Nat) :
    Numbered n (if broken then [.lineBreak, .spaces (indent + 2)]
      else if i > 0 then [.text [',', ' ']] else []) n :=
  numbered_if _ rfl (numbered_if _ rfl rfl)

theorem numbered_tupleItems (broken : Bool) (indent count i group : Nat)
    (items : List Layout) :
    Numbered group (tupleItems broken indent count i group items)
      (group + Layout.constructsOf items) := by
  induction items generalizing i group with
  | nil => rfl
  | cons item items ih =>
      rw [tupleItems, Layout.constructsOf, ← Nat.add_assoc]
      refine numbered_append (numbered_append (numbered_append
        (numbered_before broken indent i group) ⟨rfl, rfl⟩) (numbered_if _ rfl rfl)) (ih _ _)

theorem numbered_shapeItems (broken : Bool) (indent count i n : Nat) (items : List Text) :
    Numbered n (shapeItems broken indent count i items) n := by
  induction items generalizing i with
  | nil => rfl
  | cons item items ih =>
      rw [shapeItems]
      exact numbered_append (numbered_append (numbered_append
        (numbered_before broken indent i n) rfl) (numbered_if _ rfl rfl)) (ih _)

theorem numbered_leading (indent i n : Nat) (comments : List PendingComment) :
    Numbered n (leadingInstructions indent i comments) n := by
  induction comments generalizing i with
  | nil => rfl
  | cons comment comments ih =>
      rw [leadingInstructions]
      exact numbered_append (numbered_append (numbered_if _ rfl rfl) rfl) (ih _)

theorem numbered_comments (n : Nat) (comments : List Text) :
    Numbered n (comments.map .comment) n := by
  induction comments with
  | nil => rfl
  | cons comment comments ih => exact ih

theorem numbered_block (broken : Bool) (indent index group : Nat)
    (blocks : List (AttributeLayout Layout)) :
    Numbered group (blockInstructions broken indent index group blocks)
      (group + Layout.constructsIn blocks) := by
  induction blocks generalizing index group with
  | nil => rfl
  | cons block blocks ih =>
      rcases block with ⟨gapBlank, leading, blankBeforeNode, item, trailing⟩
      cases item with
      | none =>
          rw [blockInstructions, Layout.constructsIn]
          refine numbered_append ?_ (ih _ _)
          cases broken with
          | false => exact numbered_append (numbered_if _ rfl rfl) rfl
          | true =>
              exact numbered_append (numbered_append (numbered_append (numbered_append
                (numbered_if _ rfl rfl) (numbered_leading _ _ _ _)) (numbered_if _ rfl rfl)) rfl)
                (numbered_comments _ _)
      | some item =>
          rw [blockInstructions, Layout.constructsIn, ← Nat.add_assoc]
          refine numbered_append ?_ (ih _ _)
          cases broken with
          | false => exact numbered_append (numbered_if _ rfl rfl) ⟨rfl, rfl⟩
          | true =>
              exact numbered_append (numbered_append (numbered_append (numbered_append
                (numbered_if _ rfl rfl) (numbered_leading _ _ _ _)) (numbered_if _ rfl rfl))
                ⟨rfl, rfl⟩) (numbered_comments _ _)

/-- Whether a layout is a construct itself. -/
def Layout.own : Layout → Nat
  | .text _ | .trailingComment _ | .lineBreak | .concat _ => 0
  | .tuple _ | .shapes _ | .attributes _ _ => 1

theorem numbered_layout (broken : List Nat) (first : Nat) (item : Layout) (inline : Bool)
    (p : Page) :
    Numbered (first + item.own) (advance broken (.layout first item inline) p).1
      (first + item.constructs) := by
  cases item with
  | text | trailingComment | lineBreak => rfl
  | concat parts => exact numbered_concat inline first parts
  | tuple items =>
      rw [Layout.constructs, ← Nat.add_assoc]
      exact numbered_append (numbered_append (numbered_append rfl (numbered_tupleItems _ _ _ _ _ _))
        (numbered_if _ rfl rfl)) rfl
  | shapes items => exact numbered_append (numbered_if _ rfl rfl) (numbered_shapeItems _ _ _ _ _ _)
  | attributes blocks forceBlock =>
      rw [Layout.constructs, ← Nat.add_assoc]
      exact numbered_append (numbered_append rfl (numbered_block _ _ _ _ _))
        (numbered_if _ rfl rfl)

end Numbering

section Points

/-- How many constructs the next step of an instruction consults. -/
def Instruction.own : Instruction → Nat
  | .layout _ item _ => item.own
  | .text _ | .spaces _ | .comment _ | .lineBreak => 0

theorem advance_congr {broken broken' : List Nat} {next last : Nat} {i : Instruction}
    {is : List Instruction} (hnumbered : Numbered next (i :: is) last)
    (h : ∀ n < next + i.own, n ∈ broken' ↔ n ∈ broken) (p : Page) :
    advance broken' i p = advance broken i p := by
  cases i with
  | layout group item inline =>
      have hgroup : item.own = 1 → (group ∈ broken' ↔ group ∈ broken) := fun hown =>
        h group (by rw [hnumbered.1, Instruction.own, hown]; exact Nat.lt_succ_self next)
      cases item with
      | text | trailingComment | lineBreak | concat => rfl
      | tuple | shapes | attributes => simp only [advance, hgroup rfl]
  | text | spaces | comment | lineBreak => rfl

/-- A point that a drawing comes to, for every set of broken constructs that agrees on the
    constructs before it. -/
structure Reached (whole : List Nat → Page) (last : Nat) (broken : List Nat)
    (is : List Instruction) (p : Page) (next : Nat) : Prop where
  numbered : Numbered next is last
  draws : ∀ broken', (∀ n < next, n ∈ broken' ↔ n ∈ broken) → drawAll broken' is p = whole broken'

variable {whole : List Nat → Page} {last next : Nat} {broken : List Nat} {i : Instruction}
variable {is : List Instruction} {p : Page}

theorem Reached.drawAll_eq (h : Reached whole last broken is p next) :
    drawAll broken is p = whole broken := h.draws broken fun _ _ => Iff.rfl

theorem Reached.advance (h : Reached whole last broken (i :: is) p next) :
    Reached whole last broken ((advance broken i p).1 ++ is) (advance broken i p).2
      (next + i.own) := by
  refine ⟨?_, fun broken' hagree => ?_⟩
  · cases i with
    | layout group item inline =>
        rcases h.numbered with ⟨rfl, hrest⟩
        exact numbered_append (numbered_layout broken group item inline p) hrest
    | text body =>
        have hrest : Numbered next is last := h.numbered
        rw [Fmt.advance]
        split <;> exact hrest
    | spaces | comment | lineBreak => exact h.numbered
  · have hbefore := h.draws broken' fun n hn =>
      hagree n (Nat.lt_of_lt_of_le hn (Nat.le_add_right _ _))
    rw [drawAll_cons, advance_congr h.numbered hagree] at hbefore
    exact hbefore

theorem Reached.insert {id : Nat} (h : Reached whole last broken is p next) (hle : next ≤ id) :
    Reached whole last (id :: broken) is p next := by
  refine ⟨h.numbered, fun broken' hagree => h.draws broken' fun n hn => ?_⟩
  rw [hagree n hn, List.mem_cons]
  exact or_iff_right (by omega)

theorem numbered_le {first last : Nat} {is : List Instruction} (h : Numbered first is last) :
    first ≤ last := by
  induction is generalizing first with
  | nil => exact Nat.le_of_eq h
  | cons i is ih =>
      cases i with
      | layout group item inline => exact Nat.le_trans (Nat.le_add_right _ _) (ih h.2)
      | text | spaces | comment | lineBreak => exact ih h

/-- The page a layout is drawn on. -/
def Page.start (indent : Nat) : Page :=
  { done := [], line := { Line.blank with text := indentStr indent }, inBlock := false }

def drawn (root : Layout) (indent : Nat) (broken : List Nat) : Page :=
  drawAll broken [.layout 0 root false] (Page.start indent)

theorem Reached.start (root : Layout) (indent : Nat) (broken : List Nat) :
    Reached (drawn root indent) root.constructs broken [.layout 0 root false]
      (Page.start indent) 0 :=
  ⟨⟨rfl, Nat.zero_add _⟩, fun _ _ => rfl⟩

end Points

end Fmt

end Ridl
