import Ridl.Fmt.Rewinding
import Ridl.Fmt.Written

/-!
# Words

The texts of a layout in the lines that the renderer ends with.

Breaking a construct moves gaps, and going back to a candidate drops the end of a line.
Nothing else is dropped, written twice or torn: the lines are the texts of the layout as
they are, with gaps in between. This does not ask where a line breaks, so it also holds
where the state of a block comment is stale.

## Main definitions

* `Layout.words`: The texts of a layout, without the gaps around them.
* `Woven`: A text is words with gaps between them.
* `Weaves`: What was written and what is pending are the words.

## Theorems

* `Weaves.step`: A step keeps it.
* `rendered_words`: The lines are the words.
-/

namespace Ridl

namespace Fmt

open Library

/-- What the renderer puts between texts. -/
def isGap (c : Char) : Bool := c = ' ' || c = '\n' || c = ','

/-- A text without the gaps around it, if it is not a gap only. -/
def textWords (text : Text) : List Text :=
  let word := ((text.dropWhile isGap).reverse.dropWhile isGap).reverse
  if word = [] then [] else [word]

section Words

mutual

def Layout.words : Layout → List Text
  | .text body | .trailingComment body => textWords body
  | .lineBreak => []
  | .concat parts => Layout.wordsOf parts
  | .tuple items => ['('] :: Layout.wordsOf items ++ [[')']]
  | .shapes items => items.flatMap textWords
  | .attributes blocks _ => ['['] :: Layout.wordsIn blocks ++ [[']']]

def Layout.wordsOf : List Layout → List Text
  | [] => []
  | part :: parts => part.words ++ Layout.wordsOf parts

def Layout.wordsIn : List (AttributeLayout Layout) → List Text
  | [] => []
  | ⟨_, leading, _, none, trailing⟩ :: blocks =>
      leading.flatMap (fun comment => textWords comment.text) ++ trailing.flatMap textWords ++
        Layout.wordsIn blocks
  | ⟨_, leading, _, some item, trailing⟩ :: blocks =>
      leading.flatMap (fun comment => textWords comment.text) ++ item.words ++
        trailing.flatMap textWords ++ Layout.wordsIn blocks

end

mutual

/-- A block of attributes with a comment is always broken. -/
def Layout.Forced : Layout → Prop
  | .text _ | .trailingComment _ | .lineBreak | .shapes _ => True
  | .concat parts | .tuple parts => Layout.ForcedOf parts
  | .attributes blocks forceBlock => Layout.ForcedIn forceBlock blocks

def Layout.ForcedOf : List Layout → Prop
  | [] => True
  | part :: parts => part.Forced ∧ Layout.ForcedOf parts

def Layout.ForcedIn (forceBlock : Bool) : List (AttributeLayout Layout) → Prop
  | [] => True
  | ⟨_, leading, _, none, trailing⟩ :: blocks =>
      (forceBlock = false → leading = [] ∧ trailing = []) ∧ Layout.ForcedIn forceBlock blocks
  | ⟨_, leading, _, some item, trailing⟩ :: blocks =>
      (forceBlock = false → leading = [] ∧ trailing = []) ∧ item.Forced ∧
        Layout.ForcedIn forceBlock blocks

end

end Words

/-- A text is words, with gaps before, between and after them. -/
inductive Woven : List Text → Text → Prop
  | nil {gap} : gap.all isGap = true → Woven [] gap
  | cons {gap word rest words} :
      gap.all isGap = true → Woven words rest → Woven (word :: words) (gap ++ (word ++ rest))

/-- Instructions that write words, whatever is broken. -/
inductive Spells : List Instruction → List Text → Prop
  | nil : Spells [] []
  | layout {id item inline is words} :
      item.Forced → Spells is words →
        Spells (.layout id item inline :: is) (item.words ++ words)
  | text {body is words} :
      Spells is words → Spells (.text body :: is) (textWords body ++ words)
  | comment {body is words} :
      Spells is words → Spells (.comment body :: is) (textWords body ++ words)
  | spaces {count is words} : Spells is words → Spells (.spaces count :: is) words
  | lineBreak {is words} : Spells is words → Spells (.lineBreak :: is) words

/-- What an instruction writes, where a layout may be written with any gaps. -/
def Instruction.Writes : Instruction → Text → Prop
  | .layout _ item _, written => Woven item.words written
  | .text body, written => written = body
  | .comment body, written => written = ' ' :: body
  | .spaces count, written => written = Fmt.spaces count
  | .lineBreak, written => written = ['\n']

def Writes : List Instruction → Text → Prop
  | [], text => text = []
  | i :: is, text => ∃ front back, text = front ++ back ∧ i.Writes front ∧ Writes is back

variable {words more : List Text} {text : Text} {i : Instruction} {is js : List Instruction}

theorem Woven.gap (h : Woven words text) {gap : Text} (hgap : gap.all isGap = true) :
    Woven words (gap ++ text) := by
  cases h with
  | nil h => exact .nil (by rw [List.all_append, hgap, h]; rfl)
  | cons h rest =>
      rw [← List.append_assoc]
      exact .cons (by rw [List.all_append, hgap, h]; rfl) rest

theorem Woven.append {back : Text} (h : Woven words text) (hback : Woven more back) :
    Woven (words ++ more) (text ++ back) := by
  induction h with
  | nil h => exact hback.gap h
  | cons h _ ih =>
      rw [List.append_assoc, List.append_assoc]
      exact .cons h ih

theorem woven_textWords (text : Text) : Woven (textWords text) text := by
  obtain ⟨word, back, hback, hword, htext⟩ : ∃ word back : Text, back.all isGap = true ∧
      word = ((text.dropWhile isGap).reverse.dropWhile isGap).reverse ∧
        text = text.takeWhile isGap ++ (word ++ back) := by
    refine ⟨_, ((text.dropWhile isGap).reverse.takeWhile isGap).reverse, ?_, rfl, ?_⟩
    · rw [List.all_reverse]
      exact List.all_takeWhile
    · rw [← List.reverse_append, List.takeWhile_append_dropWhile, List.reverse_reverse,
        List.takeWhile_append_dropWhile]
  rw [textWords, ← hword, htext]
  split_ifs with h
  · rw [h]
    exact (Woven.nil hback).gap List.all_takeWhile
  · exact .cons List.all_takeWhile (.nil hback)

theorem Spells.woven (h : Spells is words) (hwrites : Writes is text) : Woven words text := by
  induction h generalizing text with
  | nil =>
      cases hwrites
      exact .nil rfl
  | layout hitem _ ih =>
      rcases hwrites with ⟨front, back, rfl, hfront, hback⟩
      exact hfront.append (ih hback)
  | text _ ih =>
      rcases hwrites with ⟨front, back, rfl, rfl, hback⟩
      exact (woven_textWords _).append (ih hback)
  | comment _ ih =>
      rcases hwrites with ⟨front, back, rfl, rfl, hback⟩
      change Woven _ ([' '] ++ (_ ++ back))
      exact ((woven_textWords _).append (ih hback)).gap rfl
  | spaces _ ih =>
      rcases hwrites with ⟨front, back, rfl, rfl, hback⟩
      exact (ih hback).gap (List.all_eq_true.2 fun c hc => by
        rw [List.eq_of_mem_replicate hc]; rfl)
  | lineBreak _ ih =>
      rcases hwrites with ⟨front, back, rfl, rfl, hback⟩
      exact (ih hback).gap rfl

theorem Spells.append (h : Spells is words) (hjs : Spells js more) :
    Spells (is ++ js) (words ++ more) := by
  induction h with
  | nil => exact hjs
  | layout hitem _ ih => rw [List.append_assoc]; exact .layout hitem ih
  | text _ ih => rw [List.append_assoc]; exact .text ih
  | comment _ ih => rw [List.append_assoc]; exact .comment ih
  | spaces _ ih => exact .spaces ih
  | lineBreak _ ih => exact .lineBreak ih

theorem Writes.split (h : Writes (js ++ is) text) :
    ∃ front back, text = front ++ back ∧ Writes js front ∧ Writes is back := by
  induction js generalizing text with
  | nil => exact ⟨[], text, rfl, rfl, h⟩
  | cons j js ih =>
      rcases h with ⟨front, back, rfl, hfront, hback⟩
      rcases ih hback with ⟨middle, rest, rfl, hmiddle, hrest⟩
      exact ⟨_, rest, (List.append_assoc ..).symm, ⟨front, middle, rfl, hfront, hmiddle⟩,
        hrest⟩

/-! ### What replaces a layout -/

theorem spells_if {c : Prop} [Decidable c] (h : Spells is words) (hjs : Spells js words) :
    Spells (if c then is else js) words := by
  split_ifs
  · exact h
  · exact hjs

theorem spells_text (body : Text) : Spells [.text body] (textWords body) := by
  have htext : Spells [.text body] (textWords body ++ []) := .text .nil
  rwa [List.append_nil] at htext

theorem spells_separator (i : Nat) : Spells (if i > 0 then [.text [',', ' ']] else []) [] :=
  spells_if (spells_text [',', ' ']) .nil

theorem spells_before (broken : Bool) (indent i : Nat) :
    Spells (if broken then [.lineBreak, .spaces (indent + 2)]
      else if i > 0 then [.text [',', ' ']] else []) [] :=
  spells_if (.lineBreak (.spaces .nil)) (spells_separator i)

theorem spells_break (c : Prop) [Decidable c] : Spells (if c then [.lineBreak] else []) [] :=
  spells_if (.lineBreak .nil) .nil

theorem spells_item (broken : Bool) (indent count i : Nat) (h : Spells is words)
    (hjs : Spells js more) :
    Spells ((if broken then [.lineBreak, .spaces (indent + 2)]
      else if i > 0 then [.text [',', ' ']] else []) ++ is ++
        (if broken ∧ i + 1 < count then [.text [',']] else []) ++ js) (words ++ more) := by
  have hcomma : Spells (if broken ∧ i + 1 < count then [.text [',']] else []) [] :=
    spells_if (spells_text [',']) .nil
  have hall := (((spells_before broken indent i).append h).append hcomma).append hjs
  rwa [List.nil_append, List.append_nil] at hall

theorem spells_concat {parts : List Layout} (h : Layout.ForcedOf parts) (inline : Bool)
    (group : Nat) : Spells (concatInstructions inline group parts) (Layout.wordsOf parts) := by
  induction parts generalizing group with
  | nil => exact .nil
  | cons part parts ih => exact .layout h.1 (ih h.2 _)

theorem spells_tupleItems {items : List Layout} (h : Layout.ForcedOf items) (broken : Bool)
    (indent count i group : Nat) :
    Spells (tupleItems broken indent count i group items) (Layout.wordsOf items) := by
  induction items generalizing i group with
  | nil => exact .nil
  | cons item items ih =>
      have hitem : Spells [.layout group item (!broken)] (item.words ++ []) := .layout h.1 .nil
      rw [List.append_nil] at hitem
      exact spells_item broken indent count i hitem (ih h.2 (i + 1) _)

theorem spells_shapeItems (broken : Bool) (indent count i : Nat) (items : List Text) :
    Spells (shapeItems broken indent count i items) (items.flatMap textWords) := by
  induction items generalizing i with
  | nil => exact .nil
  | cons item items ih => exact spells_item broken indent count i (spells_text item) (ih (i + 1))

theorem spells_leading (indent i : Nat) (comments : List PendingComment) :
    Spells (leadingInstructions indent i comments)
      (comments.flatMap fun comment => textWords comment.text) := by
  induction comments generalizing i with
  | nil => exact .nil
  | cons comment comments ih =>
      have hbreak := spells_break (i > 0 ∧ comment.blankBefore = true)
      have htext := spells_text comment.text
      exact (hbreak.append (.lineBreak (.spaces htext))).append (ih (i + 1))

theorem spells_comments (comments : List Text) :
    Spells (comments.map .comment) (comments.flatMap textWords) := by
  induction comments with
  | nil => exact .nil
  | cons comment comments ih => exact .comment ih

theorem spells_block {forceBlock broken : Bool} (hbroken : forceBlock = true → broken = true)
    {blocks : List (AttributeLayout Layout)} (h : Layout.ForcedIn forceBlock blocks)
    (indent index group : Nat) :
    Spells (blockInstructions broken indent index group blocks) (Layout.wordsIn blocks) := by
  induction blocks generalizing index group with
  | nil => exact .nil
  | cons block blocks ih =>
      rcases block with ⟨gapBlank, leading, blankBeforeNode, item, trailing⟩
      have hbefore := ((spells_break (index > 0 ∧ gapBlank = true)).append
        (spells_leading indent 0 leading)).append (spells_break (blankBeforeNode = true))
      have hseparator := spells_separator index
      have hforced : broken = false → forceBlock = false := fun hoff =>
        Bool.eq_false_iff.2 fun hforce =>
          absurd (hoff.symm.trans (hbroken hforce)) Bool.false_ne_true
      cases item with
      | none =>
          have hblocks := ih h.2 (index + 1) group
          cases broken with
          | true =>
              have hall := (hbefore.append (spells_comments trailing)).append hblocks
              simpa [blockInstructions, Layout.wordsIn] using hall
          | false =>
              -- On one line the comments are not written, so there must be none.
              rcases h.1 (hforced rfl) with ⟨rfl, rfl⟩
              simpa [blockInstructions, Layout.wordsIn] using hseparator.append hblocks
      | some item =>
          have hblocks := ih h.2.2 (index + 1) (group + item.constructs)
          cases broken with
          | true =>
              have hitem : Spells [.lineBreak, .spaces (indent + 2), .layout group item false] _ :=
                .lineBreak (.spaces (.layout h.2.1 .nil))
              have hall := ((hbefore.append hitem).append (spells_comments trailing)).append hblocks
              simpa [blockInstructions, Layout.wordsIn] using hall
          | false =>
              rcases h.1 (hforced rfl) with ⟨rfl, rfl⟩
              have hitem : Spells (.layout group item true :: _) _ := .layout h.2.1 hblocks
              simpa [blockInstructions, Layout.wordsIn] using hseparator.append hitem

theorem spells_tuple {items : List Layout} (h : Layout.ForcedOf items) (broken : Bool)
    (indent group : Nat) :
    Spells (tupleInstructions broken indent group items) (Layout.tuple items).words := by
  have hend : Spells (if broken then [.lineBreak, .spaces indent] else []) [] :=
    spells_if (.lineBreak (.spaces .nil)) .nil
  have hall := (((spells_text ['(']).append (spells_tupleItems h broken indent items.length 0
    (group + 1))).append hend).append (spells_text [')'])
  rwa [List.append_nil] at hall

theorem spells_shapes (broken : Bool) (indent : Nat) (items : List Text) :
    Spells (shapesInstructions broken indent items) (Layout.shapes items).words :=
  (spells_if (spells_text [' ']) .nil).append (spells_shapeItems broken indent _ 0 items)

theorem spells_attributes {forceBlock broken : Bool}
    (hbroken : forceBlock = true → broken = true) {blocks : List (AttributeLayout Layout)}
    (h : Layout.ForcedIn forceBlock blocks) (indent group : Nat) :
    Spells (attributesInstructions broken indent group blocks)
      (Layout.attributes blocks forceBlock).words := by
  have hblock := spells_block hbroken h indent 0 (group + 1)
  cases broken with
  | true =>
      exact ((spells_text ['[']).append hblock).append (.lineBreak (.spaces (spells_text [']'])))
  | false => exact ((spells_text ['[', ' ']).append hblock).append (spells_text [' ', ']'])

/-! ### The renderer -/

def Renderer.written (r : Renderer) : Text := r.lines.flatMap (· ++ ['\n']) ++ r.line

section Weaving

variable (words : List Text)

/-- The candidates of a line from a cursor back, each with the rest of the words behind it. -/
inductive Returns (arena : List Continuation) (candidates : List Candidate) (done : Text) :
    Cursor → Text → Prop
  | nil {line} : Returns arena candidates done none line
  | cons {k : Nat} {candidate line is spelled} (found : candidates[k]? = some candidate)
      (bytes : candidate.bytes ≤ line.length) (pending : Chain arena candidate.cursor is)
      (spells : Spells is spelled)
      (woven : ∀ rest, Writes is rest → Woven words (done ++ line.take candidate.bytes ++ rest))
      (rest : Returns arena candidates done candidate.previous (line.take candidate.bytes)) :
      Returns arena candidates done (some k) line

/-- What was written is the words up to what may come. -/
structure Weaves (r : Renderer) (is : List Instruction) (ahead : Text → Prop) : Prop where
  pending : Chain r.continuations r.pending is
  woven : ∀ rest, ahead rest → Woven words (r.written ++ rest)
  returns : Returns words r.continuations r.candidates (r.lines.flatMap (· ++ ['\n']))
    r.lastCandidate r.line

/-- What was written and what is pending are the words. -/
def Weaving (r : Renderer) : Prop :=
  ∃ is spelled, Spells is spelled ∧ Weaves words r is (Writes is)

end Weaving

variable {cursor : Cursor} {r r' : Renderer} {P Q : Text → Prop} {item : Layout} {inline : Bool}

theorem Returns.line {arena : List Continuation} {candidates : List Candidate} {done line : Text}
    (h : Returns words arena candidates done cursor line) (text : Text) :
    Returns words arena candidates done cursor (line ++ text) := by
  cases h with
  | nil => exact .nil
  | cons found bytes pending spells woven rest =>
      have htake := @List.take_append_of_le_length _ _ text _ bytes
      rw [← htake] at woven rest
      exact .cons found (bytes.trans (List.length_append ▸ Nat.le_add_right _ _)) pending spells
        woven rest

theorem Returns.grow {arena arena' : List Continuation} {candidates candidates' : List Candidate}
    {done line : Text} (h : Returns words arena candidates done cursor line)
    (harena : ∀ {cursor is}, Chain arena cursor is → Chain arena' cursor is)
    (hfound : ∀ {k : Nat} {c}, candidates[k]? = some c → candidates'[k]? = some c) :
    Returns words arena' candidates' done cursor line := by
  induction h with
  | nil => exact .nil
  | cons found bytes pending spells woven _ ih =>
      exact .cons (hfound found) bytes (harena pending) spells woven ih

theorem Weaves.imp (h : Weaves words r is P) (himp : ∀ rest, Q rest → P rest) :
    Weaves words r is Q :=
  ⟨h.pending, fun rest hrest => h.woven rest (himp rest hrest), h.returns⟩

theorem Weaves.prepend (h : Weaves words r is P) (i : Instruction) :
    Weaves words (r.prepend i) (i :: is) P := by
  have hentry : (r.continuations ++ [⟨i, r.pending⟩])[r.continuations.length]? =
      some ⟨i, r.pending⟩ := List.getElem?_concat_length
  exact ⟨.cons hentry (h.pending.push _), h.woven,
    h.returns.grow (·.push _) fun hfound => hfound⟩

theorem Weaves.prependAll (h : Weaves words r is P) (js : List Instruction) :
    Weaves words (r.prependAll js) (js ++ is) P := by
  induction js with
  | nil => exact h
  | cons j js ih => exact ih.prepend j

theorem Weaves.append (h : Weaves words r is P) (text : Text) :
    Weaves words (r.append text) is fun rest => P (text ++ rest) := by
  refine ⟨h.pending, fun rest hrest => ?_, h.returns.line text⟩
  have hwoven := h.woven _ hrest
  rwa [Renderer.written, List.append_assoc, ← List.append_assoc r.line,
    ← List.append_assoc] at hwoven

theorem Weaves.mark (h : Weaves words r is P) : Weaves words r.markCode is P :=
  ⟨h.pending, h.woven, h.returns⟩

theorem Weaves.appendLine (h : Weaves words r is P) (line : Text) :
    Weaves words (r.appendLine line) is fun rest => P (line ++ rest) := by
  have hblock : Weaves words
      { r with inBlockComment := (lineCommentStart line r.inBlockComment).2 } is P :=
    ⟨h.pending, h.woven, h.returns⟩
  rw [Renderer.appendLine]
  generalize lineCommentStart line r.inBlockComment = found at *
  rcases found with ⟨found, inBlock⟩
  cases found with
  | none => exact hblock.append line
  | some start =>
      refine (((hblock.append _).mark).append _).imp fun rest hrest => ?_
      rwa [← List.append_assoc, code_append_drop]

/-- A line ends, or the renderer goes back to a candidate. -/
theorem Weaves.finish (h : Weaves words r is P) (hspells : Spells is more)
    (hP : ∀ rest, Writes is rest → P ('\n' :: rest)) {b : Bool}
    (hfinish : r.finishLine = some (b, r')) :
    Weaving words r' ∧ (b = true → r' = r.commit) := by
  have hcommit : Weaves words r.commit is (Writes is) := by
    refine ⟨h.pending, fun rest hrest => ?_, .nil⟩
    have hwoven := h.woven _ (hP rest hrest)
    simpa [Renderer.written, Renderer.commit] using hwoven
  rw [Renderer.finishLine] at hfinish
  split at hfinish
  · next width k _ hlast =>
      split_ifs at hfinish with hlong
      · rcases Option.bind_eq_some_iff.1 hfinish with ⟨candidate, hfound, hrewind⟩
        cases hrewind
        have hreturns := h.returns
        rw [hlast] at hreturns
        cases hreturns with
        | cons found bytes pending spells woven rest =>
            -- What is cut off the line is behind the candidate's cursor again.
            rw [hfound] at found
            cases found
            exact ⟨⟨_, _, spells, pending, woven, rest⟩, (absurd · Bool.false_ne_true)⟩
      · cases hfinish
        exact ⟨⟨is, _, hspells, hcommit⟩, fun _ => rfl⟩
  · cases hfinish
    exact ⟨⟨is, _, hspells, hcommit⟩, fun _ => rfl⟩

theorem Weaves.pushText (h : Weaves words r is P) (hspells : Spells is more) {body : Text}
    (hP : ∀ rest, Writes is rest → P (body ++ rest)) (htext : r.text body = some r') :
    Weaving words r' := by
  rw [Renderer.text] at htext
  split at htext
  · next front back hsplit =>
      rcases Option.map_eq_some_iff.1 htext with ⟨⟨b, _⟩, hfinish, rfl⟩
      -- The rest of the text has to come next, so the text is not torn at its line break.
      refine (((h.appendLine front).prepend _).finish (.text hspells) ?_ hfinish).1
      rintro _ ⟨_, rest, rfl, rfl, hrest⟩
      have hbody := hP rest hrest
      rwa [(splitLine_eq_some hsplit).1, List.append_assoc] at hbody
  · cases htext
    exact ⟨is, _, hspells, (h.appendLine body).imp hP⟩

theorem Weaves.group (h : Weaves words r is (Writes js)) (hjs : Spells js more)
    (hcursor : Chain r.continuations cursor js) (group : Nat) (nonempty inline : Bool) :
    Weaves words (r.group group nonempty inline cursor).2 is (Writes js) := by
  rw [Renderer.group]
  split_ifs
  · exact h
  · refine ⟨h.pending, h.woven,
      .cons List.getElem?_concat_length (Nat.le_refl _) hcursor hjs ?_ ?_⟩
    · rw [List.take_length]
      exact h.woven
    · rw [List.take_length]
      exact h.returns.grow (fun hchain => hchain) fun hfound =>
        (List.getElem?_append_left (List.getElem?_eq_some_iff.1 hfound).1).trans hfound
  · exact h

theorem Weaves.replaced {id : Nat}
    (h : Weaves words r is (Writes (.layout id item inline :: is))) (hspells : Spells is more)
    (hjs : Spells js item.words) : Weaving words (r.prependAll js) := by
  refine ⟨js ++ is, _, hjs.append hspells, (h.prependAll js).imp fun rest hrest => ?_⟩
  rcases hrest.split with ⟨front, back, rfl, hfront, hback⟩
  exact ⟨front, back, rfl, hjs.woven hfront, hback⟩

theorem Weaves.layout {id : Nat}
    (h : Weaves words r is (Writes (.layout id item inline :: is))) (hspells : Spells is more)
    (hitem : item.Forced)
    (hcursor : Chain r.continuations cursor (.layout id item inline :: is))
    (hlayout : r.layout id item inline cursor = some r') : Weaving words r' := by
  have hgroup := h.group (.layout hitem hspells) hcursor id
  cases item with
  | text body =>
      exact h.pushText hspells
        (fun rest hrest => ⟨body, rest, rfl, woven_textWords body, hrest⟩) hlayout
  | trailingComment body =>
      cases hlayout
      have hcomment := spells_comments [body]
      rw [List.flatMap_singleton] at hcomment
      exact h.replaced hspells hcomment
  | lineBreak =>
      cases hlayout
      exact h.replaced hspells (.lineBreak (.spaces .nil))
  | concat parts =>
      cases hlayout
      exact h.replaced hspells (spells_concat hitem inline id)
  | tuple items =>
      cases hlayout
      exact (hgroup _ inline).replaced hspells (spells_tuple hitem _ _ id)
  | shapes items =>
      cases hlayout
      exact (hgroup _ inline).replaced hspells (spells_shapes _ _ items)
  | attributes blocks forceBlock =>
      rw [Renderer.layout] at hlayout
      split at hlayout
      next broken _ hbroken =>
      cases hlayout
      split_ifs at hbroken with hforce
      · cases hbroken
        exact h.replaced hspells (spells_attributes (fun _ => rfl) hitem _ id)
      · have hr := hgroup (blocks ≠ []) inline
        rw [hbroken] at hr
        exact hr.replaced hspells (spells_attributes (absurd · hforce) hitem _ id)

/-- What a step leaves, and what the last one answers. -/
theorem Weaving.step (h : Weaving words r) {answer : Renderer ⊕ List Text}
    (hstep : r.step = some answer) :
    answer.elim (Weaving words) fun lines => Woven words (lines.flatMap (· ++ ['\n'])) := by
  rcases h with ⟨is, spelled, hspells, h⟩
  generalize hpending : r.pending = cursor
  have hchain := h.pending
  rw [hpending] at hchain
  rw [Renderer.step, hpending] at hstep
  cases hchain with
  | nil =>
      have hend : Weaves words r [] fun rest => rest.all isGap = true := by
        refine ⟨h.pending, fun rest hrest => ?_, h.returns⟩
        have hwoven := (h.woven [] rfl).append (.nil hrest)
        rwa [List.append_nil, List.append_nil] at hwoven
      rcases Option.map_eq_some_iff.1 hstep with ⟨⟨b, r'⟩, hfinish, rfl⟩
      rcases hend.finish hspells (fun rest hrest => by cases hrest; rfl) hfinish with
        ⟨hweaving, hcommit⟩
      cases b with
      | false => exact hweaving
      | true =>
          cases hcommit rfl
          have hwoven := hend.woven ['\n'] rfl
          simpa [Renderer.written, Renderer.commit] using hwoven
  | @cons k entry is hentry hnext =>
      have hpopped : Weaves words { r with pending := entry.next } is
          (Writes (entry.instruction :: is)) := ⟨hnext, h.woven, h.returns⟩
      have hcursor := Chain.cons hentry hnext
      dsimp only at hstep
      rw [hentry, Option.bind_eq_bind, Option.bind_some] at hstep
      generalize entry.instruction = i at *
      cases hspells with
      | layout hitem hspells =>
          rcases Option.map_eq_some_iff.1 hstep with ⟨r', hlayout, rfl⟩
          exact hpopped.layout hspells hitem hcursor hlayout
      | text hspells =>
          rcases Option.map_eq_some_iff.1 hstep with ⟨r', htext, rfl⟩
          exact hpopped.pushText hspells (fun rest hrest => ⟨_, rest, rfl, rfl, hrest⟩) htext
      | comment hspells =>
          cases hstep
          refine ⟨_, _, .text hspells, ((hpopped.mark.append _).prepend _).imp ?_⟩
          rintro _ ⟨_, rest, rfl, rfl, hrest⟩
          exact ⟨_, rest, rfl, rfl, hrest⟩
      | spaces hspells =>
          cases hstep
          refine ⟨_, _, hspells, (hpopped.append _).imp fun rest hrest => ?_⟩
          exact ⟨_, rest, rfl, rfl, hrest⟩
      | lineBreak hspells =>
          rcases Option.map_eq_some_iff.1 hstep with ⟨⟨b, r'⟩, hfinish, rfl⟩
          exact (hpopped.finish hspells (fun rest hrest => ⟨_, rest, rfl, rfl, hrest⟩) hfinish).1

theorem Weaving.run (h : Weaving words r) {fuel : Nat} {lines : List Text}
    (hrun : r.run fuel = some lines) : Woven words (lines.flatMap (· ++ ['\n'])) := by
  induction fuel generalizing r with
  | zero => cases hrun
  | succ fuel ih =>
      rw [Renderer.run] at hrun
      split at hrun
      · next hstep => exact ih (h.step hstep) hrun
      · next hstep =>
          cases hrun
          exact h.step hstep
      · cases hrun

end Fmt

end Ridl
