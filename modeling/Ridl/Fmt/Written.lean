import Ridl.Fmt.Drawing

/-!
# What the Reference Renderer Writes

The reference renderer writes the page that is drawn.

A rendering is one text, with the columns and the candidates looked up by line. It
shows a page when its lines are those of the page, where the columns of the code only
matter on a line with a candidate: a comment before an attribute is written as it is,
while drawing it looks for a line comment in it, and nothing can be broken on its line.
Where the line that is being drawn has the same columns as well, the rendering matches
the page, and then so does the rendering of a layout (`layout_at`).

## Main definitions

* `At`: They agree between two instructions.

## Theorems

* `Shows.breakCandidate`: The same construct is broken next.
* `layout_at`: A layout is written as it is drawn.
* `rendered_shows`: The reference renderer writes the drawing of the layout.
-/

namespace Ridl

namespace Fmt

open Library

/-- The rendering has the lines of the page; where no construct can be broken on a line,
    the columns of its code do not matter. -/
structure Shows (r : Rendering) (p : Page) : Prop where
  text : r.text = p.done.flatMap (fun line => line.text ++ ['\n']) ++ p.line.text
  plain : ∀ line ∈ p.lines, '\n' ∉ line.text
  line : r.line = p.done.length
  candidates : ∀ (n : Nat) (line : Line), p.done[n]? = some line →
    r.lastCandidates[n]?.join = line.candidate
  candidate : r.lastCandidates[r.line]?.join = p.line.candidate
  length : r.lastCandidates.length ≤ r.line + 1
  codes : ∀ (n : Nat) (line : Line), p.done[n]? = some line →
    line.candidate = none ∨ r.codeColumns.lookup n = line.code
  code : p.line.candidate = none ∨ r.codeColumns.lookup r.line = p.line.code
  fresh : ∀ n, r.line < n → r.codeColumns.lookup n = none

/-- The rendering also has the columns of the line that is being drawn. -/
structure Matches (r : Rendering) (p : Page) : Prop extends Shows r p where
  current : r.codeColumns.lookup r.line = p.line.code

/-- Between two instructions, outside a block comment, before the construct `n`. -/
structure Between (r : Rendering) (p : Page) (n : Nat) : Prop where
  outside : p.inBlock = false
  nextId : r.nextId = n

structure At (r : Rendering) (p : Page) (n : Nat) : Prop extends Matches r p, Between r p n

/-- As `At`, while nothing can be broken on the line unless the columns agree. -/
structure Near (r : Rendering) (p : Page) (n : Nat) : Prop extends Shows r p, Between r p n

theorem At.near {r : Rendering} {p : Page} {n : Nat} (h : At r p n) : Near r p n :=
  { h.toShows, h.toBetween with }

section Lines

variable {r : Rendering} {p : Page}

variable {line text : Text} {lines : List Text}

theorem lastLine_append {front : Text} (h : '\n' ∉ line) :
    lastLine (front ++ '\n' :: line) = line := by
  have hreverse : ∀ c ∈ line.reverse, (decide (c ≠ '\n')) = true := by
    intro c hc
    exact decide_eq_true fun heq => h (heq ▸ List.mem_reverse.1 hc)
  rw [lastLine, List.reverse_append, List.reverse_cons, List.append_assoc,
    List.takeWhile_append_of_pos hreverse]
  simp

theorem lastLine_eq (h : '\n' ∉ line) : lastLine line = line := by
  have hreverse : ∀ c ∈ line.reverse, (decide (c ≠ '\n')) = true := by
    intro c hc
    exact decide_eq_true fun heq => h (heq ▸ List.mem_reverse.1 hc)
  have htake : (line.reverse ++ []).takeWhile (fun c => decide (c ≠ '\n')) =
      line.reverse ++ [].takeWhile (fun c => decide (c ≠ '\n')) :=
    List.takeWhile_append_of_pos hreverse
  rw [List.append_nil] at htake
  rw [lastLine, htake, List.takeWhile_nil, List.append_nil, List.reverse_reverse]

theorem Shows.line_plain (h : Shows r p) : '\n' ∉ p.line.text :=
  h.plain p.line (List.mem_append_right _ List.mem_cons_self)

theorem Shows.lastLine (h : Shows r p) : lastLine r.text = p.line.text := by
  rw [h.text]
  rcases List.eq_nil_or_concat' p.done with hnil | ⟨front, line, hdone⟩
  · rw [hnil]
    exact lastLine_eq h.line_plain
  · rw [hdone, List.flatMap_append, List.flatMap_singleton, List.append_assoc, List.append_assoc,
      List.singleton_append, ← List.append_assoc]
    exact lastLine_append h.line_plain

theorem Shows.currentIndent (h : Shows r p) : r.currentIndent = indentOf p.line.text := by
  rw [Rendering.currentIndent, h.lastLine]

theorem Shows.put (h : Shows r p) (htext : '\n' ∉ text) :
    Shows (r.push text) (p.put text) := by
  have hline : (r.push text).line = r.line := by
    rw [Rendering.push, List.count_eq_zero.2 htext, Nat.add_zero]
  refine ⟨?_, ?_, hline.trans h.line, h.candidates, hline ▸ h.candidate, hline ▸ h.length, h.codes,
    hline ▸ h.code, hline ▸ h.fresh⟩
  · rw [Rendering.push, h.text, List.append_assoc]
    rfl
  · intro line hmem
    rcases List.mem_append.1 hmem with hmem | hmem
    · exact h.plain line (List.mem_append_left _ hmem)
    · rw [List.mem_singleton.1 hmem]
      exact fun hin => (List.mem_append.1 hin).elim h.line_plain htext

theorem Matches.put (h : Matches r p) (htext : '\n' ∉ text) :
    Matches (r.push text) (p.put text) := by
  refine ⟨h.toShows.put htext, ?_⟩
  rw [Rendering.push, List.count_eq_zero.2 htext]
  exact h.current

theorem getElem?_concat_eq_some {α : Type} {xs : List α} {x y : α} {n : Nat}
    (h : (xs ++ [x])[n]? = some y) : xs[n]? = some y ∨ n = xs.length ∧ y = x := by
  rcases Nat.lt_trichotomy n xs.length with hlt | rfl | hgt
  · rw [List.getElem?_append_left hlt] at h
    exact .inl h
  · rw [List.getElem?_concat_length] at h
    exact .inr ⟨rfl, (Option.some.inj h).symm⟩
  · rw [List.getElem?_eq_none (by rw [List.length_append, List.length_singleton]; omega)] at h
    exact nomatch h

theorem Shows.close (h : Shows r p) : Matches (r.push ['\n']) p.close := by
  have hline : (r.push ['\n']).line = r.line + 1 := rfl
  have hdone : ∀ (n : Nat) (line : Line), p.close.done[n]? = some line →
      p.done[n]? = some line ∨ n = r.line ∧ line = p.line := fun n line hn =>
    h.line ▸ getElem?_concat_eq_some hn
  refine ⟨⟨?_, ?_, ?_, ?_, ?_, ?_, ?_, .inl rfl, ?_⟩, ?_⟩
  · rw [Rendering.push, h.text, Page.close, List.flatMap_append, List.flatMap_singleton,
      Line.blank, List.append_nil, List.append_assoc]
  · intro line hmem
    rcases List.mem_append.1 hmem with hmem | hmem
    · exact h.plain line hmem
    · rw [List.mem_singleton.1 hmem]
      exact List.not_mem_nil
  · rw [hline, h.line, Page.close, List.length_append]
    rfl
  · intro n line hn
    rcases hdone n line hn with hn | ⟨rfl, rfl⟩
    · exact h.candidates n line hn
    · exact h.candidate
  · have hnone : r.lastCandidates[r.line + 1]? = none := List.getElem?_eq_none h.length
    rw [hline, Rendering.push, hnone]
    rfl
  · exact Nat.le_succ_of_le h.length
  · intro n line hn
    rcases hdone n line hn with hn | ⟨rfl, rfl⟩
    · exact h.codes n line hn
    · exact h.code
  · intro n hn
    exact h.fresh n (Nat.lt_of_succ_lt hn)
  · exact h.fresh _ (Nat.lt_succ_self _)

theorem Rendering.lookup_recordCodeColumns (r : Rendering) (n : Nat) :
    r.recordCodeColumns.codeColumns.lookup n =
      if n = r.line then some ((r.codeColumns.lookup r.line).getD (Fmt.lastLine r.text).length)
      else r.codeColumns.lookup n := by
  cases hlookup : r.codeColumns.lookup r.line with
  | some code =>
      rw [Rendering.recordCodeColumns, hlookup]
      split_ifs with heq
      · rw [heq, hlookup]
        rfl
      · rfl
  | none =>
      rw [Rendering.recordCodeColumns, hlookup]
      split_ifs with heq
      · rw [heq, List.lookup_cons_self]
        rfl
      · rw [List.lookup_cons, beq_eq_false_iff_ne.2 heq]

theorem Rendering.recordCodeColumns_eq (r : Rendering) :
    r.recordCodeColumns = { r with codeColumns := r.recordCodeColumns.codeColumns } := by
  rw [Rendering.recordCodeColumns]
  split <;> rfl

theorem Shows.mark (h : Shows r p) : Shows r.recordCodeColumns p.mark := by
  have hlookup := r.lookup_recordCodeColumns
  rw [r.recordCodeColumns_eq]
  refine ⟨h.text, ?_, h.line, h.candidates, h.candidate, h.length, ?_, ?_, ?_⟩
  · intro line hmem
    rcases List.mem_append.1 hmem with hmem | hmem
    · exact h.plain line (List.mem_append_left _ hmem)
    · rw [List.mem_singleton.1 hmem]
      exact h.line_plain
  · intro n line hn
    have hlt : n ≠ r.line := by
      rw [h.line]
      exact Nat.ne_of_lt (List.getElem?_eq_some_iff.1 hn).1
    dsimp only
    rw [hlookup, if_neg hlt]
    exact h.codes n line hn
  · refine h.code.imp id fun hcode => ?_
    dsimp only
    rw [hlookup, if_pos rfl, hcode, h.lastLine]
    rfl
  · intro n hn
    dsimp only
    rw [hlookup, if_neg (Nat.ne_of_gt hn)]
    exact h.fresh n hn

theorem Matches.mark (h : Matches r p) : Matches r.recordCodeColumns p.mark := by
  refine ⟨h.toShows.mark, ?_⟩
  have hlookup := r.lookup_recordCodeColumns r.line
  rw [if_pos rfl, h.current, h.lastLine] at hlookup
  rw [r.recordCodeColumns_eq]
  exact hlookup

theorem join_getElem?_append_none {α : Type} (xs : List (Option α)) (count n : Nat) :
    (xs ++ List.replicate count none)[n]?.join = xs[n]?.join := by
  by_cases hlt : n < xs.length
  · rw [List.getElem?_append_left hlt]
  · rw [List.getElem?_append_right (Nat.le_of_not_lt hlt), List.getElem?_replicate,
      List.getElem?_eq_none (Nat.le_of_not_lt hlt)]
    split_ifs <;> rfl

theorem Matches.offer (h : Matches r p) (id : Nat) :
    Matches (r.recordCandidate id) (p.offer id) := by
  have hlength : ((r.lastCandidates ++
      List.replicate (r.line + 1 - r.lastCandidates.length) none).take (r.line + 1)).length =
        r.line + 1 := by
    rw [List.length_take, List.length_append, List.length_replicate]
    have := h.length
    omega
  refine ⟨⟨h.text, ?_, h.line, ?_, ?_, ?_, h.codes, .inr h.current, h.fresh⟩, h.current⟩
  · intro line hmem
    rcases List.mem_append.1 hmem with hmem | hmem
    · exact h.plain line (List.mem_append_left _ hmem)
    · rw [List.mem_singleton.1 hmem]
      exact h.line_plain
  · intro n line hn
    have hlt : n < r.line := h.line ▸ (List.getElem?_eq_some_iff.1 hn).1
    rw [← h.candidates n line hn, Rendering.recordCandidate]
    dsimp only
    rw [List.getElem?_set_ne (Nat.ne_of_gt hlt), List.getElem?_take_of_lt (Nat.lt_succ_of_lt hlt)]
    exact join_getElem?_append_none _ _ _
  · rw [Rendering.recordCandidate]
    dsimp only
    rw [List.getElem?_set_self (by omega)]
    rfl
  · rw [Rendering.recordCandidate]
    dsimp only
    exact Nat.le_of_eq (by rw [List.length_set, hlength])

theorem code_append_drop (line : Text) (start : Nat) :
    trimEnd (line.take start) ++ line.drop (trimEnd (line.take start)).length = line := by
  have hprefix : trimEnd (line.take start) <+: line := by
    refine List.IsPrefix.trans ?_ (List.take_prefix start line)
    rw [trimEnd, ← List.reverse_suffix, List.reverse_reverse]
    exact List.dropWhile_suffix _
  exact List.prefix_iff_eq_append.1 hprefix

theorem not_mem_code (h : '\n' ∉ line) (start : Nat) :
    '\n' ∉ trimEnd (line.take start) ∧
      '\n' ∉ line.drop (trimEnd (line.take start)).length := by
  have hmem := code_append_drop line start
  refine ⟨fun hin => h ?_, fun hin => h ?_⟩
  · exact hmem ▸ List.mem_append_left _ hin
  · exact List.mem_of_mem_drop hin

theorem Matches.write (h : Matches r p) (hline : '\n' ∉ line)
    (found : Option Nat) : Matches (r.pushLine line found) (p.write line found) := by
  cases found with
  | none => exact h.put hline
  | some start =>
      rcases not_mem_code hline start with ⟨hcode, hrest⟩
      exact ((h.put hcode).mark).put hrest

theorem Matches.withBlock (h : Matches r p) (inBlock : Bool) :
    Matches r { p with inBlock := inBlock } :=
  ⟨⟨h.text, h.plain, h.line, h.candidates, h.candidate, h.length, h.codes, h.code, h.fresh⟩,
    h.current⟩

theorem Shows.withBlock (h : Shows r p) (inBlock : Bool) :
    Shows r { p with inBlock := inBlock } :=
  ⟨h.text, h.plain, h.line, h.candidates, h.candidate, h.length, h.codes, h.code, h.fresh⟩

theorem Matches.writeLine (h : Matches r p) (hline : '\n' ∉ line) :
    Matches (r.pushLine line (lineCommentStart line p.inBlock).1) (p.writeLine line) :=
  (h.write hline _).withBlock _

theorem Matches.nextLines (h : Matches r p) (hplain : ∀ line ∈ lines, '\n' ∉ line) (i : Nat) :
    Matches (r.pushLines (i + 1) p.inBlock lines) (lines.foldl Page.nextLine p) := by
  induction lines generalizing r p i with
  | nil => exact h
  | cons line lines ih =>
      rcases List.forall_mem_cons.1 hplain with ⟨hline, hlines⟩
      exact ih (h.toShows.close.writeLine hline) hlines (i + 1)

theorem exists_lines (text : Text) :
    ∃ line lines, text.splitOn '\n' = line :: lines ∧ '\n' ∉ line ∧
      ∀ next ∈ lines, '\n' ∉ next := by
  have hplain := not_mem_of_mem_splitOn text
  cases hlines : text.splitOn '\n' with
  | nil => exact absurd hlines (List.splitOn_ne_nil _ _)
  | cons line lines =>
      rw [hlines] at hplain
      rcases List.forall_mem_cons.1 hplain with ⟨hline, hrest⟩
      exact ⟨line, lines, rfl, hline, hrest⟩

theorem Matches.pushText (h : Matches r p) (hblock : p.inBlock = false) (text : Text) :
    Matches (r.pushText text) (p.writeLines (text.splitOn '\n')) := by
  rcases exists_lines text with ⟨line, lines, hsplit, hline, hrest⟩
  have hfirst := (h.writeLine hline).nextLines hrest 0
  rw [Rendering.pushText, hsplit, ← hblock]
  exact hfirst

theorem Rendering.push_append (r : Rendering) (front back : Text) :
    r.push (front ++ back) = (r.push front).push back := by
  rw [Rendering.push, Rendering.push, Rendering.push, List.count_append, List.append_assoc,
    Nat.add_assoc]

def Rendering.pushNext (r : Rendering) (line : Text) : Rendering := (r.push ['\n']).push line

theorem Rendering.push_eq (r : Rendering) (h : text.splitOn '\n' = line :: lines) :
    r.push text = lines.foldl Rendering.pushNext (r.push line) := by
  induction text using text_induction generalizing r line lines with
  | line text htext =>
      rw [List.splitOn_eq_singleton htext] at h
      cases h
      rfl
  | lines text rest htext ih =>
      rw [List.splitOn_append_cons_self_of_not_mem htext] at h
      cases h
      cases hrest : rest.splitOn '\n' with
      | nil => exact absurd hrest (List.splitOn_ne_nil _ _)
      | cons next lines =>
          rw [← List.singleton_append, Rendering.push_append, Rendering.push_append, ih _ hrest]
          rfl

theorem writeLine_bare (h : (lineCommentStart line p.inBlock).1 = none) :
    p.writeLine line = { p.put line with inBlock := (lineCommentStart line p.inBlock).2 } := by
  rw [Page.writeLine, h]
  rfl

theorem Matches.nextBare (h : Matches r p)
    (hplain : ∀ line ∈ lines, '\n' ∉ line) (hbare : Bare p.inBlock lines) :
    Matches (lines.foldl Rendering.pushNext r) (lines.foldl Page.nextLine p) := by
  induction lines generalizing r p with
  | nil => exact h
  | cons line lines ih =>
      rcases List.forall_mem_cons.1 hplain with ⟨hline, hlines⟩
      refine ih ?_ hlines hbare.2
      rw [Page.nextLine, writeLine_bare (p := p.close) hbare.1]
      exact (h.toShows.close.put hline).withBlock _

/-- On a line that nothing can be broken on, the columns of the code do not matter. -/
theorem Shows.writeLine (h : Shows r p) (hcandidate : p.line.candidate = none)
    (hline : '\n' ∉ line) :
    Shows (r.push line) (p.writeLine line) ∧ (p.writeLine line).line.candidate = none := by
  have hput := h.put hline
  have hwrite : ∀ found : Option Nat, (p.write line found).done = p.done ∧
      (p.write line found).line.text = p.line.text ++ line ∧
        (p.write line found).line.candidate = none := by
    intro found
    refine ⟨Page.write_done line found p, ?_, ?_⟩
    · cases found with
      | none => rfl
      | some start =>
          have hcode := code_append_drop line start
          rw [Page.write, Page.put, Page.mark, Page.put, List.append_assoc, hcode]
    · cases found <;> exact hcandidate
  rcases hwrite (lineCommentStart line p.inBlock).1 with ⟨hdone, htext, hnone⟩
  refine ⟨Shows.withBlock ⟨?_, ?_, ?_, ?_, ?_, hput.length, ?_, .inl hnone, hput.fresh⟩ _, hnone⟩
  · rw [hdone, htext]
    exact hput.text
  · intro text hmem
    rcases List.mem_append.1 hmem with hmem | hmem
    · exact h.plain text (List.mem_append_left _ (hdone ▸ hmem))
    · rw [List.mem_singleton.1 hmem, htext]
      exact fun hin => (List.mem_append.1 hin).elim h.line_plain hline
  · rw [hdone]
    exact hput.line
  · rw [hdone]
    exact hput.candidates
  · rw [hnone, ← hcandidate]
    exact hput.candidate
  · rw [hdone]
    exact hput.codes

theorem Shows.nextLines (h : Shows r p)
    (hplain : ∀ line ∈ lines, '\n' ∉ line) (hcandidate : p.line.candidate = none) :
    Shows (lines.foldl Rendering.pushNext r) (lines.foldl Page.nextLine p) ∧
      (lines.foldl Page.nextLine p).line.candidate = none := by
  induction lines generalizing r p with
  | nil => exact ⟨h, hcandidate⟩
  | cons line lines ih =>
      rcases List.forall_mem_cons.1 hplain with ⟨hline, hlines⟩
      rcases h.close.toShows.writeLine rfl hline with ⟨hnext, hnone⟩
      exact ih hnext hlines hnone

end Lines

section Numbers

variable (r : Rendering)

theorem Rendering.recordCodeColumns_nextId : r.recordCodeColumns.nextId = r.nextId := by
  rw [Rendering.recordCodeColumns]
  split <;> rfl

theorem Rendering.pushLine_nextId (line : Text) (found : Option Nat) :
    (r.pushLine line found).nextId = r.nextId := by
  cases found with
  | none => rfl
  | some start => exact (r.push (trimEnd (line.take start))).recordCodeColumns_nextId

theorem Rendering.pushLines_nextId (i : Nat) (inBlock : Bool) (lines : List Text) :
    (r.pushLines i inBlock lines).nextId = r.nextId := by
  induction lines generalizing r i inBlock with
  | nil => rfl
  | cons line lines ih =>
      rw [Rendering.pushLines, ih, Rendering.pushLine_nextId]
      split_ifs <;> rfl

theorem Rendering.trailingComment_nextId (comment : Text) :
    (r.trailingComment comment).nextId = r.nextId := r.recordCodeColumns_nextId

theorem foldl_nextLine_inBlock (lines : List Text) (p : Page) :
    (lines.foldl Page.nextLine p).inBlock = blockAfter p.inBlock lines := by
  induction lines generalizing p with
  | nil => rfl
  | cons line lines ih => exact ih _

theorem writeLines_inBlock (lines : List Text) (p : Page) :
    (p.writeLines lines).inBlock = blockAfter p.inBlock lines := by
  cases lines with
  | nil => rfl
  | cons line lines => exact foldl_nextLine_inBlock lines _

end Numbers

section Instructions

variable {broken : List Nat} {r : Rendering} {p : Page} {n : Nat}

theorem drawAll_text_nil (text : Text) :
    drawAll broken [.text text] p = p.writeLines (text.splitOn '\n') := by
  rw [drawAll_text, drawAll_nil]

theorem At.pushText (h : At r p n) {text : Text} (hcloses : Closes text) :
    At (r.pushText text) (drawAll broken [.text text] p) n := by
  rw [drawAll_text_nil]
  refine ⟨h.toMatches.pushText h.outside text, ?_, ?_⟩
  · rw [writeLines_inBlock, h.outside]
    exact hcloses
  · rw [Rendering.pushText, Rendering.pushLines_nextId]
    exact h.nextId

theorem At.bare (h : At r p n) {text : Text} (hcloses : Closes text)
    (hbare : Bare false (text.splitOn '\n')) :
    At (r.push text) (drawAll broken [.text text] p) n := by
  rw [drawAll_text_nil]
  refine ⟨?_, ?_, h.nextId⟩
  · rcases exists_lines text with ⟨line, lines, hsplit, hline, hrest⟩
    rw [hsplit, ← h.outside] at hbare
    rw [Rendering.push_eq r hsplit, hsplit, Page.writeLines, writeLine_bare hbare.1]
    exact ((h.toMatches.put hline).withBlock _).nextBare hrest hbare.2
  · rw [writeLines_inBlock, h.outside]
    exact hcloses

/-- A text on one line, in which no comment starts. -/
def IsSymbol (text : Text) : Prop :=
  text.splitOn '\n' = [text] ∧ lineCommentStart text false = (none, false)

instance (text : Text) : Decidable (IsSymbol text) := inferInstanceAs (Decidable (_ ∧ _))

theorem At.symbol (h : At r p n) (text : Text) (hsymbol : IsSymbol text) :
    At (r.push text) (drawAll broken [.text text] p) n := by
  rcases hsymbol with ⟨hsplit, hcomment⟩
  refine h.bare ?_ ?_
  · rw [Closes, hsplit, blockAfter, List.foldl_cons, List.foldl_nil, hcomment]
  · rw [hsplit, Bare, hcomment]
    exact ⟨rfl, trivial⟩

theorem Near.lineBreak (h : Near r p n) :
    At (r.push ['\n']) (drawAll broken [.lineBreak] p) n := by
  rw [drawAll_lineBreak, drawAll_nil]
  exact ⟨h.toShows.close, h.outside, h.nextId⟩

theorem not_mem_spaces (count : Nat) : '\n' ∉ spaces count := fun h =>
  nomatch (List.eq_of_mem_replicate h)

theorem At.spaces (h : At r p n) (count : Nat) :
    At (r.push (spaces count)) (drawAll broken [.spaces count] p) n := by
  rw [drawAll_spaces, drawAll_nil]
  exact ⟨h.toMatches.put (not_mem_spaces count), h.outside, h.nextId⟩

theorem Near.indented (h : Near r p n) (count : Nat) :
    At ((r.push ['\n']).push (Fmt.spaces count))
      (drawAll broken ([.lineBreak] ++ [.spaces count]) p) n := by
  rw [drawAll_append broken [.lineBreak] [.spaces count] p]
  exact h.lineBreak.spaces count

theorem drawAll_comment (comment : Text) :
    drawAll broken [.comment comment] p =
      (p.mark.put [' ']).writeLines (comment.splitOn '\n') := by
  rw [drawAll_cons]
  exact drawAll_text_nil comment

theorem writeLine_marked (line : Text) :
    (p.mark.put [' ']).writeLine line =
      { (p.mark.put [' ']).put line with inBlock := (lineCommentStart line p.inBlock).2 } := by
  have hwrite : ∀ found : Option Nat,
      (p.mark.put [' ']).write line found = (p.mark.put [' ']).put line := by
    intro found
    cases found with
    | none => rfl
    | some start =>
        have hcode := code_append_drop line start
        have happend : p.line.text ++ [' '] ++ trimEnd (line.take start) ++
            line.drop (trimEnd (line.take start)).length = p.line.text ++ [' '] ++ line := by
          rw [List.append_assoc, hcode]
        simp only [Page.write, Page.put, Page.mark, Line.columns, Option.getD_some, happend]
  rw [Page.writeLine, hwrite]
  rfl

variable {comment : Text}

theorem At.trailing (h : At r p n) (hcloses : Closes comment) (hplain : PlainAt .trailing comment) :
    At (r.trailingComment comment) (drawAll broken [.comment comment] p) n := by
  rw [drawAll_comment]
  refine ⟨?_, ?_, (r.trailingComment_nextId comment).trans h.nextId⟩
  · rcases exists_lines comment with ⟨line, lines, hsplit, hline, hrest⟩
    rw [PlainAt, hsplit, ← h.outside] at hplain
    rw [Rendering.trailingComment, Rendering.push_eq _ hsplit, hsplit, Page.writeLines,
      writeLine_marked]
    exact (((h.toMatches.mark.put (by decide)).put hline).withBlock _).nextBare hrest hplain
  · rw [writeLines_inBlock, Page.put, Page.mark, h.outside]
    exact hcloses

theorem Near.trailing (h : Near r p n) (hcloses : Closes comment) :
    Near (r.trailingComment comment) (drawAll broken [.comment comment] p) n := by
  rw [drawAll_comment]
  refine ⟨?_, ?_, (r.trailingComment_nextId comment).trans h.nextId⟩
  · rcases exists_lines comment with ⟨line, lines, hsplit, hline, hrest⟩
    rw [Rendering.trailingComment, Rendering.push_eq _ hsplit, hsplit, Page.writeLines,
      writeLine_marked]
    have hspace : '\n' ∉ [' '] := by decide
    have hfirst := ((h.toShows.mark.put hspace).put hline).withBlock
      (lineCommentStart line p.inBlock).2
    cases lines with
    | nil => exact hfirst
    | cons next lines =>
        rcases List.forall_mem_cons.1 hrest with ⟨hnext, hrest⟩
        rcases hfirst.close.toShows.writeLine rfl hnext with ⟨hwritten, hnone⟩
        exact (hwritten.nextLines hrest hnone).1
  · rw [writeLines_inBlock, Page.put, Page.mark, h.outside]
    exact hcloses

theorem Near.leading (h : Near r p n) (hcloses : Closes comment) (count : Nat) :
    Near (((r.push ['\n']).push (Fmt.spaces count)).push comment)
      (drawAll broken ([.lineBreak, .spaces count] ++ [.text comment]) p) n := by
  have hat : At ((r.push ['\n']).push (Fmt.spaces count)) (p.close.put (Fmt.spaces count)) n :=
    ⟨h.toShows.close.put (not_mem_spaces count), h.outside, h.nextId⟩
  rw [List.cons_append, List.singleton_append, drawAll_lineBreak, drawAll_spaces, drawAll_text_nil]
  refine ⟨?_, ?_, h.nextId⟩
  · rcases exists_lines comment with ⟨line, lines, hsplit, hline, hrest⟩
    rcases hat.toShows.writeLine rfl hline with ⟨hwritten, hnone⟩
    rw [Rendering.push_eq _ hsplit, hsplit]
    exact (hwritten.nextLines hrest hnone).1
  · rw [writeLines_inBlock, hat.outside]
    exact hcloses

theorem Near.gap (h : Near r p n) (c : Prop) [Decidable c] :
    Near (if c then r.push ['\n'] else r)
      (drawAll broken (if c then [.lineBreak] else []) p) n := by
  split_ifs
  · exact h.lineBreak.near
  · rw [drawAll_nil]
    exact h

theorem Near.leadingComments (h : Near r p n) {comments : List PendingComment}
    (hcloses : ∀ comment ∈ comments, Closes comment.text) (indent i : Nat) :
    Near (r.leadingComments indent i comments)
      (drawAll broken (leadingInstructions indent i comments) p) n := by
  induction comments generalizing r p i with
  | nil =>
      rw [leadingInstructions, drawAll_nil]
      exact h
  | cons comment comments ih =>
      rcases List.forall_mem_cons.1 hcloses with ⟨hcomment, hcomments⟩
      rw [leadingInstructions, drawAll_append, drawAll_append]
      exact ih ((h.gap _).leading hcomment _) hcomments (i + 1)

theorem Near.trailingComments (h : Near r p n) {comments : List Text}
    (hcloses : ∀ comment ∈ comments, Closes comment) :
    Near (comments.foldl (fun r comment => r.trailingComment comment) r)
      (drawAll broken (comments.map .comment) p) n := by
  induction comments generalizing r p with
  | nil =>
      rw [List.map_nil, drawAll_nil]
      exact h
  | cons comment comments ih =>
      rcases List.forall_mem_cons.1 hcloses with ⟨hcomment, hcomments⟩
      have hsplit := drawAll_append broken [.comment comment] (comments.map .comment) p
      rw [List.singleton_append] at hsplit
      rw [List.map_cons, hsplit]
      exact ih (h.trailing hcomment) hcomments

theorem At.takeId (h : At r p n) : At r.takeId p (n + 1) :=
  ⟨⟨⟨h.text, h.plain, h.line, h.candidates, h.candidate, h.length, h.codes, h.code, h.fresh⟩,
    h.current⟩, h.outside, congrArg (· + 1) h.nextId⟩

theorem At.offer (h : At r p n) (id : Nat) (c : Prop) [Decidable c] (inline : Bool) :
    At (if !inline ∧ c then r.recordCandidate id else r) (p.offerUnless false id c inline) n := by
  rw [Page.offerUnless]
  by_cases hoffer : inline = false ∧ c
  · rw [if_pos (by simpa using hoffer), if_neg Bool.false_ne_true,
      if_pos (by simpa using hoffer.symm)]
    exact ⟨h.toMatches.offer id, h.outside, h.nextId⟩
  · rw [if_neg (by simpa using hoffer), if_neg Bool.false_ne_true,
      if_neg (by rw [and_comm]; simpa using hoffer)]
    exact h

end Instructions

section Layouts

variable {broken : List Nat} {r : Rendering} {p : Page} {n : Nat}

theorem drawAll_indented (count : Nat) (i : Instruction) (p : Page) :
    drawAll broken [.lineBreak, .spaces count, i] p =
      drawAll broken [i] (drawAll broken [.lineBreak, .spaces count] p) :=
  drawAll_append broken [.lineBreak, .spaces count] [i] p

theorem At.separator (h : At r p n) (i : Nat) :
    At (if i > 0 then r.push [',', ' '] else r)
      (drawAll broken (if i > 0 then [.text [',', ' ']] else []) p) n := by
  split_ifs
  · exact h.symbol [',', ' '] (by decide)
  · rw [drawAll_nil]
    exact h

theorem At.comma (h : At r p n) (c : Prop) [Decidable c] :
    At (if c then r.push [','] else r) (drawAll broken (if c then [.text [',']] else []) p) n := by
  split_ifs
  · exact h.symbol [','] (by decide)
  · rw [drawAll_nil]
    exact h

variable {items : List Text}

theorem At.brokenShapes (h : At r p n)
    (hcloses : ∀ item ∈ items, Closes item) (hplain : ∀ item ∈ items, PlainAt .shape item)
    (indent count i : Nat) :
    At (r.brokenShapes indent count i items)
      (drawAll broken (shapeItems true indent count i items) p) n := by
  induction items generalizing r p i with
  | nil =>
      rw [shapeItems, drawAll_nil]
      exact h
  | cons item items ih =>
      rcases List.forall_mem_cons.1 hcloses with ⟨hcloseItem, hcloseItems⟩
      rcases List.forall_mem_cons.1 hplain with ⟨hplainItem, hplainItems⟩
      rw [shapeItems, drawAll_append, drawAll_append, drawAll_append]
      simp only [if_true, true_and]
      exact ih (((h.near.indented (indent + 2)).bare hcloseItem hplainItem).comma _) hcloseItems
        hplainItems (i + 1)

theorem Rendering.push_intercalate (r : Rendering) (separator item : Text) (items : List Text) :
    r.push (separator.intercalate (item :: items)) =
      items.foldl (fun r item => (r.push separator).push item) (r.push item) := by
  induction items generalizing r item with
  | nil => rw [List.intercalate_singleton, List.foldl_nil]
  | cons next items ih =>
      rw [List.intercalate_cons_cons, Rendering.push_append, ih, Rendering.push_append]
      rfl

theorem At.inlineShapes (h : At r p n)
    (hcloses : ∀ item ∈ items, Closes item) (hplain : ∀ item ∈ items, PlainAt .shape item)
    (indent count i : Nat) :
    At (items.foldl (fun r item => (r.push [',', ' ']).push item) r)
      (drawAll broken (shapeItems false indent count (i + 1) items) p) n := by
  induction items generalizing r p i with
  | nil =>
      rw [shapeItems, drawAll_nil]
      exact h
  | cons item items ih =>
      rcases List.forall_mem_cons.1 hcloses with ⟨hcloseItem, hcloseItems⟩
      rcases List.forall_mem_cons.1 hplain with ⟨hplainItem, hplainItems⟩
      rw [shapeItems, drawAll_append, drawAll_append, drawAll_append]
      simp only [Bool.false_eq_true, if_false, false_and, drawAll_nil, Nat.succ_pos, gt_iff_lt,
        if_true]
      exact ih ((h.symbol [',', ' '] (by decide)).bare hcloseItem hplainItem) hcloseItems
        hplainItems (i + 1)

theorem At.shapes (h : At r p n)
    (hcloses : ∀ item ∈ items, Closes item) (hplain : ∀ item ∈ items, PlainAt .shape item)
    (indent : Nat) :
    At ((r.push [' ']).push ([',', ' '].intercalate items))
      (drawAll broken (shapesInstructions false indent items) p) n := by
  rw [shapesInstructions, drawAll_append, if_pos (by decide)]
  cases items with
  | nil =>
      rw [shapeItems, drawAll_nil, List.intercalate_nil, ← Rendering.push_append, List.append_nil]
      exact h.symbol [' '] (by decide)
  | cons item items =>
      rcases List.forall_mem_cons.1 hcloses with ⟨hcloseItem, hcloseItems⟩
      rcases List.forall_mem_cons.1 hplain with ⟨hplainItem, hplainItems⟩
      rw [Rendering.push_intercalate, shapeItems, drawAll_append, drawAll_append, drawAll_append]
      simp only [Bool.false_eq_true, if_false, false_and, drawAll_nil, gt_iff_lt, Nat.lt_irrefl]
      exact ((h.symbol [' '] (by decide)).bare hcloseItem hplainItem).inlineShapes hcloseItems
        hplainItems indent _ 0

mutual

theorem layout_at (item : Layout) (hclosed : item.Closed) (hplain : item.Plain) (inline : Bool)
    {r : Rendering} {p : Page} {n : Nat} (h : At r p n) :
    At (Rendering.layout broken item inline r) (drawAll broken [.layout n item inline] p)
      (n + item.constructs) := by
  cases item with
  | text body =>
      rw [Rendering.layout, drawAll_cons]
      exact h.pushText hclosed
  | trailingComment body =>
      rw [Rendering.layout, drawAll_cons]
      exact h.trailing hclosed hplain
  | lineBreak =>
      rw [Rendering.layout, drawAll_cons, h.toShows.currentIndent]
      exact h.near.indented _
  | concat parts =>
      rw [Rendering.layout, drawAll_cons, advance, List.append_nil]
      exact concat_at parts hclosed hplain inline h
  | tuple items =>
      rw [Rendering.layout, drawAll_cons, advance, List.append_nil, Layout.constructs,
        ← Nat.add_assoc, h.nextId, ← h.toShows.currentIndent]
      by_cases hid : n ∈ broken
      · simp only [hid, decide_true, if_true, tupleInstructions, drawAll_append, Page.offerUnless]
        exact ((brokenItems_at items hclosed hplain _ _ 0
          (h.takeId.symbol ['('] (by decide))).near.indented _).symbol [')'] (by decide)
      · simp only [hid, decide_false, if_false, tupleInstructions, drawAll_append,
          Bool.false_eq_true, drawAll_nil]
        exact (inlineItems_at items hclosed hplain _ _ 0
          ((h.takeId.offer n _ inline).symbol ['('] (by decide))).symbol [')'] (by decide)
  | shapes items =>
      rw [Rendering.layout, drawAll_cons, advance, List.append_nil, Layout.constructs, h.nextId,
        ← h.toShows.currentIndent]
      by_cases hid : n ∈ broken
      · simp only [hid, decide_true, if_true, shapesInstructions, Page.offerUnless]
        exact h.takeId.brokenShapes hclosed hplain _ _ 0
      · simp only [hid, decide_false, if_false]
        exact (h.takeId.offer n _ inline).shapes hclosed hplain _
  | attributes blocks forceBlock =>
      rw [Rendering.layout, drawAll_cons, advance, List.append_nil, Layout.constructs,
        ← Nat.add_assoc, h.nextId, ← h.toShows.currentIndent]
      by_cases hbroken : forceBlock = true ∨ n ∈ broken
      · simp only [hbroken, decide_true, if_true, attributesInstructions, drawAll_append,
          drawAll_indented, Page.offerUnless]
        exact ((brokenBlocks_near blocks hclosed hplain _ 0
          (h.takeId.symbol ['['] (by decide)).near).indented _).symbol [']'] (by decide)
      · simp only [hbroken, decide_false, if_false, attributesInstructions, drawAll_append,
          Bool.false_eq_true]
        exact (inlineBlocks_at blocks hclosed hplain _ 0
          ((h.takeId.offer n _ inline).symbol ['[', ' '] (by decide))).symbol [' ', ']']
            (by decide)
termination_by structural item

theorem concat_at (parts : List Layout) (hclosed : Layout.EachOf (fun _ text => Closes text) parts)
    (hplain : Layout.EachOf PlainAt parts) (inline : Bool)
    {r : Rendering} {p : Page} {n : Nat} (h : At r p n) :
    At (Rendering.concat broken parts inline r)
      (drawAll broken (concatInstructions inline n parts) p) (n + Layout.constructsOf parts) := by
  cases parts with
  | nil =>
      rw [concatInstructions, drawAll_nil]
      exact h
  | cons part parts =>
      have hsplit := drawAll_append broken [.layout n part inline]
        (concatInstructions inline (n + part.constructs) parts) p
      rw [List.singleton_append] at hsplit
      rw [concatInstructions, hsplit, Layout.constructsOf, ← Nat.add_assoc]
      exact concat_at parts hclosed.2 hplain.2 inline
        (layout_at part hclosed.1 hplain.1 inline h)
termination_by structural parts

theorem brokenItems_at (items : List Layout)
    (hclosed : Layout.EachOf (fun _ text => Closes text) items)
    (hplain : Layout.EachOf PlainAt items) (indent count i : Nat)
    {r : Rendering} {p : Page} {n : Nat} (h : At r p n) :
    At (Rendering.brokenItems broken indent count i items r)
      (drawAll broken (tupleItems true indent count i n items) p)
      (n + Layout.constructsOf items) := by
  cases items with
  | nil =>
      rw [tupleItems, drawAll_nil]
      exact h
  | cons item items =>
      rw [tupleItems, drawAll_append, drawAll_append, drawAll_append, Layout.constructsOf,
        ← Nat.add_assoc]
      simp only [if_true, true_and, Bool.not_true]
      exact brokenItems_at items hclosed.2 hplain.2 indent count (i + 1)
        ((layout_at item hclosed.1 hplain.1 false (h.near.indented (indent + 2))).comma _)
termination_by structural items

theorem inlineItems_at (items : List Layout)
    (hclosed : Layout.EachOf (fun _ text => Closes text) items)
    (hplain : Layout.EachOf PlainAt items) (indent count i : Nat)
    {r : Rendering} {p : Page} {n : Nat} (h : At r p n) :
    At (Rendering.inlineItems broken i items r)
      (drawAll broken (tupleItems false indent count i n items) p)
      (n + Layout.constructsOf items) := by
  cases items with
  | nil =>
      rw [tupleItems, drawAll_nil]
      exact h
  | cons item items =>
      rw [tupleItems, drawAll_append, drawAll_append, drawAll_append, Layout.constructsOf,
        ← Nat.add_assoc]
      simp only [Bool.false_eq_true, if_false, false_and, Bool.not_false, drawAll_nil]
      exact inlineItems_at items hclosed.2 hplain.2 indent count (i + 1)
        (layout_at item hclosed.1 hplain.1 true (h.separator i))
termination_by structural items

theorem inlineBlocks_at (blocks : List (AttributeLayout Layout))
    (hclosed : Layout.EachIn (fun _ text => Closes text) blocks)
    (hplain : Layout.EachIn PlainAt blocks) (indent i : Nat)
    {r : Rendering} {p : Page} {n : Nat} (h : At r p n) :
    At (Rendering.inlineBlocks broken i blocks r)
      (drawAll broken (blockInstructions false indent i n blocks) p)
      (n + Layout.constructsIn blocks) := by
  match blocks with
  | [] =>
      rw [blockInstructions, drawAll_nil]
      exact h
  | ⟨_, _, _, none, _⟩ :: blocks =>
      rw [blockInstructions, drawAll_append, Layout.constructsIn]
      simp only [Bool.false_eq_true, if_false, List.append_nil]
      exact inlineBlocks_at blocks hclosed.2.2 hplain.2.2 indent (i + 1) (h.separator i)
  | ⟨_, _, _, some item, _⟩ :: blocks =>
      rw [blockInstructions, drawAll_append, Layout.constructsIn, ← Nat.add_assoc]
      simp only [Bool.false_eq_true, if_false, drawAll_append]
      exact inlineBlocks_at blocks hclosed.2.2.2 hplain.2.2.2 indent (i + 1)
        (layout_at item hclosed.2.2.1 hplain.2.2.1 true (h.separator i))
termination_by structural blocks

theorem brokenBlocks_near (blocks : List (AttributeLayout Layout))
    (hclosed : Layout.EachIn (fun _ text => Closes text) blocks)
    (hplain : Layout.EachIn PlainAt blocks) (indent index : Nat)
    {r : Rendering} {p : Page} {n : Nat} (h : Near r p n) :
    Near (Rendering.brokenBlocks broken indent index blocks r)
      (drawAll broken (blockInstructions true indent index n blocks) p)
      (n + Layout.constructsIn blocks) := by
  match blocks with
  | [] =>
      rw [blockInstructions, drawAll_nil]
      exact h
  | ⟨gapBlank, leading, blankBeforeNode, none, trailing⟩ :: blocks =>
      rw [blockInstructions, drawAll_append, Layout.constructsIn]
      simp only [if_true, drawAll_append, drawAll_nil]
      exact brokenBlocks_near blocks hclosed.2.2 hplain.2.2 indent (index + 1)
        ((((h.gap _).leadingComments hclosed.1 indent 0).gap _).trailingComments hclosed.2.1)
  | ⟨gapBlank, leading, blankBeforeNode, some item, trailing⟩ :: blocks =>
      rw [blockInstructions, drawAll_append, Layout.constructsIn, ← Nat.add_assoc]
      simp only [if_true, drawAll_append, drawAll_indented]
      exact brokenBlocks_near blocks hclosed.2.2.2 hplain.2.2.2 indent (index + 1)
        ((layout_at item hclosed.2.2.1 hplain.2.2.1 false
          ((((h.gap _).leadingComments hclosed.1 indent 0).gap _).indented _)).near.trailingComments
            hclosed.2.1)
termination_by structural blocks

end

end Layouts

section Whole

theorem not_mem_indentStr (indent : Nat) : '\n' ∉ indentStr indent := by
  intro h
  rcases List.mem_flatten.1 h with ⟨step, hstep, hmem⟩
  rw [List.eq_of_mem_replicate hstep] at hmem
  exact absurd hmem (by decide)

theorem rendered_shows {layout : Layout} (hclosed : layout.Closed) (hplain : layout.Plain)
    (indent : Nat) (broken : List Nat) :
    Shows (rendered layout indent broken) (drawn layout indent broken) := by
  have hstart : At (Rendering.empty.push (indentStr indent)) (Page.start indent) 0 := by
    refine ⟨⟨⟨rfl, ?_, ?_, nofun, rfl, Nat.zero_le _, nofun, .inl rfl, fun _ _ => rfl⟩, rfl⟩, rfl,
      rfl⟩
    · intro line hmem
      rw [List.mem_singleton.1 hmem]
      exact not_mem_indentStr indent
    · rw [Rendering.push, List.count_eq_zero.2 (not_mem_indentStr indent)]
      rfl
  exact (layout_at layout hclosed hplain false hstart).toShows

variable {r : Rendering} {p : Page}

theorem splitOn_lines (done : List Line) (last : Text)
    (hplain : ∀ line ∈ done, '\n' ∉ line.text) (hlast : '\n' ∉ last) :
    (done.flatMap (fun line => line.text ++ ['\n']) ++ last).splitOn '\n' =
      done.map Line.text ++ [last] := by
  induction done with
  | nil => exact List.splitOn_eq_singleton hlast
  | cons line done ih =>
      rcases List.forall_mem_cons.1 hplain with ⟨hline, hdone⟩
      rw [List.flatMap_cons, List.append_assoc, List.append_assoc, List.singleton_append,
        List.splitOn_append_cons_self_of_not_mem hline, ih hdone]
      rfl

theorem Shows.splitOn (h : Shows r p) : r.text.splitOn '\n' = p.lines.map Line.text := by
  rw [h.text, splitOn_lines p.done p.line.text
    (fun line hmem => h.plain line (List.mem_append_left _ hmem)) h.line_plain, Page.lines,
    List.map_append]
  rfl

theorem findSome?_zipIdx {α β γ : Type} (xs : List α) (f : α → β) (g : β × Nat → Option γ)
    (k : α → Option γ) (start : Nat)
    (h : ∀ n x, xs[n]? = some x → g (f x, start + n) = k x) :
    ((xs.map f).zipIdx start).findSome? g = xs.findSome? k := by
  induction xs generalizing start with
  | nil => rfl
  | cons x xs ih =>
      have hhead := h 0 x rfl
      rw [List.map_cons, List.zipIdx_cons, List.findSome?_cons, List.findSome?_cons]
      rw [Nat.add_zero] at hhead
      rw [hhead, ih (start + 1) fun n y hn => ?_]
      rw [Nat.add_right_comm, Nat.add_assoc]
      exact h (n + 1) y hn

theorem Shows.breakCandidate (h : Shows r p) (width : Nat) :
    r.breakCandidate width = p.lines.findSome? (Line.breaks width) := by
  rw [Rendering.breakCandidate, h.splitOn]
  refine findSome?_zipIdx p.lines Line.text _ _ 0 fun n line hn => ?_
  have hline : r.lastCandidates[n]?.join = line.candidate ∧
      (line.candidate = none ∨ r.codeColumns.lookup n = line.code) := by
    rcases getElem?_concat_eq_some hn with hn | ⟨rfl, rfl⟩
    · exact ⟨h.candidates n line hn, h.codes n line hn⟩
    · exact h.line ▸ ⟨h.candidate, h.code⟩
  rcases hline with ⟨hcandidate, hnone | hcode⟩
  · rw [Nat.zero_add]
    dsimp only
    rw [hcandidate, Line.breaks, hnone, ite_self, ite_self]
  · rw [Nat.zero_add]
    dsimp only
    rw [hcandidate, hcode]
    rfl

end Whole

end Fmt

end Ridl
