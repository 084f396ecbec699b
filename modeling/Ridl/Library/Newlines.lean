import Ridl.Library.Lines
import Mathlib.Data.List.Basic

/-!
# Line Ends and Byte Offsets

A text is cut into lines that end at a line feed, at a carriage return, or at a carriage
return and the line feed after it. Every text is cut in such a way (`exists_cut`), and a
place between two characters that is not inside a line end is on one line
(`exists_place`).

An offset counts bytes, so it is between two characters only where a front of the text has
that many bytes. There is at most one such front (`append_inj_of_byteLen`).

## Theorems

* `splitAtByte_append`: A front is split off at its length.
* `exists_cut`: Every text is cut into lines.
-/

namespace Ridl

namespace Library

/-! ### Byte offsets -/

theorem byteLen_nil : byteLen [] = 0 := rfl

theorem byteLen_cons (c : Char) (text : Text) :
    byteLen (c :: text) = c.utf8Size + byteLen text := by
  rw [byteLen, List.map_cons, List.sum_cons]
  rfl

theorem byteLen_append (front back : Text) :
    byteLen (front ++ back) = byteLen front + byteLen back := by
  rw [byteLen, List.map_append, List.sum_append]
  rfl

/-- The text before and after an offset, which is none inside a character or past the
    end. -/
def splitAtByte : Text → Nat → Option (Text × Text)
  | text, 0 => some ([], text)
  | [], _ + 1 => none
  | c :: text, n + 1 =>
      if c.utf8Size ≤ n + 1 then
        (splitAtByte text (n + 1 - c.utf8Size)).map (fun parts => (c :: parts.1, parts.2))
      else none

theorem splitAtByte_append (front back : Text) :
    splitAtByte (front ++ back) (byteLen front) = some (front, back) := by
  induction front with
  | nil =>
      rw [List.nil_append, byteLen_nil]
      cases back <;> rfl
  | cons c front ih =>
      have hpos := c.utf8Size_pos
      rcases hn : byteLen (c :: front) with _ | n
      · rw [byteLen_cons] at hn
        omega
      · have hlen : n + 1 - c.utf8Size = byteLen front := by
          rw [byteLen_cons] at hn
          omega
        have hle : c.utf8Size ≤ n + 1 := by
          rw [byteLen_cons] at hn
          omega
        rw [List.cons_append, splitAtByte, if_pos hle, hlen, ih]
        rfl

variable {front back : Text} {lines before : List Line}

theorem splitAtByte_eq_some {text : Text} {n : Nat}
    (h : splitAtByte text n = some (front, back)) : text = front ++ back ∧ byteLen front = n := by
  induction text generalizing front n with
  | nil =>
      rcases n with _ | n
      · cases h
        exact ⟨rfl, rfl⟩
      · cases h
  | cons c text ih =>
      rcases n with _ | n
      · cases h
        exact ⟨rfl, rfl⟩
      · rw [splitAtByte] at h
        split_ifs at h with hle
        rcases Option.map_eq_some_iff.mp h with ⟨⟨front', back'⟩, hsplit, heq⟩
        cases heq
        rcases ih hsplit with ⟨rfl, hlen⟩
        refine ⟨rfl, ?_⟩
        rw [byteLen_cons, hlen]
        omega

theorem append_inj_of_byteLen {front' back' : Text}
    (h : front ++ back = front' ++ back') (hlen : byteLen front = byteLen front') :
    front = front' ∧ back = back' := by
  have hsplit := splitAtByte_append front back
  rw [h, hlen, splitAtByte_append, Option.some_inj, Prod.mk.injEq] at hsplit
  exact ⟨hsplit.1.symm, hsplit.2.symm⟩

/-! ### Lines -/

/-- A line and what ends it, which is nothing for the last line of a text. -/
structure Line where
  body : Text
  terminator : Text

/-- The characters of a line with its end. -/
def Line.text (l : Line) : Text := l.body ++ l.terminator

/-- The text that lines make up. -/
def joined (lines : List Line) : Text := lines.flatMap Line.text

theorem joined_nil : joined [] = [] := rfl

theorem joined_cons (l : Line) (lines : List Line) :
    joined (l :: lines) = l.text ++ joined lines := List.flatMap_cons

theorem joined_append (front back : List Line) :
    joined (front ++ back) = joined front ++ joined back := List.flatMap_append

/-- No character ends a line. -/
def Unbroken (text : Text) : Prop := ∀ c ∈ text, c ≠ '\n' ∧ c ≠ '\r'

/-- A line feed, a carriage return, or both. -/
inductive LineEnd : Text → Prop
  | lf : LineEnd ['\n']
  | cr : LineEnd ['\r']
  | crlf : LineEnd ['\r', '\n']

/-- Between a carriage return and its line feed. -/
def InsideLineEnd (front back : Text) : Prop :=
  front.getLast? = some '\r' ∧ back.head? = some '\n'

/-- The lines of a text: only the last one has no end, and a carriage return is not cut off
    from its line feed. -/
inductive Cut : List Line → Prop
  | last {body : Text} (hbody : Unbroken body) : Cut [⟨body, []⟩]
  | cons {body terminator : Text} {lines : List Line} (hbody : Unbroken body)
      (hend : LineEnd terminator)
      (hnext : terminator = ['\r'] → (joined lines).head? ≠ some '\n') (hlines : Cut lines) :
      Cut (⟨body, terminator⟩ :: lines)

theorem unbroken_nil : Unbroken [] := fun _ h => nomatch h

theorem Unbroken.cons {c : Char} {text : Text} (hlf : c ≠ '\n') (hcr : c ≠ '\r')
    (h : Unbroken text) : Unbroken (c :: text) :=
  List.forall_mem_cons.mpr ⟨⟨hlf, hcr⟩, h⟩

theorem exists_cut : (text : Text) → ∃ lines, Cut lines ∧ joined lines = text
  | [] => ⟨_, .last unbroken_nil, rfl⟩
  | c :: text => by
      by_cases hlf : c = '\n'
      · rcases exists_cut text with ⟨lines, hcut, hjoined⟩
        refine ⟨_, .cons unbroken_nil .lf (fun h => nomatch h) hcut, ?_⟩
        rw [joined_cons, hjoined, hlf]
        rfl
      by_cases hcr : c = '\r'
      · by_cases hnext : text.head? = some '\n'
        · rcases htext : text with _ | ⟨d, rest⟩
          · rw [htext] at hnext
            cases hnext
          · rcases exists_cut rest with ⟨lines, hcut, hjoined⟩
            rw [htext, List.head?_cons, Option.some_inj] at hnext
            refine ⟨_, .cons unbroken_nil .crlf (fun h => nomatch h) hcut, ?_⟩
            rw [joined_cons, hjoined, hcr, hnext]
            rfl
        · rcases exists_cut text with ⟨lines, hcut, hjoined⟩
          refine ⟨_, .cons unbroken_nil .cr (fun _ => hjoined ▸ hnext) hcut, ?_⟩
          rw [joined_cons, hjoined, hcr]
          rfl
      · rcases exists_cut text with ⟨lines, hcut, hjoined⟩
        cases hcut with
        | last hbody =>
            refine ⟨_, .last (hbody.cons hlf hcr), ?_⟩
            rw [← hjoined]
            rfl
        | cons hbody hend hnext hlines =>
            refine ⟨_, .cons (hbody.cons hlf hcr) hend hnext hlines, ?_⟩
            rw [← hjoined]
            rfl
termination_by text => text.length
decreasing_by all_goals simp_all <;> omega

/-! ### Places on lines -/

theorem LineEnd.ne_nil {terminator : Text} (h : LineEnd terminator) : terminator ≠ [] := by
  cases h <;> exact List.cons_ne_nil _ _

theorem Cut.tail {l : Line} (h : Cut (l :: lines)) (hne : lines ≠ []) :
    LineEnd l.terminator ∧ (l.terminator = ['\r'] → (joined lines).head? ≠ some '\n') ∧
      Cut lines := by
  cases h with
  | last hbody => exact absurd rfl hne
  | cons hbody hend hnext hlines => exact ⟨hend, hnext, hlines⟩

theorem Cut.body {l : Line} (h : Cut (l :: lines)) : Unbroken l.body := by
  cases h with
  | last hbody => exact hbody
  | cons hbody hend hnext hlines => exact hbody

theorem Cut.drop (h : Cut (before ++ lines)) (hne : lines ≠ []) :
    Cut lines := by
  induction before with
  | nil => exact h
  | cons l before ih =>
      exact ih (Cut.tail h (List.append_ne_nil_of_right_ne_nil before hne)).2.2

/-- A carriage return at the end of a line is not followed by a line feed. -/
theorem Cut.head_ne (h : Cut (before ++ lines)) (hne : lines ≠ [])
    (hlast : (joined before).getLast? = some '\r') : (joined lines).head? ≠ some '\n' := by
  induction before with
  | nil => cases hlast
  | cons l before ih =>
      have htail := Cut.tail h (List.append_ne_nil_of_right_ne_nil before hne)
      rw [joined_cons] at hlast
      by_cases hbefore : joined before = []
      · rw [hbefore, List.append_nil, Line.text,
          List.getLast?_append_of_ne_nil _ htail.1.ne_nil] at hlast
        have hcr : l.terminator = ['\r'] := by
          generalize l.terminator = terminator at hlast htail
          rcases htail.1 with _ | _ | _
          · cases hlast
          · rfl
          · cases hlast
        have hnext := htail.2.1 hcr
        have hsplit : joined (before ++ lines) = joined before ++ joined lines :=
          joined_append before lines
        rwa [List.append_eq, hsplit, hbefore] at hnext
      · rw [List.getLast?_append_of_ne_nil _ hbefore] at hlast
        exact ih htail.2.2 hlast

theorem Cut.not_insideLineEnd {after : List Line} {a b terminator : Text}
    (h : Cut (before ++ ⟨a ++ b, terminator⟩ :: after)) :
    ¬ InsideLineEnd (joined before ++ a) (b ++ terminator ++ joined after) := by
  rintro ⟨hlast, hhead⟩
  have hbody := (h.drop (List.cons_ne_nil _ _)).body
  by_cases ha : a = []
  · have hnext := h.head_ne (List.cons_ne_nil _ _) (by rwa [ha, List.append_nil] at hlast)
    rw [joined_cons, Line.text, ha] at hnext
    exact hnext hhead
  · rw [List.getLast?_append_of_ne_nil _ ha] at hlast
    exact (hbody '\r' (List.mem_append_left b (List.mem_of_getLast? hlast))).2 rfl

theorem exists_place (h : Cut lines)
    (hjoined : joined lines = front ++ back) (hinside : ¬ InsideLineEnd front back) :
    ∃ before a b terminator after, lines = before ++ ⟨a ++ b, terminator⟩ :: after ∧
      front = joined before ++ a ∧ back = b ++ terminator ++ joined after := by
  induction h generalizing front with
  | @last body hbody =>
      refine ⟨[], front, back, [], [], ?_, rfl, ?_⟩
      · have hbody' : body ++ [] ++ [] = front ++ back := hjoined
        rw [← hbody', List.append_nil, List.append_nil]
        rfl
      · rw [List.append_nil]
        exact (List.append_nil back).symm
  | @cons body terminator lines hbody hend hnext hlines ih =>
      rw [joined_cons, Line.text, List.append_assoc] at hjoined
      rcases List.append_eq_append_iff.mp hjoined with ⟨x, rfl, hrest⟩ | ⟨b, rfl, rfl⟩
      · rcases List.append_eq_append_iff.mp hrest with ⟨y, rfl, hback⟩ | ⟨y, hterminator, rfl⟩
        · -- The place is after this line.
          have hinside' : ¬ InsideLineEnd y back := by
            rintro ⟨hlast, hhead⟩
            have hy : y ≠ [] := fun hnil => by rw [hnil] at hlast; cases hlast
            refine hinside ⟨?_, hhead⟩
            rw [← List.append_assoc, List.getLast?_append_of_ne_nil _ hy, hlast]
          rcases ih hback hinside' with ⟨before, a, b, t, after, rfl, rfl, rfl⟩
          refine ⟨⟨body, terminator⟩ :: before, a, b, t, after, rfl, ?_, rfl⟩
          rw [joined_cons, Line.text, List.append_assoc, List.append_assoc]
        · replace hterminator : terminator = x ++ y := hterminator
          rcases x with _ | ⟨c, x⟩
          · -- The place is at the end of the body.
            refine ⟨[], body, [], terminator, lines, ?_, List.append_nil body, ?_⟩
            · rw [List.append_nil, List.nil_append]
            · rw [hterminator]
              rfl
          · rcases y with _ | ⟨d, y⟩
            · -- The place is at the end of the line, which is the start of the next one.
              rw [List.append_nil] at hterminator
              rcases @ih [] rfl (fun h => nomatch h.1) with
                ⟨before, a, b, t, after, rfl, hnil, hrest⟩
              refine ⟨⟨body, terminator⟩ :: before, a, b, t, after, rfl, ?_, hrest⟩
              rw [joined_cons, List.append_assoc, ← hnil, List.append_nil, Line.text, hterminator]
            · -- Only both characters can be split.
              refine absurd ?_ hinside
              rcases hend with _ | _ | _
              · cases x <;> cases hterminator
              · cases x <;> cases hterminator
              · rcases x with _ | ⟨e, x⟩
                · cases hterminator
                  refine ⟨?_, rfl⟩
                  rw [List.getLast?_append_of_ne_nil _ (List.cons_ne_nil _ _)]
                  rfl
                · cases x <;> cases hterminator
      · exact ⟨[], front, b, terminator, lines, rfl, rfl, (List.append_assoc _ _ _).symm⟩

end Library

end Ridl
