import Ridl.Lsp.Convert

/-!
# Positions and Offsets Are Inverse

A place of a text is on a line, after so many of its characters. Its position is the number
of the line and the code units before it there (`position_place`), and a position is turned
into the place on that line that is reached by its code units (`offset_place`). All that
relates the two conversions follows from these two facts.

## Theorems

* `position_place`, `offset_place`: The two conversions on the lines of a text.
* `positions_and_offsets`: The conversions are inverse to each other.
-/

namespace Ridl

namespace Lsp

open Library (Text byteLen byteLen_nil byteLen_cons byteLen_append splitAtByte Line Cut joined
  joined_nil joined_cons joined_append Unbroken LineEnd InsideLineEnd)

/-! ### Casts and slices -/

theorem asU32_of_lt {n : Nat} (h : n < U32_COUNT) : asU32 n = n := Nat.mod_eq_of_lt h

theorem textSize_of {text : Text} (h : byteLen text < U32_COUNT) :
    TextSize.of text = .ok (byteLen text) := if_pos h

theorem slice_append (front between back : Text) :
    slice (front ++ between ++ back) (byteLen front) (byteLen (front ++ between)) =
      .ok between := by
  unfold slice
  rw [Library.splitAtByte_append (front ++ between) back]
  dsimp only
  rw [Library.splitAtByte_append front between]

/-- The bytes before an offset and at it are a carriage return and a line feed where the place
    is inside a line end. -/
theorem bytesStartWith_iff (front back : Text) :
    (decide (byteLen front > 0) &&
      bytesStartWith (front ++ back) (byteLen front - 1) ['\r', '\n']) = true ↔
        InsideLineEnd front back := by
  have hcr : byteLen ['\r'] = 1 := by decide
  rw [Bool.and_eq_true, decide_eq_true_eq, bytesStartWith]
  constructor
  · rintro ⟨hpos, hstarts⟩
    rcases (Option.any_eq_true _ _).mp hstarts with ⟨⟨f, r⟩, hsplit, hascii⟩
    rcases Library.splitAtByte_eq_some hsplit with ⟨htext, hlen⟩
    rcases List.isPrefixOf_iff_prefix.mp hascii with ⟨rest, rfl⟩
    have hfront : front ++ back = (f ++ ['\r']) ++ ('\n' :: rest) := by
      rw [htext, List.append_assoc]
      rfl
    rcases Library.append_inj_of_byteLen hfront (by rw [byteLen_append, hcr]; omega) with
      ⟨rfl, rfl⟩
    exact ⟨List.getLast?_concat, rfl⟩
  · rintro ⟨hlast, hhead⟩
    rcases List.getLast?_eq_some_iff.mp hlast with ⟨f, rfl⟩
    rcases back with _ | ⟨c, rest⟩
    · cases hhead
    · cases hhead
      have hlen : byteLen (f ++ ['\r']) - 1 = byteLen f := by
        rw [byteLen_append, hcr, Nat.add_sub_cancel]
      refine ⟨by rw [byteLen_append, hcr]; omega, ?_⟩
      rw [hlen, List.append_assoc, Library.splitAtByte_append f]
      rfl

/-! ### The starts of the lines -/

/-- The offsets where lines start, the first one being given. -/
def starts (offset : Nat) : List Line → List Nat
  | [] => []
  | l :: lines => offset :: starts (offset + byteLen l.text) lines

theorem length_starts (offset : Nat) (lines : List Line) :
    (starts offset lines).length = lines.length := by
  induction lines generalizing offset with
  | nil => rfl
  | cons l lines ih => rw [starts, List.length_cons, ih, List.length_cons]

theorem starts_append (offset : Nat) (before lines : List Line) :
    starts offset (before ++ lines) =
      starts offset before ++ starts (offset + byteLen (joined before)) lines := by
  induction before generalizing offset with
  | nil => rfl
  | cons l before ih =>
      rw [List.cons_append, starts, ih, starts, joined_cons, byteLen_append, Nat.add_assoc]
      rfl

theorem getElem?_starts (offset : Nat) (before : List Line) (l : Line) (after : List Line) :
    (starts offset (before ++ l :: after))[before.length]? =
      some (offset + byteLen (joined before)) := by
  rw [starts_append, List.getElem?_append_right (Nat.le_of_eq (length_starts _ _)), length_starts,
    Nat.sub_self]
  rfl

theorem getElem?_starts_succ (offset : Nat) (before : List Line) (l : Line) (after : List Line) :
    (starts offset (before ++ l :: after))[before.length + 1]? =
      if after = [] then none else some (offset + byteLen (joined before ++ l.text)) := by
  have hlen : (starts offset before).length ≤ before.length + 1 := by
    rw [length_starts]
    exact Nat.le_succ _
  rw [starts_append, List.getElem?_append_right hlen, length_starts, Nat.add_sub_cancel_left]
  cases after with
  | nil => rfl
  | cons l' after =>
      rw [if_neg (List.cons_ne_nil _ _), byteLen_append, ← Nat.add_assoc]
      rfl

theorem lineStartsFrom_unbroken {body : Text} (h : Unbroken body) (offset : Nat) (rest : Text) :
    lineStartsFrom offset (body ++ rest) = lineStartsFrom (offset + byteLen body) rest := by
  induction body generalizing offset with
  | nil => rfl
  | cons c body ih =>
      rcases List.forall_mem_cons.mp h with ⟨⟨hlf, hcr⟩, hbody⟩
      rw [List.cons_append, lineStartsFrom]
      simp only [if_neg hlf, if_neg hcr, Bool.false_eq_true, if_false]
      rw [ih hbody, byteLen_cons, Nat.add_assoc]

theorem lineStartsFrom_lf (offset : Nat) (rest : Text) :
    lineStartsFrom offset ('\n' :: rest) =
      asU32 (asU32 offset + 1) :: lineStartsFrom (offset + 1) rest := rfl

theorem lineStartsFrom_cr (offset : Nat) (rest : Text) :
    lineStartsFrom offset ('\r' :: rest) =
      if rest.head? != some '\n' then asU32 (asU32 offset + 1) :: lineStartsFrom (offset + 1) rest
      else lineStartsFrom (offset + 1) rest := rfl

theorem lineStartsFrom_lineEnd {terminator : Text} (hend : LineEnd terminator) {rest : Text}
    (hnext : terminator = ['\r'] → rest.head? ≠ some '\n') {offset : Nat}
    (hfit : offset + byteLen terminator < U32_COUNT) :
    lineStartsFrom offset (terminator ++ rest) =
      (offset + byteLen terminator) :: lineStartsFrom (offset + byteLen terminator) rest := by
  have hcast : ∀ {n : Nat}, n + 1 < U32_COUNT → asU32 (asU32 n + 1) = n + 1 := by
    intro n hn
    rw [asU32_of_lt (Nat.lt_of_succ_lt hn), asU32_of_lt hn]
  rcases hend with _ | _ | _
  · have hlen : byteLen ['\n'] = 1 := by decide
    rw [hlen] at hfit ⊢
    rw [List.singleton_append, lineStartsFrom_lf, hcast hfit]
  · have hlen : byteLen ['\r'] = 1 := by decide
    rw [hlen] at hfit ⊢
    rw [List.singleton_append, lineStartsFrom_cr, if_pos (bne_iff_ne.mpr (hnext rfl)), hcast hfit]
  · have hlen : byteLen ['\r', '\n'] = 2 := by decide
    have hpair : ('\n' :: rest).head? = some '\n' := rfl
    rw [hlen] at hfit ⊢
    rw [List.cons_append, List.singleton_append, lineStartsFrom_cr, hpair, bne_self_eq_false,
      if_neg Bool.false_ne_true, lineStartsFrom_lf, hcast hfit]

theorem lineStarts_eq {lines : List Line} (h : Cut lines) {offset : Nat}
    (hfit : offset + byteLen (joined lines) < U32_COUNT) :
    offset :: lineStartsFrom offset (joined lines) = starts offset lines := by
  induction h generalizing offset with
  | @last body hbody =>
      have hjoined : joined [⟨body, []⟩] = body ++ [] := by
        rw [joined_cons, Line.text, List.append_nil]
        exact List.append_nil body
      rw [hjoined, lineStartsFrom_unbroken hbody]
      rfl
  | @cons body terminator lines hbody hend hnext hlines ih =>
      rw [joined_cons, Line.text, byteLen_append, byteLen_append] at hfit
      rw [joined_cons, Line.text, List.append_assoc, lineStartsFrom_unbroken hbody,
        lineStartsFrom_lineEnd hend hnext (by dsimp only at hfit; omega), starts, Line.text,
        byteLen_append, ← Nat.add_assoc, ih (by dsimp only at hfit; omega)]

theorem length_takeWhile_starts {before : List Line} {l : Line} {after : List Line}
    {first offset : Nat} (hlow : first + byteLen (joined before) ≤ offset)
    (hhigh : after ≠ [] → offset < first + byteLen (joined before ++ l.text)) :
    ((starts first (before ++ l :: after)).takeWhile (· ≤ offset)).length = before.length + 1 := by
  induction before generalizing first with
  | nil =>
      have hfirst : decide (first ≤ offset) = true := decide_eq_true hlow
      simp only [List.nil_append, starts, List.takeWhile_cons, hfirst, if_true, List.length_cons]
      cases after with
      | nil => rfl
      | cons l' after =>
          have hnext : decide (first + byteLen l.text ≤ offset) = false :=
            decide_eq_false (Nat.not_le.mpr (hhigh (List.cons_ne_nil _ _)))
          simp only [starts, List.takeWhile_cons, hnext, Bool.false_eq_true, if_false,
            List.length_nil]
  | cons l' before ih =>
      rw [joined_cons, byteLen_append] at hlow
      rw [joined_cons, List.append_assoc, byteLen_append] at hhigh
      have hfirst : decide (first ≤ offset) = true := decide_eq_true (by omega)
      simp only [List.cons_append, starts, List.takeWhile_cons, hfirst, if_true, List.length_cons]
      rw [ih (by omega) (fun h => by have := hhigh h; omega)]

/-! ### The position of a place -/

theorem lenUtf16_le (c : Char) : lenUtf16 c ≤ c.utf8Size := by
  have hpos := c.utf8Size_pos
  unfold lenUtf16
  split_ifs with hlow
  · exact hpos
  · -- A character with two code units takes four bytes.
    have hfour : c.utf8Size = 4 := Char.utf8Size_eq_four_iff.mpr (by
      rw [UInt32.lt_iff_toNat_lt]
      exact Nat.lt_of_not_le fun hle => hlow (Nat.lt_succ_of_le hle))
    omega

theorem lenUtf16_pos (c : Char) : 0 < lenUtf16 c := by
  unfold lenUtf16
  split_ifs <;> decide

theorem utf16Len_cons (c : Char) (text : Text) :
    utf16Len (c :: text) = lenUtf16 c + utf16Len text := by
  rw [utf16Len, List.map_cons, List.sum_cons]
  rfl

theorem utf16Len_append (front back : Text) :
    utf16Len (front ++ back) = utf16Len front + utf16Len back := by
  rw [utf16Len, List.map_append, List.sum_append]
  rfl

theorem utf16Len_le (text : Text) : utf16Len text ≤ byteLen text := by
  induction text with
  | nil => exact Nat.le_refl 0
  | cons c text ih =>
      rw [utf16Len_cons, byteLen_cons]
      exact Nat.add_le_add (lenUtf16_le c) ih

theorem byteLen_lineEnd_pos {terminator : Text} (h : LineEnd terminator) :
    0 < byteLen terminator := by cases h <;> decide

theorem length_le_byteLen {before : List Line} {l : Line} {after : List Line}
    (h : Cut (before ++ l :: after)) : before.length ≤ byteLen (joined before) := by
  induction before with
  | nil => exact Nat.zero_le _
  | cons l' before ih =>
      have htail := h.tail (List.append_ne_nil_of_right_ne_nil before (List.cons_ne_nil _ _))
      have hpos := byteLen_lineEnd_pos htail.1
      have hle := ih htail.2.2
      rw [joined_cons, Line.text, byteLen_append, byteLen_append, List.length_cons]
      omega

theorem lineIndex_lineStarts {lines : List Line} (h : Cut lines)
    (hsize : byteLen (joined lines) < U32_COUNT) :
    (lineIndex (joined lines)).lineStarts = starts 0 lines :=
  lineStarts_eq h (by rwa [Nat.zero_add])

section Places

variable {before after : List Line} {a b terminator : Text}

theorem joined_place :
    joined (before ++ ⟨a ++ b, terminator⟩ :: after) =
      (joined before ++ a) ++ (b ++ terminator ++ joined after) := by
  rw [joined_append, joined_cons, Line.text]
  simp only [List.append_assoc]

theorem position_place (h : Cut (before ++ ⟨a ++ b, terminator⟩ :: after))
    (hsize : byteLen (joined (before ++ ⟨a ++ b, terminator⟩ :: after)) < U32_COUNT) :
    (lineIndex (joined (before ++ ⟨a ++ b, terminator⟩ :: after))).position
      (byteLen (joined before ++ a)) = .ok ⟨before.length, utf16Len a⟩ := by
  have hstarts := lineIndex_lineStarts h hsize
  have hlines := length_le_byteLen h
  have hunits := utf16Len_le a
  have hoffset : byteLen (joined before ++ a) = byteLen (joined before) + byteLen a :=
    byteLen_append _ _
  have htotal : byteLen (joined (before ++ ⟨a ++ b, terminator⟩ :: after)) =
      byteLen (joined before ++ a) + byteLen (b ++ terminator ++ joined after) := by
    rw [joined_place, byteLen_append]
  have hinside : (decide (byteLen (joined before ++ a) > 0) &&
      bytesStartWith (joined (before ++ ⟨a ++ b, terminator⟩ :: after))
        (byteLen (joined before ++ a) - 1) ['\r', '\n']) = false := by
    rw [joined_place]
    exact Bool.eq_false_iff.mpr
      fun hstart => h.not_insideLineEnd ((bytesStartWith_iff _ _).mp hstart)
  have hcount : ((starts 0 (before ++ ⟨a ++ b, terminator⟩ :: after)).takeWhile
      (· ≤ byteLen (joined before ++ a))).length = before.length + 1 :=
    length_takeWhile_starts (by rw [byteLen_append]; omega) (by
      intro hne
      have hpos := byteLen_lineEnd_pos ((h.drop (List.cons_ne_nil _ _)).tail hne).1
      simp only [Line.text, byteLen_append] at hpos ⊢
      omega)
  have hslice : slice (joined (before ++ ⟨a ++ b, terminator⟩ :: after))
      (byteLen (joined before)) (byteLen (joined before ++ a)) = .ok a := by
    rw [joined_place]
    exact slice_append _ _ _
  have htext : (lineIndex (joined (before ++ ⟨a ++ b, terminator⟩ :: after))).text =
      joined (before ++ ⟨a ++ b, terminator⟩ :: after) := rfl
  have hget := getElem?_starts 0 before ⟨a ++ b, terminator⟩ after
  rw [Nat.zero_add] at hget
  unfold LineIndex.position
  rw [htext, textSize_of hsize, hstarts]
  dsimp only [Except.bind]
  rw [Nat.min_eq_left (by omega), if_neg (Bool.eq_false_iff.mp hinside), hcount,
    Nat.add_sub_cancel, hget]
  dsimp only
  rw [hslice]
  show Except.ok (Position.mk (asU32 before.length) (asU32 (utf16Len a))) = _
  rw [asU32_of_lt (by omega), asU32_of_lt (by omega)]

/-! ### The offset of a position -/

/-- The front of a text that is reached by so many code units. A character that is begun is
    taken whole. -/
def reach : Nat → Text → Text
  | _, [] => []
  | n, c :: text => if n = 0 then [] else c :: reach (n - lenUtf16 c) text

theorem reach_zero (text : Text) : reach 0 text = [] := by cases text <;> rfl

theorem walk_eq {character units offset : Nat} {text : Text}
    (hfit : units + utf16Len text < U32_COUNT) :
    LineIndex.walk character units offset text =
      offset + byteLen (reach (character - units) text) := by
  induction text generalizing units offset with
  | nil => rfl
  | cons c text ih =>
      rw [utf16Len_cons] at hfit
      rw [LineIndex.walk, reach]
      by_cases hunits : units ≥ character
      · rw [if_pos hunits, if_pos (by omega)]
        rfl
      · rw [if_neg hunits, if_neg (by omega), asU32_of_lt (by omega), ih (by omega), byteLen_cons,
          Nat.sub_add_eq, Nat.add_assoc]

theorem reach_prefix (n : Nat) (text : Text) : reach n text <+: text := by
  induction text generalizing n with
  | nil => exact List.prefix_refl _
  | cons c text ih =>
      rw [reach]
      split_ifs
      · exact List.nil_prefix
      · exact List.prefix_cons_inj c |>.mpr (ih _)

theorem reach_mono {m n : Nat} (h : m ≤ n) (text : Text) : reach m text <+: reach n text := by
  induction text generalizing m n with
  | nil => exact List.prefix_refl _
  | cons c text ih =>
      rw [reach, reach]
      by_cases hm : m = 0
      · rw [if_pos hm]
        exact List.nil_prefix
      · rw [if_neg hm, if_neg (by omega)]
        exact List.prefix_cons_inj c |>.mpr (ih (Nat.sub_le_sub_right h _))

theorem reach_utf16Len (a b : Text) : reach (utf16Len a) (a ++ b) = a := by
  induction a with
  | nil => exact reach_zero b
  | cons c a ih =>
      have hpos := lenUtf16_pos c
      rw [utf16Len_cons, List.cons_append, reach, if_neg (by omega), Nat.add_sub_cancel_left, ih]

theorem lineEnd_place {body : Text} (h : Cut (before ++ ⟨body, terminator⟩ :: after))
    (hsize : byteLen (joined (before ++ ⟨body, terminator⟩ :: after)) < U32_COUNT) :
    (lineIndex (joined (before ++ ⟨body, terminator⟩ :: after))).lineEnd before.length =
      .ok (byteLen (joined before ++ body)) := by
  have hget := getElem?_starts_succ 0 before ⟨body, terminator⟩ after
  unfold LineIndex.lineEnd
  rw [lineIndex_lineStarts h hsize, hget]
  by_cases hafter : after = []
  · -- The last line ends with the text.
    rw [if_pos hafter]
    have hterminator : terminator = [] := by
      have hlast := h.drop (List.cons_ne_nil _ _)
      rw [hafter] at hlast
      cases hlast with
      | last => rfl
      | cons _ _ _ hlines => cases hlines
    subst hafter hterminator
    show Except.ok (byteLen (joined (before ++ [⟨body, []⟩]))) = _
    simp only [joined_append, joined_cons, joined_nil, Line.text, List.append_nil]
  · rw [if_neg hafter, Nat.zero_add]
    have hslice : slice (joined (before ++ ⟨body, terminator⟩ :: after)) 0
        (byteLen (joined before ++ (body ++ terminator))) =
          .ok (joined before ++ body ++ terminator) := by
      have hfront := slice_append [] (joined before ++ (body ++ terminator)) (joined after)
      rw [joined_append, joined_cons, ← List.append_assoc]
      rw [List.append_assoc (joined before) body]
      exact hfront
    have htext : (lineIndex (joined (before ++ ⟨body, terminator⟩ :: after))).text =
        joined (before ++ ⟨body, terminator⟩ :: after) := rfl
    have hlen : byteLen (joined before ++ (body ++ terminator)) =
        byteLen (joined before ++ body) + byteLen terminator := by
      rw [← List.append_assoc, byteLen_append]
    dsimp only
    rw [htext, Line.text, hslice, hlen]
    show Except.ok
      (if ['\r', '\n'].isSuffixOf (joined before ++ body ++ terminator) then _ else _) = _
    rcases ((h.drop (List.cons_ne_nil _ _)).tail hafter).1 with _ | _ | _
    · -- A carriage return before the line feed would be cut off from it.
      have hbody : body = body ++ [] := (List.append_nil body).symm
      rw [hbody] at h
      have hsuffix : ['\r', '\n'].isSuffixOf (joined before ++ body ++ ['\n']) = false := by
        refine Bool.eq_false_iff.mpr fun hsuffix => h.not_insideLineEnd ⟨?_, rfl⟩
        rcases List.isSuffixOf_iff_suffix.mp hsuffix with ⟨front, hfront⟩
        have hlast : front ++ ['\r'] = joined before ++ body := by
          have hend : front ++ ['\r'] ++ ['\n'] = joined before ++ body ++ ['\n'] := by
            rw [← hfront, List.append_assoc]
            rfl
          exact List.append_cancel_right hend
        rw [← hlast, List.getLast?_concat]
      rw [hsuffix, if_neg Bool.false_ne_true]
      rfl
    · have hsuffix : ['\r', '\n'].isSuffixOf (joined before ++ body ++ ['\r']) = false := by
        refine Bool.eq_false_iff.mpr fun hsuffix => ?_
        rcases List.isSuffixOf_iff_suffix.mp hsuffix with ⟨front, hfront⟩
        have hlast := congrArg List.getLast? hfront
        rw [List.getLast?_concat, List.getLast?_append_of_ne_nil _ (List.cons_ne_nil _ _)] at hlast
        cases hlast
      rw [hsuffix, if_neg Bool.false_ne_true]
      rfl
    · have hsuffix : ['\r', '\n'].isSuffixOf (joined before ++ body ++ ['\r', '\n']) = true :=
        List.isSuffixOf_iff_suffix.mpr ⟨_, rfl⟩
      rw [hsuffix, if_pos rfl]
      rfl

theorem offset_place {body : Text} (h : Cut (before ++ ⟨body, terminator⟩ :: after))
    (hsize : byteLen (joined (before ++ ⟨body, terminator⟩ :: after)) < U32_COUNT)
    (character : Nat) :
    (lineIndex (joined (before ++ ⟨body, terminator⟩ :: after))).offset
      ⟨before.length, character⟩ = .ok (byteLen (joined before ++ reach character body)) := by
  have hget := getElem?_starts 0 before ⟨body, terminator⟩ after
  have hjoined : joined (before ++ ⟨body, terminator⟩ :: after) =
      joined before ++ body ++ (terminator ++ joined after) := by
    rw [joined_append, joined_cons, Line.text]
    simp only [List.append_assoc]
  have hlen :
      byteLen (joined before ++ reach character body) ≤ byteLen (joined before ++ body) := by
    rcases reach_prefix character body with ⟨rest, hrest⟩
    rw [byteLen_append, byteLen_append, ← hrest, byteLen_append, hrest]
    omega
  have hunits := utf16Len_le body
  have htotal : byteLen (joined before ++ body) < U32_COUNT ∧ utf16Len body < U32_COUNT := by
    rw [hjoined, byteLen_append, byteLen_append] at hsize
    rw [byteLen_append]
    omega
  have hslice : slice (joined (before ++ ⟨body, terminator⟩ :: after)) (byteLen (joined before))
      (byteLen (joined before ++ body)) = .ok body := by
    rw [hjoined]
    exact slice_append _ _ _
  have htext : (lineIndex (joined (before ++ ⟨body, terminator⟩ :: after))).text =
      joined (before ++ ⟨body, terminator⟩ :: after) := rfl
  unfold LineIndex.offset
  rw [lineIndex_lineStarts h hsize, hget, Nat.zero_add]
  dsimp only
  rw [lineEnd_place h hsize, htext]
  dsimp only [Except.bind]
  rw [hslice]
  show Except.ok (asU32 (LineIndex.walk character 0 (byteLen (joined before)) body)) = _
  rw [walk_eq (by omega), Nat.sub_zero, ← byteLen_append, asU32_of_lt (by omega)]

theorem offset_past {lines : List Line} (h : Cut lines)
    (hsize : byteLen (joined lines) < U32_COUNT) {p : Position} (hline : lines.length ≤ p.line) :
    (lineIndex (joined lines)).offset p = .ok (byteLen (joined lines)) := by
  have hget : (starts 0 lines)[p.line]? = none :=
    List.getElem?_eq_none (by rwa [length_starts])
  unfold LineIndex.offset
  rw [lineIndex_lineStarts h hsize, hget]
  exact textSize_of hsize

end Places

/-! ### The order of positions -/

/-- The order of positions: the line first, then the code units on it. -/
def Position.Before (p q : Position) : Prop :=
  p.line < q.line ∨ p.line = q.line ∧ p.character < q.character

theorem line_le {before after before' after' : List Line} {l l' : Line}
    (h : before ++ l :: after = before' ++ l' :: after') (hlt : before.length < before'.length) :
    byteLen (joined before ++ l.body) ≤ byteLen (joined before') := by
  rcases List.append_eq_append_iff.mp h with ⟨x, hbefore, hrest⟩ | ⟨x, hbefore, hrest⟩
  · rcases x with _ | ⟨l'', x⟩
    · rw [hbefore, List.append_nil] at hlt
      omega
    · cases hrest
      rw [hbefore, joined_append, joined_cons, Line.text, byteLen_append, byteLen_append,
        byteLen_append, byteLen_append]
      omega
  · rw [hbefore, List.length_append] at hlt
    omega

/-- An earlier place has an earlier position. -/
theorem before_of_byteLen_lt {before after before' after' : List Line}
    {a b terminator a' b' terminator' : Text}
    (h : before ++ ⟨a ++ b, terminator⟩ :: after = before' ++ ⟨a' ++ b', terminator'⟩ :: after')
    (hlt : byteLen (joined before ++ a) < byteLen (joined before' ++ a')) :
    Position.Before ⟨before.length, utf16Len a⟩ ⟨before'.length, utf16Len a'⟩ := by
  rw [byteLen_append, byteLen_append] at hlt
  rcases Nat.lt_trichotomy before.length before'.length with hline | hline | hline
  · exact .inl hline
  · -- On one line the places are fronts of one body, the earlier one of the later.
    rcases List.append_inj h hline with ⟨rfl, hbody⟩
    have hbody' : a ++ b = a' ++ b' := (Line.mk.inj (List.cons.inj hbody).1).1
    refine .inr ⟨rfl, ?_⟩
    rcases List.append_eq_append_iff.mp hbody' with ⟨x, rfl, -⟩ | ⟨x, rfl, -⟩
    · rcases x with _ | ⟨c, x⟩
      · rw [List.append_nil] at hlt
        omega
      · have hpos := lenUtf16_pos c
        rw [utf16Len_append, utf16Len_cons]
        dsimp only
        omega
    · rw [byteLen_append] at hlt
      omega
  · have hle := line_le h.symm hline
    rw [byteLen_append, byteLen_append] at hle
    omega

theorem exists_line {lines : List Line} {n : Nat} (h : n < lines.length) :
    ∃ before l after, lines = before ++ l :: after ∧ before.length = n :=
  ⟨lines.take n, lines[n], lines.drop (n + 1),
    by rw [← List.drop_eq_getElem_cons h, List.take_append_drop],
    List.length_take_of_le (Nat.le_of_lt h)⟩

/-! ### The conversions are inverse -/

section Inverse

variable {lines : List Line} (h : Cut lines) (hsize : byteLen (joined lines) < U32_COUNT)

include h hsize

/-- A place that is not inside a line end has a position, which is turned into it. -/
theorem offset_position {front back : Text} (hjoined : joined lines = front ++ back)
    (hinside : ¬ InsideLineEnd front back) :
    ∃ p, (lineIndex (joined lines)).position (byteLen front) = .ok p ∧
      (lineIndex (joined lines)).offset p = .ok (byteLen front) := by
  rcases Library.exists_place h hjoined hinside with ⟨before, a, b, t, after, rfl, rfl, -⟩
  refine ⟨_, position_place h hsize, ?_⟩
  rw [offset_place h hsize, reach_utf16Len]

omit h in
theorem position_inside {front back : Text} (hjoined : joined lines = front ++ back)
    (hinside : InsideLineEnd front back) :
    (lineIndex (joined lines)).position (byteLen front) =
      (lineIndex (joined lines)).position (byteLen front - 1) := by
  have htext : (lineIndex (joined lines)).text = joined lines := rfl
  have hstart := (bytesStartWith_iff front back).mpr hinside
  rcases List.getLast?_eq_some_iff.mp hinside.1 with ⟨f, rfl⟩
  have hlen : byteLen (f ++ ['\r']) = byteLen f + 1 := byteLen_append _ _
  have hbefore : ¬ InsideLineEnd f ('\r' :: back) := fun h => nomatch h.2
  have hfront : f ++ '\r' :: back = f ++ ['\r'] ++ back := by
    rw [List.append_assoc]
    rfl
  have hnot := mt (bytesStartWith_iff f ('\r' :: back)).mp hbefore
  rw [hfront] at hnot
  rw [hlen] at hstart ⊢
  have hfit : byteLen f + 1 ≤ byteLen (joined lines) := by
    rw [hjoined, byteLen_append, hlen]
    omega
  unfold LineIndex.position
  rw [htext, textSize_of hsize]
  dsimp only [Except.bind]
  rw [Nat.min_eq_left hfit, Nat.min_eq_left (by omega), hjoined, Nat.add_sub_cancel]
  rw [Nat.add_sub_cancel] at hstart
  rw [if_pos hstart, if_neg hnot]

/-- A position is turned into a place that is not inside a line end, and lies on the line that
    it names if there is one. -/
theorem offset_boundary (p : Position) :
    ∃ front back, joined lines = front ++ back ∧
      (lineIndex (joined lines)).offset p = .ok (byteLen front) ∧ ¬ InsideLineEnd front back ∧
        ∀ before l after, lines = before ++ l :: after → p.line = before.length →
          byteLen (joined before) ≤ byteLen front ∧
            byteLen front ≤ byteLen (joined before ++ l.body) := by
  by_cases hline : lines.length ≤ p.line
  · refine ⟨joined lines, [], (List.append_nil _).symm, offset_past h hsize hline, ?_, ?_⟩
    · exact fun hinside => nomatch hinside.2
    · rintro before l after rfl hp
      rw [hp, List.length_append, List.length_cons] at hline
      omega
  · rcases exists_line (Nat.lt_of_not_le hline) with ⟨before, ⟨body, t⟩, after, rfl, hp⟩
    rcases reach_prefix p.character body with ⟨b, hbody⟩
    refine ⟨joined before ++ reach p.character body, b ++ t ++ joined after, ?_, ?_, ?_, ?_⟩
    · rw [← joined_place, hbody]
    · have hoffset := offset_place h hsize p.character
      rwa [hp] at hoffset
    · rw [← hbody] at h
      exact h.not_insideLineEnd
    · intro before' l' after' hlines hp'
      rcases List.append_inj hlines (hp.trans hp') with ⟨rfl, hrest⟩
      rw [← (List.cons.inj hrest).1, ← hbody, byteLen_append, byteLen_append, byteLen_append, hbody]
      omega

/-- A later position has an offset that is not earlier. -/
theorem offset_mono {p q : Position} (hpq : p = q ∨ p.Before q) {o o' : Nat}
    (hp : (lineIndex (joined lines)).offset p = .ok o)
    (hq : (lineIndex (joined lines)).offset q = .ok o') : o ≤ o' := by
  rcases hpq with rfl | hbefore
  · rw [hp, Except.ok.injEq] at hq
    exact Nat.le_of_eq hq
  by_cases hlast : lines.length ≤ q.line
  · rw [offset_past h hsize hlast, Except.ok.injEq] at hq
    rcases offset_boundary h hsize p with ⟨front, back, hjoined, hfront, -⟩
    rw [hp, Except.ok.injEq] at hfront
    rw [← hq, hfront, hjoined, byteLen_append]
    omega
  · have hline : p.line ≤ q.line := by
      rcases hbefore with hlt | ⟨heq, -⟩
      · exact Nat.le_of_lt hlt
      · exact Nat.le_of_eq heq
    rcases offset_boundary h hsize q with ⟨front', back', hjoined', hfront', -, hstart'⟩
    rw [hq, Except.ok.injEq] at hfront'
    rcases exists_line (Nat.lt_of_not_le hlast) with ⟨before', l', after', hlines', hq'⟩
    rcases Nat.lt_or_eq_of_le hline with hlt | heq
    · -- The end of a line is not after the start of a later one.
      rcases offset_boundary h hsize p with ⟨front, back, hjoined, hfront, -, hstart⟩
      rw [hp, Except.ok.injEq] at hfront
      rcases exists_line (Nat.lt_trans hlt (Nat.lt_of_not_le hlast)) with
        ⟨before, l, after, hlines, hp'⟩
      have hle := line_le (hlines.symm.trans hlines') (by omega)
      have hfirst := (hstart before l after hlines hp'.symm).2
      have hsecond := (hstart' before' l' after' hlines' hq'.symm).1
      omega
    · have hcharacter : p.character < q.character := by
        rcases hbefore with hlt | ⟨-, hcharacter⟩
        · omega
        · exact hcharacter
      rcases l' with ⟨body, t⟩
      subst hlines'
      have hoffset := offset_place h hsize p.character
      have hoffset' := offset_place h hsize q.character
      rw [hq'] at hoffset hoffset'
      rw [← heq] at hoffset
      rw [hoffset, Except.ok.injEq] at hp
      rw [hoffset', Except.ok.injEq] at hq
      rcases reach_mono (Nat.le_of_lt hcharacter) body with ⟨rest, hrest⟩
      rw [← hp, ← hq, ← hrest, byteLen_append, byteLen_append, byteLen_append]
      omega

end Inverse

/-- Positions and offsets of a text of less than 2^32 bytes. The offset of the position of a
    place is that of the place, or of the carriage return before it inside a line end. Positions
    increase with the places that are not inside one. Every position has an offset that is not
    inside a line end, lies on the line that is named if there is one, and does not decrease. A
    position at a character of a line is the one of its offset. A range that does not end inside
    a line end is turned back into itself. -/
theorem positions_and_offsets (text : Text) (hsize : byteLen text < U32_COUNT) :
    (∀ front back, text = front ++ back → ¬ InsideLineEnd front back →
      ∃ p, (lineIndex text).position (byteLen front) = .ok p ∧
        (lineIndex text).offset p = .ok (byteLen front)) ∧
    (∀ front back, text = front ++ ['\r'] ++ back → back.head? = some '\n' →
      ∃ p, (lineIndex text).position (byteLen (front ++ ['\r'])) = .ok p ∧
        (lineIndex text).offset p = .ok (byteLen front)) ∧
    (∀ front back front' back' p p', text = front ++ back → text = front' ++ back' →
      ¬ InsideLineEnd front back → ¬ InsideLineEnd front' back' →
        byteLen front < byteLen front' → (lineIndex text).position (byteLen front) = .ok p →
          (lineIndex text).position (byteLen front') = .ok p' → p.Before p') ∧
    (∀ p, ∃ front back, text = front ++ back ∧
      (lineIndex text).offset p = .ok (byteLen front) ∧ ¬ InsideLineEnd front back ∧
        ∀ before l after, Cut (before ++ l :: after) → joined (before ++ l :: after) = text →
          p.line = before.length → byteLen (joined before) ≤ byteLen front ∧
            byteLen front ≤ byteLen (joined before ++ l.body)) ∧
    (∀ p q o o', p = q ∨ p.Before q → (lineIndex text).offset p = .ok o →
      (lineIndex text).offset q = .ok o' → o ≤ o') ∧
    (∀ before a b t after, Cut (before ++ ⟨a ++ b, t⟩ :: after) →
      joined (before ++ ⟨a ++ b, t⟩ :: after) = text →
        ∃ o, (lineIndex text).offset ⟨before.length, utf16Len a⟩ = .ok o ∧
          (lineIndex text).position o = .ok ⟨before.length, utf16Len a⟩) ∧
    (∀ front back front' back', text = front ++ back → text = front' ++ back' →
      ¬ InsideLineEnd front back → ¬ InsideLineEnd front' back' →
        byteLen front ≤ byteLen front' →
          ∃ r, (lineIndex text).range (byteLen front) (byteLen front') = .ok r ∧
            (lineIndex text).textRange r = .ok (byteLen front, byteLen front')) := by
  rcases Library.exists_cut text with ⟨lines, hcut, rfl⟩
  refine ⟨fun front back => offset_position hcut hsize, ?_, ?_, ?_,
    fun p q o o' hpq => offset_mono hcut hsize hpq, ?_, ?_⟩
  · intro front back htext hhead
    have hinside : InsideLineEnd (front ++ ['\r']) back := ⟨List.getLast?_concat, hhead⟩
    have hbefore : joined lines = front ++ '\r' :: back := by
      rw [htext, List.append_assoc]
      rfl
    have hlen : byteLen (front ++ ['\r']) - 1 = byteLen front := by
      have hcr : byteLen (front ++ ['\r']) = byteLen front + 1 := byteLen_append _ _
      omega
    rw [position_inside hsize htext hinside, hlen]
    exact offset_position hcut hsize hbefore (fun h => nomatch h.2)
  · intro front back front' back' p p' htext htext' hinside hinside' hlt hp hp'
    rcases Library.exists_place hcut htext hinside with ⟨before, a, b, t, after, hlines, rfl, -⟩
    rcases Library.exists_place hcut htext' hinside' with
      ⟨before', a', b', t', after', hlines', rfl, -⟩
    have hplace := hlines ▸ position_place (hlines ▸ hcut) (hlines ▸ hsize)
    have hplace' := hlines' ▸ position_place (hlines' ▸ hcut) (hlines' ▸ hsize)
    rw [hp, Except.ok.injEq] at hplace
    rw [hp', Except.ok.injEq] at hplace'
    rw [hplace, hplace']
    exact before_of_byteLen_lt (hlines.symm.trans hlines') hlt
  · intro p
    rcases offset_boundary hcut hsize p with ⟨front, back, hjoined, hfront, hinside, -⟩
    refine ⟨front, back, hjoined, hfront, hinside, fun before l after h htext hp => ?_⟩
    rw [← htext] at hsize hfront
    rcases offset_boundary h hsize p with ⟨front', -, -, hfront', -, hline⟩
    rw [hfront, Except.ok.injEq] at hfront'
    rw [hfront']
    exact hline before l after rfl hp
  · intro before a b t after h hjoined
    rw [← hjoined] at hsize ⊢
    refine ⟨_, offset_place h hsize _, ?_⟩
    rw [reach_utf16Len, position_place h hsize]
  · intro front back front' back' htext htext' hinside hinside' hle
    rcases offset_position hcut hsize htext hinside with ⟨p, hp, ho⟩
    rcases offset_position hcut hsize htext' hinside' with ⟨p', hp', ho'⟩
    refine ⟨(p, p'), ?_, ?_⟩
    · unfold LineIndex.range
      rw [hp, hp']
      rfl
    · unfold LineIndex.textRange
      rw [ho, ho']
      exact if_pos hle

/-- The offset of the line feed has the position of its carriage return. -/
theorem positions_and_offsets_pair :
    byteLen ['a', '\r', '\n', 'b'] < U32_COUNT ∧
      ∃ p, (lineIndex ['a', '\r', '\n', 'b']).position 2 = .ok p ∧
        (lineIndex ['a', '\r', '\n', 'b']).offset p = .ok 1 :=
  have hsize : byteLen ['a', '\r', '\n', 'b'] < U32_COUNT := by decide
  ⟨hsize, (positions_and_offsets ['a', '\r', '\n', 'b'] hsize).2.1 ['a'] ['\n', 'b'] rfl rfl⟩

theorem position_of_long {text : Text} (h : ¬ byteLen text < U32_COUNT) (o : Nat) :
    (lineIndex text).position o = .error .textLen := by
  have htext : (lineIndex text).text = text := rfl
  unfold LineIndex.position
  rw [htext, TextSize.of, if_neg h]
  rfl

theorem byteLen_replicate (n : Nat) (c : Char) :
    byteLen (List.replicate n c) = n * c.utf8Size := by
  rw [byteLen, List.map_replicate, List.sum_replicate_nat]

/-- The start of a text of 2^32 bytes has no position. -/
theorem long_text_has_no_position :
    ¬ ∃ p, (lineIndex (List.replicate U32_COUNT 'a')).position (byteLen []) = .ok p := by
  rintro ⟨p, hp⟩
  have hlen : ¬ byteLen (List.replicate U32_COUNT 'a') < U32_COUNT := by
    rw [byteLen_replicate]
    exact Nat.not_lt.mpr (Nat.le_mul_of_pos_right _ (Char.utf8Size_pos 'a'))
  rw [position_of_long hlen] at hp
  cases hp

end Lsp

end Ridl
