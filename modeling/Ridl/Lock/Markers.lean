import Ridl.Lock.Merge

/-!
# Texts with Markers

The text that a merge with a conflict writes, line by line.

Every entry and every conflict of the merge has its lines in the text, whatever the
places of the conflicts are. A marker is no line of a lock file: it is neither empty nor a
comment, and its first field is neither `next` nor a key. So a text with a marker
does not parse.

## Main definitions

* `Lined`, `HasLine`: A text that is written line by line, and a line of a text.
* `conflictLines`: The lines of a conflict.

## Theorems

* `lined_pushEntries`: Every entry and every conflict is written.
-/

namespace Ridl

namespace Lock

open Library
open TableKey (display fromStr HEADER MAX_NUMBER)

variable {K : Type}

/-! ### Texts of lines -/

/-- A text that is written line by line. -/
structure Lined (text : Text) (lines : List Text) : Prop where
  eq : text = lines.flatMap (· ++ ['\n'])
  newline : ∀ line ∈ lines, '\n' ∉ line

namespace Lined

variable {text text' : Text} {lines lines' : List Text}

theorem append (h : Lined text lines) (h' : Lined text' lines') :
    Lined (text ++ text') (lines ++ lines') where
  eq := by rw [h.eq, h'.eq, List.flatMap_append]
  newline := List.forall_mem_append.2 ⟨h.newline, h'.newline⟩

theorem cons {line : Text} (hline : '\n' ∉ line) (h : Lined text lines) :
    Lined (line ++ '\n' :: text) (line :: lines) where
  eq := by
    rw [h.eq, List.flatMap_cons, List.append_assoc]
    rfl
  newline := List.forall_mem_cons.2 ⟨hline, h.newline⟩

theorem nil : Lined [] [] := ⟨rfl, nofun⟩

theorem flatMap {α : Type} {f : α → Text} {g : α → List Text} {list : List α}
    (h : ∀ a ∈ list, Lined (f a) (g a)) : Lined (list.flatMap f) (list.flatMap g) := by
  induction list with
  | nil => exact nil
  | cons a list ih =>
      exact (h a List.mem_cons_self).append (ih fun b hb => h b (List.mem_cons_of_mem _ hb))

end Lined

def HasLine (text line : Text) : Prop := line ++ ['\n'] ∈ splitInclusive text

theorem Lined.hasLine {text : Text} {lines : List Text} (h : Lined text lines) {line : Text}
    (hline : line ∈ lines) : HasLine text line := by
  rw [HasLine, h.eq, splitInclusive_flatMap lines h.newline]
  exact List.mem_map_of_mem hline

/-! ### Text with markers -/

section Markers

variable [TableKey K] [LawfulKey K] {markerSize : Nat}

/-- The line that opens a conflict. -/
def openMarker (markerSize : Nat) : Text := List.replicate markerSize '<' ++ " ours".toList

def conflictLines (markerSize : Nat) (conflict : Conflict K) : List Text :=
  openMarker markerSize :: (conflict.ours.map entryLine ++
    List.replicate markerSize '=' :: (conflict.theirs.map entryLine ++
      [List.replicate markerSize '>' ++ " theirs".toList]))

omit [LawfulKey K] in
theorem mem_conflictLines {conflict : Conflict K} {entry : LockEntry K}
    (h : entry ∈ conflict.ours ++ conflict.theirs) :
    entryLine entry ∈ conflictLines markerSize conflict := by
  refine List.mem_cons_of_mem _ ?_
  rcases List.mem_append.1 h with hours | htheirs
  · exact List.mem_append_left _ (List.mem_map_of_mem hours)
  · exact List.mem_append_right _ (List.mem_cons_of_mem _
      (List.mem_append_left _ (List.mem_map_of_mem htheirs)))

/-- The keys of a conflict are read as themselves. -/
def Conflict.HasKeys (conflict : Conflict K) : Prop :=
  ∀ entry ∈ conflict.ours ++ conflict.theirs, IsKey entry.key

theorem lined_pushLine {entry : LockEntry K} (h : IsKey entry.key) :
    Lined (pushLine entry) [entryLine entry] :=
  Lined.nil.cons (isLine_entryLine h).not_mem_newline

theorem lined_pushLines {entries : List (LockEntry K)} (h : ∀ entry ∈ entries, IsKey entry.key) :
    Lined (entries.flatMap pushLine) (entries.map entryLine) := by
  have hlined := Lined.flatMap fun entry hentry => lined_pushLine (h entry hentry)
  have hlines : (entries.flatMap fun entry => [entryLine entry]) = entries.map entryLine :=
    List.map_eq_flatMap.symm
  rwa [hlines] at hlined

theorem newline_not_mem_marker (markerSize : Nat) {c : Char} (hc : c ≠ '\n') {word : Text}
    (hword : '\n' ∉ word) : '\n' ∉ List.replicate markerSize c ++ word := by
  intro hmem
  rcases List.mem_append.1 hmem with hfront | hback
  · exact hc (List.eq_of_mem_replicate hfront).symm
  · exact hword hback

theorem lined_pushConflict (markerSize : Nat) {conflict : Conflict K} (h : conflict.HasKeys) :
    Lined (pushConflict markerSize conflict) (conflictLines markerSize conflict) := by
  rcases List.forall_mem_append.1 h with ⟨hours, htheirs⟩
  have hopen : '\n' ∉ openMarker markerSize := newline_not_mem_marker _ (by decide) (by decide)
  have hmiddle : '\n' ∉ List.replicate markerSize '=' :=
    fun hmem => absurd (List.eq_of_mem_replicate hmem) (by decide)
  have hclose : '\n' ∉ List.replicate markerSize '>' ++ " theirs".toList :=
    newline_not_mem_marker _ (by decide) (by decide)
  have hlined := Lined.cons hopen ((lined_pushLines hours).append
    (Lined.cons hmiddle ((lined_pushLines htheirs).append (Lined.cons hclose Lined.nil))))
  have htext : pushConflict markerSize conflict = openMarker markerSize ++ '\n' ::
      (conflict.ours.flatMap pushLine ++ (List.replicate markerSize '=' ++ '\n' ::
        (conflict.theirs.flatMap pushLine ++
          (List.replicate markerSize '>' ++ " theirs".toList ++ '\n' :: [])))) := by
    have hours' : " ours\n".toList = " ours".toList ++ ['\n'] := by decide
    have htheirs' : " theirs\n".toList = " theirs".toList ++ ['\n'] := by decide
    simp only [pushConflict, openMarker, hours', htheirs', List.append_assoc, List.cons_append,
      List.nil_append]
  rw [htext]
  exact hlined

theorem lined_pushEntries (markerSize : Nat) {entries : List (LockEntry K)}
    {conflicts : List (Conflict K)}
    (hentries : ∀ entry ∈ entries, IsKey entry.key)
    (hconflicts : ∀ conflict ∈ conflicts, conflict.HasKeys) :
    ∃ lines, Lined (pushEntries markerSize entries conflicts) lines ∧
      (∀ entry ∈ entries, entryLine entry ∈ lines) ∧
      ∀ conflict ∈ conflicts, ∀ line ∈ conflictLines markerSize conflict, line ∈ lines := by
  induction entries generalizing conflicts with
  | nil =>
      refine ⟨_, Lined.flatMap fun conflict hconflict =>
        lined_pushConflict markerSize (hconflicts conflict hconflict), nofun, ?_⟩
      exact fun conflict hconflict line hline => List.mem_flatMap.2 ⟨conflict, hconflict, hline⟩
  | cons entry entries ih =>
      rcases List.forall_mem_cons.1 hentries with ⟨hentry, hrest⟩
      have hsplit := List.takeWhile_append_dropWhile (l := conflicts)
        (p := fun conflict => decide (conflict.place < entry.number))
      have hin : ∀ conflict, conflict ∈ conflicts ↔
          conflict ∈ conflicts.takeWhile (fun conflict => conflict.place < entry.number) ∨
            conflict ∈ conflicts.dropWhile (fun conflict => conflict.place < entry.number) := by
        intro conflict
        rw [← List.mem_append, hsplit]
      rcases ih hrest fun conflict hconflict =>
        hconflicts conflict ((hin conflict).2 (.inr hconflict)) with
        ⟨lines, hlined, hwritten, hmarked⟩
      have hbefore := Lined.flatMap fun conflict hconflict =>
        lined_pushConflict markerSize
          (hconflicts conflict ((hin conflict).2 (.inl hconflict)))
      refine ⟨_, (hbefore.append (lined_pushLine hentry)).append hlined, ?_, ?_⟩
      · refine List.forall_mem_cons.2 ⟨?_, fun other hother => ?_⟩
        · exact List.mem_append_left _ (List.mem_append_right _ List.mem_cons_self)
        · exact List.mem_append_right _ (hwritten other hother)
      · intro conflict hconflict line hline
        rcases (hin conflict).1 hconflict with htaken | hdropped
        · exact List.mem_append_left _ (List.mem_append_left _
            (List.mem_flatMap.2 ⟨conflict, htaken, hline⟩))
        · exact List.mem_append_right _ (hmarked conflict hdropped line hline)

theorem parseLine_openMarker [DecidableEq K] (hsize : 1 ≤ markerSize) (scan : Scan K) :
    ∃ e, parseLine scan (openMarker markerSize ++ ['\n']) = .error e := by
  rcases Nat.exists_eq_add_of_le' hsize with ⟨m, rfl⟩
  have htrim : trimEnd (openMarker (m + 1) ++ ['\n']) = openMarker (m + 1) := by
    have hlast : openMarker (m + 1) = (List.replicate (m + 1) '<' ++ " our".toList) ++ ['s'] := by
      rw [openMarker, List.append_assoc]
      rfl
    rw [hlast]
    exact trimEnd_line (by decide)
  have hhead : openMarker (m + 1) = '<' :: openMarker m := rfl
  have hskip : ¬ (openMarker (m + 1) = [] ∨
      (trimStart (openMarker (m + 1))).head? = some '#') := by
    rw [hhead, trimStart_cons (by decide)]
    rintro (hnil | hhash)
    · exact List.cons_ne_nil _ _ hnil
    · exact absurd (Option.some.inj hhash) (by decide)
  have hfields : (openMarker (m + 1)).splitOn ' '
      = List.replicate (m + 1) '<' :: ["ours".toList] := by
    have hspace : ' ' ∉ List.replicate (m + 1) '<' := by
      intro hmem
      have heq := List.eq_of_mem_replicate hmem
      revert heq
      decide
    have htext : openMarker (m + 1) = List.replicate (m + 1) '<' ++ ' ' :: "ours".toList := rfl
    rw [htext, List.splitOn_append_cons_self, List.splitOn_eq_singleton hspace]
    rfl
  unfold parseLine
  simp only [htrim, hskip, if_false]
  cases scan.next with
  | none =>
      have hnext : List.replicate (m + 1) '<' ≠ NEXT := by
        rw [List.replicate_succ]
        exact fun heq => absurd (List.cons.inj heq).1 (by decide)
      refine ⟨noNextLine, ?_⟩
      have hline : ∀ range, parseNextLine K (openMarker (m + 1)) range = .error noNextLine := by
        intro range
        unfold parseNextLine
        simp only [hfields]
        exact if_pos fun heq => hnext (Option.some.inj heq)
      simp only [hline]
      rfl
  | some bound =>
      have hkey : ∃ e, (fromStr (List.replicate (m + 1) '<') : Except Text K) = .error e := by
        cases hparse : (fromStr (List.replicate (m + 1) '<') : Except Text K) with
        | error e => exact ⟨e, rfl⟩
        | ok key =>
            have htoken := (LawfulKey.isToken_fromStr hparse).2 '<' List.mem_cons_self
            exact absurd htoken (by decide)
      rcases hkey with ⟨reason, hkey⟩
      refine ⟨doesNotParse ⟨scan.offset, scan.offset + byteLen (openMarker (m + 1))⟩ reason, ?_⟩
      unfold parseEntryLine parseKey
      simp only [hfields, List.getElem?_cons_zero, Option.getD_some, hkey]
      rfl

theorem parseTable_openMarker [DecidableEq K] (hsize : 1 ≤ markerSize) {text : Text}
    (h : HasLine text (openMarker markerSize)) :
    ∃ e, (parseTable text : Except LockError (LockTable K)) = .error e := by
  have hfold : ∀ (list : List Text) (scan : Scan K), openMarker markerSize ++ ['\n'] ∈ list →
      ∃ e, list.foldlM parseLine scan = .error e := by
    intro list
    induction list with
    | nil => nofun
    | cons line list ih =>
        intro scan hmem
        rw [List.foldlM_cons]
        cases hline : parseLine scan line with
        | error e => exact ⟨e, rfl⟩
        | ok next =>
            rcases List.mem_cons.1 hmem with rfl | hrest
            · rcases parseLine_openMarker hsize scan with ⟨e, he⟩
              rw [hline] at he
              cases he
            · exact ih next hrest
  rcases hfold _ { offset := 0, next := none, entries := [] } h with ⟨e, he⟩
  refine ⟨e, ?_⟩
  rw [parseTable, he]
  rfl

end Markers

end Lock

end Ridl
