import Ridl.Library.Fallible
import Ridl.Lock.Table

/-!
# Reading a Lock File Back

A table that was read is well formed, and a well formed table is read back from
its text, with its entries in number order.

The reader keeps its table well formed line by line, because it refuses exactly the
entries that do not fit. Each line of a rendered table holds a few tokens with
one space between them, so it is read back as the entry that it was written
for, but for its range in the text.

## Theorems

* `addEntry_eq_ok_iff`: The reader takes the entries that fit.
* `parseTable_render`: What is well formed is read back.
-/

namespace Ridl

namespace Lock

open Library
open TableKey (display fromStr HEADER MAX_NUMBER)

variable {K : Type}

/-- An entry without its range. -/
def content (entry : LockEntry K) : K × Nat × Bool := (entry.key, entry.number, entry.retired)

/-- An entry is below the bound, and repeats neither a number nor a live key. -/
structure Fits (bound : Nat) (entries : List (LockEntry K)) (entry : LockEntry K) : Prop where
  below : entry.number < bound
  number : ∀ other ∈ entries, other.number ≠ entry.number
  live : entry.retired = false → ∀ other ∈ entries, other.retired = false → other.key ≠ entry.key

section Content

variable {entries entries' : List (LockEntry K)}

theorem map_number_of_content (h : entries.map content = entries'.map content) :
    entries.map LockEntry.number = entries'.map LockEntry.number := by
  have hnumbers := congrArg (List.map fun c : K × Nat × Bool => c.2.1) h
  simp only [List.map_map] at hnumbers
  exact hnumbers

theorem map_live_of_content (h : entries.map content = entries'.map content) :
    (entries.filter (!·.retired)).map LockEntry.key
      = (entries'.filter (!·.retired)).map LockEntry.key := by
  have hlive := congrArg (fun l => (l.filter fun c : K × Nat × Bool => !c.2.2).map Prod.fst) h
  simp only [List.filter_map, List.map_map] at hlive
  exact hlive

theorem forall_of_content {P : K × Nat × Bool → Prop}
    (h : entries.map content = entries'.map content) (hall : ∀ e ∈ entries, P (content e)) :
    ∀ e ∈ entries', P (content e) := by
  intro e he
  have hmem : content e ∈ entries.map content := h ▸ List.mem_map_of_mem he
  rcases List.mem_map.1 hmem with ⟨e', he', heq⟩
  exact heq ▸ hall e' he'

end Content

/-! ### Well formed tables -/

variable [TableKey K]

/-- A table that a file can hold. -/
structure LockTable.WellFormed (table : LockTable K) : Prop where
  next : 1 ≤ table.next ∧ table.next ≤ MAX_NUMBER K + 1
  number : ∀ entry ∈ table.entries, 1 ≤ entry.number ∧ entry.number < table.next
  distinct : (table.entries.map LockEntry.number).Nodup
  live : ((table.entries.filter (!·.retired)).map LockEntry.key).Nodup
  key : ∀ entry ∈ table.entries, IsKey entry.key

theorem LockTable.wellFormed_default [LawfulKey K] : (LockTable.default K).WellFormed where
  next := ⟨Nat.le_refl 1, Nat.le_add_left 1 _⟩
  number := nofun
  distinct := List.nodup_nil
  live := List.nodup_nil
  key := nofun

section Same

variable {next : Nat} {entries entries' : List (LockEntry K)}

theorem LockTable.WellFormed.of_content (h : entries.map content = entries'.map content)
    (hwf : (⟨next, entries⟩ : LockTable K).WellFormed) :
    (⟨next, entries'⟩ : LockTable K).WellFormed where
  next := hwf.next
  number := forall_of_content (P := fun c => 1 ≤ c.2.1 ∧ c.2.1 < next) h hwf.number
  distinct := map_number_of_content h ▸ hwf.distinct
  live := map_live_of_content h ▸ hwf.live
  key := forall_of_content (P := fun c => IsKey c.1) h hwf.key

theorem LockTable.WellFormed.of_perm (h : entries.Perm entries')
    (hwf : (⟨next, entries⟩ : LockTable K).WellFormed) :
    (⟨next, entries'⟩ : LockTable K).WellFormed where
  next := hwf.next
  number := fun e he => hwf.number e (h.mem_iff.2 he)
  distinct := (h.map _).nodup_iff.1 hwf.distinct
  live := ((h.filter _).map _).nodup_iff.1 hwf.live
  key := fun e he => hwf.key e (h.mem_iff.2 he)

end Same

section Add

variable {bound : Nat} {entries : List (LockEntry K)} {entry : LockEntry K}

theorem LockTable.WellFormed.add (hwf : (⟨bound, entries⟩ : LockTable K).WellFormed)
    (hfits : Fits bound entries entry) (hnumber : 1 ≤ entry.number) (hkey : IsKey entry.key) :
    (⟨bound, entries ++ [entry]⟩ : LockTable K).WellFormed where
  next := hwf.next
  number := by
    refine List.forall_mem_append.2 ⟨hwf.number, List.forall_mem_singleton.2 ?_⟩
    exact ⟨hnumber, hfits.below⟩
  distinct := by
    rw [List.map_append]
    refine List.nodup_append.2 ⟨hwf.distinct, List.nodup_singleton _, ?_⟩
    intro n hn m hm heq
    rcases List.mem_map.1 hn with ⟨other, hother, rfl⟩
    exact hfits.number other hother (heq.trans (List.mem_singleton.1 hm))
  live := by
    rw [List.filter_append, List.map_append]
    cases hretired : entry.retired with
    | true =>
        rw [List.filter_cons_of_neg (by simp [hretired]), List.filter_nil, List.map_nil,
          List.append_nil]
        exact hwf.live
    | false =>
        rw [List.filter_cons_of_pos (by simp [hretired]), List.filter_nil]
        refine List.nodup_append.2 ⟨hwf.live, List.nodup_singleton _, ?_⟩
        intro k hk k' hk' heq
        rcases List.mem_map.1 hk with ⟨other, hother, rfl⟩
        rcases List.mem_filter.1 hother with ⟨hmem, hlive⟩
        refine hfits.live hretired other hmem ?_ (heq.trans (List.mem_singleton.1 hk'))
        exact Bool.not_eq_true' _ ▸ hlive
  key := List.forall_mem_append.2 ⟨hwf.key, List.forall_mem_singleton.2 hkey⟩

theorem LockTable.WellFormed.fits {rest : List (LockEntry K)}
    (hwf : (⟨bound, entries ++ entry :: rest⟩ : LockTable K).WellFormed) :
    Fits bound entries entry where
  below := (hwf.number entry (List.mem_append_right _ List.mem_cons_self)).2
  number := by
    intro other hother heq
    have hdistinct := hwf.distinct
    rw [List.map_append] at hdistinct
    exact (List.nodup_append.1 hdistinct).2.2 _ (List.mem_map_of_mem hother) _
      (List.mem_map_of_mem List.mem_cons_self) heq
  live := by
    intro hlive other hother hother' heq
    have hkeys := hwf.live
    rw [List.filter_append, List.map_append] at hkeys
    refine (List.nodup_append.1 hkeys).2.2 _ (List.mem_map_of_mem (List.mem_filter.2 ⟨hother, ?_⟩))
      _ (List.mem_map_of_mem (List.mem_filter.2 ⟨List.mem_cons_self, ?_⟩)) heq
    · simp only [hother', Bool.not_false]
    · simp only [hlive, Bool.not_false]

end Add

/-! ### Reading -/

variable [DecidableEq K]

theorem addEntry_eq_ok_iff {bound : Nat} {entries entries' : List (LockEntry K)}
    {entry : LockEntry K} :
    addEntry bound entries entry = .ok entries' ↔
      Fits bound entries entry ∧ entries' = entries ++ [entry] := by
  unfold addEntry
  by_cases hbound : entry.number ≥ bound
  · rw [if_pos hbound]
    exact ⟨nofun, fun h => absurd h.1.below (Nat.not_lt.2 hbound)⟩
  rw [if_neg hbound]
  cases hnumber : entries.find? (·.number = entry.number) with
  | some other =>
      have hsame : other.number = entry.number := by simpa using List.find?_some hnumber
      exact ⟨nofun, fun h => absurd hsame (h.1.number other (List.mem_of_find?_eq_some hnumber))⟩
  | none =>
      have hfresh : ∀ other ∈ entries, other.number ≠ entry.number := by
        simpa using List.find?_eq_none.1 hnumber
      cases hkey : if entry.retired then none
          else entries.find? (fun other => !other.retired && other.key = entry.key) with
      | some other =>
          rcases Option.ite_none_left_eq_some.1 hkey with ⟨hretired, hfind⟩
          have hsame : other.retired = false ∧ other.key = entry.key := by
            simpa using List.find?_some hfind
          refine ⟨nofun, fun h => ?_⟩
          exact absurd hsame.2 (h.1.live (Bool.not_eq_true _ ▸ hretired) other
            (List.mem_of_find?_eq_some hfind) hsame.1)
      | none =>
          refine ⟨fun h => ⟨⟨Nat.lt_of_not_le hbound, hfresh, fun hretired => ?_⟩,
            (Except.ok.inj h).symm⟩, fun h => congrArg Except.ok h.2.symm⟩
          rw [hretired, if_neg Bool.false_ne_true] at hkey
          simpa using List.find?_eq_none.1 hkey

/-- What was read so far is well formed. -/
def Scan.WellFormed (scan : Scan K) : Prop :=
  match scan.next with
  | none => scan.entries = []
  | some next => (⟨next, scan.entries⟩ : LockTable K).WellFormed

omit [DecidableEq K] in
theorem parseNextLine_bounds {line : Text} {range : TextRange} {next : Nat}
    (h : parseNextLine K line range = .ok next) : 1 ≤ next ∧ next ≤ MAX_NUMBER K + 1 := by
  unfold parseNextLine at h
  simp only at h
  split_ifs at h
  cases hnumber : ((line.splitOn ' ')[1]?).bind parseNumber with
  | none => simp only [hnumber, reduceCtorEq] at h
  | some n =>
      rcases Option.bind_eq_some_iff.1 hnumber with ⟨field, -, hfield⟩
      cases hmore : (line.splitOn ' ')[2]? with
      | some field' => simp only [hnumber, hmore, reduceCtorEq] at h
      | none =>
          simp only [hnumber, hmore] at h
          split_ifs at h with hle
          cases h
          exact ⟨(parseNumber_pos hfield).1, hle⟩

omit [DecidableEq K] in
theorem parseEntryLine_bounds [LawfulKey K] {line : Text} {range : TextRange} {entry : LockEntry K}
    (h : parseEntryLine line range = .ok entry) :
    1 ≤ entry.number ∧ entry.number ≤ MAX_NUMBER K ∧ IsKey entry.key := by
  rcases of_bind_eq_ok h with ⟨key, hkey, hrest⟩
  rcases of_bind_eq_ok hrest with ⟨number, hnumber, hrest⟩
  rcases of_bind_eq_ok hrest with ⟨retired, -, hrest⟩
  split_ifs at hrest
  cases hrest
  refine ⟨?_, ?_, isKey_of_fromStr (of_mapError_eq_ok hkey)⟩
  all_goals
    unfold parseEntryNumber at hnumber
    cases hfilter : (((line.splitOn ' ')[1]?).bind parseNumber).filter (· ≤ MAX_NUMBER K) with
    | none => simp only [hfilter, reduceCtorEq] at hnumber
    | some n =>
        simp only [hfilter, Except.ok.injEq] at hnumber
        subst hnumber
        rcases Option.filter_eq_some_iff.1 hfilter with ⟨hparse, hle⟩
        rcases Option.bind_eq_some_iff.1 hparse with ⟨field, -, hfield⟩
        first | exact (parseNumber_pos hfield).1 | exact of_decide_eq_true hle

/-- A line keeps what was read well formed. -/
theorem parseLine_wellFormed [LawfulKey K] {scan scan' : Scan K} {rawLine : Text}
    (h : parseLine scan rawLine = .ok scan') (hwf : scan.WellFormed) : scan'.WellFormed := by
  unfold parseLine at h
  simp only at h
  split_ifs at h
  · cases h
    exact hwf
  · cases hnext : scan.next with
    | none =>
        simp only [hnext] at h
        rcases of_bind_eq_ok h with ⟨next, hline, heq⟩
        cases heq
        have hempty : scan.entries = [] := by simpa [Scan.WellFormed, hnext] using hwf
        have hbounds := parseNextLine_bounds hline
        rw [Scan.WellFormed]
        simp only [hempty]
        exact ⟨hbounds, nofun, List.nodup_nil, List.nodup_nil, nofun⟩
    | some bound =>
        simp only [hnext] at h
        rcases of_bind_eq_ok h with ⟨entry, hline, hrest⟩
        rcases of_bind_eq_ok hrest with ⟨entries, hadd, heq⟩
        cases heq
        rcases addEntry_eq_ok_iff.1 hadd with ⟨hfits, rfl⟩
        rcases parseEntryLine_bounds hline with ⟨hnumber, -, hkey⟩
        rw [Scan.WellFormed, hnext] at hwf
        exact hwf.add hfits hnumber hkey

theorem foldlM_wellFormed [LawfulKey K] {lines : List Text} {scan scan' : Scan K}
    (h : lines.foldlM parseLine scan = .ok scan') (hwf : scan.WellFormed) : scan'.WellFormed := by
  induction lines generalizing scan with
  | nil =>
      cases h
      exact hwf
  | cons line lines ih =>
      rw [List.foldlM_cons] at h
      rcases of_bind_eq_ok h with ⟨next, hline, hrest⟩
      exact ih hrest (parseLine_wellFormed hline hwf)

theorem wellFormed_of_parse [LawfulKey K] {text : Text} {table : LockTable K}
    (h : parseTable text = .ok table) : table.WellFormed := by
  rcases of_bind_eq_ok h with ⟨scan, hscan, hrest⟩
  have hwf : scan.WellFormed := foldlM_wellFormed hscan rfl
  unfold Scan.WellFormed at hwf
  cases hnext : scan.next with
  | none => simp only [hnext, reduceCtorEq] at hrest
  | some next =>
      simp only [hnext, Except.ok.injEq] at hrest
      simp only [hnext] at hwf
      exact hrest ▸ hwf

/-! ### Lines -/

theorem isToken_digits (n : Nat) : IsToken (digits n) := by
  refine ⟨Nat.toDigits_ne_nil, fun c hc => ?_⟩
  have hdigit := Nat.isDigit_of_mem_toDigits (by decide) (Nat.le_refl 10) hc
  simp only [isTokenChar, Char.isAlphanum, hdigit, Bool.or_true, Bool.true_or]

theorem isToken_RETIRED : IsToken RETIRED := ⟨by decide, List.all_eq_true.1 (by decide)⟩

theorem isToken_NEXT : IsToken NEXT := ⟨by decide, List.all_eq_true.1 (by decide)⟩

theorem IsToken.not_mem {text : Text} (h : IsToken text) {c : Char} (hc : c.toNat ≤ 45) :
    c ∉ text := fun hmem => ne_of_isTokenChar (h.2 c hmem) hc rfl

/-- A line of tokens with a space between them. -/
structure IsLine (line : Text) (fields : List Text) : Prop where
  eq : line = [' '].intercalate fields
  ne_nil : fields ≠ []
  token : ∀ field ∈ fields, IsToken field

namespace IsLine

variable {line : Text} {fields : List Text}

theorem splitOn (h : IsLine line fields) : line.splitOn ' ' = fields := by
  rw [h.eq]
  exact List.splitOn_intercalate ' '
    (fun field hfield => (h.token field hfield).not_mem (by decide)) h.ne_nil

theorem not_mem_newline (h : IsLine line fields) : '\n' ∉ line := by
  intro hmem
  rw [h.eq] at hmem
  rcases mem_intercalate hmem with heq | ⟨field, hfield, hin⟩
  · revert heq
    decide
  · exact (h.token field hfield).not_mem (by decide) hin

theorem head (h : IsLine line fields) : ∃ c rest, line = c :: rest ∧ isTokenChar c = true := by
  rcases List.exists_cons_of_ne_nil h.ne_nil with ⟨field, more, rfl⟩
  rcases List.forall_mem_cons.1 h.token with ⟨hfield, -⟩
  rcases List.exists_cons_of_ne_nil hfield.1 with ⟨c, rest, rfl⟩
  have hc := hfield.2 c List.mem_cons_self
  rw [h.eq]
  cases more with
  | nil => exact ⟨c, rest, List.intercalate_singleton, hc⟩
  | cons next more => exact ⟨c, _, List.intercalate_cons_cons, hc⟩

theorem last (h : IsLine line fields) : ∃ front c, line = front ++ [c] ∧ isTokenChar c = true := by
  rcases h with ⟨rfl, hne, htoken⟩
  induction fields with
  | nil => exact absurd rfl hne
  | cons field fields ih =>
      rcases List.forall_mem_cons.1 htoken with ⟨hfield, hrest⟩
      cases fields with
      | nil =>
          rcases List.eq_nil_or_concat' field with rfl | ⟨front, c, rfl⟩
          · exact absurd rfl hfield.1
          · exact ⟨front, c, List.intercalate_singleton,
              hfield.2 c (List.mem_append_right _ List.mem_cons_self)⟩
      | cons next more =>
          rcases ih (List.cons_ne_nil _ _) hrest with ⟨front, c, heq, hc⟩
          rw [List.intercalate_cons_cons, heq]
          exact ⟨field ++ [' '] ++ front, c, by rw [List.append_assoc _ front], hc⟩

theorem trimEnd (h : IsLine line fields) : Library.trimEnd (line ++ ['\n']) = line := by
  rcases h.last with ⟨front, c, rfl, hc⟩
  exact trimEnd_line (isWhitespace_of_token hc)

theorem not_skipped (h : IsLine line fields) :
    ¬ (line = [] ∨ (trimStart line).head? = some '#') := by
  rcases h.head with ⟨c, rest, rfl, hc⟩
  rw [trimStart_cons (isWhitespace_of_token hc)]
  rintro (hnil | hhash)
  · exact List.cons_ne_nil c rest hnil
  · exact ne_of_isTokenChar hc (by decide) (Option.some.inj hhash)

end IsLine

theorem isLine_nextLine (n : Nat) : IsLine (nextLine n) [NEXT, digits n] where
  eq := by
    rw [List.intercalate_cons_cons, List.intercalate_singleton, List.append_assoc]
    rfl
  ne_nil := List.cons_ne_nil _ _
  token := List.forall_mem_cons.2 ⟨isToken_NEXT, List.forall_mem_singleton.2 (isToken_digits n)⟩

omit [DecidableEq K] in
theorem isLine_entryLine [LawfulKey K] {entry : LockEntry K} (h : IsKey entry.key) :
    IsLine (entryLine entry) (display entry.key :: digits entry.number ::
      if entry.retired then [RETIRED] else []) := by
  have hkey := h.isToken
  have hdigits := isToken_digits entry.number
  unfold entryLine
  cases entry.retired with
  | true =>
      refine ⟨?_, List.cons_ne_nil _ _, List.forall_mem_cons.2 ⟨hkey, List.forall_mem_cons.2
        ⟨hdigits, List.forall_mem_singleton.2 isToken_RETIRED⟩⟩⟩
      rw [if_pos rfl, if_pos rfl, List.intercalate_cons_cons, List.intercalate_cons_cons,
        List.intercalate_singleton]
      simp only [List.append_assoc, List.cons_append, List.nil_append]
  | false =>
      refine ⟨?_, List.cons_ne_nil _ _, List.forall_mem_cons.2 ⟨hkey,
        List.forall_mem_singleton.2 hdigits⟩⟩
      rw [if_neg Bool.false_ne_true, if_neg Bool.false_ne_true, List.intercalate_cons_cons,
        List.intercalate_singleton]
      simp only [List.append_assoc, List.cons_append, List.nil_append, List.append_nil]

/-! ### Reading back -/

variable [LawfulKey K]

omit [DecidableEq K] in
theorem parseEntryLine_entryLine {entry : LockEntry K} (hkey : IsKey entry.key)
    (hpos : 1 ≤ entry.number) (hmax : entry.number ≤ MAX_NUMBER K) (range : TextRange) :
    parseEntryLine (entryLine entry) range = .ok { entry with range := range } := by
  have hu32 : entry.number ≤ NUMBER_MAX :=
    Nat.le_trans hmax (Nat.le_of_lt (LawfulKey.max (K := K)).2)
  have hnumber : parseEntryNumber K range (some (digits entry.number)) = .ok entry.number := by
    unfold parseEntryNumber
    rw [Option.bind_some, digits, parseNumber_toDigits hpos hu32, Option.filter_some_pos]
    exact decide_eq_true hmax
  have hkey' : parseKey range (some (display entry.key)) = .ok entry.key := by
    unfold parseKey
    rw [Option.getD_some, hkey]
    rfl
  unfold parseEntryLine
  rw [(isLine_entryLine hkey).splitOn]
  simp only [List.getElem?_cons_zero, List.getElem?_cons_succ, hkey', hnumber]
  cases hretired : entry.retired with
  | true =>
      rw [if_pos rfl]
      rfl
  | false =>
      rw [if_neg Bool.false_ne_true]
      rfl

omit [DecidableEq K] in
theorem parseNextLine_nextLine {next : Nat} (hpos : 1 ≤ next) (hle : next ≤ MAX_NUMBER K + 1)
    (range : TextRange) : parseNextLine K (nextLine next) range = .ok next := by
  have hu32 : next ≤ NUMBER_MAX := Nat.le_trans hle (LawfulKey.max (K := K)).2
  unfold parseNextLine
  simp only [(isLine_nextLine next).splitOn, List.getElem?_cons_zero, List.getElem?_cons_succ,
    Option.bind_some, digits, parseNumber_toDigits hpos hu32, ne_eq, not_true_eq_false, if_false,
    List.getElem?_nil]
  exact if_pos hle

theorem parseLine_header (scan : Scan K) :
    ∃ offset, parseLine scan (HEADER K ++ ['\n']) = .ok { scan with offset := offset } := by
  rcases LawfulKey.header (K := K) with ⟨rest, hheader, -⟩
  refine ⟨scan.offset + byteLen (HEADER K ++ ['\n']), if_pos (.inr ?_)⟩
  have hhash : isWhitespace '#' = false := by decide
  have hline : ∃ more, trimEnd (HEADER K ++ ['\n']) = '#' :: more := by
    rw [hheader, List.cons_append, trimEnd, List.reverse_cons, List.dropWhile_append]
    split_ifs
    · exact ⟨[], by rw [List.dropWhile_cons_of_neg (by simp [hhash])]; rfl⟩
    · exact ⟨_, by rw [List.reverse_append]; rfl⟩
  rcases hline with ⟨more, hmore⟩
  rw [hmore, trimStart_cons hhash]
  rfl

theorem parseLine_nextLine (scan : Scan K) {next : Nat} (hscan : scan.next = none)
    (hpos : 1 ≤ next) (hle : next ≤ MAX_NUMBER K + 1) :
    ∃ offset, parseLine scan (nextLine next ++ ['\n'])
      = .ok { scan with offset := offset, next := some next } := by
  have hline := isLine_nextLine next
  refine ⟨scan.offset + byteLen (nextLine next ++ ['\n']), ?_⟩
  unfold parseLine
  simp only [hline.trimEnd, hline.not_skipped, if_false, hscan, parseNextLine_nextLine hpos hle]
  rfl

theorem parseLine_entryLine {scan : Scan K} {bound : Nat} {entry : LockEntry K}
    (hscan : scan.next = some bound) (hfits : Fits bound scan.entries entry)
    (hkey : IsKey entry.key) (hpos : 1 ≤ entry.number) (hmax : entry.number ≤ MAX_NUMBER K) :
    ∃ offset range, parseLine scan (entryLine entry ++ ['\n'])
      = .ok { scan with
          offset := offset, entries := scan.entries ++ [{ entry with range := range }] } := by
  have hline := isLine_entryLine hkey
  refine ⟨scan.offset + byteLen (entryLine entry ++ ['\n']),
    ⟨scan.offset, scan.offset + byteLen (entryLine entry)⟩, ?_⟩
  have hadd : addEntry bound scan.entries
      { entry with range := ⟨scan.offset, scan.offset + byteLen (entryLine entry)⟩ }
        = .ok (scan.entries ++ [{ entry with
            range := ⟨scan.offset, scan.offset + byteLen (entryLine entry)⟩ }]) :=
    addEntry_eq_ok_iff.2 ⟨⟨hfits.below, hfits.number, hfits.live⟩, rfl⟩
  unfold parseLine
  simp only [hline.trimEnd, hline.not_skipped, if_false, hscan,
    parseEntryLine_entryLine hkey hpos hmax, ok_bind, hadd]
  rfl

/-- So are the lines of several. -/
theorem foldlM_entryLine {bound : Nat} {rest : List (LockEntry K)} (scan : Scan K)
    (hscan : scan.next = some bound)
    (hwf : (⟨bound, scan.entries ++ rest⟩ : LockTable K).WellFormed) :
    ∃ scan', (rest.map fun entry => entryLine entry ++ ['\n']).foldlM parseLine scan = .ok scan' ∧
      scan'.next = some bound ∧ scan'.entries.map content = (scan.entries ++ rest).map content := by
  induction rest generalizing scan with
  | nil => exact ⟨scan, rfl, hscan, by rw [List.append_nil]⟩
  | cons entry rest ih =>
      have hmem : entry ∈ scan.entries ++ entry :: rest :=
        List.mem_append_right _ List.mem_cons_self
      have hnumber := hwf.number entry hmem
      have hmax : entry.number ≤ MAX_NUMBER K :=
        Nat.le_of_lt_succ (Nat.lt_of_lt_of_le hnumber.2 hwf.next.2)
      rcases parseLine_entryLine hscan hwf.fits (hwf.key entry hmem) hnumber.1 hmax with
        ⟨offset, range, hline⟩
      have hsame : (scan.entries ++ entry :: rest).map content
          = (scan.entries ++ [{ entry with range := range }] ++ rest).map content := by
        simp only [List.map_append, List.map_cons, List.append_assoc, List.cons_append,
          List.nil_append]
        rfl
      rcases ih { scan with
          offset := offset, entries := scan.entries ++ [{ entry with range := range }] } hscan
        (hwf.of_content hsame) with ⟨scan', hfold, hnext, hentries⟩
      refine ⟨scan', ?_, hnext, hentries.trans hsame.symm⟩
      rw [List.map_cons, List.foldlM_cons, hline]
      exact hfold

theorem parseTable_render {table : LockTable K} (hwf : table.WellFormed) :
    ∃ table', parseTable table.render = .ok table' ∧ table'.next = table.next ∧
      table'.entries.map content = (inOrder table.entries).map content := by
  have hperm : table.entries.Perm (inOrder table.entries) :=
    (List.perm_insertionSort _ table.entries).symm
  have hsorted : (⟨table.next, [] ++ inOrder table.entries⟩ : LockTable K).WellFormed :=
    LockTable.WellFormed.of_perm hperm hwf
  have hheader : '\n' ∉ HEADER K := by
    rcases LawfulKey.header (K := K) with ⟨rest, hheader, hrest⟩
    rw [hheader]
    exact fun hmem => (List.mem_cons.1 hmem).elim (by decide) hrest
  have hlines : splitInclusive table.render = (HEADER K ++ ['\n']) ::
      (nextLine table.next ++ ['\n']) ::
        (inOrder table.entries).map fun entry => entryLine entry ++ ['\n'] := by
    have hentries := splitInclusive_flatMap ((inOrder table.entries).map entryLine)
      (List.forall_mem_map.2 fun entry hentry =>
        (isLine_entryLine (hsorted.key entry hentry)).not_mem_newline)
    rw [List.flatMap_map, List.map_map] at hentries
    simp only [LockTable.render, List.append_assoc, List.cons_append]
    rw [splitInclusive_line hheader,
      splitInclusive_line (isLine_nextLine table.next).not_mem_newline, hentries]
    rfl
  rcases parseLine_header (K := K) { offset := 0, next := none, entries := [] } with
    ⟨offset, hfirst⟩
  rcases parseLine_nextLine (K := K)
    { offset := offset, next := none, entries := [] } rfl hwf.next.1 hwf.next.2 with ⟨offset', hnext⟩
  rcases foldlM_entryLine { offset := offset', next := some table.next, entries := [] }
    rfl hsorted with ⟨scan, hscan, hbound, hentries⟩
  refine ⟨⟨table.next, scan.entries⟩, ?_, rfl, hentries⟩
  simp only [parseTable, hlines, List.foldlM_cons, hfirst, ok_bind, hnext, hscan, hbound]

end Lock

end Ridl
