import Ridl.Streams.Upload
import Mathlib.Data.List.Chain
import Mathlib.Tactic.SplitIfs

/-!
# Splitting Is Exact

What a write does to a raw upload is a list of chunks and an end (`Performs`): all chunks
are written, or the ones before the first that is rejected. The chunks of bytes are as many
as the limit makes, and those of a text are filled until the next code point does not fit
(`textChunks`). A write that fails has written the chunks that were full before the code
point it fails at.

## Main definitions

* `group`, `textChunks`: The chunks of a text.

## Theorems

* `byteUpload_performs`, `textUpload_performs`: What one write does.
* `textUpload_stops`: What it does at a code point that is too long.
* `upload_splitting`: The writes of an upload.
-/

namespace Ridl

namespace Streams

open Library (Units points encode decode isWellFormed scalarOf units utf8 unitsOf)

variable {ρ α β : Type}

/-! ### Chunks and an end -/

/-- An end that is not one of the raw upload. -/
def lift (result : Except StreamError α) : Except (Failure ρ) α :=
  match result with
  | .ok a => .ok a
  | .error e => .error (.stream e)

/-- A computation writes these chunks and ends so, or ends where the raw upload rejects
    one. -/
def Performs (raw : RawUpload ρ) (x : Sending ρ α) (chunks : List Bytes)
    (result : Except StreamError α) : Prop :=
  ∀ written, x written = (lift result, written ++ chunks) ∨
    ∃ front bytes back reason, chunks = front ++ bytes :: back ∧
      raw.rejects (written ++ front) bytes = some reason ∧
        x written = (.error (.raw reason), written ++ front)

namespace Performs

variable {raw : RawUpload ρ} {x : Sending ρ α} {chunks : List Bytes} {a : α}

theorem pure : Performs raw (.pure a) [] (.ok a) := fun written =>
  .inl (by rw [Sending.pure, List.append_nil]; rfl)

theorem throw (e : StreamError) : Performs (α := α) raw (.throw e) [] (.error e) :=
  fun written => .inl (by rw [Sending.throw, List.append_nil]; rfl)

theorem write (bytes : Bytes) : Performs raw (write raw bytes) [bytes] (.ok ()) := by
  intro written
  unfold Streams.write
  rcases hrejects : raw.rejects written bytes with _ | reason
  · exact .inl rfl
  · exact .inr ⟨[], bytes, [], reason, rfl, by rwa [List.append_nil], by rw [List.append_nil]⟩

/-- One computation after another. -/
theorem bind {f : α → Sending ρ β} {rest : List Bytes} {result : Except StreamError β}
    (hx : Performs raw x chunks (.ok a)) (hf : Performs raw (f a) rest result) :
    Performs raw (x.bind f) (chunks ++ rest) result := by
  intro written
  rcases hx written with hok | ⟨front, bytes, back, reason, rfl, hrejects, herror⟩
  · have hbind : x.bind f written = f a (written ++ chunks) := by
      rw [Sending.bind, hok]
      rfl
    rcases hf (written ++ chunks) with hend | ⟨front, bytes, back, reason, rfl, hrejects, herror⟩
    · exact .inl (by rw [hbind, hend, List.append_assoc])
    · refine .inr ⟨chunks ++ front, bytes, back, reason, ?_, ?_, ?_⟩
      · rw [List.append_assoc]
      · rwa [← List.append_assoc]
      · rw [hbind, herror, List.append_assoc]
  · refine .inr ⟨front, bytes, back ++ rest, reason, ?_, hrejects, ?_⟩
    · rw [List.append_assoc]
      rfl
    · rw [Sending.bind, herror]

theorem bind_error {f : α → Sending ρ β} {e : StreamError}
    (hx : Performs raw x chunks (.error e)) : Performs raw (x.bind f) chunks (.error e) := by
  intro written
  rcases hx written with herror | ⟨front, bytes, back, reason, rfl, hrejects, herror⟩
  · exact .inl (by rw [Sending.bind, herror]; rfl)
  · exact .inr ⟨front, bytes, back, reason, rfl, hrejects, by rw [Sending.bind, herror]⟩

end Performs

/-! ### Bytes -/

/-- Chunks that make up the bytes, at most the limit each. Only empty bytes have an empty
    chunk. -/
structure Splits (limit : Int) (bytes : Bytes) (chunks : List Bytes) : Prop where
  limited : ∀ chunk ∈ chunks, (chunk.length : Int) ≤ limit
  nonempty : bytes ≠ [] → ∀ chunk ∈ chunks, chunk ≠ []
  empty : bytes = [] → chunks = [[]]
  joined : chunks.flatten = bytes

theorem byteLoop_performs (raw : RawUpload ρ) {limit : Nat} (hlimit : 0 < limit) (bytes : Bytes)
    (start : Nat) :
    ∃ chunks, Performs raw (byteLoop raw limit hlimit bytes start) chunks (.ok ()) ∧
      (∀ chunk ∈ chunks, chunk.length ≤ limit ∧ chunk ≠ []) ∧
        chunks.flatten = bytes.drop start := by
  induction start using byteLoop.induct limit hlimit bytes with
  | case1 start hstart ih =>
      rcases ih with ⟨chunks, hperforms, hchunks, hflatten⟩
      refine ⟨(bytes.drop start).take limit :: chunks, ?_, ?_, ?_⟩
      · rw [byteLoop, if_pos hstart]
        exact (Performs.write _).bind hperforms
      · refine List.forall_mem_cons.mpr ⟨⟨List.length_take_le _ _, ?_⟩, hchunks⟩
        rw [← List.length_pos_iff, List.length_take, List.length_drop]
        omega
      · rw [List.flatten_cons, hflatten, ← List.drop_drop, List.take_append_drop]
  | case2 start hstart =>
      refine ⟨[], ?_, List.forall_mem_nil _, ?_⟩
      · rw [byteLoop, if_neg hstart]
        exact .pure
      · rw [List.drop_eq_nil_of_le (Nat.le_of_not_lt hstart)]
        rfl

theorem byteUpload_performs (raw : RawUpload ρ) {limit : Int} (hlimit : 1 ≤ limit) (bytes : Bytes) :
    ∃ chunks, Performs raw (byteUpload raw limit bytes) chunks (.ok ()) ∧
      Splits limit bytes chunks := by
  unfold byteUpload
  rw [dif_neg (by omega)]
  have hpos : 0 < limit.toNat := by omega
  rcases byteLoop_performs raw hpos bytes 0 with ⟨chunks, hperforms, hchunks, hflatten⟩
  rw [List.drop_zero] at hflatten
  by_cases hempty : bytes.length = 0
  · rw [if_pos hempty]
    have hbytes : bytes = [] := List.length_eq_zero_iff.mp hempty
    have hnone : chunks = [] := by
      rcases chunks with _ | ⟨chunk, chunks⟩
      · rfl
      · have hchunk := (hchunks chunk List.mem_cons_self).2
        rw [hbytes, List.flatten_cons, List.append_eq_nil_iff] at hflatten
        exact absurd hflatten.1 hchunk
    refine ⟨[bytes] ++ chunks, (Performs.write bytes).bind hperforms, ?_⟩
    rw [hnone, hbytes]
    refine ⟨?_, fun h => absurd rfl h, fun _ => rfl, rfl⟩
    intro chunk hchunk
    rw [List.mem_singleton.mp hchunk]
    exact Int.le_trans (by decide) hlimit
  · rw [if_neg hempty]
    refine ⟨[] ++ chunks, Performs.pure.bind hperforms, ?_⟩
    refine ⟨?_, fun _ chunk h => (hchunks chunk h).2, ?_, hflatten⟩
    · intro chunk h
      have := (hchunks chunk h).1
      omega
    · rintro rfl
      exact absurd rfl hempty

theorem byteUpload_refuses (raw : RawUpload ρ) {limit : Int} (hlimit : limit ≤ 0) (bytes : Bytes) :
    Performs raw (byteUpload raw limit bytes) [] (.error .corrupt) := by
  unfold byteUpload
  rw [dif_pos hlimit]
  exact .throw _

/-! ### Texts -/

/-- Characters in groups of at most the limit, a group being ended by the character that does
    not fit, and the group that is begun. -/
def group (limit : Int) : List Char → List Char → List (List Char) × List Char
  | [], chunk => ([], chunk)
  | c :: rest, chunk =>
      if (((utf8 chunk).length + (utf8 [c]).length : Nat) : Int) > limit then
        let groups := group limit rest [c]
        (chunk :: groups.1, groups.2)
      else group limit rest (chunk ++ [c])

/-- All groups of a text. -/
def groups (limit : Int) (chars : List Char) : List (List Char) :=
  (group limit chars []).1 ++ [(group limit chars []).2]

/-- The characters of a well-formed text. -/
def charsOf (text : Units) : List Char := (points text).filterMap scalarOf

theorem charsOf_units (chars : List Char) : charsOf (units chars) = chars := by
  unfold charsOf
  rw [Library.points_units, List.filterMap_map]
  have hscalar : (scalarOf ∘ unitsOf) = some := funext Library.scalarOf_unitsOf
  rw [hscalar, List.filterMap_some]

def textChunks (limit : Int) (text : Units) : List Bytes := (groups limit (charsOf text)).map utf8

theorem textChunks_units (limit : Int) (chars : List Char) :
    textChunks limit (units chars) =
      (group limit chars []).1.map utf8 ++ [utf8 (group limit chars []).2] := by
  rw [textChunks, charsOf_units, groups, List.map_append, List.map_singleton]

theorem utf8_nil : utf8 [] = [] := rfl

theorem utf8_append (front back : List Char) : utf8 (front ++ back) = utf8 front ++ utf8 back :=
  List.flatMap_append

theorem utf8_singleton (c : Char) : utf8 [c] = String.utf8EncodeChar c := List.flatMap_singleton _ _

theorem utf8_eq_nil {chars : List Char} (h : utf8 chars = []) : chars = [] := by
  rcases chars with _ | ⟨c, chars⟩
  · rfl
  · have hcons : utf8 (c :: chars) = String.utf8EncodeChar c ++ utf8 chars := List.flatMap_cons
    rw [hcons, List.append_eq_nil_iff] at h
    exact absurd h.1 String.utf8EncodeChar_ne_nil

theorem unitsOf_eq (c : Char) : unitsOf c = units [c] := (List.flatMap_singleton _ _).symm

theorem encode_unitsOf (c : Char) : encode (unitsOf c) = utf8 [c] := by
  rw [unitsOf_eq, Library.encode_units]

theorem units_concat (chars : List Char) (c : Char) :
    units (chars ++ [c]) = units chars ++ unitsOf c := by
  rw [Library.units_append, unitsOf_eq]

/-- Every character fits the limit. -/
def Fit (limit : Int) (chars : List Char) : Prop :=
  ∀ c ∈ chars, ((utf8 [c]).length : Int) ≤ limit

/-- The loop writes the groups of the characters that fit, and goes on with the group that is
    begun. -/
theorem textLoop_performs {raw : RawUpload ρ} {limit : Int} {more : List Units} {chars : List Char}
    (hfit : Fit limit chars) {chunk : List Char} {rest : List Bytes}
    {result : Except StreamError Units}
    (h : Performs raw (textLoop raw limit more (units (group limit chars chunk).2)
      (utf8 (group limit chars chunk).2).length) rest result) :
    Performs raw (textLoop raw limit (chars.map unitsOf ++ more) (units chunk) (utf8 chunk).length)
      ((group limit chars chunk).1.map utf8 ++ rest) result := by
  induction chars generalizing chunk with
  | nil => exact h
  | cons c chars ih =>
      rcases List.forall_mem_cons.mp hfit with ⟨hc, hchars⟩
      rw [List.map_cons, List.cons_append, textLoop, encode_unitsOf]
      rw [if_neg (Int.not_lt.mpr hc)]
      rw [group] at h ⊢
      split_ifs with hfull
      · rw [if_pos hfull] at h
        rw [Library.encode_units, unitsOf_eq]
        exact (Performs.write (utf8 chunk)).bind (ih hchars h)
      · rw [if_neg hfull] at h
        have hrest := ih hchars h
        rwa [units_concat, utf8_append, List.length_append] at hrest

theorem group_snd_ne_nil (limit : Int) {chars chunk : List Char} (h : chars ≠ [] ∨ chunk ≠ []) :
    (group limit chars chunk).2 ≠ [] := by
  induction chars generalizing chunk with
  | nil => exact h.resolve_left fun hne => hne rfl
  | cons c chars ih =>
      rw [group]
      split_ifs
      · exact ih (.inr (List.cons_ne_nil _ _))
      · exact ih (.inr (List.append_ne_nil_of_right_ne_nil chunk (List.cons_ne_nil _ _)))

theorem units_ne_nil {chars : List Char} (h : chars ≠ []) : units chars ≠ [] := by
  intro hnil
  have hchars := charsOf_units chars
  rw [hnil] at hchars
  exact h hchars.symm

theorem textLoop_from_start {raw : RawUpload ρ} {limit : Int} {more : List Units}
    {chars : List Char} (hfit : Fit limit chars) {rest : List Bytes}
    {result : Except StreamError Units}
    (h : Performs raw (textLoop raw limit more (units (group limit chars []).2)
      (utf8 (group limit chars []).2).length) rest result) :
    Performs raw (textLoop raw limit (chars.map unitsOf ++ more) [] 0)
      ((group limit chars []).1.map utf8 ++ rest) result := textLoop_performs hfit h

theorem textUpload_performs (raw : RawUpload ρ) {limit : Int} (hlimit : 1 ≤ limit)
    {chars : List Char} (hfit : Fit limit chars) :
    Performs raw (textUpload raw limit (units chars)) (textChunks limit (units chars))
      (.ok ()) := by
  have hlast : (units (group limit chars []).2).length ≠ 0 ∨ (units chars).length = 0 := by
    by_cases hchars : chars = []
    · rw [hchars]
      exact .inr rfl
    · have hne := units_ne_nil (@group_snd_ne_nil limit chars [] (.inl hchars))
      exact .inl fun hzero => hne (List.length_eq_zero_iff.mp hzero)
  have hdone : Performs raw (textLoop raw limit [] (units (group limit chars []).2)
      (utf8 (group limit chars []).2).length) [] (.ok (units (group limit chars []).2)) := .pure
  have hloop := textLoop_from_start hfit hdone
  rw [List.append_nil, List.append_nil] at hloop
  unfold textUpload
  rw [Library.isWellFormed_units, Bool.not_true, if_neg Bool.false_ne_true, if_neg (by omega),
    Library.points_units, textChunks_units]
  refine hloop.bind ?_
  rw [if_pos hlast, Library.encode_units]
  exact .write _

theorem textUpload_stops (raw : RawUpload ρ) {limit : Int} (hlimit : 1 ≤ limit)
    {front back : List Char} {c : Char} (hfit : Fit limit front)
    (hc : ((utf8 [c]).length : Int) > limit) :
    Performs raw (textUpload raw limit (units (front ++ c :: back)))
      (textChunks limit (units front)).dropLast (.error .corrupt) := by
  have hstop : Performs raw (textLoop raw limit ((c :: back).map unitsOf)
      (units (group limit front []).2) (utf8 (group limit front []).2).length) []
        (.error .corrupt) := by
    rw [List.map_cons, textLoop, encode_unitsOf, if_pos hc]
    exact .throw _
  have hloop := textLoop_from_start hfit hstop
  rw [List.append_nil, ← List.map_append] at hloop
  unfold textUpload
  rw [Library.isWellFormed_units, Bool.not_true, if_neg Bool.false_ne_true, if_neg (by omega),
    Library.points_units, textChunks_units, List.dropLast_concat]
  exact hloop.bind_error

theorem textUpload_ill_formed (raw : RawUpload ρ) (limit : Int) {text : Units}
    (h : isWellFormed text = false) :
    Performs raw (textUpload raw limit text) [] (.error .contractUtf8) := by
  unfold textUpload
  rw [h, Bool.not_false, if_pos rfl]
  exact .throw _

theorem textUpload_refuses (raw : RawUpload ρ) {limit : Int} (hlimit : limit ≤ 0) {text : Units}
    (h : isWellFormed text = true) :
    Performs raw (textUpload raw limit text) [] (.error .corrupt) := by
  unfold textUpload
  rw [h, Bool.not_true, if_neg Bool.false_ne_true, if_pos hlimit]
  exact .throw _

/-! ### The chunks of a text -/

theorem group_flatten (limit : Int) (chars chunk : List Char) :
    (group limit chars chunk).1.flatten ++ (group limit chars chunk).2 = chunk ++ chars := by
  induction chars generalizing chunk with
  | nil => exact (List.append_nil chunk).symm
  | cons c chars ih =>
      rw [group]
      split_ifs
      · dsimp only
        rw [List.flatten_cons, List.append_assoc, ih]
        rfl
      · rw [ih, List.append_assoc]
        rfl

theorem group_limited {limit : Int} {chars chunk : List Char} (hfit : Fit limit chars)
    (hchunk : ((utf8 chunk).length : Int) ≤ limit) :
    ∀ g ∈ (group limit chars chunk).1 ++ [(group limit chars chunk).2],
      ((utf8 g).length : Int) ≤ limit := by
  induction chars generalizing chunk with
  | nil =>
      intro g hg
      rwa [List.mem_singleton.mp hg]
  | cons c chars ih =>
      rcases List.forall_mem_cons.mp hfit with ⟨hc, hchars⟩
      rw [group]
      split_ifs with hfull
      · exact List.forall_mem_cons.mpr ⟨hchunk, ih hchars hc⟩
      · refine ih hchars ?_
        rw [utf8_append, List.length_append]
        exact Int.not_lt.mp hfull

theorem group_head (limit : Int) (chars chunk : List Char) :
    ∃ x rest, (group limit chars chunk).1 ++ [(group limit chars chunk).2] =
      (chunk ++ x) :: rest := by
  induction chars generalizing chunk with
  | nil => exact ⟨[], [], by rw [List.append_nil]; rfl⟩
  | cons c chars ih =>
      rw [group]
      split_ifs
      · exact ⟨[], _, by rw [List.append_nil]; rfl⟩
      · rcases ih (chunk ++ [c]) with ⟨x, rest, heq⟩
        exact ⟨c :: x, rest, by rw [heq, List.append_assoc]; rfl⟩

/-- The second chunk starts with a code point that does not fit the first one. -/
def Full (limit : Int) (chunk next : Bytes) : Prop :=
  ∃ c rest, next = String.utf8EncodeChar c ++ rest ∧
    ((chunk.length + (String.utf8EncodeChar c).length : Nat) : Int) > limit

/-- No chunk could have held the first code point of the next one. -/
def Greedy (limit : Int) (chunks : List Bytes) : Prop := chunks.IsChain (Full limit)

theorem group_greedy (limit : Int) (chars chunk : List Char) :
    Greedy limit (((group limit chars chunk).1 ++ [(group limit chars chunk).2]).map utf8) := by
  unfold Greedy
  induction chars generalizing chunk with
  | nil => exact List.isChain_singleton _
  | cons c chars ih =>
      rw [group]
      split_ifs with hfull
      · have hrest := ih [c]
        rcases group_head limit chars [c] with ⟨x, rest, heq⟩
        rw [heq] at hrest
        dsimp only
        rw [List.cons_append, heq, List.map_cons, List.map_cons]
        refine List.IsChain.cons_cons ⟨c, utf8 x, ?_, ?_⟩ hrest
        · rw [utf8_append, utf8_singleton]
        · rwa [utf8_singleton] at hfull
      · exact ih _

theorem group_nonempty {limit : Int} {chars chunk : List Char} (hfit : Fit limit chars)
    (h : chars ≠ [] ∨ chunk ≠ []) :
    ∀ g ∈ (group limit chars chunk).1 ++ [(group limit chars chunk).2], g ≠ [] := by
  induction chars generalizing chunk with
  | nil =>
      intro g hg
      rw [List.mem_singleton.mp hg]
      exact h.resolve_left fun hne => hne rfl
  | cons c chars ih =>
      rcases List.forall_mem_cons.mp hfit with ⟨hc, hchars⟩
      rw [group]
      split_ifs with hfull
      · refine List.forall_mem_cons.mpr ⟨?_, ih hchars (.inr (List.cons_ne_nil _ _))⟩
        -- An empty chunk holds every character that fits.
        rintro rfl
        rw [utf8_nil, List.length_nil, Nat.zero_add] at hfull
        omega
      · exact ih hchars (.inr (List.append_ne_nil_of_right_ne_nil chunk (List.cons_ne_nil _ _)))

theorem flatten_map_utf8 (gs : List (List Char)) : (gs.map utf8).flatten = utf8 gs.flatten := by
  induction gs with
  | nil => rfl
  | cons g gs ih => rw [List.map_cons, List.flatten_cons, ih, List.flatten_cons, utf8_append]

theorem flatten_groups (limit : Int) (chars : List Char) :
    (groups limit chars).flatten = chars := by
  rw [groups, List.flatten_append, List.flatten_singleton, group_flatten, List.nil_append]

theorem textChunks_splits {limit : Int} (hlimit : 1 ≤ limit) {chars : List Char}
    (hfit : Fit limit chars) :
    Splits limit (encode (units chars)) (textChunks limit (units chars)) := by
  rw [Library.encode_units, textChunks, charsOf_units]
  refine ⟨?_, ?_, ?_, ?_⟩
  · intro chunk hchunk
    rcases List.mem_map.mp hchunk with ⟨g, hg, rfl⟩
    exact group_limited hfit (Int.le_trans (by decide) hlimit) g hg
  · intro hne chunk hchunk hnil
    rcases List.mem_map.mp hchunk with ⟨g, hg, rfl⟩
    have hchars : chars ≠ [] := fun h => hne (by rw [h, utf8_nil])
    exact group_nonempty hfit (.inl hchars) g hg (utf8_eq_nil hnil)
  · intro hnil
    rw [utf8_eq_nil hnil]
    rfl
  · rw [flatten_map_utf8, flatten_groups]

theorem decodeTextStream_utf8 (gs : List (List Char)) :
    decodeTextStream (gs.map utf8) = (gs.map units, none) := by
  induction gs with
  | nil => rfl
  | cons g gs ih =>
      rw [List.map_cons, decodeTextStream, Library.decode_encode]
      dsimp only
      rw [ih]
      rfl

theorem flatten_map_units (gs : List (List Char)) :
    (gs.map units).flatten = units gs.flatten := by
  induction gs with
  | nil => rfl
  | cons g gs ih =>
      rw [List.map_cons, List.flatten_cons, ih, List.flatten_cons, Library.units_append]

/-! ### The writes of an upload -/

/-- A write has written these chunks and ended so, or ended where the raw upload rejected
    one. -/
def Ends (raw : RawUpload ρ) (w : Write α ρ) (chunks : List Bytes)
    (result : Except StreamError Unit) : Prop :=
  (w.chunks = chunks ∧ w.result = lift result) ∨
    ∃ front bytes back written reason, chunks = front ++ bytes :: back ∧
      raw.rejects (written ++ front) bytes = some reason ∧ w.chunks = front ∧
        w.result = .error (.raw reason)

theorem map_value_writes (send : α → Sending ρ Unit) (values : List α) :
    (writes send values).map Write.value = values := by
  have hall : ∀ (written : List Bytes) (error : Option (Failure ρ)),
      (adaptUpload send written error values).map Write.value = values := by
    induction values with
    | nil => exact fun _ error => by cases error <;> rfl
    | cons value values ih =>
        intro written error
        cases error with
        | some e => rw [adaptUpload, List.map_cons, ih]
        | none =>
            rw [adaptUpload]
            rcases send value written with ⟨_ | _, after⟩ <;>
              exact congrArg (value :: ·) (ih after _)
  exact hall [] none

theorem adaptUpload_errored (send : α → Sending ρ Unit) (written : List Bytes) (e : Failure ρ)
    (values : List α) :
    ∀ w ∈ adaptUpload send written (some e) values, w.chunks = [] ∧ w.result = .error e := by
  induction values with
  | nil => exact fun w h => nomatch h
  | cons value values ih => exact List.forall_mem_cons.mpr ⟨⟨rfl, rfl⟩, ih⟩

/-- A write after writes that succeeded does what it does on its own. -/
theorem adaptUpload_at {send : α → Sending ρ Unit} {written : List Bytes} {values : List α}
    {before after : List (Write α ρ)} {w : Write α ρ}
    (h : adaptUpload send written none values = before ++ w :: after)
    (hbefore : ∀ b ∈ before, b.result = .ok ()) :
    ∃ start, w.result = (send w.value start).1 ∧
      w.chunks = (send w.value start).2.drop start.length := by
  induction values generalizing written before with
  | nil => cases before <;> cases h
  | cons value values ih =>
      rw [adaptUpload] at h
      rcases hsend : send value written with ⟨_ | _, done⟩ <;> rw [hsend] at h <;> dsimp only at h
      · rcases before with _ | ⟨b, before⟩
        · cases h
          exact ⟨written, by rw [hsend], by rw [hsend]⟩
        · rw [List.cons_append, List.cons.injEq] at h
          have hb := hbefore b List.mem_cons_self
          rw [← h.1] at hb
          cases hb
      · rcases before with _ | ⟨b, before⟩
        · cases h
          exact ⟨written, by rw [hsend], by rw [hsend]⟩
        · rw [List.cons_append, List.cons.injEq] at h
          exact ih h.2 (fun b hb => hbefore b (List.mem_cons_of_mem _ hb))

theorem adaptUpload_after {send : α → Sending ρ Unit} {written : List Bytes} {values : List α}
    {before after : List (Write α ρ)} {w : Write α ρ} {e : Failure ρ}
    {error : Option (Failure ρ)}
    (h : adaptUpload send written error values = before ++ w :: after)
    (hw : w.result = .error e) : ∀ l ∈ after, l.chunks = [] ∧ l.result = .error e := by
  induction values generalizing written error before with
  | nil => cases error <;> cases before <;> cases h
  | cons value values ih =>
      cases error with
      | some e' =>
          rw [adaptUpload] at h
          rcases before with _ | ⟨b, before⟩
          · cases h
            cases hw
            exact adaptUpload_errored _ _ _ _
          · rw [List.cons_append, List.cons.injEq] at h
            exact ih h.2
      | none =>
          rw [adaptUpload] at h
          rcases hsend : send value written with ⟨_ | _, done⟩ <;> rw [hsend] at h <;>
            dsimp only at h
          · rcases before with _ | ⟨b, before⟩
            · cases h
              cases hw
              exact adaptUpload_errored _ _ _ _
            · rw [List.cons_append, List.cons.injEq] at h
              exact ih h.2
          · rcases before with _ | ⟨b, before⟩
            · cases h
              cases hw
            · rw [List.cons_append, List.cons.injEq] at h
              exact ih h.2

theorem ends_of_performs {send : α → Sending ρ Unit} {raw : RawUpload ρ} {values : List α}
    {before after : List (Write α ρ)} {w : Write α ρ}
    (h : writes send values = before ++ w :: after) (hbefore : ∀ b ∈ before, b.result = .ok ())
    {chunks : List Bytes} {result : Except StreamError Unit}
    (hperforms : Performs raw (send w.value) chunks result) : Ends raw w chunks result := by
  rcases adaptUpload_at h hbefore with ⟨start, hresult, hchunks⟩
  rcases hperforms start with hend | ⟨front, bytes, back, reason, hfront, hrejects, hend⟩
  · rw [hend] at hresult hchunks
    exact .inl ⟨by rw [hchunks, List.drop_left], hresult⟩
  · rw [hend] at hresult hchunks
    exact .inr ⟨front, bytes, back, start, reason, hfront, hrejects,
      by rw [hchunks, List.drop_left], hresult⟩

/-- The code points that a text is made of are within the limit. -/
def PointsFit (limit : Int) (text : Units) : Prop :=
  ∀ point ∈ points text, ((encode point).length : Int) ≤ limit

theorem fit_of_pointsFit {limit : Int} {chars : List Char} (h : PointsFit limit (units chars)) :
    Fit limit chars := by
  intro c hc
  rw [← encode_unitsOf]
  refine h _ ?_
  rw [Library.points_units]
  exact List.mem_map_of_mem hc

theorem pointsFit_of_fit {limit : Int} {chars : List Char} (h : Fit limit chars) :
    PointsFit limit (units chars) := by
  intro point hpoint
  rw [Library.points_units] at hpoint
  rcases List.mem_map.mp hpoint with ⟨c, hc, rfl⟩
  rw [encode_unitsOf]
  exact h c hc

theorem exists_first_long {limit : Int} {chars : List Char} (h : ¬ Fit limit chars) :
    ∃ front c back, chars = front ++ c :: back ∧ Fit limit front ∧
      ((utf8 [c]).length : Int) > limit := by
  induction chars with
  | nil => exact absurd (List.forall_mem_nil _) h
  | cons c chars ih =>
      by_cases hc : ((utf8 [c]).length : Int) ≤ limit
      · have hrest : ¬ Fit limit chars := fun hfit => h (List.forall_mem_cons.mpr ⟨hc, hfit⟩)
        rcases ih hrest with ⟨front, d, back, rfl, hfit, hd⟩
        exact ⟨c :: front, d, back, rfl, List.forall_mem_cons.mpr ⟨hc, hfit⟩, hd⟩
      · exact ⟨[], c, chars, rfl, List.forall_mem_nil _, Int.not_le.mp hc⟩

/-- The writes of an upload. Over a raw upload that takes every chunk, bytes and texts are
    written in chunks that are exact; the chunks of a text are complete and greedy, and are read
    as the text. A text that is ill formed and a limit that is not positive are refused before
    anything is written, a code point that is too long after the chunks that were full before
    it. After a write that failed nothing is written. -/
theorem upload_splitting (raw : RawUpload ρ) (limit : Int) :
    (∀ values before (w : Write Bytes ρ) after,
      writes (byteUpload raw limit) values = before ++ w :: after →
      (∀ b ∈ before, b.result = .ok ()) →
        (1 ≤ limit → ∃ chunks, Ends raw w chunks (.ok ()) ∧ Splits limit w.value chunks) ∧
        (limit ≤ 0 → Ends raw w [] (.error .corrupt))) ∧
    (∀ values before (w : Write Units ρ) after,
      writes (textUpload raw limit) values = before ++ w :: after →
      (∀ b ∈ before, b.result = .ok ()) →
        (isWellFormed w.value = false → Ends raw w [] (.error .contractUtf8)) ∧
        (isWellFormed w.value = true → limit ≤ 0 → Ends raw w [] (.error .corrupt)) ∧
        (isWellFormed w.value = true → 1 ≤ limit → PointsFit limit w.value →
          Ends raw w (textChunks limit w.value) (.ok ()) ∧
          Splits limit (encode w.value) (textChunks limit w.value) ∧
          (∀ chunk ∈ textChunks limit w.value, ∃ chars, chunk = utf8 chars) ∧
          Greedy limit (textChunks limit w.value) ∧
          ∃ texts, decodeTextStream (textChunks limit w.value) = (texts, none) ∧
            texts.flatten = w.value) ∧
        (isWellFormed w.value = true → 1 ≤ limit → ¬ PointsFit limit w.value →
          ∃ front c back, w.value = units (front ++ c :: back) ∧ Fit limit front ∧
            ((utf8 [c]).length : Int) > limit ∧
              Ends raw w (textChunks limit (units front)).dropLast (.error .corrupt))) ∧
    (∀ (send : α → Sending ρ Unit) values,
      (writes send values).map Write.value = values ∧
      ∀ before (w : Write α ρ) after e, writes send values = before ++ w :: after →
        w.result = .error e → ∀ l ∈ after, l.chunks = [] ∧ l.result = .error e) := by
  refine ⟨?_, ?_, ?_⟩
  · intro values before w after h hbefore
    refine ⟨fun hlimit => ?_, fun hlimit => ?_⟩
    · rcases byteUpload_performs raw hlimit w.value with ⟨chunks, hperforms, hsplits⟩
      exact ⟨chunks, ends_of_performs h hbefore hperforms, hsplits⟩
    · exact ends_of_performs h hbefore (byteUpload_refuses raw hlimit w.value)
  · intro values before w after h hbefore
    refine ⟨fun hform => ?_, fun hform hlimit => ?_, fun hform hlimit hpoints => ?_,
      fun hform hlimit hpoints => ?_⟩
    · exact ends_of_performs h hbefore (textUpload_ill_formed raw limit hform)
    · exact ends_of_performs h hbefore (textUpload_refuses raw hlimit hform)
    · rcases Library.exists_chars hform with ⟨chars, hchars⟩
      rw [hchars] at hpoints ⊢
      have hfit := fit_of_pointsFit hpoints
      have hperforms := textUpload_performs raw hlimit hfit
      rw [← hchars] at hperforms ⊢
      refine ⟨ends_of_performs h hbefore hperforms, ?_, ?_, ?_, ?_⟩
      · rw [hchars]
        exact textChunks_splits hlimit hfit
      · intro chunk hchunk
        rcases List.mem_map.mp hchunk with ⟨g, -, rfl⟩
        exact ⟨g, rfl⟩
      · exact group_greedy limit _ []
      · refine ⟨_, decodeTextStream_utf8 _, ?_⟩
        rw [flatten_map_units, flatten_groups, hchars, charsOf_units]
    · rcases Library.exists_chars hform with ⟨chars, hchars⟩
      rw [hchars] at hpoints
      rcases exists_first_long (fun hfit => hpoints (pointsFit_of_fit hfit)) with
        ⟨front, c, back, rfl, hfit, hc⟩
      have hperforms : Performs raw (textUpload raw limit (units (front ++ c :: back))) _ _ :=
        textUpload_stops raw hlimit hfit hc
      rw [← hchars] at hperforms
      exact ⟨front, c, back, hchars, hfit, hc, ends_of_performs h hbefore hperforms⟩
  · exact fun send values => ⟨map_value_writes send values,
      fun before w after e h hw => adaptUpload_after h hw⟩

end Streams

end Ridl
