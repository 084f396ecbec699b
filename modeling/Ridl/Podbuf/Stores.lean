import Ridl.Library.Run
import Ridl.Podbuf.Region

/-!
# What a Buffer Holds

The calls of a writer in any order and with any arguments, and what the buffer
they end with holds. A byte of it is what the last call wrote there: a store,
or the call that reserved it, which left a zero or the preamble.

A new head starts the buffer over: it also forgets that a store before it was
dropped, so the stores that matter are those since.

A slice is at most `isize::MAX` bytes long, so a block whose end saturates is
refused and every offset a call answers is exact.

## Main definitions

* `WriterOp`, `writer`: The calls, and a writer as a machine.

## Theorems

* `quiet_run`: A byte no call wrote is as it was.
* `tail_least`: A block starts at the least multiple.
* `buffer_holds`: What the finished buffer holds.
-/

namespace Ridl

namespace Podbuf

open Library

/-- The largest length of a slice. -/
def ISIZE_MAX : Nat := 2 ^ 63 - 1

/-- What a store stores: a number, bytes, or a descriptor. -/
inductive Put
  | u8 (v : UInt8)
  | u16 (v : UInt16)
  | u32 (v : UInt32)
  | u64 (v : UInt64)
  | bytes (b : List UInt8)
  | desc (d : Desc)
  | arrayDesc (d : ArrayDesc)

def Put.words : Put → List (List UInt8)
  | u8 v => [[v]]
  | u16 v => [toLE 2 v.toNat]
  | u32 v => [toLE 4 v.toNat]
  | u64 v => [toLE 8 v.toNat]
  | bytes b => [b]
  | desc d => [toLE 4 d.off.toNat, toLE 4 d.len.toNat]
  | arrayDesc d => [toLE 4 d.off.toNat, toLE 2 d.len.toNat, toLE 2 d.elemSize.toNat]

/-- All its bytes. -/
def Put.value (p : Put) : List UInt8 := p.words.flatten

/-- A number is stored at once, a descriptor word by word. -/
def Put.store (w : Writer) (start : Nat) : Put → Writer
  | u8 v => w.store start [v]
  | u16 v => w.put start 2 v.toNat
  | u32 v => w.put start 4 v.toNat
  | u64 v => w.put start 8 v.toNat
  | bytes b => w.store start b
  | desc d => (w.put start 4 d.off.toNat).put (saturatingAdd start 4) 4 d.len.toNat
  | arrayDesc d =>
    ((w.put start 4 d.off.toNat).put (saturatingAdd start 4) 2 d.len.toNat).put
      (saturatingAdd start 6) 2 d.elemSize.toNat

/-- A call of a writer. -/
inductive WriterOp
  | reserveHead (size : UInt32)
  | tail (bytes align : UInt64)
  | put (start : UInt64) (p : Put)

/-- A call; a store answers nothing. -/
def Writer.call (w : Writer) : WriterOp → Writer × Option (Except EncodeError Nat)
  | .reserveHead size =>
    match w.reserveHead size.toNat with
    | .error e => (w, some (.error e))
    | .ok w' => (w', some (.ok PREAMBLE_SIZE))
  | .tail bytes align =>
    match w.tail bytes.toNat align.toNat with
    | .error e => (w, some (.error e))
    | .ok (start, w') => (w', some (.ok start))
  | .put start p => (p.store w start.toNat, none)

def writer (out : List UInt8) (aligned : Bool) :
    Machine Writer WriterOp (Option (Except EncodeError Nat)) :=
  ⟨.new out aligned, fun w op => some (w.call op)⟩

abbrev WriterStep := Machine.Item Writer WriterOp (Option (Except EncodeError Nat))

/-- A head was reserved. -/
def Restarts (x : WriterStep) : Prop := ∃ size off, x.op = .reserveHead size ∧ x.answer = some (.ok off)

/-- A block was appended. -/
def Appends (x : WriterStep) : Prop :=
  ∃ bytes align off, x.op = .tail bytes align ∧ x.answer = some (.ok off)

/-- The call reserved byte `i`. -/
def Reserves (x : WriterStep) (i : Nat) : Prop :=
  Restarts x ∧ i < x.post.len ∨ Appends x ∧ x.pre.len ≤ i ∧ i < x.post.len

/-- The call stores at byte `i`. -/
def Overwrites (x : WriterStep) (i : Nat) : Prop :=
  ∃ start p, x.op = .put start p ∧ start.toNat ≤ i ∧ i < start.toNat + p.value.length

/-- A load gives what was stored. -/
def Region.Reads (r : Region) (off : Nat) : Put → Prop
  | .u8 v => r.u8At off = v
  | .u16 v => r.u16At off = v
  | .u32 v => r.u32At off = v
  | .u64 v => r.u64At off = v
  | .bytes b => r.array b.length off = b
  | .desc d => Desc.read r off = d
  | .arrayDesc d => ArrayDesc.read r off = d

/-! ## Stores -/

theorem getElem?_overwrite {out bytes : List UInt8} {start : Nat}
    (h : start + bytes.length ≤ out.length) (i : Nat) :
    (overwrite out start bytes)[i]? =
      if start ≤ i ∧ i < start + bytes.length then bytes[i - start]? else out[i]? := by
  have htake : (out.take start).length = start := by
    rw [List.length_take]
    omega
  unfold overwrite
  by_cases hlt : i < start
  · rw [if_neg (by omega), List.append_assoc, List.getElem?_append_left (by omega),
      List.getElem?_take_of_lt hlt]
  · by_cases hin : i < start + bytes.length
    · rw [if_pos (by omega), List.append_assoc, List.getElem?_append_right (by omega), htake,
        List.getElem?_append_left (by omega)]
    · rw [if_neg (by omega), List.getElem?_append_right (by rw [List.length_append]; omega),
        List.length_append, htake, List.getElem?_drop]
      congr 1
      omega

theorem getElem?_store (w : Writer) (start : Nat) (bytes : List UInt8) (i : Nat) :
    (w.store start bytes).out[i]? =
      if start + bytes.length ≤ w.len ∧ start ≤ i ∧ i < start + bytes.length then
        bytes[i - start]? else w.out[i]? := by
  unfold Writer.store
  by_cases h : start + bytes.length ≤ w.len
  · rw [dif_pos h]
    have hinside := w.inside
    dsimp only
    rw [getElem?_overwrite (by omega)]
    simp only [h, true_and]
  · rw [dif_neg h, if_neg fun hall => h hall.1]

theorem defect_store {w : Writer} {start : Nat} {bytes : List UInt8}
    (h : (w.store start bytes).defect = none) :
    w.defect = none ∧ start + bytes.length ≤ w.len := by
  unfold Writer.store at h
  by_cases hin : start + bytes.length ≤ w.len
  · rw [dif_pos hin] at h
    exact ⟨h, hin⟩
  · rw [dif_neg hin] at h
    cases h

theorem ext_writer {w w' : Writer} (hout : w.out = w'.out) (haligned : w.aligned = w'.aligned)
    (hlen : w.len = w'.len) (hdefect : w.defect = w'.defect) : w = w' := by
  cases w
  cases w'
  simp only at hout haligned hlen hdefect
  subst hout haligned hlen hdefect
  rfl

variable {b : List UInt8} {k : Nat}

/-- Two stores side by side are one store. -/
theorem store_store {w : Writer} {start : Nat} {a : List UInt8}
    (h : start + a.length + b.length ≤ w.len) :
    (w.store start a).store (start + a.length) b = w.store start (a ++ b) := by
  have hlen : ∀ s bs, (w.store s bs).len = w.len := len_store w
  have hout : ((w.store start a).store (start + a.length) b).out = (w.store start (a ++ b)).out := by
    refine List.ext_getElem? fun i => ?_
    rw [getElem?_store, getElem?_store, getElem?_store, hlen, List.length_append]
    by_cases hb : start + a.length ≤ i ∧ i < start + a.length + b.length
    · rw [if_pos ⟨h, hb⟩, if_pos (by omega), List.getElem?_append_right (by omega)]
      congr 1
      omega
    · rw [if_neg fun hall => hb hall.2]
      by_cases ha : start ≤ i ∧ i < start + a.length
      · rw [if_pos ⟨by omega, ha⟩, if_pos (by omega), List.getElem?_append_left (by omega)]
      · rw [if_neg fun hall => ha hall.2, if_neg (by omega)]
  have hdefect : ∀ (w : Writer) s (bs : List UInt8), s + bs.length ≤ w.len →
      (w.store s bs).defect = w.defect ∧ (w.store s bs).aligned = w.aligned := by
    intro w s bs hin
    unfold Writer.store
    rw [dif_pos hin]
    exact ⟨rfl, rfl⟩
  have hfirst := hdefect w start a (by omega)
  have hsecond := hdefect (w.store start a) (start + a.length) b (by rw [hlen]; omega)
  have hboth := hdefect w start (a ++ b) (by rw [List.length_append]; omega)
  refine ext_writer hout ?_ ?_ ?_
  · rw [hsecond.2, hfirst.2, hboth.2]
  · rw [len_store, hlen, hlen]
  · rw [hsecond.1, hfirst.1, hboth.1]

theorem store_nil {w : Writer} {start : Nat} (h : start ≤ w.len) : w.store start [] = w := by
  unfold Writer.store
  rw [dif_pos (by simpa using h)]
  refine ext_writer ?_ rfl rfl rfl
  have hinside := w.inside
  refine List.ext_getElem? fun i => ?_
  rw [getElem?_overwrite (by simpa using Nat.le_trans h hinside),
    if_neg (by rw [List.length_nil]; omega)]

/-- Words stored one behind another, each at an offset that saturates. -/
def storeWords (start : Nat) : Writer → Nat → List (List UInt8) → Writer
  | w, _, [] => w
  | w, k, word :: rest =>
    storeWords start (w.store (saturatingAdd start k) word) (k + word.length) rest

theorem store_eq_storeWords (w : Writer) {start : Nat} (h : start ≤ USIZE_MAX) (p : Put) :
    p.store w start = storeWords start w 0 p.words := by
  have hzero : saturatingAdd start 0 = start := Nat.min_eq_left h
  cases p with
  | u8 v => simp only [Put.store, Put.words, storeWords, hzero]
  | u16 v => simp only [Put.store, Put.words, storeWords, hzero, Writer.put]
  | u32 v => simp only [Put.store, Put.words, storeWords, hzero, Writer.put]
  | u64 v => simp only [Put.store, Put.words, storeWords, hzero, Writer.put]
  | bytes b => simp only [Put.store, Put.words, storeWords, hzero]
  | desc d => simp only [Put.store, Put.words, storeWords, hzero, Writer.put, length_toLE, Nat.zero_add]
  | arrayDesc d =>
      simp only [Put.store, Put.words, storeWords, hzero, Writer.put, length_toLE, Nat.zero_add,
        Nat.reduceAdd]

theorem len_storeWords (start : Nat) (w : Writer) (k : Nat) (words : List (List UInt8)) :
    (storeWords start w k words).len = w.len ∧
      (storeWords start w k words).out.length = w.out.length ∧
      (storeWords start w k words).aligned = w.aligned := by
  induction words generalizing w k with
  | nil => exact ⟨rfl, rfl, rfl⟩
  | cons word rest ih =>
      rcases ih (w.store (saturatingAdd start k) word) (k + word.length) with ⟨hlen, hout, haligned⟩
      refine ⟨hlen.trans (len_store w _ _), hout.trans (length_store w _ _), haligned.trans ?_⟩
      unfold Writer.store
      split <;> rfl

theorem saturatingAdd_of_le {w : Writer} (hslice : w.out.length ≤ ISIZE_MAX) {start n : Nat}
    (h : saturatingAdd start k + n ≤ w.len) : saturatingAdd start k = start + k := by
  have hinside := w.inside
  unfold saturatingAdd USIZE_MAX at *
  unfold ISIZE_MAX at hslice
  omega

theorem storeWords_other {start : Nat} {w : Writer} (hslice : w.out.length ≤ ISIZE_MAX)
    (words : List (List UInt8)) {i : Nat}
    (h : ¬ (start + k ≤ i ∧ i < start + k + words.flatten.length)) :
    (storeWords start w k words).out[i]? = w.out[i]? := by
  induction words generalizing w k with
  | nil => rfl
  | cons word rest ih =>
      rw [List.flatten_cons, List.length_append] at h
      refine (ih (by rw [length_store]; exact hslice) (by omega)).trans ?_
      rw [getElem?_store]
      refine if_neg fun hall => h ?_
      have hsum := saturatingAdd_of_le hslice hall.1
      omega

theorem storeWords_inside {start : Nat} {w : Writer} (hslice : w.out.length ≤ ISIZE_MAX)
    (words : List (List UInt8)) (h : start + k + words.flatten.length ≤ w.len) :
    storeWords start w k words = w.store (start + k) words.flatten := by
  induction words generalizing w k with
  | nil => exact (store_nil (by simpa [storeWords] using h)).symm
  | cons word rest ih =>
      rw [List.flatten_cons, List.length_append] at h
      have hinside := w.inside
      have hsum : saturatingAdd start k = start + k := by
        unfold saturatingAdd USIZE_MAX
        unfold ISIZE_MAX at hslice
        omega
      rw [storeWords, hsum, ih (by rw [length_store]; exact hslice) (by rw [len_store]; omega),
        ← Nat.add_assoc, store_store (by omega), List.flatten_cons]

theorem storeWords_defect {start : Nat} {w : Writer} (hslice : w.out.length ≤ ISIZE_MAX)
    (words : List (List UInt8)) (hk : start + k ≤ w.len ∨ words ≠ [])
    (h : (storeWords start w k words).defect = none) :
    w.defect = none ∧ start + k + words.flatten.length ≤ w.len := by
  induction words generalizing w k with
  | nil => exact ⟨h, by simpa using hk⟩
  | cons word rest ih =>
      have hrest : start + (k + word.length) ≤ (w.store (saturatingAdd start k) word).len ∨
          rest ≠ [] := by
        cases rest with
        | nil =>
            have hstore := defect_store h
            have hsum := saturatingAdd_of_le hslice hstore.2
            exact .inl (by rw [len_store]; omega)
        | cons => exact .inr (List.cons_ne_nil _ _)
      rcases ih (by rw [length_store]; exact hslice) hrest h with ⟨hdefect, hfit⟩
      rw [len_store] at hfit
      rw [List.flatten_cons, List.length_append]
      exact ⟨(defect_store hdefect).1, by omega⟩

namespace Put

theorem words_ne_nil (p : Put) : p.words ≠ [] := by
  cases p
  all_goals exact List.cons_ne_nil _ _

variable {w : Writer} {start : UInt64} (hslice : w.out.length ≤ ISIZE_MAX) (p : Put)

theorem start_le (start : UInt64) : start.toNat ≤ USIZE_MAX := Nat.le_sub_one_of_lt start.toNat_lt

theorem store_len (w : Writer) (start : UInt64) (p : Put) :
    (p.store w start.toNat).len = w.len ∧ (p.store w start.toNat).out.length = w.out.length ∧
      (p.store w start.toNat).aligned = w.aligned := by
  rw [store_eq_storeWords w (start_le start)]
  exact len_storeWords _ w 0 _

include hslice

theorem store_other {i : Nat} (h : ¬ (start.toNat ≤ i ∧ i < start.toNat + p.value.length)) :
    (p.store w start.toNat).out[i]? = w.out[i]? := by
  rw [store_eq_storeWords w (start_le start)]
  exact storeWords_other hslice p.words h

theorem store_inside (h : start.toNat + p.value.length ≤ w.len) :
    p.store w start.toNat = w.store start.toNat p.value := by
  rw [store_eq_storeWords w (start_le start)]
  exact storeWords_inside hslice p.words h

theorem store_defect (h : (p.store w start.toNat).defect = none) :
    w.defect = none ∧ start.toNat + p.value.length ≤ w.len := by
  rw [store_eq_storeWords w (start_le start)] at h
  exact storeWords_defect hslice p.words (.inr p.words_ne_nil) h

end Put

/-! ## One call -/

section Calls

variable {out : List UInt8} {aligned : Bool}

/-- A head that was reserved. -/
theorem reserveHead_ok {w w' : Writer} {size : Nat} (hslice : w.out.length ≤ ISIZE_MAX)
    (h : w.reserveHead size = .ok w') :
    w.aligned = true ∧ size % 8 = 0 ∧ PREAMBLE_SIZE + size ≤ w.out.length ∧
      w'.len = PREAMBLE_SIZE + size ∧ w'.aligned = w.aligned ∧ w'.defect = none ∧
      w'.out = overwrite w.out 0 (blank size (PREAMBLE_SIZE + size)) := by
  unfold Writer.reserveHead at h
  by_cases haligned : w.aligned = true
  · rw [haligned, if_neg (by decide)] at h
    by_cases height : size % 8 ≠ 0
    · rw [if_pos height] at h
      cases h
    · rw [if_neg height] at h
      split at h
      · rename_i hroom
        have hmin : min (PREAMBLE_SIZE + size) USIZE_MAX = PREAMBLE_SIZE + size := by
          unfold USIZE_MAX at hroom ⊢
          unfold ISIZE_MAX at hslice
          omega
        cases h
        refine ⟨haligned, not_not.mp height, hmin ▸ hroom.2, hmin, haligned.symm, rfl, ?_⟩
        dsimp only
        rw [hmin]
      · cases h
  · rw [Bool.eq_false_iff.mpr haligned, if_pos (by decide)] at h
    cases h

/-- A block that was appended starts at the least multiple of its alignment
    that is not below the bytes written, and ends where its bytes do. -/
theorem tail_ok {w w' : Writer} {bytes align start : Nat} (hslice : w.out.length ≤ ISIZE_MAX)
    (h : w.tail bytes align = .ok (start, w')) :
    start = alignUp w.len (max align 1) ∧ w'.len = start + bytes ∧ w.len ≤ w'.len ∧
      w'.len ≤ w.out.length ∧ w'.aligned = w.aligned ∧ w'.defect = w.defect ∧
      w'.out = overwrite w.out w.len (List.replicate (w'.len - w.len) 0) := by
  unfold Writer.tail at h
  split at h
  · rename_i hroom
    have hstop : w.stopOf bytes align = w.startOf align + bytes := by
      have hle := hroom.2
      unfold Writer.stopOf at hle ⊢
      unfold USIZE_MAX at hle ⊢
      unfold ISIZE_MAX at hslice
      omega
    have hstart : w.startOf align = alignUp w.len (max align 1) := by
      have hle := hroom.2
      rw [hstop] at hle
      unfold Writer.startOf at hle ⊢
      unfold USIZE_MAX at hle ⊢
      unfold ISIZE_MAX at hslice
      omega
    cases h
    exact ⟨hstart, hstop, hroom.1, hroom.2, rfl, rfl, rfl⟩
  · cases h

variable {x : WriterStep}

/-- What a call does: it is refused and changes nothing, it reserves a head, it
    appends a block, or it stores. -/
theorem writer_step (h : (writer out aligned).step x.pre x.op = some (x.post, x.answer)) :
    (x.post = x.pre ∧ (∃ e, x.answer = some (.error e)) ∧ ∀ start p, x.op ≠ .put start p) ∨
    (∃ size, x.op = .reserveHead size ∧ x.answer = some (.ok PREAMBLE_SIZE) ∧
      x.pre.reserveHead size.toNat = .ok x.post) ∨
    (∃ bytes align start, x.op = .tail bytes align ∧ x.answer = some (.ok start) ∧
      x.pre.tail bytes.toNat align.toNat = .ok (start, x.post)) ∨
    ∃ start p, x.op = .put start p ∧ x.answer = none ∧ x.post = p.store x.pre start.toNat := by
  have hcall : x.pre.call x.op = (x.post, x.answer) := Option.some.inj h
  cases hop : x.op with
  | reserveHead size =>
      rw [hop, Writer.call] at hcall
      cases hres : x.pre.reserveHead size.toNat with
      | error e =>
          rw [hres] at hcall
          exact .inl ⟨(congrArg Prod.fst hcall).symm, ⟨e, (congrArg Prod.snd hcall).symm⟩, nofun⟩
      | ok w' =>
          rw [hres] at hcall
          have hpost : w' = x.post := congrArg Prod.fst hcall
          exact .inr (.inl ⟨size, rfl, (congrArg Prod.snd hcall).symm,
            hres.trans (congrArg Except.ok hpost)⟩)
  | tail bytes align =>
      rw [hop, Writer.call] at hcall
      cases hres : x.pre.tail bytes.toNat align.toNat with
      | error e =>
          rw [hres] at hcall
          exact .inl ⟨(congrArg Prod.fst hcall).symm, ⟨e, (congrArg Prod.snd hcall).symm⟩, nofun⟩
      | ok r =>
          rw [hres] at hcall
          have hpost : r.2 = x.post := congrArg Prod.fst hcall
          refine .inr (.inr (.inl ⟨bytes, align, r.1, rfl, (congrArg Prod.snd hcall).symm, ?_⟩))
          rw [hres, ← hpost]
  | put start p =>
      rw [hop, Writer.call] at hcall
      exact .inr (.inr (.inr ⟨start, p, rfl, (congrArg Prod.snd hcall).symm,
        (congrArg Prod.fst hcall).symm⟩))

theorem step_slice (hslice : x.pre.out.length ≤ ISIZE_MAX)
    (h : (writer out aligned).step x.pre x.op = some (x.post, x.answer)) :
    x.post.out.length = x.pre.out.length ∧ x.post.aligned = x.pre.aligned := by
  rcases writer_step h with ⟨hsame, -⟩ | ⟨size, -, -, hres⟩ | ⟨bytes, align, start, -, -, htail⟩ |
    ⟨start, p, -, -, hpost⟩
  · rw [hsame]
    exact ⟨rfl, rfl⟩
  · rcases reserveHead_ok hslice hres with ⟨-, -, hroom, -, haligned, -, hout⟩
    refine ⟨?_, haligned⟩
    rw [hout]
    exact length_overwrite_blank (by unfold PREAMBLE_SIZE; omega) hroom
  · rcases tail_ok hslice htail with ⟨-, -, hle, hroom, haligned, -, hout⟩
    refine ⟨?_, haligned⟩
    rw [hout]
    exact length_overwrite_zeros hle hroom
  · rw [hpost]
    exact ⟨(Put.store_len x.pre start p).2.1, (Put.store_len x.pre start p).2.2⟩

theorem step_other (hslice : x.pre.out.length ≤ ISIZE_MAX)
    (h : (writer out aligned).step x.pre x.op = some (x.post, x.answer)) (hkeep : ¬ Restarts x)
    {i : Nat} (hi : i < x.pre.len) (hcover : ¬ Overwrites x i) :
    i < x.post.len ∧ x.post.out[i]? = x.pre.out[i]? := by
  rcases writer_step h with ⟨hsame, -⟩ | ⟨size, hop, hanswer, hres⟩ |
    ⟨bytes, align, start, -, -, htail⟩ | ⟨start, p, hop, -, hpost⟩
  · rw [hsame]
    exact ⟨hi, rfl⟩
  · exact absurd ⟨size, _, hop, hanswer⟩ hkeep
  · rcases tail_ok hslice htail with ⟨-, -, hle, hroom, -, -, hout⟩
    refine ⟨Nat.lt_of_lt_of_le hi hle, ?_⟩
    rw [hout, getElem?_overwrite (by rw [List.length_replicate]; omega), if_neg (by omega)]
  · rw [hpost]
    refine ⟨(Put.store_len x.pre start p).1.symm ▸ hi, Put.store_other hslice p fun hin => ?_⟩
    exact hcover ⟨start, p, hop, hin.1, hin.2⟩

/-- A byte a call reserved is zero, or the preamble's. -/
theorem step_reserves (hslice : x.pre.out.length ≤ ISIZE_MAX)
    (h : (writer out aligned).step x.pre x.op = some (x.post, x.answer)) {i : Nat}
    (hi : Reserves x i) :
    x.post.out[i]? = some (match x.op with
      | .reserveHead size => (toLE 4 size.toNat).getD i 0
      | _ => 0) := by
  rcases writer_step h with ⟨-, ⟨e, hrefused⟩, -⟩ | ⟨size, hop, hanswer, hres⟩ |
    ⟨bytes, align, start, hop, hanswer, htail⟩ | ⟨start, p, hop, hanswer, hpost⟩
  · rcases hi with ⟨⟨size, off, -, hanswer⟩, -⟩ | ⟨⟨bytes, align, off, -, hanswer⟩, -⟩
    · rw [hrefused] at hanswer
      cases hanswer
    · rw [hrefused] at hanswer
      cases hanswer
  · rcases hi with ⟨-, hi⟩ | ⟨⟨bytes, align, off, hop', -⟩, -⟩
    · rcases reserveHead_ok hslice hres with ⟨-, -, hroom, hlen, -, -, hout⟩
      rw [hlen] at hi
      have hblank : (blank size.toNat (PREAMBLE_SIZE + size.toNat)).length =
          PREAMBLE_SIZE + size.toNat := by
        rw [blank, List.length_append, length_toLE, List.length_replicate]
        unfold PREAMBLE_SIZE
        omega
      rw [hout, getElem?_overwrite (by omega), if_pos (by omega), Nat.sub_zero, hop, blank]
      dsimp only
      by_cases hfour : i < 4
      · rw [List.getElem?_append_left (by rw [length_toLE]; exact hfour), List.getD,
          List.getElem?_eq_getElem (by rw [length_toLE]; exact hfour)]
        rfl
      · rw [List.getElem?_append_right (by rw [length_toLE]; omega), length_toLE,
          List.getElem?_replicate, if_pos (by omega), List.getD,
          List.getElem?_eq_none (by rw [length_toLE]; omega)]
        rfl
    · rw [hop] at hop'
      cases hop'
  · rcases hi with ⟨⟨size, off, hop', -⟩, -⟩ | ⟨-, hlow, hhigh⟩
    · rw [hop] at hop'
      cases hop'
    · rcases tail_ok hslice htail with ⟨-, -, hle, hroom, -, -, hout⟩
      rw [hout, getElem?_overwrite (by rw [List.length_replicate]; omega),
        if_pos (by rw [List.length_replicate]; omega), List.getElem?_replicate, if_pos (by omega),
        hop]
  · rcases hi with ⟨⟨size, off, hop', -⟩, -⟩ | ⟨⟨bytes, align, off, hop', -⟩, -⟩
    · rw [hop] at hop'
      cases hop'
    · rw [hop] at hop'
      cases hop'

/-- A defect is forgotten by a new head only. -/
theorem step_defect (hslice : x.pre.out.length ≤ ISIZE_MAX)
    (h : (writer out aligned).step x.pre x.op = some (x.post, x.answer)) (hkeep : ¬ Restarts x)
    (hnone : x.post.defect = none) :
    x.pre.defect = none ∧
      ∀ start p, x.op = .put start p → start.toNat + p.value.length ≤ x.pre.len := by
  rcases writer_step h with ⟨hsame, -, hput⟩ | ⟨size, hop, hanswer, hres⟩ |
    ⟨bytes, align, start, hop, -, htail⟩ | ⟨start, p, hop, -, hpost⟩
  · exact ⟨hsame ▸ hnone, fun start p hop => absurd hop (hput start p)⟩
  · exact absurd ⟨size, _, hop, hanswer⟩ hkeep
  · rcases tail_ok hslice htail with ⟨-, -, -, -, -, hdefect, -⟩
    refine ⟨hdefect.symm.trans hnone, fun start' p hop' => ?_⟩
    rw [hop] at hop'
    cases hop'
  · rw [hpost] at hnone
    have hstore := Put.store_defect hslice p hnone
    refine ⟨hstore.1, fun start' p' hop' => ?_⟩
    rw [hop] at hop'
    cases hop'
    exact hstore.2

end Calls

/-! ## Runs -/

section Runs

variable {out : List UInt8} {aligned : Bool}

variable {w w' : Writer} {xs : List WriterStep}

theorem slice_run (hslice : w.out.length ≤ ISIZE_MAX)
    (h : Machine.IsRun (writer out aligned) w xs w') :
    (∀ x ∈ xs, x.pre.out.length ≤ ISIZE_MAX) ∧ w'.out.length ≤ ISIZE_MAX ∧
      w'.aligned = w.aligned := by
  induction xs generalizing w with
  | nil =>
      cases h
      exact ⟨fun x hx => absurd hx List.not_mem_nil, hslice, rfl⟩
  | cons x xs ih =>
      rcases h with ⟨rfl, hstep, hrest⟩
      have hpost := step_slice hslice hstep
      rcases ih (hpost.1.symm ▸ hslice) hrest with ⟨hall, hlast, haligned⟩
      refine ⟨fun y hy => ?_, hlast, haligned.trans hpost.2⟩
      rcases List.mem_cons.mp hy with rfl | hmem
      · exact hslice
      · exact hall y hmem

theorem quiet_run (hslice : w.out.length ≤ ISIZE_MAX)
    (h : Machine.IsRun (writer out aligned) w xs w') (hkeep : ∀ x ∈ xs, ¬ Restarts x) {i : Nat}
    (hi : i < w.len) (hcover : ∀ x ∈ xs, ¬ Overwrites x i) :
    i < w'.len ∧ w'.out[i]? = w.out[i]? := by
  induction xs generalizing w with
  | nil =>
      cases h
      exact ⟨hi, rfl⟩
  | cons x xs ih =>
      rcases h with ⟨rfl, hstep, hrest⟩
      have hpost := step_other hslice hstep (hkeep x List.mem_cons_self) hi
        (hcover x List.mem_cons_self)
      have hlast := ih ((step_slice hslice hstep).1.symm ▸ hslice) hrest
        (fun y hy => hkeep y (List.mem_cons_of_mem _ hy)) hpost.1
        fun y hy => hcover y (List.mem_cons_of_mem _ hy)
      exact ⟨hlast.1, hlast.2.trans hpost.2⟩

/-- Without a new head, a run that ends without a defect had none, and all its
    stores lay inside. -/
theorem defect_run (hslice : w.out.length ≤ ISIZE_MAX)
    (h : Machine.IsRun (writer out aligned) w xs w') (hkeep : ∀ x ∈ xs, ¬ Restarts x)
    (hnone : w'.defect = none) : w.defect = none := by
  induction xs generalizing w with
  | nil =>
      cases h
      exact hnone
  | cons x xs ih =>
      rcases h with ⟨rfl, hstep, hrest⟩
      have hpost := ih ((step_slice hslice hstep).1.symm ▸ hslice) hrest
        fun y hy => hkeep y (List.mem_cons_of_mem _ hy)
      exact (step_defect hslice hstep (hkeep x List.mem_cons_self) hpost).1

theorem len_run (hslice : w.out.length ≤ ISIZE_MAX)
    (h : Machine.IsRun (writer out aligned) w xs w') (hkeep : ∀ x ∈ xs, ¬ Restarts x) :
    w.len ≤ w'.len := by
  induction xs generalizing w with
  | nil =>
      cases h
      exact Nat.le_refl _
  | cons x xs ih =>
      rcases h with ⟨rfl, hstep, hrest⟩
      have hnext := ih ((step_slice hslice hstep).1.symm ▸ hslice) hrest
        fun y hy => hkeep y (List.mem_cons_of_mem _ hy)
      refine Nat.le_trans ?_ hnext
      rcases writer_step hstep with ⟨hsame, -⟩ | ⟨size, hop, hanswer, hres⟩ |
        ⟨bytes, align, start, -, -, htail⟩ | ⟨start, p, -, -, hpost⟩
      · rw [hsame]
      · exact absurd ⟨size, _, hop, hanswer⟩ (hkeep x List.mem_cons_self)
      · exact (tail_ok hslice htail).2.2.1
      · rw [hpost]
        exact (Put.store_len x.pre start p).1.symm.le

end Runs

/-! ## Loads -/

theorem ofLE_array {r : Region} {w n off : Nat} (h : r.array w off = toLE w n) (hn : n < 256 ^ w) :
    ofLE (r.array w off) = n := by
  rw [h, ofLE_toLE w n hn]

/-- A word inside the window is read back. -/
theorem array_word {start size : UInt64} {off skip : Nat} {front word back : List UInt8}
    (hbytes : ∀ i < (front ++ word ++ back).length,
      b[start.toNat + off + i]? = (front ++ word ++ back)[i]?)
    (hskip : skip = front.length) (hsize : off + (front ++ word ++ back).length ≤ size.toNat)
    (hfit : start.toNat + off + (front ++ word ++ back).length ≤ USIZE_MAX) :
    (Region.mk b start size).array word.length (saturatingAdd off skip) = word := by
  simp only [List.length_append] at hsize hfit hbytes
  have hsum : saturatingAdd off skip = off + skip := by
    unfold saturatingAdd
    omega
  rw [hsum]
  refine Region.array_of_bytes rfl (by dsimp only; omega) (by dsimp only; omega) fun i hi => ?_
  have hat := hbytes (skip + i) (by omega)
  rw [List.append_assoc, List.getElem?_append_right (by omega),
    List.getElem?_append_left (by omega)] at hat
  dsimp only
  rw [← Nat.add_assoc, ← Nat.add_assoc] at *
  rw [hat]
  congr 1
  omega

/-- What is stored inside the window is read back. -/
theorem reads_of_bytes {start size off : UInt64} (p : Put)
    (hbytes : ∀ i < p.value.length, b[start.toNat + off.toNat + i]? = p.value[i]?)
    (hsize : off.toNat + p.value.length ≤ size.toNat)
    (hfit : start.toNat + off.toNat + p.value.length ≤ USIZE_MAX) :
    (Region.mk b start size).Reads off.toNat p := by
  have hzero : saturatingAdd off.toNat 0 = off.toNat := Nat.min_eq_left (Put.start_le off)
  have hword : ∀ front word back, p.value = front ++ word ++ back →
      (Region.mk b start size).array word.length (saturatingAdd off.toNat front.length) = word := by
    intro front word back hsplit
    rw [hsplit] at hbytes hsize hfit
    exact array_word hbytes rfl hsize hfit
  cases p with
  | u8 v =>
      have hread := hword [] [v] [] rfl
      rw [List.length_nil, hzero] at hread
      have hhead : (Region.mk b start size).array 1 off.toNat =
          [(Region.mk b start size).u8At (saturatingAdd off.toNat 0)] := rfl
      rw [List.length_singleton, hhead, hzero] at hread
      exact List.singleton_injective hread
  | u16 v =>
      have hread := hword [] (toLE 2 v.toNat) [] (by simp [Put.value, Put.words])
      rw [List.length_nil, hzero, length_toLE] at hread
      change UInt16.ofNat _ = v
      rw [ofLE_array hread v.toNat_lt, UInt16.ofNat_toNat]
  | u32 v =>
      have hread := hword [] (toLE 4 v.toNat) [] (by simp [Put.value, Put.words])
      rw [List.length_nil, hzero, length_toLE] at hread
      change UInt32.ofNat _ = v
      rw [ofLE_array hread v.toNat_lt, UInt32.ofNat_toNat]
  | u64 v =>
      have hread := hword [] (toLE 8 v.toNat) [] (by simp [Put.value, Put.words])
      rw [List.length_nil, hzero, length_toLE] at hread
      change UInt64.ofNat _ = v
      rw [ofLE_array hread v.toNat_lt, UInt64.ofNat_toNat]
  | bytes bs =>
      have hread := hword [] bs [] (by simp [Put.value, Put.words])
      rw [List.length_nil, hzero] at hread
      exact hread
  | desc d =>
      have hoff := hword [] (toLE 4 d.off.toNat) (toLE 4 d.len.toNat)
        (by simp [Put.value, Put.words])
      have hlen := hword (toLE 4 d.off.toNat) (toLE 4 d.len.toNat) []
        (by simp [Put.value, Put.words])
      rw [List.length_nil, hzero, length_toLE] at hoff
      rw [length_toLE, length_toLE] at hlen
      change Desc.mk (UInt32.ofNat _) (UInt32.ofNat _) = d
      rw [ofLE_array hoff d.off.toNat_lt, ofLE_array hlen d.len.toNat_lt, UInt32.ofNat_toNat,
        UInt32.ofNat_toNat]
  | arrayDesc d =>
      have hoff := hword [] (toLE 4 d.off.toNat) (toLE 2 d.len.toNat ++ toLE 2 d.elemSize.toNat)
        (by simp [Put.value, Put.words])
      have hlen := hword (toLE 4 d.off.toNat) (toLE 2 d.len.toNat) (toLE 2 d.elemSize.toNat)
        (by simp [Put.value, Put.words])
      have helem := hword (toLE 4 d.off.toNat ++ toLE 2 d.len.toNat) (toLE 2 d.elemSize.toNat) []
        (by simp [Put.value, Put.words])
      rw [List.length_nil, hzero, length_toLE] at hoff
      rw [length_toLE, length_toLE] at hlen
      rw [List.length_append, length_toLE, length_toLE, length_toLE] at helem
      change ArrayDesc.mk (UInt32.ofNat _) (UInt16.ofNat _) (UInt16.ofNat _) = d
      rw [ofLE_array hoff d.off.toNat_lt, ofLE_array hlen d.len.toNat_lt,
        ofLE_array helem d.elemSize.toNat_lt, UInt32.ofNat_toNat, UInt16.ofNat_toNat,
        UInt16.ofNat_toNat]

/-! ## The finished buffer -/

theorem finish_ok {w : Writer} (h : w.finish = .ok b) :
    w.defect = none ∧ b = w.out.take w.len := by
  unfold Writer.finish at h
  cases hdefect : w.defect with
  | some start =>
      rw [hdefect] at h
      cases h
  | none =>
      rw [hdefect] at h
      dsimp only at h
      split_ifs at h
      cases h
      exact ⟨rfl, rfl⟩

/-- The size of a head is read back from the preamble. -/
theorem preambleRead_of_bytes {size : UInt32} (hroom : PREAMBLE_SIZE + size.toNat ≤ b.length)
    (hslice : b.length ≤ ISIZE_MAX) (height : size.toNat % 8 = 0)
    (hbytes : ∀ i < 4, b[i]? = (toLE 4 size.toNat)[i]?) : preambleRead b true = .ok size := by
  have hlength : (UInt64.ofNat b.length).toNat = b.length := by
    rw [UInt64.toNat_ofNat']
    unfold ISIZE_MAX at hslice
    exact Nat.mod_eq_of_lt (by omega)
  have hvalue : (Put.u32 size).value = toLE 4 size.toNat := by simp [Put.value, Put.words]
  have hread : (Region.mk b 0 (UInt64.ofNat b.length)).Reads (0 : UInt64).toNat (.u32 size) := by
    refine reads_of_bytes _ ?_ ?_ ?_
    · rw [hvalue, length_toLE]
      intro i hi
      change b[0 + 0 + i]? = _
      rw [Nat.zero_add]
      exact hbytes i hi
    · rw [hvalue, length_toLE, hlength]
      unfold PREAMBLE_SIZE at hroom
      change 0 + 4 ≤ _
      omega
    · rw [hvalue, length_toLE]
      decide
  have hhead : (Region.mk b 0 (UInt64.ofNat b.length)).u32At 0 = size := hread
  unfold preambleRead
  rw [if_neg (by decide)]
  dsimp only
  rw [hhead, if_neg (by unfold PREAMBLE_SIZE at *; omega), if_pos hroom]

theorem exec_isSome (out : List UInt8) (aligned : Bool) (w : Writer) (ops : List WriterOp) :
    ∃ xs w', (writer out aligned).exec w ops = some (xs, w') := by
  induction ops generalizing w with
  | nil => exact ⟨_, _, rfl⟩
  | cons op ops ih =>
      rcases ih (w.call op).1 with ⟨xs, w', hrest⟩
      refine ⟨⟨w, op, (w.call op).2, (w.call op).1⟩ :: xs, w', ?_⟩
      change ((writer out aligned).exec (w.call op).1 ops >>= _) = _
      rw [hrest]
      rfl

/-- **What the finished buffer holds.** A refused call changes nothing; a block
    starts at the least multiple of its alignment and no byte is reserved
    twice. The buffer that is finished has the length written. Every store since
    the last head lay inside what was reserved, and a store that no later one
    touched is read back through every window around it; a byte reserved and
    not stored at is zero or the preamble's; and the head's size is read back
    when no store touched it. -/
theorem buffer_holds (out : List UInt8) (aligned : Bool) (hslice : out.length ≤ ISIZE_MAX)
    (ops : List WriterOp) :
    ∃ xs w, (writer out aligned).exec (.new out aligned) ops = some (xs, w) ∧
      (∀ x ∈ xs, ∀ e, x.answer = some (.error e) → x.post = x.pre) ∧
      (∀ x ∈ xs, ∀ bytes align start, x.op = .tail bytes align → x.answer = some (.ok start) →
        x.pre.len ≤ start ∧ max align.toNat 1 ∣ start ∧
        (∀ m, x.pre.len ≤ m → max align.toNat 1 ∣ m → start ≤ m) ∧
        x.post.len = start + bytes.toNat) ∧
      (∀ front x mid y back, xs = front ++ x :: (mid ++ y :: back) →
        (∀ z ∈ mid, ¬ Restarts z) → ¬ Restarts y → ∀ i, Reserves x i → ¬ Reserves y i) ∧
      ∀ b, w.finish = .ok b →
        b.length = w.len ∧
        ∀ front x back, xs = front ++ x :: back → (∀ y ∈ back, ¬ Restarts y) →
          (∀ start p, x.op = .put start p →
            start.toNat + p.value.length ≤ x.pre.len ∧
            ((∀ y ∈ back, ∀ i, start.toNat ≤ i → i < start.toNat + p.value.length → ¬ Overwrites y i) →
              ∀ s size off : UInt64, s.toNat + off.toNat = start.toNat →
                off.toNat + p.value.length ≤ size.toNat →
                (Region.mk b s size).Reads off.toNat p)) ∧
          (∀ i, Reserves x i → (∀ y ∈ back, ¬ Overwrites y i) →
            b[i]? = some (match x.op with
              | .reserveHead size => (toLE 4 size.toNat).getD i 0
              | _ => 0)) ∧
          ∀ size, x.op = .reserveHead size → Restarts x →
            (∀ y ∈ back, ∀ i < 4, ¬ Overwrites y i) → preambleRead b aligned = .ok size := by
  rcases exec_isSome out aligned (.new out aligned) ops with ⟨xs, w, hexec⟩
  have hrun := Machine.isRun_exec _ _ _ _ hexec
  have hslices := slice_run (w := Writer.new out aligned) hslice hrun
  refine ⟨xs, w, hexec, ?_, ?_, ?_, ?_⟩
  · intro x hx e hanswer
    rcases writer_step (hrun.step_of_mem x hx) with ⟨hsame, -⟩ | ⟨size, -, hanswer', -⟩ |
      ⟨bytes, align, start, -, hanswer', -⟩ | ⟨start, p, -, hanswer', -⟩
    · exact hsame
    · cases hanswer.symm.trans hanswer'
    · cases hanswer.symm.trans hanswer'
    · cases hanswer.symm.trans hanswer'
  · intro x hx bytes align start hop hanswer
    rcases writer_step (hrun.step_of_mem x hx) with ⟨-, ⟨e, hanswer'⟩, -⟩ | ⟨size, hop', -, -⟩ |
      ⟨bytes', align', start', hop', hanswer', htail⟩ | ⟨start', p, hop', -, -⟩
    · cases hanswer.symm.trans hanswer'
    · cases hop.symm.trans hop'
    · cases hop.symm.trans hop'
      cases hanswer.symm.trans hanswer'
      rcases tail_ok (hslices.1 x hx) htail with ⟨rfl, hlen, -⟩
      have hpos : 0 < max align.toNat 1 := Nat.lt_of_lt_of_le Nat.one_pos (Nat.le_max_right _ _)
      exact ⟨le_alignUp _ hpos, dvd_alignUp _ _, fun m hm hdvd => alignUp_le hpos hdvd hm, hlen⟩
    · cases hop.symm.trans hop'
  · rintro front x mid y back rfl hmid hy i hx hi
    rcases (Machine.isRun_append _ _ _ _).mp hrun with ⟨m, -, hpre, hstep, hrest⟩
    rcases (Machine.isRun_append _ _ _ _).mp hrest with ⟨m', hmidRun, hpre', -⟩
    have hxmem : x ∈ front ++ x :: (mid ++ y :: back) :=
      List.mem_append_right _ List.mem_cons_self
    have hxslice := (step_slice (hslices.1 x hxmem) hstep).1.symm ▸ hslices.1 x hxmem
    have hgrow := len_run hxslice hmidRun hmid
    rw [← hpre'] at hgrow
    have hlow : i < x.post.len := by
      rcases hx with ⟨-, hlt⟩ | ⟨-, -, hlt⟩
      · exact hlt
      · exact hlt
    rcases hi with ⟨hrestart, -⟩ | ⟨-, hle, -⟩
    · exact hy hrestart
    · omega
  · intro b hfinish
    rcases finish_ok hfinish with ⟨hdefect, rfl⟩
    have hinside := w.inside
    have hblen : (w.out.take w.len).length = w.len := by
      rw [List.length_take]
      omega
    refine ⟨hblen, ?_⟩
    rintro front x back rfl hkeep
    rcases (Machine.isRun_append _ _ _ _).mp hrun with ⟨m, hfront, hpre, hstep, hback⟩
    have hxmem : x ∈ front ++ x :: back := List.mem_append_right _ List.mem_cons_self
    have hxslice := hslices.1 x hxmem
    have hxpost := step_slice hxslice hstep
    have hpslice : x.post.out.length ≤ ISIZE_MAX := hxpost.1.symm ▸ hxslice
    -- A byte that was there after the call and is not stored at later is in the
    -- buffer.
    have hquiet : ∀ i, i < x.post.len → (∀ y ∈ back, ¬ Overwrites y i) →
        i < w.len ∧ (w.out.take w.len)[i]? = x.post.out[i]? := by
      intro i hi hcover
      rcases quiet_run hpslice hback hkeep hi hcover with ⟨hlt, hsame⟩
      exact ⟨hlt, (List.getElem?_take_of_lt hlt).trans hsame⟩
    have hxdefect := defect_run hpslice hback hkeep hdefect
    refine ⟨fun start p hop => ?_, fun i hi hcover => ?_, fun size hop hrestart hcover => ?_⟩
    · have hkeepx : ¬ Restarts x := by
        rintro ⟨size, off, hop', -⟩
        cases hop.symm.trans hop'
      have hfit := (step_defect hxslice hstep hkeepx hxdefect).2 start p hop
      refine ⟨hfit, fun hcover s size off hoff hsize => ?_⟩
      have hpost : x.post = x.pre.store start.toNat p.value := by
        rcases writer_step hstep with ⟨-, -, hput⟩ | ⟨size, hop', -, -⟩ |
          ⟨bytes, align, start', hop', -, -⟩ | ⟨start', p', hop', -, hpost⟩
        · exact absurd hop (hput start p)
        · cases hop.symm.trans hop'
        · cases hop.symm.trans hop'
        · cases hop.symm.trans hop'
          rw [hpost, Put.store_inside hxslice p hfit]
      have hpinside := x.pre.inside
      have hplen : x.post.len = x.pre.len := by rw [hpost, len_store]
      refine reads_of_bytes p (fun i hi => ?_) hsize ?_
      · rw [hoff]
        have hlt : start.toNat + i < x.post.len := by omega
        rw [(hquiet _ hlt fun y hy => hcover y hy _ (by omega) (by omega)).2, hpost, getElem?_store,
          if_pos ⟨hfit, by omega, by omega⟩, Nat.add_sub_cancel_left]
      · unfold ISIZE_MAX at hxslice
        unfold USIZE_MAX
        omega
    · have hlt : i < x.post.len := by
        rcases hi with ⟨-, hlt⟩ | ⟨-, -, hlt⟩
        · exact hlt
        · exact hlt
      rw [(hquiet i hlt hcover).2, step_reserves hxslice hstep hi]
    · rcases writer_step hstep with ⟨-, ⟨e, hanswer⟩, -⟩ | ⟨size', hop', -, hres⟩ |
        ⟨bytes, align, start, hop', -, -⟩ | ⟨start, p, hop', -, -⟩
      · rcases hrestart with ⟨size', off, -, hanswer'⟩
        cases hanswer.symm.trans hanswer'
      · cases hop.symm.trans hop'
        rcases reserveHead_ok hxslice hres with ⟨halign, height, hroom, hlen, -, -, -⟩
        have hgrow := len_run hpslice hback hkeep
        have halign' : aligned = true := by
          have hfrontSlice := slice_run (w := Writer.new out aligned) hslice hfront
          rw [hpre] at halign
          exact hfrontSlice.2.2.symm.trans halign
        rw [halign']
        refine preambleRead_of_bytes (by rw [hblen]; omega) ?_ height fun i hi => ?_
        · rw [hblen]
          exact Nat.le_trans hinside hslices.2.1
        · have hpos : i < x.post.len := by
            rw [hlen]
            unfold PREAMBLE_SIZE
            omega
          have hreserved := step_reserves hxslice hstep (i := i) (.inl ⟨hrestart, hpos⟩)
          rw [(hquiet i hpos fun y hy => hcover y hy i hi).2, hreserved, hop]
          dsimp only
          rw [List.getD, List.getElem?_eq_getElem (by rw [length_toLE]; exact hi)]
          rfl
      · cases hop.symm.trans hop'
      · cases hop.symm.trans hop'

theorem buffer_holds_eight :
    (List.replicate 8 (0 : UInt8)).length ≤ ISIZE_MAX ∧
      ∃ xs w, (writer (List.replicate 8 0) true).exec (.new (List.replicate 8 0) true)
        [.reserveHead 0] = some (xs, w) ∧ w.finish = .ok (List.replicate 8 0) := by
  refine ⟨by decide, ?_⟩
  rcases buffer_holds (List.replicate 8 0) true (by decide) [.reserveHead 0] with ⟨xs, w, hexec, -⟩
  refine ⟨xs, w, hexec, ?_⟩
  cases hexec
  rfl

/-- A store before a new head is forgotten with it, also one that was dropped;
    and a store may touch the preamble. -/
theorem restart_forgets :
    (∃ xs w b, (writer (List.replicate 8 0) true).exec (.new (List.replicate 8 0) true)
        [.put 0 (.u8 1), .reserveHead 0] = some (xs, w) ∧ w.finish = .ok b ∧
      ∃ x ∈ xs, x.op = .put 0 (.u8 1) ∧ ¬ (0 : UInt64).toNat + (Put.u8 1).value.length ≤ x.pre.len) ∧
    ∃ xs w b, (writer (List.replicate 8 0) true).exec (.new (List.replicate 8 0) true)
        [.reserveHead 0, .put 0 (.u32 8)] = some (xs, w) ∧ w.finish = .ok b ∧
      preambleRead b true = .error .preamble := by
  refine ⟨⟨_, _, _, rfl, rfl, _, List.mem_cons_self, rfl, by decide⟩, _, _, _, rfl, rfl, ?_⟩
  decide +kernel

end Podbuf

end Ridl
