import Ridl.Frame.Agreement
import Ridl.Library.Chunks
import Ridl.Server.Session

/-!
# Blocks and Their Reassembly

A payload of a `fixed` that does not fit one message is sent in blocks, every
one but the last of the same size. The receiving session has one slot: it takes
the blocks of one payload in order, into a buffer of the whole payload, and
drops what it has when a block comes that is not the next one. A payload above
the limit is refused at its first block, and its other blocks are skipped with
their order still checked.

The blocks underway are the latest ones: a first block and those that followed
it in order. What the slot answers depends on them and on the next block alone
(`accept_spec`), so a payload is complete only when all of its blocks came one
after the other.

A copy past the end of the buffer throws, which is `none` here. The blocks are
decoded ones, so their lengths have been checked and no copy does.

## Theorems

* `accept_spec`: What the next block does.
* `blocks_reassemble`: Splitting and reassembly, and every run of blocks.
-/

namespace Ridl

namespace Ts

open Library

/-- A decoded `block` frame. -/
structure BlockFrame where
  target : Target
  envelope : Envelope
  total : Nat
  index : Nat
  payload : Bytes
deriving DecidableEq

/-- What one block did to the slot. -/
inductive BlockStep
  | collecting
  | complete (payload : Bytes)
  | overLimit
  | skipping
  | sequence
deriving DecidableEq, Repr

/-- The payload in progress. The buffer is `none` when it is skipped. -/
structure Slot where
  iface : Nat
  ord : Nat
  stamp : Int
  seq : Nat
  total : Nat
  count : Nat
  next : Nat
  buffer : Option Bytes
deriving DecidableEq

/-- The slot after a first block that others follow. -/
def Slot.opened (block : BlockFrame) (buffer : Option Bytes) : Slot :=
  { iface := block.target.iface, ord := block.target.ord, stamp := block.envelope.stamp
    seq := block.envelope.seq, total := block.total, count := blockCount block.total, next := 1
    buffer := buffer }

/-- A block with no payload in progress. -/
def start (block : BlockFrame) (limit : ℚ) : Option (BlockStep × Option Slot) :=
  if block.index ≠ 0 then some (.sequence, none)
  else do
    let count := blockCount block.total
    let exceeds := block.total > limit
    let buffer ← if exceeds then some none
      else (set 0 block.payload (List.replicate block.total 0)).map some
    let slot := Slot.opened block buffer
    match buffer with
    | some bytes =>
        if count = 1 then return (.complete bytes, none)
        else return (.collecting, if count > 1 then some slot else none)
    | none => return (.overLimit, if count > 1 then some slot else none)

theorem start_copy {block : BlockFrame} {limit : ℚ} {bytes : Bytes} (hzero : block.index = 0)
    (hlimit : ¬ block.total > limit)
    (hset : set 0 block.payload (List.replicate block.total 0) = some bytes) :
    start block limit =
      if blockCount block.total = 1 then some (.complete bytes, none)
      else some (.collecting,
        if blockCount block.total > 1 then some (.opened block (some bytes)) else none) := by
  unfold start
  rw [if_neg (not_not_intro hzero)]
  dsimp only
  rw [if_neg hlimit, hset]
  rfl

/-- Applies one decoded block. The limit is read at a first block only. -/
def accept (slot : Option Slot) (block : BlockFrame) (limit : ℚ) :
    Option (BlockStep × Option Slot) :=
  match slot with
  | none => start block limit
  | some s =>
      if block.index ≠ s.next ∨ block.target.iface ≠ s.iface ∨ block.target.ord ≠ s.ord ∨
          block.envelope.stamp ≠ s.stamp ∨ block.envelope.seq ≠ s.seq ∨ block.total ≠ s.total then
        some (.sequence, none)
      else do
        let buffer ←
          match s.buffer with
          | none => some none
          | some bytes => (set (BLOCK_BYTES * block.index) block.payload bytes).map some
        let s := { s with next := s.next + 1, buffer := buffer }
        if s.next < s.count then
          return (if s.buffer.isSome then .collecting else .skipping, some s)
        else
          return (match s.buffer with
            | some bytes => .complete bytes
            | none => .skipping, none)

/-- One block with the limit of its member. -/
structure Arrival where
  block : BlockFrame
  limit : ℚ

/-- The answers to a sequence of blocks, and the slot after it. -/
def run (slot : Option Slot) : List Arrival → Option (List BlockStep × Option Slot)
  | [] => some ([], slot)
  | a :: later => do
      let (step, slot) ← accept slot a.block a.limit
      let (steps, slot) ← run slot later
      return (step :: steps, slot)

/-- A block that the decoder answers. -/
def BlockFrame.Decoded (b : BlockFrame) : Prop :=
  ∃ m, decode m = .ok (.block b.target b.envelope b.total b.index b.payload)

/-- The number of bytes of a block, by its position. -/
def blockBytes (total index : Nat) : Nat :=
  if index < blockCount total - 1 then BLOCK_BYTES else total - BLOCK_BYTES * index

theorem spec_of_view {f : Ridl.Frame} {t : Target} {e : Envelope} {total index : Nat}
    {payload : Bytes} (hview : view f = some (.block t e total index payload))
    (hshaped : Wire.Shaped f) :
    t.kind = FIXED ∧ 1 ≤ total ∧ index < blockCount total ∧
      payload.length = blockBytes total index := by
  cases f with
  | block t' e' total' index' payload' =>
      cases hview
      rcases hshaped with ⟨_, hkind, hlen⟩
      rcases blockLen_eq total' index' with ⟨hnone, _⟩ | ⟨len, hsome, hpos, hin, heq⟩
      · rw [hnone] at hlen
        cases hlen
      · rw [hsome] at hlen
        refine ⟨by rw [viewTarget, hkind]; rfl, by omega, by omega, ?_⟩
        rw [← Option.some.inj hlen, heq]
        rfl
  | answer t' o =>
      rcases Option.map_eq_some_iff.mp hview with ⟨_, _, h⟩
      cases h
  | response t' e' c o =>
      rcases Option.map_eq_some_iff.mp hview with ⟨_, _, h⟩
      cases h
  | streamEnd t' e' c i o =>
      rcases Option.map_eq_some_iff.mp hview with ⟨_, _, h⟩
      cases h
  | _ => cases hview

theorem BlockFrame.Decoded.spec {b : BlockFrame} (h : b.Decoded) :
    b.target.kind = FIXED ∧ 1 ≤ b.total ∧ b.index < blockCount b.total ∧
      b.payload.length = blockBytes b.total b.index := by
  rcases h with ⟨m, hm⟩
  have hsees := decode_sees m
  rw [hm] at hsees
  cases hread : Wire.decode m with
  | error e =>
      rw [hread] at hsees
      cases hsees.eq_error
  | ok f =>
      rw [hread] at hsees
      rcases hsees.exists_ok with ⟨g, hg, hview⟩
      cases hg
      rcases Wire.frameBytes_of_decode hread with ⟨hshaped, _, _⟩
      exact spec_of_view hview hshaped

/-- The bytes of blocks, one after the other. -/
def payloads (l : List Arrival) : Bytes := l.flatMap fun a => a.block.payload

theorem payloads_concat (l : List Arrival) (x : Arrival) :
    payloads (l ++ [x]) = payloads l ++ x.block.payload := by
  rw [payloads, List.flatMap_append, List.flatMap_singleton, payloads]

/-- Consecutive blocks of one payload, from the first on. -/
def Sequel (l : List Arrival) : Prop :=
  ∀ i (a : Arrival), l[i]? = some a → a.block.index = i ∧ ∀ first, l.head? = some first →
    a.block.target = first.block.target ∧ a.block.envelope = first.block.envelope ∧
      a.block.total = first.block.total

theorem sequel_singleton (x : Arrival) : Sequel [x] ↔ x.block.index = 0 := by
  constructor
  · intro h
    exact (h 0 x rfl).1
  · intro h i a ha
    cases i with
    | zero =>
        cases ha
        refine ⟨h, fun first hfirst => ?_⟩
        cases hfirst
        exact ⟨rfl, rfl, rfl⟩
    | succ i => cases ha

theorem sequel_append (first : Arrival) (later : List Arrival) (x : Arrival) :
    Sequel (first :: later ++ [x]) ↔ Sequel (first :: later) ∧
      x.block.index = later.length + 1 ∧ x.block.target = first.block.target ∧
        x.block.envelope = first.block.envelope ∧ x.block.total = first.block.total := by
  constructor
  · intro h
    refine ⟨fun i a ha => ?_, ?_⟩
    · have hi := (List.getElem?_eq_some_iff.mp ha).1
      exact h i a (by rw [List.getElem?_append_left hi]; exact ha)
    · have hx := h (later.length + 1) x (List.getElem?_concat_length (l := first :: later))
      exact ⟨hx.1, hx.2 first rfl⟩
  · rintro ⟨h, hx⟩ i a ha
    by_cases hi : i < (first :: later).length
    · rw [List.getElem?_append_left hi] at ha
      exact h i a ha
    · rw [List.getElem?_append_right (by omega)] at ha
      have hlast : i - (first :: later).length = 0 := by
        have := (List.getElem?_eq_some_iff.mp ha).1
        rw [List.length_singleton] at this
        omega
      rw [hlast] at ha
      cases ha
      rw [List.length_cons] at hi hlast
      refine ⟨by omega, fun f hf => ?_⟩
      cases hf
      exact hx.2

theorem target_ext {a b : Target} (hkind : a.kind = b.kind) (hiface : a.iface = b.iface)
    (hord : a.ord = b.ord) : a = b := by
  cases a
  cases b
  simp_all

theorem envelope_ext {a b : Envelope} (hstamp : a.stamp = b.stamp) (hseq : a.seq = b.seq) :
    a = b := by
  cases a
  cases b
  simp_all

/-- The blocks that a slot has taken. -/
structure Underway (s : Slot) (first : Arrival) (later : List Arrival) : Prop where
  sequel : Sequel (first :: later)
  fixed : first.block.target.kind = FIXED
  iface : s.iface = first.block.target.iface
  ord : s.ord = first.block.target.ord
  stamp : s.stamp = first.block.envelope.stamp
  seq : s.seq = first.block.envelope.seq
  total : s.total = first.block.total
  count : s.count = blockCount first.block.total
  next : s.next = later.length + 1
  more : s.next < s.count
  size : (payloads (first :: later)).length = BLOCK_BYTES * s.next
  buffer : s.buffer = if first.block.total > first.limit then none
    else some (payloads (first :: later) ++ zeros (s.total - BLOCK_BYTES * s.next))

/-- The slot holds the blocks underway, and is empty when there are none. -/
def Holds : Option Slot → List Arrival → Prop
  | none, [] => True
  | some s, first :: later => Underway s first later
  | _, _ => False

/-- What is answered to a block that is the next one. -/
def answerTo (first : Arrival) (recent : List Arrival) (x : Arrival) : BlockStep :=
  if first.block.total > first.limit then if recent = [] then .overLimit else .skipping
  else if recent.length + 1 = blockCount first.block.total then .complete (payloads (recent ++ [x]))
  else .collecting

/-- The slot after a block that is the next one. -/
def HoldsNext (slot : Option Slot) (first : Arrival) (recent : List Arrival) (x : Arrival) : Prop :=
  (recent.length + 1 = blockCount first.block.total → slot = none) ∧
    (¬ recent.length + 1 = blockCount first.block.total → Holds slot (recent ++ [x]))

theorem blockBytes_le (total index : Nat) :
    blockBytes total index ≤ total - BLOCK_BYTES * index := by
  unfold blockBytes
  split_ifs with hmore
  · unfold blockCount BLOCK_BYTES at *
    omega
  · exact Nat.le_refl _

/-- A first block is answered, whatever came before. -/
theorem start_spec (x : Arrival) (hx : x.block.Decoded) :
    (x.block.index ≠ 0 → start x.block x.limit = some (.sequence, none)) ∧
    (x.block.index = 0 → ∃ slot, start x.block x.limit = some (answerTo x [] x, slot) ∧
      HoldsNext slot x [] x) := by
  rcases hx.spec with ⟨hkind, htotal, hindex, hlen⟩
  refine ⟨fun h => if_pos h, fun hzero => ?_⟩
  rw [hzero] at hindex hlen
  have hfits : x.block.payload.length ≤ x.block.total := by
    rw [hlen]
    exact blockBytes_le _ _
  have hpayloads : payloads [x] = x.block.payload := by
    rw [payloads, List.flatMap_singleton]
  have hopen (buffer : Option Bytes) (hmore : 1 < blockCount x.block.total)
      (hbuffer : buffer = if x.block.total > x.limit then none
        else some (x.block.payload ++ zeros (x.block.total - BLOCK_BYTES))) :
      Holds (some (.opened x.block buffer)) [x] := by
    refine ⟨(sequel_singleton x).mpr hzero, hkind, rfl, rfl, rfl, rfl, rfl, rfl, rfl, hmore, ?_, ?_⟩
    · rw [hpayloads, hlen, blockBytes, if_pos (by omega)]
      rfl
    · rw [hpayloads]
      exact hbuffer
  have hmany (hwhole : ¬ ([] : List Arrival).length + 1 = blockCount x.block.total) :
      1 < blockCount x.block.total := by
    rw [List.length_nil] at hwhole
    omega
  unfold start
  rw [if_neg (not_not_intro hzero)]
  dsimp only
  by_cases hover : (x.block.total : ℚ) > x.limit
  · rw [if_pos hover]
    refine ⟨_, by rw [answerTo, if_pos hover, if_pos rfl]; rfl, ?_⟩
    by_cases hwhole : ([] : List Arrival).length + 1 = blockCount x.block.total
    · exact ⟨fun _ => if_neg (by rw [← hwhole]; decide), fun hno => absurd hwhole hno⟩
    · refine ⟨fun hyes => absurd hyes hwhole, fun _ => ?_⟩
      rw [if_pos (hmany hwhole)]
      exact hopen none (hmany hwhole) (by rw [if_pos hover])
  · rw [if_neg hover, show List.replicate x.block.total 0 = zeros x.block.total from rfl,
      set_zeros _ _ hfits]
    by_cases hwhole : ([] : List Arrival).length + 1 = blockCount x.block.total
    · have hone : blockCount x.block.total = 1 := hwhole.symm
      have hall : x.block.payload.length = x.block.total := by
        rw [hlen, blockBytes, if_neg (by omega), Nat.mul_zero, Nat.sub_zero]
      rw [hall, Nat.sub_self, zeros_zero, List.append_nil]
      refine ⟨none, ?_, fun _ => rfl, fun hno => absurd hwhole hno⟩
      rw [answerTo, if_neg hover, if_pos hwhole, List.nil_append, hpayloads]
      exact if_pos hone
    · have hfull : x.block.payload.length = BLOCK_BYTES := by
        have := hmany hwhole
        rw [hlen, blockBytes, if_pos (by omega)]
      rw [hfull]
      refine ⟨some (.opened x.block (some (x.block.payload ++
        zeros (x.block.total - BLOCK_BYTES)))), ?_, fun hyes => absurd hyes hwhole,
          fun _ => hopen _ (hmany hwhole) (by rw [if_neg hover])⟩
      rw [answerTo, if_neg hover, if_neg hwhole]
      refine (if_neg (Ne.symm hwhole)).trans ?_
      rw [if_pos (hmany hwhole)]
      rfl

/-- So is a block while a payload is underway. -/
theorem next_spec {s : Slot} {first : Arrival} {later : List Arrival}
    (h : Underway s first later) (x : Arrival) (hx : x.block.Decoded) :
    (¬ Sequel (first :: later ++ [x]) →
      accept (some s) x.block x.limit = some (.sequence, none)) ∧
    (Sequel (first :: later ++ [x]) → ∃ slot,
      accept (some s) x.block x.limit = some (answerTo first (first :: later) x, slot) ∧
        HoldsNext slot first (first :: later) x) := by
  rcases hx.spec with ⟨hkind, htotal, hindex, hlen⟩
  have hsame : (x.block.index ≠ s.next ∨ x.block.target.iface ≠ s.iface ∨
      x.block.target.ord ≠ s.ord ∨ x.block.envelope.stamp ≠ s.stamp ∨
      x.block.envelope.seq ≠ s.seq ∨ x.block.total ≠ s.total) ↔
        ¬ Sequel (first :: later ++ [x]) := by
    rw [sequel_append, h.iface, h.ord, h.stamp, h.seq, h.total, h.next, not_and_or]
    constructor
    · intro hne
      refine .inr fun hall => ?_
      rcases hall with ⟨hi, ht, he, htot⟩
      rw [hi, ht, he, htot] at hne
      simp at hne
    · intro hne
      by_contra hall
      simp only [not_or, ne_eq, not_not] at hall
      rcases hall with ⟨hi, hiface, hord, hstamp, hseq, htot⟩
      refine hne.elim (fun hno => hno h.sequel) fun hno => hno ⟨hi, ?_, ?_, htot⟩
      · exact target_ext (hkind.trans h.fixed.symm) hiface hord
      · exact envelope_ext hstamp hseq
  refine ⟨fun hno => if_pos (hsame.mpr hno), fun hyes => ?_⟩
  have hgo := mt hsame.mp (not_not_intro hyes)
  rcases (sequel_append first later x).mp hyes with ⟨_, hnext, htarget, henvelope, htot⟩
  rw [← h.next] at hnext
  rw [htot, hnext] at hindex hlen
  have hmore := h.more
  rw [h.count] at hmore
  have hopen (buffer : Option Bytes) (hlast : s.next + 1 < s.count)
      (hfull : x.block.payload.length = BLOCK_BYTES)
      (hbuffer : buffer = if first.block.total > first.limit then none
        else some (payloads (first :: later ++ [x]) ++
          zeros (s.total - BLOCK_BYTES * (s.next + 1)))) :
      Underway { s with next := s.next + 1, buffer := buffer } first (later ++ [x]) := by
    refine ⟨hyes, h.fixed, h.iface, h.ord, h.stamp, h.seq, h.total, h.count, ?_, hlast, ?_, hbuffer⟩
    · rw [List.length_append, List.length_singleton, ← h.next]
    · change (payloads (first :: later ++ [x])).length = BLOCK_BYTES * (s.next + 1)
      rw [payloads_concat, List.length_append, h.size, hfull, Nat.mul_succ]
  have hwhole : (first :: later).length + 1 = blockCount first.block.total ↔
      ¬ s.next + 1 < s.count := by
    rw [List.length_cons, ← h.next, h.count]
    omega
  have hfull (hlast : s.next + 1 < s.count) : x.block.payload.length = BLOCK_BYTES := by
    rw [h.count] at hlast
    rw [hlen, blockBytes, if_pos (by omega)]
  unfold accept
  dsimp only
  rw [if_neg hgo, h.buffer]
  by_cases hover : (first.block.total : ℚ) > first.limit
  · rw [if_pos hover, answerTo, if_pos hover, if_neg (List.cons_ne_nil _ _)]
    by_cases hlast : s.next + 1 < s.count
    · refine ⟨_, if_pos hlast, fun hno => absurd hlast (hwhole.mp hno), fun _ => ?_⟩
      exact hopen none hlast (hfull hlast) (by rw [if_pos hover])
    · exact ⟨none, if_neg hlast, fun _ => rfl, fun hno => absurd (hwhole.mpr hlast) hno⟩
  · rw [if_neg hover, answerTo, if_neg hover]
    have hset : set (BLOCK_BYTES * x.block.index) x.block.payload
        (payloads (first :: later) ++ zeros (s.total - BLOCK_BYTES * s.next)) =
          some (payloads (first :: later ++ [x]) ++
            zeros (s.total - BLOCK_BYTES * s.next - x.block.payload.length)) := by
      rw [hnext, set_append_right _ _ _ _ h.size.le, h.size, Nat.sub_self, set_zeros,
        payloads_concat, Option.map_some, List.append_assoc]
      rw [hlen, h.total]
      exact blockBytes_le _ _
    dsimp only
    rw [hset]
    by_cases hlast : s.next + 1 < s.count
    · have hrest : s.total - BLOCK_BYTES * s.next - x.block.payload.length =
          s.total - BLOCK_BYTES * (s.next + 1) := by
        rw [hfull hlast, Nat.mul_succ, Nat.sub_sub]
      rw [hrest]
      refine ⟨some { s with
        next := s.next + 1
        buffer := some (payloads (first :: later ++ [x]) ++
          zeros (s.total - BLOCK_BYTES * (s.next + 1))) }, ?_,
        fun hno => absurd hlast (hwhole.mp hno),
        fun _ => hopen _ hlast (hfull hlast) (by rw [if_neg hover])⟩
      rw [if_neg (mt hwhole.mp (not_not_intro hlast))]
      exact if_pos hlast
    · refine ⟨none, ?_, fun _ => rfl, fun hno => absurd (hwhole.mpr hlast) hno⟩
      have hend : s.total - BLOCK_BYTES * s.next - x.block.payload.length = 0 := by
        rw [h.count] at hlast
        rw [hlen, blockBytes, if_neg (by omega), h.total, Nat.sub_self]
      rw [if_pos (hwhole.mpr hlast), hend, zeros_zero, List.append_nil]
      exact if_neg hlast

variable {slot : Option Slot} {recent : List Arrival}

theorem accept_spec (h : Holds slot recent) (x : Arrival) (hx : x.block.Decoded) :
    (¬ Sequel (recent ++ [x]) → accept slot x.block x.limit = some (.sequence, none)) ∧
    (Sequel (recent ++ [x]) → ∀ first, (recent ++ [x]).head? = some first → ∃ slot',
      accept slot x.block x.limit = some (answerTo first recent x, slot') ∧
        HoldsNext slot' first recent x) := by
  cases slot with
  | none =>
      cases recent with
      | cons first later => cases h
      | nil =>
          rw [List.nil_append, sequel_singleton]
          refine ⟨(start_spec x hx).1, fun hzero first hfirst => ?_⟩
          cases hfirst
          exact (start_spec x hx).2 hzero
  | some s =>
      cases recent with
      | nil => cases h
      | cons first later =>
          refine ⟨(next_spec h x hx).1, fun hyes f hf => ?_⟩
          cases hf
          exact (next_spec h x hx).2 hyes

theorem accept_holds (h : Holds slot recent) (x : Arrival) (hx : x.block.Decoded) :
    ∃ step slot' before recent', accept slot x.block x.limit = some (step, slot') ∧
      recent ++ [x] = before ++ recent' ∧ Holds slot' recent' := by
  have hnil : recent ++ [x] = recent ++ [x] ++ [] := (List.append_nil _).symm
  by_cases hsequel : Sequel (recent ++ [x])
  · cases hhead : (recent ++ [x]).head? with
    | none =>
        exact absurd (List.head?_eq_none_iff.mp hhead)
          (List.append_ne_nil_of_right_ne_nil _ (List.cons_ne_nil _ _))
    | some first =>
        rcases (accept_spec h x hx).2 hsequel first hhead with ⟨slot', haccept, hwhole, hmore⟩
        by_cases hall : recent.length + 1 = blockCount first.block.total
        · cases hwhole hall
          exact ⟨_, none, recent ++ [x], [], haccept, hnil, trivial⟩
        · exact ⟨_, slot', [], recent ++ [x], haccept, rfl, hmore hall⟩
  · exact ⟨_, none, recent ++ [x], [], (accept_spec h x hx).1 hsequel, hnil, trivial⟩

/-- So it does after a run. -/
theorem run_holds (h : Holds slot recent)
    (arrivals : List Arrival) (hd : ∀ a ∈ arrivals, a.block.Decoded) :
    ∃ steps slot' before recent', run slot arrivals = some (steps, slot') ∧
      recent ++ arrivals = before ++ recent' ∧ Holds slot' recent' := by
  induction arrivals generalizing slot recent with
  | nil => exact ⟨[], slot, [], recent, rfl, List.append_nil _, h⟩
  | cons x later ih =>
      rcases accept_holds h x (hd x List.mem_cons_self) with
        ⟨step, slot1, before1, recent1, haccept, hsplit1, hholds1⟩
      rcases ih hholds1 (fun a ha => hd a (List.mem_cons_of_mem x ha)) with
        ⟨steps, slot', before, recent', hrun, hsplit, hholds⟩
      refine ⟨step :: steps, slot', before1 ++ before, recent', ?_, ?_, hholds⟩
      · simp only [run, haccept, hrun, Option.bind_eq_bind, Option.bind_some, pure]
      · rw [List.append_cons, hsplit1, List.append_assoc, hsplit, List.append_assoc]

section Splitting

def push (frame : Ridl.Frame) : Option Bytes := do
  let (written, message) ← Wire.encode frame (List.replicate (Wire.encodedLen frame) 0)
  match written with
  | .ok _ => some message
  | .error _ => none

/-- The messages that a session sends. -/
def pushed : List Server.Effect → Option (List Bytes)
  | [] => some []
  | .send frame :: later => do
      let message ← push frame
      let messages ← pushed later
      return message :: messages
  | .note _ :: later => pushed later

theorem push_eq (frame : Ridl.Frame) : push frame = some (Wire.frameBytes frame) := by
  have hfits : Wire.encodedLen frame ≤ (List.replicate (Wire.encodedLen frame) (0 : UInt8)).length :=
    (List.length_replicate).ge
  rw [push, Wire.encode_of_le hfits, List.drop_eq_nil_of_le (List.length_replicate).le,
    List.append_nil]
  rfl

theorem pushed_sends (frames : List Ridl.Frame) :
    pushed (frames.map Server.Effect.send) = some (frames.map Wire.frameBytes) := by
  induction frames with
  | nil => rfl
  | cons frame frames ih =>
      simp only [List.map_cons, pushed, push_eq, ih, Option.bind_eq_bind, Option.bind_some, pure]

variable (t : Ridl.Target) (e : Ridl.Envelope) (total : Nat)

/-- A block of a payload, as the sender frames it. -/
def framed (b : Bytes × Nat) : Ridl.Frame :=
  .block t e (UInt32.ofNat total) (UInt32.ofNat b.2) b.1

/-- A block of a payload, as the receiver decodes it. -/
def received (b : Bytes × Nat) : BlockFrame :=
  ⟨viewTarget t, viewEnvelope e, total, b.2, b.1⟩

theorem pushBlocks_eq (payload : Bytes) :
    Server.Session.pushBlocks t e payload =
      ((payload.toChunks BLOCK_BYTES).zipIdx.map (framed t e payload.length)).map
        Server.Effect.send := by
  rw [List.map_map]
  rfl

variable {total}

theorem toNat_ofNat_of_lt {n : Nat} (h : n < 2 ^ 32) : (UInt32.ofNat n).toNat = n := by
  rw [UInt32.toNat_ofNat']
  exact Nat.mod_eq_of_lt h

theorem lt_of_index {index : Nat} (htotal : total < 2 ^ 32) (hindex : index < blockCount total) :
    index < 2 ^ 32 := by
  unfold blockCount BLOCK_BYTES at hindex
  omega

theorem blockLen_of_lt {index : Nat} (htotal : total < 2 ^ 32) (hpos : 1 ≤ total)
    (hindex : index < blockCount total) :
    (Wire.blockLen (UInt32.ofNat total) (UInt32.ofNat index)).map UInt32.toNat =
      some (blockBytes total index) := by
  have ht := toNat_ofNat_of_lt htotal
  have hi := toNat_ofNat_of_lt (lt_of_index htotal hindex)
  rcases blockLen_eq (UInt32.ofNat total) (UInt32.ofNat index) with ⟨_, hout⟩ | ⟨len, hlen, _, _, heq⟩
  · rw [ht, hi] at hout
    omega
  · rw [ht, hi] at heq
    rw [hlen, Option.map_some, heq]
    rfl

theorem BLOCK_BYTES_pos : 0 < BLOCK_BYTES := by decide

theorem length_chunk (rest : Bytes) (hne : rest ≠ []) :
    ∀ i, total = BLOCK_BYTES * i + rest.length → ∀ b ∈ (rest.toChunks BLOCK_BYTES).zipIdx i,
      b.2 < blockCount total ∧ b.1.length = blockBytes total b.2 := by
  refine chunks_induction BLOCK_BYTES_pos (motive := fun rest => ∀ i,
    total = BLOCK_BYTES * i + rest.length → ∀ b ∈ (rest.toChunks BLOCK_BYTES).zipIdx i,
      b.2 < blockCount total ∧ b.1.length = blockBytes total b.2)
    (fun xs hxs hlen i htotal b hb => ?_) (fun xs ys hlen hys ih i htotal b hb => ?_) rest hne
  · rw [toChunks_of_le hxs hlen, List.zipIdx_singleton, List.mem_singleton] at hb
    rw [hb]
    have hpos := List.length_pos_iff.mpr hxs
    unfold blockBytes blockCount BLOCK_BYTES at *
    dsimp only
    split_ifs <;> omega
  · rw [toChunks_append BLOCK_BYTES_pos hlen hys, List.zipIdx_cons, List.mem_cons] at hb
    rw [List.length_append, hlen] at htotal
    rcases hb with rfl | hb
    · have hpos := List.length_pos_iff.mpr hys
      unfold blockBytes blockCount BLOCK_BYTES at *
      dsimp only
      split_ifs <;> omega
    · refine ih (i + 1) ?_ b hb
      rw [htotal, Nat.mul_succ, Nat.add_assoc]

/-- What is framed is decoded. -/
theorem decode_framed (hkind : t.kind = .fixed) (hnumbered : Wire.Numbered t)
    {payload : Bytes} (hne : payload ≠ []) (hsmall : payload.length < 2 ^ 32) :
    ∀ b ∈ (payload.toChunks BLOCK_BYTES).zipIdx,
      decode (Wire.frameBytes (framed t e payload.length b)) =
        .ok (.block (viewTarget t) (viewEnvelope e) payload.length b.2 b.1) := by
  intro b hb
  rcases length_chunk payload hne 0 (by rw [Nat.mul_zero, Nat.zero_add]) b hb with ⟨hindex, hlen⟩
  have hpos := List.length_pos_iff.mpr hne
  have hshaped : Wire.Shaped (framed t e payload.length b) := by
    refine ⟨hnumbered, hkind, ?_⟩
    rw [hlen]
    exact blockLen_of_lt hsmall hpos hindex
  have hread := Wire.decode_frameBytes _ hshaped
  have hsees := decode_sees (Wire.frameBytes (framed t e payload.length b))
  rw [hread] at hsees
  rcases hsees.exists_ok with ⟨g, hg, hview⟩
  cases hview
  rw [hg, toNat_ofNat_of_lt hsmall, toNat_ofNat_of_lt (lt_of_index hsmall hindex)]

variable (limit : ℚ)

/-- The slot while the chunks of a payload come. -/
def collecting (total : Nat) (front : Bytes) (next : Nat) : Slot :=
  { Slot.opened (received t e total ([], 0)) (some (front ++ zeros (total - front.length))) with
    next := next }

theorem accept_copy {s : Slot} {block : BlockFrame} {bytes bytes' : Bytes}
    (hnext : ¬ (block.index ≠ s.next ∨ block.target.iface ≠ s.iface ∨ block.target.ord ≠ s.ord ∨
      block.envelope.stamp ≠ s.stamp ∨ block.envelope.seq ≠ s.seq ∨ block.total ≠ s.total))
    (hbuffer : s.buffer = some bytes)
    (hset : set (BLOCK_BYTES * block.index) block.payload bytes = some bytes') :
    accept (some s) block limit =
      if s.next + 1 < s.count then
        some (.collecting, some { s with next := s.next + 1, buffer := some bytes' })
      else some (.complete bytes', none) := by
  unfold accept
  dsimp only
  rw [if_neg hnext, hbuffer]
  dsimp only
  rw [hset]
  rfl

theorem accept_collecting {front chunk : Bytes} {i : Nat} (hfront : front.length = BLOCK_BYTES * i)
    (hfits : front.length + chunk.length ≤ total) :
    accept (some (collecting t e total front i)) (received t e total (chunk, i)) limit =
      if i + 1 < blockCount total then
        some (.collecting, some (collecting t e total (front ++ chunk) (i + 1)))
      else some (.complete (front ++ chunk ++ zeros (total - (front ++ chunk).length)), none) := by
  have hset : set (BLOCK_BYTES * i) chunk (front ++ zeros (total - front.length)) =
      some (front ++ chunk ++ zeros (total - (front ++ chunk).length)) := by
    rw [set_append_right _ _ _ _ hfront.le, hfront, Nat.sub_self, set_zeros _ _ (by omega),
      Option.map_some, List.length_append, Nat.sub_sub, hfront, List.append_assoc]
  exact accept_copy limit (by simp [collecting, received, Slot.opened]) rfl hset

theorem run_chunks (rest : Bytes) (hne : rest ≠ []) :
    ∀ i front, 0 < i → front.length = BLOCK_BYTES * i → total = front.length + rest.length →
      run (some (collecting t e total front i)) (((rest.toChunks BLOCK_BYTES).zipIdx i).map fun b =>
        ⟨received t e total b, limit⟩) =
        some (List.replicate ((rest.toChunks BLOCK_BYTES).length - 1) .collecting ++
          [.complete (front ++ rest)], none) := by
  refine chunks_induction BLOCK_BYTES_pos (motive := fun rest => ∀ i front, 0 < i →
    front.length = BLOCK_BYTES * i → total = front.length + rest.length →
      run (some (collecting t e total front i)) (((rest.toChunks BLOCK_BYTES).zipIdx i).map fun b =>
        ⟨received t e total b, limit⟩) =
        some (List.replicate ((rest.toChunks BLOCK_BYTES).length - 1) .collecting ++
          [.complete (front ++ rest)], none))
    (fun xs hxs hlen i front hpos hfront htotal => ?_)
    (fun xs ys hlen hys ih i front hpos hfront htotal => ?_) rest hne
  · have hlast : ¬ i + 1 < blockCount total := by
      unfold blockCount BLOCK_BYTES at *
      omega
    rw [toChunks_of_le hxs hlen, List.zipIdx_singleton, List.map_singleton, run,
      accept_collecting t e limit hfront htotal.ge, if_neg hlast, htotal, List.length_append,
      Nat.sub_self, zeros_zero, List.append_nil]
    rfl
  · have hmore : i + 1 < blockCount total := by
      have := List.length_pos_iff.mpr hys
      rw [List.length_append] at htotal
      unfold blockCount BLOCK_BYTES at *
      omega
    have hcount : (ys.toChunks BLOCK_BYTES).length - 1 + 1 = (ys.toChunks BLOCK_BYTES).length :=
      Nat.sub_add_cancel (List.length_pos_iff.mpr (toChunks_ne_nil BLOCK_BYTES_pos hys))
    have hrest := ih (i + 1) (front ++ xs) (Nat.succ_pos i)
      (by rw [List.length_append, hfront, hlen, Nat.mul_succ])
      (by rw [List.length_append, htotal, List.length_append, Nat.add_assoc])
    rw [toChunks_append BLOCK_BYTES_pos hlen hys, List.zipIdx_cons, List.map_cons, run,
      accept_collecting t e limit hfront (by rw [htotal, List.length_append]; omega), if_pos hmore]
    simp only [Option.bind_eq_bind, Option.bind_some, hrest, pure, List.length_cons,
      Nat.add_sub_cancel]
    rw [← hcount, List.replicate_succ, List.cons_append, List.append_assoc, Nat.add_sub_cancel]

theorem start_collecting (chunk : Bytes) (hlimit : (total : ℚ) ≤ limit)
    (hfits : chunk.length ≤ total) :
    start (received t e total (chunk, 0)) limit =
      if blockCount total = 1 then
        some (.complete (chunk ++ zeros (total - chunk.length)), none)
      else some (.collecting,
        if blockCount total > 1 then some (collecting t e total chunk 1) else none) := by
  have hset : set 0 chunk (List.replicate total 0) =
      some (chunk ++ zeros (total - chunk.length)) := set_zeros chunk total hfits
  exact start_copy rfl (Rat.not_lt.mpr hlimit) hset

/-- The blocks of a payload are taken one after the other, and the last one
    completes it. -/
theorem run_payload {payload : Bytes} (hne : payload ≠ []) (hlimit : (payload.length : ℚ) ≤ limit) :
    run none (((payload.toChunks BLOCK_BYTES).zipIdx).map fun b =>
      ⟨received t e payload.length b, limit⟩) =
      some (List.replicate ((payload.toChunks BLOCK_BYTES).length - 1) .collecting ++
        [.complete payload], none) := by
  by_cases hfits : payload.length ≤ BLOCK_BYTES
  · have hone : blockCount payload.length = 1 := by
      have := List.length_pos_iff.mpr hne
      unfold blockCount BLOCK_BYTES at *
      omega
    have hstart := start_collecting t e limit payload hlimit (Nat.le_refl payload.length)
    rw [if_pos hone, Nat.sub_self, zeros_zero, List.append_nil] at hstart
    rw [toChunks_of_le hne hfits, List.zipIdx_singleton, List.map_singleton, run, accept, hstart]
    rfl
  · have hmany : blockCount payload.length > 1 := by
      unfold blockCount BLOCK_BYTES at *
      omega
    have hlen : (payload.take BLOCK_BYTES).length = BLOCK_BYTES := by
      rw [List.length_take]
      omega
    have hys : payload.drop BLOCK_BYTES ≠ [] := fun h => hfits (List.drop_eq_nil_iff.mp h)
    have htotal : payload.length =
        (payload.take BLOCK_BYTES).length + (payload.drop BLOCK_BYTES).length := by
      rw [← List.length_append, List.take_append_drop]
    have hchunks : payload.toChunks BLOCK_BYTES =
        payload.take BLOCK_BYTES :: (payload.drop BLOCK_BYTES).toChunks BLOCK_BYTES := by
      have h := toChunks_append BLOCK_BYTES_pos hlen hys
      rwa [List.take_append_drop] at h
    have hstart := start_collecting t e limit (payload.take BLOCK_BYTES) hlimit
      (by rw [hlen]; omega)
    rw [if_neg (by omega), if_pos hmany] at hstart
    have hrest := run_chunks t e limit (payload.drop BLOCK_BYTES) hys 1 (payload.take BLOCK_BYTES)
      Nat.one_pos (by rw [hlen, Nat.mul_one]) htotal
    have hcount : ((payload.drop BLOCK_BYTES).toChunks BLOCK_BYTES).length - 1 + 1 =
        ((payload.drop BLOCK_BYTES).toChunks BLOCK_BYTES).length :=
      Nat.sub_add_cancel (List.length_pos_iff.mpr (toChunks_ne_nil BLOCK_BYTES_pos hys))
    rw [hchunks, List.zipIdx_cons, List.map_cons, run, accept, hstart]
    simp only [Option.bind_eq_bind, Option.bind_some, hrest, pure, List.length_cons,
      Nat.add_sub_cancel, Nat.zero_add]
    rw [← hcount, List.replicate_succ, List.cons_append, Nat.add_sub_cancel,
      List.take_append_drop]

end Splitting

section Slots

variable {slot : Option Slot} {recent : List Arrival} {first : Arrival}

theorem eq_nil_of_holds (h : Holds slot recent) :
    slot = none ↔ recent = [] := by
  cases slot with
  | none =>
      cases recent with
      | nil => exact ⟨fun _ => rfl, fun _ => rfl⟩
      | cons first later => cases h
  | some s =>
      cases recent with
      | nil => cases h
      | cons first later => exact ⟨nofun, nofun⟩

theorem sequel_of_holds (h : Holds slot recent) :
    Sequel recent := by
  cases slot with
  | none =>
      cases recent with
      | nil => exact fun i a ha => nomatch ha
      | cons first later => cases h
  | some s =>
      cases recent with
      | nil => cases h
      | cons first later => exact h.sequel

theorem buffer_of_holds {s : Slot} (h : Holds (some s) recent) (hfirst : recent.head? = some first)
    (hover : first.block.total > first.limit) : s.buffer = none := by
  cases recent with
  | nil => cases h
  | cons f later =>
      cases hfirst
      rw [h.buffer, if_pos hover]

theorem eq_none_of_holdsNext {x : Arrival} (h : HoldsNext slot first recent x) :
    slot = none ↔ recent.length + 1 = blockCount first.block.total := by
  refine ⟨fun hnone => ?_, h.1⟩
  by_contra hmore
  have hnil := (eq_nil_of_holds (h.2 hmore)).mp hnone
  exact List.append_ne_nil_of_right_ne_nil _ (List.cons_ne_nil _ _) hnil

theorem answerTo_eq_complete {x : Arrival}
    {bytes : Bytes} (h : answerTo first recent x = .complete bytes) :
    recent.length + 1 = blockCount first.block.total ∧ bytes = payloads (recent ++ [x]) := by
  unfold answerTo at h
  split_ifs at h with hover hnil hall
  cases h
  exact ⟨hall, rfl⟩

end Slots

/-- Splitting and reassembly. A payload within the limit is sent in blocks that
    are decoded, and each but the last is collected; the last completes it.

    In every run of decoded blocks no copy is past its buffer, and the slot
    holds the latest blocks, as far as they are the first of one payload in
    order. A block that does not go on with them is a sequence error and
    empties the slot. One that does is answered by them: a payload within its
    limit is complete with its last block, as the bytes of its blocks, and one
    above it has no buffer and is refused once and then skipped. -/
theorem blocks_reassemble :
    (∀ (t : Ridl.Target) (e : Ridl.Envelope) (payload : Bytes) (limit : ℚ),
      t.kind = .fixed → Wire.Numbered t → payload ≠ [] → payload.length ≤ limit →
      limit ≤ FIXED_CEILING → ∃ messages blocks,
        pushed (Server.Session.pushBlocks t e payload) = some messages ∧
        List.Forall₂ (fun m (b : BlockFrame) =>
          decode m = .ok (.block b.target b.envelope b.total b.index b.payload)) messages blocks ∧
        run none (blocks.map fun b => ⟨b, limit⟩) =
          some (List.replicate (blocks.length - 1) .collecting ++ [.complete payload], none)) ∧
    ∀ arrivals : List Arrival, (∀ a ∈ arrivals, a.block.Decoded) →
      ∃ steps slot before recent, run none arrivals = some (steps, slot) ∧
        arrivals = before ++ recent ∧ Sequel recent ∧ (slot = none ↔ recent = []) ∧
        ∀ x : Arrival, x.block.Decoded →
          (¬ Sequel (recent ++ [x]) → accept slot x.block x.limit = some (.sequence, none)) ∧
          (Sequel (recent ++ [x]) → ∀ first, (recent ++ [x]).head? = some first → ∃ slot',
            accept slot x.block x.limit = some (answerTo first recent x, slot') ∧
            (slot' = none ↔ recent.length + 1 = blockCount first.block.total) ∧
            (first.block.total > first.limit → ∀ s, slot' = some s → s.buffer = none)) ∧
          (∀ bytes slot', accept slot x.block x.limit = some (.complete bytes, slot') →
            Sequel (recent ++ [x]) ∧ (recent ++ [x]).length = blockCount x.block.total ∧
              bytes = payloads (recent ++ [x])) := by
  refine ⟨fun t e payload limit hkind hnumbered hne hlimit hceiling => ?_,
    fun arrivals hd => ?_⟩
  · have hsmall : payload.length < 2 ^ 32 := by
      have hle : (payload.length : ℚ) ≤ (FIXED_CEILING : ℕ) := Rat.le_trans hlimit hceiling
      have hnat : payload.length ≤ FIXED_CEILING := Rat.natCast_le_natCast.mp hle
      unfold FIXED_CEILING at hnat
      omega
    refine ⟨((payload.toChunks BLOCK_BYTES).zipIdx.map (framed t e payload.length)).map
      Wire.frameBytes, (payload.toChunks BLOCK_BYTES).zipIdx.map (received t e payload.length),
        ?_, ?_, ?_⟩
    · rw [pushBlocks_eq, pushed_sends]
    · rw [List.map_map, List.forall₂_map_left_iff, List.forall₂_map_right_iff, List.forall₂_same]
      exact decode_framed t e hkind hnumbered hne hsmall
    · rw [List.map_map, List.length_map, List.length_zipIdx]
      exact run_payload t e limit hne hlimit
  · have hempty : Holds none [] := trivial
    rcases run_holds hempty arrivals hd with ⟨steps, slot, before, recent, hrun, hsplit, hholds⟩
    refine ⟨steps, slot, before, recent, hrun, hsplit, sequel_of_holds hholds,
      eq_nil_of_holds hholds, fun x hx => ?_⟩
    rcases accept_spec hholds x hx with ⟨hno, hyes⟩
    refine ⟨hno, fun hsequel first hfirst => ?_, fun bytes slot' hcomplete => ?_⟩
    · rcases hyes hsequel first hfirst with ⟨slot', haccept, hnext⟩
      refine ⟨slot', haccept, eq_none_of_holdsNext hnext, fun hover s hs => ?_⟩
      cases hs
      have hmore : ¬ recent.length + 1 = blockCount first.block.total := fun hall =>
        nomatch hnext.1 hall
      exact buffer_of_holds (hnext.2 hmore) hfirst hover
    · by_cases hsequel : Sequel (recent ++ [x])
      · cases hfirst : (recent ++ [x]).head? with
        | none =>
            exact absurd (List.head?_eq_none_iff.mp hfirst)
              (List.append_ne_nil_of_right_ne_nil _ (List.cons_ne_nil _ _))
        | some first =>
            rcases hyes hsequel first hfirst with ⟨slot'', haccept, _⟩
            rw [haccept] at hcomplete
            have htotal := (hsequel recent.length x List.getElem?_concat_length).2 first hfirst
            rcases answerTo_eq_complete (congrArg Prod.fst (Option.some.inj hcomplete)) with
              ⟨hall, hbytes⟩
            rw [List.length_append, htotal.2.2]
            exact ⟨hsequel, hall, hbytes⟩
      · rw [hno hsequel] at hcomplete
        cases hcomplete

/-- A payload of one byte, and what follows it. -/
theorem blocks_reassemble_one :
    (∃ messages blocks, pushed (Server.Session.pushBlocks ⟨.fixed, 1, 2⟩ ⟨5, 0⟩ [9]) =
        some messages ∧
      List.Forall₂ (fun m (b : BlockFrame) =>
        decode m = .ok (.block b.target b.envelope b.total b.index b.payload)) messages blocks ∧
      run none (blocks.map fun b => ⟨b, 1⟩) =
        some (List.replicate (blocks.length - 1) .collecting ++ [.complete [9]], none)) ∧
    ∃ steps slot before recent, run none [] = some (steps, slot) ∧
      ([] : List Arrival) = before ++ recent ∧ Sequel recent ∧ (slot = none ↔ recent = []) := by
  refine ⟨blocks_reassemble.1 ⟨.fixed, 1, 2⟩ ⟨5, 0⟩ [9] 1 rfl ⟨by decide, by decide⟩ (by simp)
    (by decide) (by decide), ?_⟩
  rcases blocks_reassemble.2 [] (fun a ha => nomatch ha) with
    ⟨steps, slot, before, recent, hrun, hsplit, hsequel, hnil, _⟩
  exact ⟨steps, slot, before, recent, hrun, hsplit, hsequel, hnil⟩

end Ts

end Ridl
