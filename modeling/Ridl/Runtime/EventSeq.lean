import Ridl.Library.Run
import Ridl.Runtime.Contract

/-!
# Event Sequence Numbers

The tracker that finds lost event occurrences. It has `n` slots, each free or
holding a channel and the last sequence number the channel accepted. One pass
over the slots looks for the channel and for a free slot.

The channels share the slots and nothing else. Seen through its key a tracker
is one optional number for each channel, an `observe` is a step of one such
number alone (`Channel.single`), and the losses reported since a channel's
first occurrence add up to the distance it came.

## Theorems

* `observes`: What an `observe` can do.
* `lastSeq_observe`: An `observe` is a step of its channel alone.
* `event_loss_accounted`: The channels do not disturb each other, and their
  losses add up.
-/

namespace Ridl

open Library

/-- What an occurrence's sequence number reveals. -/
inductive Continuity
  | first
  | next
  | lost (count : UInt64)
  | notNewer (last : UInt64)
deriving DecidableEq, Repr

/-- No slot is free for a channel that is not tracked. -/
inductive TrackerFull
  | trackerFull
deriving DecidableEq, Repr

namespace EventSeq

/-- One tracked channel and the last number it accepted. -/
structure Channel where
  interface : InterfaceNo
  ordinal : Ordinal
  last : UInt64
deriving DecidableEq, Repr

def Channel.key (c : Channel) : Key := (c.interface, c.ordinal)

/-- The subtraction of two numbers, which panics on overflow. -/
def checkedSub (a b : UInt64) : Option UInt64 := if b ≤ a then some (a - b) else none

/-- What a tracked channel's occurrence reveals, and the channel after it. -/
def Channel.advance (c : Channel) (seq : UInt64) : Option (Continuity × Channel) :=
  if seq ≤ c.last then some (.notNewer c.last, c)
  else do
    let gap ← checkedSub seq c.last
    let count ← checkedSub gap 1
    some (if count = 0 then .next else .lost count, { c with last := seq })

/-- Where the pass ended: at the channel's slot, with the slots after the call,
    or past the last slot, with the first free one. -/
inductive Scanned
  | found (answer : Continuity) (slots : List (Option Channel))
  | absent (free : Option Nat)

/-- What the pass came to when there is one more slot before. -/
def Scanned.behind (slot : Option Channel) : Scanned → Scanned
  | found answer slots => found answer (slot :: slots)
  | absent free => absent free

/-- The pass over the slots from index `index` on. -/
def scan (interface : InterfaceNo) (ordinal : Ordinal) (seq : UInt64) :
    List (Option Channel) → Nat → Option Nat → Option Scanned
  | [], _, free => some (.absent free)
  | some c :: rest, index, free =>
    if c.interface = interface ∧ c.ordinal = ordinal then do
      let (answer, c') ← c.advance seq
      some (.found answer (some c' :: rest))
    else (scan interface ordinal seq rest (index + 1) free).map (.behind (some c))
  | none :: rest, index, free =>
    (scan interface ordinal seq rest (index + 1) (free.or (some index))).map (.behind none)

/-- `observe` on the slots. -/
def observeSlots (interface : InterfaceNo) (ordinal : Ordinal) (seq : UInt64)
    (slots : List (Option Channel)) :
    Option (Except TrackerFull Continuity × List (Option Channel)) :=
  (scan interface ordinal seq slots 0 none).map fun
    | .found answer slots => (.ok answer, slots)
    | .absent none => (.error .trackerFull, slots)
    | .absent (some index) => (.ok .first, slots.set index (some ⟨interface, ordinal, seq⟩))

/-- `forget` on the slots. -/
def forgetSlots (interface : InterfaceNo) (ordinal : Ordinal) (slots : List (Option Channel)) :
    List (Option Channel) :=
  slots.map fun slot =>
    if slot.any fun c => c.interface = interface ∧ c.ordinal = ordinal then none else slot

/-! ## What an `observe` can do -/

/-- The channel is in none of the slots. -/
def Absent (k : Key) (slots : List (Option Channel)) : Prop := ∀ c, some c ∈ slots → c.key ≠ k

/-- The ways an `observe` goes. -/
inductive Observes (k : Key) (seq : UInt64) :
    List (Option Channel) → Except TrackerFull Continuity → List (Option Channel) → Prop
  | tracked {front back : List (Option Channel)} {c c' : Channel} {answer : Continuity}
      (hfront : Absent k front) (hkey : c.key = k) (hadvance : c.advance seq = some (answer, c')) :
      Observes k seq (front ++ some c :: back) (.ok answer) (front ++ some c' :: back)
  | taken {front back : List (Option Channel)} (habsent : Absent k (front ++ none :: back)) :
      Observes k seq (front ++ none :: back) (.ok .first)
        (front ++ some ⟨k.1, k.2, seq⟩ :: back)
  | full {slots : List (Option Channel)} (habsent : Absent k slots) (hfull : none ∉ slots) :
      Observes k seq slots (.error .trackerFull) slots

/-- Where a pass can end. -/
inductive Scans (k : Key) (seq : UInt64) (index : Nat) (free : Option Nat) :
    List (Option Channel) → Scanned → Prop
  | found (front back : List (Option Channel)) {c c' : Channel} {answer : Continuity}
      (hfront : Absent k front) (hkey : c.key = k) (hadvance : c.advance seq = some (answer, c')) :
      Scans k seq index free (front ++ some c :: back) (.found answer (front ++ some c' :: back))
  | earlier {slots : List (Option Channel)} {i : Nat} (habsent : Absent k slots)
      (hfree : free = some i) : Scans k seq index free slots (.absent (some i))
  | here (front back : List (Option Channel)) (habsent : Absent k (front ++ none :: back))
      (hfree : free = none) :
      Scans k seq index free (front ++ none :: back) (.absent (some (index + front.length)))
  | none {slots : List (Option Channel)} (habsent : Absent k slots) (hfree : free = none)
      (hfull : Option.none ∉ slots) : Scans k seq index free slots (.absent Option.none)

variable {k : Key} {slots : List (Option Channel)} {seq : UInt64}

theorem Absent.cons_none (h : Absent k slots) :
    Absent k (none :: slots) := by
  intro c hc
  rcases List.mem_cons.mp hc with heq | hmem
  · cases heq
  · exact h c hmem

theorem Absent.cons_some {c : Channel}
    (h : Absent k slots) (hc : c.key ≠ k) : Absent k (some c :: slots) := by
  intro c' hc'
  rcases List.mem_cons.mp hc' with heq | hmem
  · cases heq
    exact hc
  · exact h c' hmem

theorem absent_nil (k : Key) : Absent k [] := fun _ h => absurd h List.not_mem_nil

/-- One more slot that does not hold the channel, and does not change what is
    free. -/
theorem Scans.behind_some {index : Nat} {free : Option Nat}
    {s : Scanned} {c : Channel} (hc : c.key ≠ k)
    (h : Scans k seq (index + 1) free slots s) :
    Scans k seq index free (some c :: slots) (s.behind (some c)) := by
  cases h with
  | found front back hfront hkey hadvance =>
      exact .found (some c :: front) back (hfront.cons_some hc) hkey hadvance
  | earlier habsent hfree => exact .earlier (habsent.cons_some hc) hfree
  | here front back habsent hfree =>
      have hhere : Scans k seq index free (some c :: front ++ Option.none :: back)
          (.absent (some (index + (some c :: front).length))) :=
        .here (some c :: front) back (habsent.cons_some hc) hfree
      rw [List.length_cons, ← Nat.add_assoc, Nat.add_right_comm] at hhere
      exact hhere
  | none habsent hfree hfull =>
      exact .none (habsent.cons_some hc) hfree (by simpa using hfull)

theorem Scans.behind_none {index : Nat} {free : Option Nat} {s : Scanned}
    (h : Scans k seq (index + 1) (free.or (some index)) slots s) :
    Scans k seq index free (Option.none :: slots) (s.behind Option.none) := by
  cases h with
  | found front back hfront hkey hadvance =>
      exact .found (Option.none :: front) back hfront.cons_none hkey hadvance
  | earlier habsent hfree =>
      cases free with
      | some i => exact .earlier habsent.cons_none hfree
      | none =>
          cases hfree
          exact .here [] _ habsent.cons_none rfl
  | here front back habsent hfree =>
      cases free with
      | some i => cases hfree
      | none => cases hfree
  | none habsent hfree hfull =>
      cases free with
      | some i => cases hfree
      | none => cases hfree

theorem advance_isSome (c : Channel) (seq : UInt64) : ∃ r, c.advance seq = some r := by
  unfold Channel.advance
  split_ifs with hle
  · exact ⟨_, rfl⟩
  · have hlt : c.last < seq := UInt64.not_le.mp hle
    have hgap : checkedSub seq c.last = some (seq - c.last) := if_pos (UInt64.le_of_lt hlt)
    have hone : (1 : UInt64) ≤ seq - c.last := by
      rw [UInt64.le_iff_toNat_le, UInt64.toNat_sub_of_le _ _ (UInt64.le_of_lt hlt)]
      have := UInt64.lt_iff_toNat_lt.mp hlt
      change 1 ≤ _
      omega
    rw [hgap, Option.bind_eq_bind, Option.bind_some, checkedSub, if_pos hone]
    exact ⟨_, rfl⟩

theorem checkedSub_bind {α : Type} {a b : UInt64} {f : UInt64 → Option α} {r : α}
    (h : ((checkedSub a b).bind fun gap => (checkedSub gap 1).bind f) = some r) :
    (a - b).toNat = a.toNat - b.toNat ∧ (a - b - 1).toNat = (a - b).toNat - 1 ∧
      f (a - b - 1) = some r := by
  rcases Option.bind_eq_some_iff.mp h with ⟨gap, hgap, h⟩
  rcases Option.bind_eq_some_iff.mp h with ⟨count, hcount, h⟩
  unfold checkedSub at hgap hcount
  split_ifs at hgap hcount with hle hone
  cases hgap
  cases hcount
  exact ⟨UInt64.toNat_sub_of_le _ _ hle, UInt64.toNat_sub_of_le _ _ hone, h⟩

/-- The pass does not panic, and ends in one of these ways. -/
theorem scan_scans (k : Key) (seq : UInt64) (slots : List (Option Channel)) (index : Nat)
    (free : Option Nat) :
    ∃ s, scan k.1 k.2 seq slots index free = some s ∧ Scans k seq index free slots s := by
  induction slots generalizing index free with
  | nil =>
      refine ⟨_, rfl, ?_⟩
      cases free with
      | some i => exact .earlier (absent_nil k) rfl
      | none => exact .none (absent_nil k) rfl List.not_mem_nil
  | cons slot rest ih =>
      cases slot with
      | none =>
          rcases ih (index + 1) (free.or (some index)) with ⟨s, hs, hscans⟩
          exact ⟨s.behind none, by rw [scan, hs]; rfl, hscans.behind_none⟩
      | some c =>
          by_cases hkey : c.interface = k.1 ∧ c.ordinal = k.2
          · rcases advance_isSome c seq with ⟨⟨answer, c'⟩, hadvance⟩
            refine ⟨.found answer (some c' :: rest), ?_, ?_⟩
            · rw [scan, if_pos hkey, hadvance]
              rfl
            · exact .found [] rest (absent_nil k) (Prod.ext hkey.1 hkey.2) hadvance
          · rcases ih (index + 1) free with ⟨s, hs, hscans⟩
            refine ⟨s.behind (some c), ?_, hscans.behind_some fun heq => hkey ?_⟩
            · rw [scan, if_neg hkey, hs]
              rfl
            · rw [← heq]
              exact ⟨rfl, rfl⟩

theorem observes (k : Key) (seq : UInt64) (slots : List (Option Channel)) :
    ∃ r slots', observeSlots k.1 k.2 seq slots = some (r, slots') ∧
      Observes k seq slots r slots' := by
  rcases scan_scans k seq slots 0 none with ⟨s, hs, hscans⟩
  unfold observeSlots
  rw [hs]
  cases hscans with
  | found front back hfront hkey hadvance =>
      exact ⟨_, _, rfl, .tracked hfront hkey hadvance⟩
  | earlier _ hfree => cases hfree
  | here front back habsent hfree =>
      refine ⟨_, _, rfl, ?_⟩
      rw [Nat.zero_add, List.set_append_right _ _ (Nat.le_refl _), Nat.sub_self, List.set_cons_zero]
      exact .taken habsent
  | none habsent _ hfull => exact ⟨_, _, rfl, .full habsent hfull⟩

theorem observeSlots_length {interface : InterfaceNo} {ordinal : Ordinal}
    {slots' : List (Option Channel)} {r : Except TrackerFull Continuity}
    (h : observeSlots interface ordinal seq slots = some (r, slots')) :
    slots'.length = slots.length := by
  rcases observes (interface, ordinal) seq slots with ⟨r', s', hobserve, hcases⟩
  rw [h] at hobserve
  cases hobserve
  cases hcases with
  | tracked => simp
  | taken => simp
  | full => rfl

theorem length_forgetSlots (interface : InterfaceNo) (ordinal : Ordinal)
    (slots : List (Option Channel)) :
    (forgetSlots interface ordinal slots).length = slots.length := by
  rw [forgetSlots, List.length_map]

end EventSeq

open EventSeq

/-- The last number accepted on each tracked channel, in `n` slots. -/
structure EventSeqTracker (n : Nat) where
  slots : List (Option Channel)
  size : slots.length = n

namespace EventSeqTracker

variable {n : Nat}

/-- A tracker that holds no channel. -/
def new (n : Nat) : EventSeqTracker n := ⟨List.replicate n none, List.length_replicate⟩

/-- Records an occurrence of a channel. -/
def observe (t : EventSeqTracker n) (interface : InterfaceNo) (ordinal : Ordinal) (seq : UInt64) :
    Option (Except TrackerFull Continuity × EventSeqTracker n) :=
  match h : observeSlots interface ordinal seq t.slots with
  | none => none
  | some (answer, slots) => some (answer, ⟨slots, (observeSlots_length h).trans t.size⟩)

/-- Stops tracking a channel. -/
def forget (t : EventSeqTracker n) (interface : InterfaceNo) (ordinal : Ordinal) :
    EventSeqTracker n :=
  ⟨forgetSlots interface ordinal t.slots, (length_forgetSlots interface ordinal t.slots).trans t.size⟩

/-- The calls of a tracker. -/
inductive Op
  | observe (interface : InterfaceNo) (ordinal : Ordinal) (seq : UInt64)
  | forget (interface : InterfaceNo) (ordinal : Ordinal)

/-- The channel of a call. -/
def Op.key : Op → Key
  | observe interface ordinal _ => (interface, ordinal)
  | forget interface ordinal => (interface, ordinal)

/-- A call; a `forget` answers nothing. -/
def apply (t : EventSeqTracker n) :
    Op → Option (EventSeqTracker n × Option (Except TrackerFull Continuity))
  | .observe interface ordinal seq =>
    (t.observe interface ordinal seq).map fun r => (r.2, some r.1)
  | .forget interface ordinal => some (t.forget interface ordinal, none)

/-- A tracker from its first call on. -/
def machine (n : Nat) : Machine (EventSeqTracker n) Op (Option (Except TrackerFull Continuity)) :=
  ⟨new n, apply⟩

/-- The number tracked for a channel. -/
def lastSeq (t : EventSeqTracker n) (k : Key) : Option UInt64 :=
  ((t.slots.filterMap id).find? fun c => c.key = k).map (·.last)

/-- The slots that track a channel. -/
def slotsOf (t : EventSeqTracker n) (k : Key) : List Channel :=
  (t.slots.filterMap id).filter fun c => c.key = k

/-- At most one slot tracks a channel. -/
def Exclusive (t : EventSeqTracker n) : Prop := ∀ k, (t.slotsOf k).length ≤ 1

/-! ## A channel alone -/

/-- A call as its channel sees it. -/
inductive ChannelCall
  | observe (seq : UInt64)
  | forget

/-- What an occurrence reveals against the last number. -/
def compare (last seq : UInt64) : Continuity :=
  if seq ≤ last then .notNewer last
  else if seq.toNat = last.toNat + 1 then .next
  else .lost (seq - last - 1)

/-- A call on the one number of a channel that has a slot for itself. -/
def single : Option UInt64 → ChannelCall → Option Continuity × Option UInt64
  | none, .observe seq => (some .first, some seq)
  | some last, .observe seq => (some (compare last seq), some (if seq ≤ last then last else seq))
  | _, .forget => (none, none)

/-- The calls of a channel, from the number tracked for it. -/
def alone : Option UInt64 → List ChannelCall → List (Option Continuity) × Option UInt64
  | last, [] => ([], last)
  | last, call :: calls =>
    let (answer, last) := single last call
    let (answers, last) := alone last calls
    (answer :: answers, last)

/-- A call of channel `k` that was not refused, with its answer. -/
def seenBy (k : Key) (op : Op) (answer : Option (Except TrackerFull Continuity)) :
    Option (ChannelCall × Option Continuity) :=
  if op.key = k then
    match op, answer with
    | .observe _ _ seq, some (.ok r) => some (.observe seq, some r)
    | .forget _ _, _ => some (.forget, none)
    | _, _ => none
  else none

/-- What channel `k` sees of a run. -/
def seen (k : Key) (xs : List (Machine.Item (EventSeqTracker n) Op
    (Option (Except TrackerFull Continuity)))) : List (ChannelCall × Option Continuity) :=
  xs.filterMap fun x => seenBy k x.op x.answer

/-- How far a result takes a channel's number. -/
def distance : Option Continuity → Nat
  | some .next => 1
  | some (.lost count) => count.toNat + 1
  | _ => 0

/-! ## An `observe` is a step of its channel alone -/

variable {seq : UInt64} {k : Key} {slots slots' : List (Option Channel)}
  {t t' : EventSeqTracker n} {op : Op}

theorem advance_eq {c c' : Channel} {r : Continuity} (h : c.advance seq = some (r, c')) :
    r = compare c.last seq ∧ c'.key = c.key ∧
      c'.last = if seq ≤ c.last then c.last else seq := by
  unfold Channel.advance at h
  unfold compare
  split_ifs at h ⊢ with hle heq
  · cases h
    exact ⟨rfl, rfl, rfl⟩
  · have hlt := UInt64.lt_iff_toNat_lt.mp (UInt64.not_le.mp hle)
    rcases checkedSub_bind h with ⟨hsub, hone, h⟩
    have hcount : seq - c.last - 1 = 0 := by
      apply UInt64.toNat_inj.mp
      rw [hone, hsub]
      change _ = 0
      omega
    rw [if_pos hcount] at h
    cases h
    exact ⟨rfl, rfl, rfl⟩
  · have hlt := UInt64.lt_iff_toNat_lt.mp (UInt64.not_le.mp hle)
    rcases checkedSub_bind h with ⟨hsub, hone, h⟩
    have hcount : seq - c.last - 1 ≠ 0 := by
      intro hzero
      have hzero := congrArg UInt64.toNat hzero
      rw [hone, hsub] at hzero
      change _ = 0 at hzero
      omega
    rw [if_neg hcount] at h
    cases h
    exact ⟨rfl, rfl, rfl⟩

theorem find_absent (h : Absent k slots) :
    (slots.filterMap id).find? (fun c => c.key = k) = none := by
  refine List.find?_eq_none.mpr fun c hc => ?_
  rcases List.mem_filterMap.mp hc with ⟨slot, hslot, heq⟩
  cases heq
  simpa using h c hslot

theorem filter_absent (h : Absent k slots) :
    (slots.filterMap id).filter (fun c => c.key = k) = [] := by
  refine List.filter_eq_nil_iff.mpr fun c hc => ?_
  rcases List.mem_filterMap.mp hc with ⟨slot, hslot, heq⟩
  cases heq
  simpa using h c hslot

theorem filterMap_split (front back : List (Option Channel)) (slot : Option Channel) :
    (front ++ slot :: back).filterMap id =
      front.filterMap id ++ (slot.toList ++ back.filterMap id) := by
  rw [List.filterMap_append]
  cases slot with
  | none => rfl
  | some c => rfl

theorem find_split {front back : List (Option Channel)} (hfront : Absent k front)
    (slot : Option Channel) :
    ((front ++ slot :: back).filterMap id).find? (fun c => c.key = k) =
      (slot.toList ++ back.filterMap id).find? (fun c => c.key = k) := by
  rw [filterMap_split, List.find?_append, find_absent hfront, Option.none_or]

/-- A slot that holds no channel `k`, before or after, does not matter to it. -/
theorem find_other (front back : List (Option Channel)) {slot slot' : Option Channel}
    (hslot : ∀ c ∈ slot, c.key ≠ k) (hslot' : ∀ c ∈ slot', c.key ≠ k) :
    ((front ++ slot' :: back).filterMap id).find? (fun c => c.key = k) =
      ((front ++ slot :: back).filterMap id).find? (fun c => c.key = k) := by
  have hskip : ∀ o : Option Channel, (∀ c ∈ o, c.key ≠ k) →
      o.toList.find? (fun c => c.key = k) = none := by
    intro o ho
    cases o with
    | none => rfl
    | some c => exact List.find?_cons_of_neg (by simpa using ho c rfl)
  simp only [filterMap_split, List.find?_append, hskip slot hslot, hskip slot' hslot']

theorem observes_other {k' : Key}
    {r : Except TrackerFull Continuity} (h : Observes k seq slots r slots') (hne : k' ≠ k) :
    (slots'.filterMap id).find? (fun c => c.key = k') =
      (slots.filterMap id).find? (fun c => c.key = k') := by
  cases h with
  | @tracked front back c c' answer hfront hkey hadvance =>
      refine find_other front back ?_ ?_
      · rintro c'' ⟨⟩
        rw [hkey]
        exact hne.symm
      · rintro c'' ⟨⟩
        rw [(advance_eq hadvance).2.1, hkey]
        exact hne.symm
  | @taken front back habsent =>
      refine find_other front back nofun ?_
      rintro c'' ⟨⟩
      exact hne.symm
  | full => rfl

/-- For its own channel an `observe` that is not refused is a step of the
    channel alone. -/
theorem observes_own {r : Continuity} (h : Observes k seq slots (.ok r) slots') :
    (some r, ((slots'.filterMap id).find? fun c => c.key = k).map (·.last)) =
      single (((slots.filterMap id).find? fun c => c.key = k).map (·.last)) (.observe seq) := by
  generalize hr : (Except.ok r : Except TrackerFull Continuity) = answer at h
  cases h with
  | @tracked front back c c' answer hfront hkey hadvance =>
      cases hr
      have hstep := advance_eq hadvance
      have hkey' : c'.key = k := hstep.2.1.trans hkey
      rw [find_split hfront, find_split hfront]
      change (some r, (List.find? _ (c' :: _)).map _) = single ((List.find? _ (c :: _)).map _) _
      rw [List.find?_cons_of_pos (by simpa using hkey'),
        List.find?_cons_of_pos (by simpa using hkey)]
      change (some r, some c'.last) = (some _, some _)
      rw [hstep.1, hstep.2.2]
  | @taken front back habsent =>
      cases hr
      rw [find_absent habsent, find_split fun c hc => habsent c (List.mem_append_left _ hc)]
      change (some _, (List.find? _ (_ :: _)).map _) = _
      rw [List.find?_cons_of_pos (by simp [Channel.key])]
      rfl
  | full => cases hr

theorem observes_full {e : TrackerFull} (h : Observes k seq slots (.error e) slots') :
    slots' = slots ∧ Absent k slots ∧ none ∉ slots := by
  generalize hr : (Except.error e : Except TrackerFull Continuity) = answer at h
  cases h with
  | tracked => cases hr
  | taken => cases hr
  | full habsent hfull => exact ⟨rfl, habsent, hfull⟩

/-- No channel gets a second slot. -/
theorem observes_exclusive {r : Except TrackerFull Continuity} (h : Observes k seq slots r slots')
    (hslots : ∀ k' : Key, ((slots.filterMap id).filter fun c => c.key = k').length ≤ 1)
    (k' : Key) : ((slots'.filterMap id).filter fun c => c.key = k').length ≤ 1 := by
  have hbefore := hslots k'
  cases h with
  | @tracked front back c c' answer hfront hkey hadvance =>
      have hsame : c'.key = c.key := (advance_eq hadvance).2.1
      rw [filterMap_split, List.filter_append, List.filter_append, List.length_append,
        List.length_append] at hbefore ⊢
      have hone : (List.filter (fun d => d.key = k') (some c').toList).length =
          (List.filter (fun d => d.key = k') (some c).toList).length := by
        simp only [Option.toList_some, List.filter_cons, hsame, List.filter_nil]
        split_ifs
        · rfl
        · rfl
      omega
  | @taken front back habsent =>
      by_cases heq : k' = k
      · subst heq
        have hnone := filter_absent habsent
        rw [filterMap_split, List.filter_append, List.filter_append] at hnone ⊢
        rcases List.append_eq_nil_iff.mp hnone with ⟨hfront, hrest⟩
        rw [hfront, (List.append_eq_nil_iff.mp hrest).2, List.nil_append, List.append_nil]
        exact List.length_filter_le _ _
      · rw [filterMap_split, List.filter_append, List.filter_append, List.length_append,
          List.length_append] at hbefore ⊢
        have hzero : List.filter (fun d => d.key = k')
            (some (⟨k.1, k.2, seq⟩ : Channel)).toList = [] := by
          refine List.filter_eq_nil_iff.mpr fun d hd => ?_
          cases List.mem_singleton.mp hd
          simpa [Channel.key] using Ne.symm heq
        rw [hzero]
        simpa using hbefore
  | full => exact hbefore

/-! ## Runs -/

theorem observe_spec (t : EventSeqTracker n) (interface : InterfaceNo) (ordinal : Ordinal)
    (seq : UInt64) : ∃ r t', t.observe interface ordinal seq = some (r, t') ∧
      Observes (interface, ordinal) seq t.slots r t'.slots := by
  rcases observes (interface, ordinal) seq t.slots with ⟨r, slots', h, hcases⟩
  refine ⟨r, ⟨slots', (observeSlots_length h).trans t.size⟩, ?_, hcases⟩
  unfold observe
  split
  · rename_i h'
    cases h'.symm.trans h
  · rename_i h'
    cases h'.symm.trans h
    rfl

theorem apply_isSome (t : EventSeqTracker n) (op : Op) : ∃ r, t.apply op = some r := by
  cases op with
  | observe interface ordinal seq =>
      rcases observe_spec t interface ordinal seq with ⟨r, t', h, -⟩
      exact ⟨_, by rw [apply, h]; rfl⟩
  | forget interface ordinal => exact ⟨_, rfl⟩

theorem exec_isSome (t : EventSeqTracker n) (ops : List Op) :
    ∃ xs t', (machine n).exec t ops = some (xs, t') := by
  induction ops generalizing t with
  | nil => exact ⟨_, _, rfl⟩
  | cons op ops ih =>
      rcases apply_isSome t op with ⟨⟨t₁, answer⟩, hstep⟩
      rcases ih t₁ with ⟨xs, t', hrest⟩
      refine ⟨⟨t, op, answer, t₁⟩ :: xs, t', ?_⟩
      change (t.apply op >>= _) = _
      rw [hstep]
      change ((machine n).exec t₁ ops >>= _) = _
      rw [hrest]
      rfl

theorem forget_other (t : EventSeqTracker n) {interface : InterfaceNo} {ordinal : Ordinal}
    (hne : k ≠ (interface, ordinal)) : (t.forget interface ordinal).lastSeq k = t.lastSeq k := by
  have hslots : ∀ slots : List (Option Channel),
      ((forgetSlots interface ordinal slots).filterMap id).find? (fun c => c.key = k) =
        (slots.filterMap id).find? (fun c => c.key = k) := by
    intro slots
    induction slots with
    | nil => rfl
    | cons slot slots ih =>
        cases slot with
        | none => exact ih
        | some c =>
            by_cases hkey : c.interface = interface ∧ c.ordinal = ordinal
            · have hc : c.key ≠ k := fun heq => hne (heq.symm.trans (Prod.ext hkey.1 hkey.2))
              have hforget : forgetSlots interface ordinal (some c :: slots) =
                  none :: forgetSlots interface ordinal slots := by
                simp [forgetSlots, hkey]
              rw [hforget]
              change _ = (c :: slots.filterMap id).find? _
              rw [List.find?_cons_of_neg (by simpa using hc)]
              exact ih
            · have hforget : forgetSlots interface ordinal (some c :: slots) =
                  some c :: forgetSlots interface ordinal slots := by
                simp [forgetSlots, hkey]
              rw [hforget]
              change (c :: _).find? _ = (c :: slots.filterMap id).find? _
              rw [List.find?_cons, List.find?_cons, ih]
  exact congrArg (Option.map (·.last)) (hslots t.slots)

theorem forget_own (t : EventSeqTracker n) (interface : InterfaceNo) (ordinal : Ordinal) :
    (t.forget interface ordinal).lastSeq (interface, ordinal) = none := by
  have habsent : Absent (interface, ordinal) (forgetSlots interface ordinal t.slots) := by
    intro c hc hkey
    rcases List.mem_map.mp hc with ⟨slot, hslot, heq⟩
    cases slot with
    | none => cases heq
    | some d =>
        by_cases hd : d.interface = interface ∧ d.ordinal = ordinal
        · simp [hd] at heq
        · simp [hd] at heq
          rw [heq] at hd
          exact hd (Prod.mk.inj hkey)
  exact congrArg (Option.map (·.last)) (find_absent habsent)

theorem forget_exclusive (t : EventSeqTracker n) (interface : InterfaceNo) (ordinal : Ordinal)
    (h : t.Exclusive) : (t.forget interface ordinal).Exclusive := by
  intro k
  refine Nat.le_trans (List.Sublist.length_le ?_) (h k)
  refine List.Sublist.filter _ ?_
  change ((forgetSlots interface ordinal t.slots).filterMap id).Sublist _
  generalize t.slots = slots
  induction slots with
  | nil => exact .slnil
  | cons slot slots ih =>
      cases slot with
      | none => exact ih
      | some c =>
          by_cases hkey : c.interface = interface ∧ c.ordinal = ordinal
          · have hforget : forgetSlots interface ordinal (some c :: slots) =
                none :: forgetSlots interface ordinal slots := by
              simp [forgetSlots, hkey]
            rw [hforget]
            exact ih.cons c
          · have hforget : forgetSlots interface ordinal (some c :: slots) =
                some c :: forgetSlots interface ordinal slots := by
              simp [forgetSlots, hkey]
            rw [hforget]
            exact ih.cons_cons c

/-- A refused call found its channel untracked and every slot taken, and
    changed nothing. -/
theorem apply_full {e : TrackerFull} (h : t.apply op = some (t', some (.error e))) :
    t' = t ∧ t.lastSeq op.key = none ∧ none ∉ t.slots := by
  cases op with
  | observe interface ordinal seq =>
      rcases observe_spec t interface ordinal seq with ⟨r, t₁, hobserve, hcases⟩
      rw [apply, hobserve] at h
      cases h
      rcases observes_full hcases with ⟨hslots, habsent, hfull⟩
      refine ⟨?_, congrArg (Option.map Channel.last) (find_absent habsent), hfull⟩
      cases t₁
      cases t
      cases hslots
      rfl
  | forget interface ordinal => cases h

theorem apply_exclusive
    {answer : Option (Except TrackerFull Continuity)} (h : t.apply op = some (t', answer))
    (ht : t.Exclusive) : t'.Exclusive := by
  cases op with
  | observe interface ordinal seq =>
      rcases observe_spec t interface ordinal seq with ⟨r, t₁, hobserve, hcases⟩
      rw [apply, hobserve] at h
      cases h
      exact observes_exclusive hcases ht
  | forget interface ordinal =>
      cases h
      exact forget_exclusive t interface ordinal ht

/-- A call changes the number of its channel only, as the channel alone would
    unless it is refused. -/
theorem lastSeq_apply
    {answer : Option (Except TrackerFull Continuity)} (h : t.apply op = some (t', answer)) (k : Key) :
    match seenBy k op answer with
    | none => t'.lastSeq k = t.lastSeq k
    | some (call, r) => (r, t'.lastSeq k) = single (t.lastSeq k) call := by
  cases op with
  | observe interface ordinal seq =>
      rcases observe_spec t interface ordinal seq with ⟨r, t₁, hobserve, hcases⟩
      rw [apply, hobserve] at h
      cases h
      by_cases hkey : (interface, ordinal) = k
      · subst hkey
        cases r with
        | error e =>
            have hseen : seenBy (interface, ordinal) (.observe interface ordinal seq)
                (some (.error e)) = none := if_pos rfl
            rw [hseen]
            change (List.find? _ (t₁.slots.filterMap id)).map _ = _
            rw [(observes_full hcases).1]
            rfl
        | ok r =>
            have hseen : seenBy (interface, ordinal) (.observe interface ordinal seq)
                (some (.ok r)) = some (.observe seq, some r) := if_pos rfl
            rw [hseen]
            exact observes_own hcases
      · have hseen : seenBy k (.observe interface ordinal seq) (some r) = none := if_neg hkey
        rw [hseen]
        exact congrArg (Option.map (·.last)) (observes_other hcases (Ne.symm hkey))
  | forget interface ordinal =>
      cases h
      by_cases hkey : (interface, ordinal) = k
      · subst hkey
        have hseen : seenBy (interface, ordinal) (.forget interface ordinal) none =
            some (.forget, none) := if_pos rfl
        rw [hseen]
        change (none, (t.forget interface ordinal).lastSeq (interface, ordinal)) = _
        rw [forget_own]
        cases t.lastSeq (interface, ordinal) with
        | none => rfl
        | some last => rfl
      · have hseen : seenBy k (.forget interface ordinal) none = none := if_neg hkey
        rw [hseen]
        exact forget_other t (Ne.symm hkey)

theorem alone_concat (last : Option UInt64) (calls : List ChannelCall) (call : ChannelCall) :
    alone last (calls ++ [call]) =
      ((alone last calls).1 ++ [(single (alone last calls).2 call).1],
        (single (alone last calls).2 call).2) := by
  induction calls generalizing last with
  | nil => rfl
  | cons c calls ih => simp only [List.cons_append, alone, ih]

/-- What a channel sees of a run is the channel alone. -/
theorem seen_alone {s : EventSeqTracker n}
    {xs : List (Machine.Item (EventSeqTracker n) Op (Option (Except TrackerFull Continuity)))}
    (h : Machine.IsRun (machine n) s xs t) (k : Key) :
    alone (s.lastSeq k) ((seen k xs).map (·.1)) = ((seen k xs).map (·.2), t.lastSeq k) := by
  refine h.history (fun ys t => alone (s.lastSeq k) ((seen k ys).map (·.1)) =
    ((seen k ys).map (·.2), t.lastSeq k)) rfl ?_
  intro ys x _ _ hstep ih
  have hlast := lastSeq_apply hstep k
  unfold seen at ih ⊢
  rw [List.filterMap_append, List.filterMap_cons, List.filterMap_nil]
  cases hseen : seenBy k x.op x.answer with
  | none =>
      rw [hseen] at hlast
      rw [List.append_nil, ih]
      exact congrArg (Prod.mk _) hlast.symm
  | some r =>
      rw [hseen] at hlast
      rw [List.map_append, List.map_append, List.map_singleton, List.map_singleton, alone_concat,
        ih]
      dsimp only at hlast ⊢
      rw [← hlast]

/-- A tracked channel alone: the distances of its results lead from one number
    to another. -/
theorem distance_alone (last : UInt64) (calls : List ChannelCall)
    (h : ChannelCall.forget ∉ calls) :
    ∃ last', (alone (some last) calls).2 = some last' ∧
      last.toNat + (((alone (some last) calls).1.map distance).sum) = last'.toNat := by
  induction calls generalizing last with
  | nil => exact ⟨last, rfl, rfl⟩
  | cons call calls ih =>
      cases call with
      | forget => exact absurd List.mem_cons_self h
      | observe seq =>
          have hrest : ChannelCall.forget ∉ calls := fun hmem => h (List.mem_cons_of_mem _ hmem)
          rcases ih (if seq ≤ last then last else seq) hrest with ⟨last', hlast, hsum⟩
          refine ⟨last', hlast, ?_⟩
          change last.toNat + (distance (some (compare last seq)) + _) = _
          rw [← hsum, ← Nat.add_assoc]
          congr 1
          unfold compare
          by_cases hle : seq ≤ last
          · rw [if_pos hle, if_pos hle]
            rfl
          · have hlt := UInt64.lt_iff_toNat_lt.mp (UInt64.not_le.mp hle)
            rw [if_neg hle, if_neg hle]
            by_cases hnext : seq.toNat = last.toNat + 1
            · rw [if_pos hnext]
              exact hnext.symm
            · have hgap := UInt64.toNat_sub_of_le seq last (UInt64.le_of_lt (UInt64.not_le.mp hle))
              have hone : (1 : UInt64) ≤ seq - last := by
                rw [UInt64.le_iff_toNat_le, hgap]
                change 1 ≤ _
                omega
              have hcount := UInt64.toNat_sub_of_le _ _ hone
              rw [hgap] at hcount
              rw [if_neg hnext]
              change last.toNat + ((seq - last - 1).toNat + 1) = _
              rw [hcount]
              change last.toNat + (seq.toNat - last.toNat - 1 + 1) = _
              omega

theorem forget_not_mem_seen
    {xs : List (Machine.Item (EventSeqTracker n) Op (Option (Except TrackerFull Continuity)))}
    (h : ∀ x ∈ xs, x.op ≠ .forget k.1 k.2) : ChannelCall.forget ∉ (seen k xs).map (·.1) := by
  intro hmem
  rcases List.mem_map.mp hmem with ⟨⟨call, r⟩, hmem, hcall⟩
  rcases List.mem_filterMap.mp hmem with ⟨x, hx, hseen⟩
  subst hcall
  unfold seenBy at hseen
  split_ifs at hseen with hkey
  split at hseen
  · cases hseen
  · rename_i interface ordinal _ hop
    rw [hop] at hkey
    subst hkey
    exact h x hx hop
  · cases hseen

theorem new_exclusive (n : Nat) : (new n).Exclusive := by
  intro k
  have hslots : (new n).slots.filterMap id = [] := by
    refine List.filterMap_eq_nil_iff.mpr fun slot hslot => ?_
    exact List.eq_of_mem_replicate hslot
  rw [slotsOf, hslots]
  exact Nat.zero_le 1

theorem lastSeq_new (n : Nat) (k : Key) : (new n).lastSeq k = none := by
  have hslots : (new n).slots.filterMap id = [] := by
    refine List.filterMap_eq_nil_iff.mpr fun slot hslot => ?_
    exact List.eq_of_mem_replicate hslot
  rw [lastSeq, hslots]
  rfl

/-- **Losses are accounted for.** No sequence of calls panics. At most one slot
    tracks a channel; what a channel is answered depends on its own calls, but
    for a refusal, which finds it untracked and every slot taken, and changes
    nothing; and from a channel's first occurrence on the results add up to the
    distance of its number, as long as it is not forgotten. -/
theorem event_loss_accounted (n : Nat) (ops : List Op) :
    ∃ xs t, (machine n).exec (new n) ops = some (xs, t) ∧
      t.Exclusive ∧
      (∀ k, alone none ((seen k xs).map (·.1)) = ((seen k xs).map (·.2), t.lastSeq k)) ∧
      (∀ x ∈ xs, ∀ e, x.answer = some (.error e) →
        x.post = x.pre ∧ x.pre.lastSeq x.op.key = none ∧ none ∉ x.pre.slots) ∧
      ∀ k first front x back, xs = front ++ x :: back → x.op = .observe k.1 k.2 first →
        x.answer = some (.ok .first) → (∀ y ∈ back, y.op ≠ .forget k.1 k.2) →
        ∃ last, t.lastSeq k = some last ∧
          first.toNat + (((seen k back).map (·.2)).map distance).sum = last.toNat := by
  rcases exec_isSome (new n) ops with ⟨xs, t, hexec⟩
  have hrun := Machine.isRun_exec _ _ _ _ hexec
  refine ⟨xs, t, hexec, ?_, fun k => ?_, fun x hx e he => ?_, ?_⟩
  · exact hrun.invariant Exclusive (new_exclusive n) fun x _ hstep hpre =>
      apply_exclusive hstep hpre
  · rw [← seen_alone hrun k, lastSeq_new]
  · have hstep := hrun.step_of_mem x hx
    rw [he] at hstep
    exact apply_full hstep
  · rintro k first front x back rfl hop hanswer hforget
    rcases (Machine.isRun_append _ _ _ _).mp hrun with ⟨m, -, hpre, hstep, hback⟩
    -- The first occurrence sets the channel's number, and the rest of the run
    -- starts from there.
    have hlast := lastSeq_apply hstep k
    have hseen : seenBy k x.op x.answer = some (.observe first, some .first) := by
      rw [hop, hanswer]
      exact if_pos rfl
    rw [hseen] at hlast
    have hfirst : x.post.lastSeq k = some first := by
      cases hbefore : x.pre.lastSeq k with
      | none =>
          rw [hbefore] at hlast
          exact congrArg Prod.snd hlast
      | some last =>
          rw [hbefore] at hlast
          have hcompare := congrArg Prod.fst hlast
          change some Continuity.first = some (compare last first) at hcompare
          unfold compare at hcompare
          split_ifs at hcompare
          · cases hcompare
          · cases hcompare
          · cases hcompare
    have halone := seen_alone hback k
    rw [hfirst] at halone
    rcases distance_alone first _ (forget_not_mem_seen hforget) with ⟨last, hend, hsum⟩
    rw [halone] at hend hsum
    exact ⟨last, hend, hsum⟩

end EventSeqTracker

end Ridl
