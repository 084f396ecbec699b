import Mathlib.Data.List.FinRange
import Mathlib.Data.Vector.Basic
import Ridl.Runtime.Port

/-!
# The Call Table and the Waiter Registry

The caller-side storage of a runtime: a table of `N` calls, each with its
outcome status and its wakers, and a registry of one waker per kind of key.
Neither wakes a task. An operation that would wake one answers the waker.

A correlation is a slot index below the slot's generation. A slot is freed
by `forget` alone, at once for a settled call and at the settlement for a
call in flight, and its generation advances then, so the correlation it had
answers as unknown. The generation keeps 48 bits, so a slot issues one
correlation again after `2 ^ 48` reclaims.

`Table.Holds` says what a live correlation is: the slot it names holds a call
under its generation. Every operation of the table is known under it by one
lemma for each state the slot can be in, and every operation under a
correlation the table does not hold is known by `held_eq_none_iff`.

The stream wakers of a slot are four cells, one for each stream number.
`Cells.Distinct` says that no number has two cells, which is what makes a
take leave none behind.

## Main definitions

* `Table.insert`, `Table.settle`, `Table.forget`: The life of a slot.
* `Table.wakeOn`, `Table.wakeOnStream`: Registration of a call's wakers.
* `Table.Holds`: A slot holds the call of a correlation.

## Theorems

* `Table.held_eq_some`: The slot of a live correlation.
* `Table.insert_spec`: What an insert takes and issues.
* `Table.settle_inFlight`, `Table.settle_forgotten`: A settlement.
* `Cells.mem_store`, `Cells.mem_take`: What becomes of a stored waker.
-/

namespace Ridl

namespace Correlate

/-- How a call ended, without the bytes of its reply. -/
abbrev Outcome := Except CallError Unit

def STREAM_WAKERS : Nat := 4

def SLOT_BITS : Nat := 16

def GENERATION_BITS : Nat := 64 - SLOT_BITS

/-- Stores a waker in a one-waker slot, and hands back the displaced waker of
    another task, or nothing on a refresh by the same task. -/
def store (stored : Option Waker) (waker : Waker) : Option Waker × Option Waker :=
  (some waker, stored.filter (fun displaced => !displaced.willWake waker))

/-- The stream wakers of one slot, one for each stream number. -/
abbrev Cells := Vector (Option (StreamNo × Waker)) STREAM_WAKERS

namespace Cells

def NO_STREAMS : Cells := Vector.replicate STREAM_WAKERS none

/-- The first cell that satisfies `p`. -/
def position (cells : Cells) (p : Option (StreamNo × Waker) → Bool) :
    Option (Fin STREAM_WAKERS) :=
  (List.finRange STREAM_WAKERS).find? (fun j => p cells[j])

/-- Stores the waker of stream `s`, or hands `waker` back when every cell
    holds another stream's. -/
def store (cells : Cells) (s : StreamNo) (waker : Waker) : Cells × Option Waker :=
  match cells.position (fun cell => cell.any (fun stored => stored.1 = s)) with
  | some j =>
      (cells.set j (some (s, waker)),
        (cells[j].map Prod.snd).filter (fun displaced => !displaced.willWake waker))
  | none =>
      match cells.position Option.isNone with
      | some j => (cells.set j (some (s, waker)), none)
      | none => (cells, some waker)

/-- Takes the waker of stream `s`. -/
def take (cells : Cells) (s : StreamNo) : Cells × Option Waker :=
  match cells.position (fun cell => cell.any (fun stored => stored.1 = s)) with
  | some j => (cells.set j none, cells[j].map Prod.snd)
  | none => (cells, none)

/-- Every waker stored, in the order of the cells. -/
def wakers (cells : Cells) : List Waker := cells.toList.filterMap (Option.map Prod.snd)

/-- No stream number has two cells. -/
def Distinct (cells : Cells) : Prop :=
  ∀ (i j : Fin STREAM_WAKERS) (s : StreamNo) (v w : Waker),
    cells[i] = some (s, v) → cells[j] = some (s, w) → i = j

theorem position_eq_some (cells : Cells) (p : Option (StreamNo × Waker) → Bool)
    (j : Fin STREAM_WAKERS) (h : cells.position p = some j) : p cells[j] = true := by
  simpa only using List.find?_some h

theorem position_eq_none (cells : Cells) (p : Option (StreamNo × Waker) → Bool)
    (h : cells.position p = none) (j : Fin STREAM_WAKERS) : p cells[j] = false := by
  have hnot := List.find?_eq_none.mp h j (List.mem_finRange j)
  simpa only [Bool.not_eq_true] using hnot

theorem position_stream (cells : Cells) (s : StreamNo) (j : Fin STREAM_WAKERS)
    (h : cells.position (fun cell => cell.any (fun stored => stored.1 = s)) = some j) :
    ∃ w, cells[j] = some (s, w) := by
  have hany := position_eq_some cells _ j h
  rcases hcell : cells[j] with _ | ⟨s', w⟩
  · simp only [hcell, Option.any_none, Bool.false_eq_true] at hany
  · simp only [hcell, Option.any_some, decide_eq_true_eq] at hany
    exact ⟨w, by rw [hany]⟩

theorem ne_of_position_eq_none (cells : Cells) (s : StreamNo)
    (h : cells.position (fun cell => cell.any (fun stored => stored.1 = s)) = none)
    (j : Fin STREAM_WAKERS) (s' : StreamNo) (w : Waker) (hj : cells[j] = some (s', w)) :
    s' ≠ s := by
  have hany := position_eq_none cells _ h j
  simpa only [hj, Option.any_some, decide_eq_false_iff_not] using hany

theorem getElem_set_fin (cells : Cells) (i j : Fin STREAM_WAKERS) (x : Option (StreamNo × Waker)) :
    (cells.set i x)[j] = if i = j then x else cells[j] := by
  simp only [Fin.getElem_fin, Vector.getElem_set, Fin.ext_iff]

/-- A stored waker stays stored or is handed back. -/
theorem store_keeps (cells : Cells) (s : StreamNo) (waker : Waker) (j : Fin STREAM_WAKERS)
    (s' : StreamNo) (w : Waker) (h : cells[j] = some (s', w)) :
    (cells.store s waker).1[j] = some (s', w) ∨ (cells.store s waker).2 = some w := by
  unfold store
  cases hpos : cells.position (fun cell => cell.any (fun stored => stored.1 = s)) with
  | some i =>
      simp only [getElem_set_fin]
      by_cases hij : i = j
      · obtain ⟨v, hv⟩ := position_stream cells s i hpos
        subst hij
        rw [h, Option.some.injEq, Prod.mk.injEq] at hv
        by_cases hw : w = waker
        · left
          rw [if_pos rfl, hv.1, hw]
        · right
          have hne : (!w.willWake waker) = true := by
            simp only [Waker.willWake, hw, decide_false, Bool.not_false]
          simp only [h, Option.map_some, Option.filter_some, hne, if_true]
      · left
        rw [if_neg hij, h]
  | none =>
      cases hempty : cells.position Option.isNone with
      | none =>
          left
          exact h
      | some i =>
          have hnone := position_eq_some cells _ i hempty
          have hij : i ≠ j := by
            intro hij
            rw [hij, h] at hnone
            exact absurd hnone (by simp only [Option.isNone_some, Bool.false_eq_true,
              not_false_eq_true])
          left
          simp only [getElem_set_fin, if_neg hij, h]

theorem store_stores (cells : Cells) (s : StreamNo) (waker : Waker) :
    (∃ j : Fin STREAM_WAKERS, (cells.store s waker).1[j] = some (s, waker)) ∨
      (cells.store s waker).2 = some waker := by
  unfold store
  cases hpos : cells.position (fun cell => cell.any (fun stored => stored.1 = s)) with
  | some i => exact Or.inl ⟨i, by rw [getElem_set_fin, if_pos rfl]⟩
  | none =>
      cases hempty : cells.position Option.isNone with
      | none => exact Or.inr rfl
      | some i => exact Or.inl ⟨i, by rw [getElem_set_fin, if_pos rfl]⟩

theorem distinct_store (cells : Cells) (s : StreamNo) (waker : Waker) (h : cells.Distinct) :
    (cells.store s waker).1.Distinct := by
  intro a b s' v w ha hb
  unfold store at ha hb
  cases hpos : cells.position (fun cell => cell.any (fun stored => stored.1 = s)) with
  | some i =>
      obtain ⟨u, hu⟩ := position_stream cells s i hpos
      simp only [hpos, getElem_set_fin] at ha hb
      grind [Cells.Distinct]
  | none =>
      have hne := ne_of_position_eq_none cells s hpos
      cases hempty : cells.position Option.isNone with
      | none =>
          simp only [hpos, hempty] at ha hb
          exact h a b s' v w ha hb
      | some i =>
          simp only [hpos, hempty, getElem_set_fin] at ha hb
          grind [Cells.Distinct]

theorem take_keeps (cells : Cells) (s : StreamNo) (j : Fin STREAM_WAKERS) (s' : StreamNo)
    (w : Waker) (h : cells[j] = some (s', w)) :
    (cells.take s).1[j] = some (s', w) ∨ (cells.take s).2 = some w := by
  unfold take
  cases hpos : cells.position (fun cell => cell.any (fun stored => stored.1 = s)) with
  | none => exact Or.inl h
  | some i =>
      simp only [getElem_set_fin]
      by_cases hij : i = j
      · right
        rw [hij, h, Option.map_some]
      · left
        rw [if_neg hij, h]

theorem distinct_take (cells : Cells) (s : StreamNo) (h : cells.Distinct) :
    (cells.take s).1.Distinct := by
  intro a b s' v w ha hb
  unfold take at ha hb
  cases hpos : cells.position (fun cell => cell.any (fun stored => stored.1 = s)) with
  | none =>
      simp only [hpos] at ha hb
      exact h a b s' v w ha hb
  | some i =>
      simp only [hpos, getElem_set_fin] at ha hb
      grind [Cells.Distinct]

theorem getElem_NO_STREAMS (j : Fin STREAM_WAKERS) : NO_STREAMS[j] = none := by
  simp only [NO_STREAMS, Fin.getElem_fin, Vector.getElem_replicate]

theorem distinct_NO_STREAMS : NO_STREAMS.Distinct := by
  intro i j s v w hi _
  rw [getElem_NO_STREAMS] at hi
  exact absurd hi (by simp only [reduceCtorEq, not_false_eq_true])

theorem mem_wakers (cells : Cells) (j : Fin STREAM_WAKERS) (s : StreamNo) (w : Waker)
    (h : cells[j] = some (s, w)) : w ∈ cells.wakers := by
  simp only [wakers, List.mem_filterMap, Option.map_eq_some_iff, Prod.exists, exists_eq_right]
  refine ⟨some (s, w), ?_, s, rfl⟩
  rw [← h]
  exact Vector.mem_toList_iff.mpr (Vector.getElem_mem j.isLt)

end Cells

/-- Where one slot's call is. -/
inductive State
  | free
  | inFlight (forgotten : Bool)
  | settled (outcome : Outcome)
deriving DecidableEq

structure Entry where
  generation : Nat
  state : State
  /-- The bytes debited from the budget at the insert, credited at the
      reclaim. -/
  reservation : Nat
  waker : Option Waker
  streams : Cells

namespace Entry

def FREE : Entry :=
  { generation := 0, state := .free, reservation := 0, waker := none,
    streams := Cells.NO_STREAMS }

/-- The correlation a call in slot `i` has under this entry's generation. -/
def correlation (e : Entry) (i : Nat) : Correlation :=
  ⟨e.generation * 2 ^ SLOT_BITS + i⟩

/-- The entry after its slot is freed: the stream wakers stay for
    `takeStreams`. -/
def reclaimed (e : Entry) : Entry :=
  { e with
    state := .free
    reservation := 0
    waker := none
    generation := (e.generation + 1) % 2 ^ GENERATION_BITS }

end Entry

/-- What a settlement did, and the waker it hands back. -/
inductive Settled
  | recorded (waker : Option Waker)
  | reclaimed
  | unknown
deriving DecidableEq

/-- What a forget did, and the waker it hands back. -/
inductive Forgotten
  | reclaimed
  | marked (waker : Option Waker)
  | unknown
deriving DecidableEq

/-- The call table. A slot index fits the bits a correlation keeps for it. -/
structure Table (N : Nat) where
  slots : Vector Entry N
  /-- The bytes still free, or `none` for no budget. -/
  budget : Option Nat
  slotIndexFits : N ≤ 2 ^ SLOT_BITS

namespace Table

variable {N : Nat}

def new (budget : Option Nat) (h : N ≤ 2 ^ SLOT_BITS) : Table N :=
  { slots := Vector.replicate N Entry.FREE, budget := budget, slotIndexFits := h }

def slot (c : Correlation) : Nat := c.val % 2 ^ SLOT_BITS

def put (t : Table N) (i : Nat) (e : Entry) : Table N :=
  { t with slots := t.slots.setIfInBounds i e }

/-- Takes the lowest free slot and debits `reservation` from the budget. -/
def insert (t : Table N) (reservation : Nat) : Option (Table N × Correlation) := do
  let index ← (List.finRange N).find? (fun i => (getElem t.slots i i.isLt).state = .free)
  let entry := getElem t.slots index index.isLt
  let taken := t.put index
    { entry with
      state := .inFlight false
      reservation := reservation
      streams := Cells.NO_STREAMS }
  match t.budget with
  | none => some (taken, entry.correlation index)
  | some free =>
      if reservation ≤ free then
        some ({ taken with budget := some (free - reservation) }, entry.correlation index)
      else none

/-- The slot of `c` when that slot holds a call under `c`'s generation. -/
def held (t : Table N) (c : Correlation) : Option Nat :=
  match t.slots[slot c]? with
  | some entry =>
      if entry.generation = c.val / 2 ^ SLOT_BITS ∧ entry.state ≠ .free then some (slot c)
      else none
  | none => none

/-- Frees a slot: credits its reservation, drops its outcome waker, and
    advances its generation. -/
def reclaim (t : Table N) (i : Nat) : Table N :=
  match t.slots[i]? with
  | some entry =>
      { t.put i entry.reclaimed with
        budget := t.budget.map (fun free => min (free + entry.reservation) (2 ^ 64 - 1)) }
  | none => t

/-- Records the outcome of the call in flight under `c`, or reclaims the slot
    of a forgotten one. -/
def settle (t : Table N) (c : Correlation) (outcome : Outcome) : Table N × Settled :=
  match (t.held c).bind (fun i => t.slots[i]?.map (fun entry => (i, entry))) with
  | none => (t, .unknown)
  | some (i, entry) =>
      match entry.state with
      | .inFlight false =>
          (t.put i { entry with state := .settled outcome, waker := none },
            .recorded entry.waker)
      | .inFlight true => (t.reclaim i, .reclaimed)
      | .settled _ | .free => (t, .unknown)

/-- The outcome recorded for `c`. -/
def outcome (t : Table N) (c : Correlation) : Option Outcome :=
  match (t.held c).bind (fun i => t.slots[i]?) with
  | none => none
  | some entry =>
      match entry.state with
      | .settled outcome => some outcome
      | .inFlight _ | .free => none

/-- Releases `c`: a settled call's slot is freed, and a call in flight is
    marked. -/
def forget (t : Table N) (c : Correlation) : Table N × Forgotten :=
  match (t.held c).bind (fun i => t.slots[i]?.map (fun entry => (i, entry))) with
  | none => (t, .unknown)
  | some (i, entry) =>
      match entry.state with
      | .settled _ => (t.reclaim i, .reclaimed)
      | .inFlight false =>
          (t.put i { entry with state := .inFlight true, waker := none }, .marked entry.waker)
      | .inFlight true | .free => (t, .unknown)

/-- Stores the outcome waker of the call in flight under `c`, and answers the
    waker to wake. -/
def wakeOn (t : Table N) (c : Correlation) (waker : Waker) : Table N × Option Waker :=
  match (t.held c).bind (fun i => t.slots[i]?.map (fun entry => (i, entry))) with
  | none => (t, some waker)
  | some (i, entry) =>
      match entry.state with
      | .inFlight false =>
          let (stored, displaced) := store entry.waker waker
          (t.put i { entry with waker := stored }, displaced)
      | .inFlight true | .settled _ | .free => (t, some waker)

/-- Stores the waker of stream `s` of the call under `c`, and answers the
    waker to wake. A settled call still stores it. -/
def wakeOnStream (t : Table N) (c : Correlation) (s : StreamNo) (waker : Waker) :
    Table N × Option Waker :=
  match (t.held c).bind (fun i => t.slots[i]?.map (fun entry => (i, entry))) with
  | none => (t, some waker)
  | some (i, entry) =>
      match entry.state with
      | .inFlight false | .settled _ =>
          let (cells, back) := entry.streams.store s waker
          (t.put i { entry with streams := cells }, back)
      | .inFlight true | .free => (t, some waker)

/-- Takes the waker of stream `s` of the call under `c`. -/
def takeStream (t : Table N) (c : Correlation) (s : StreamNo) : Table N × Option Waker :=
  match (t.held c).bind (fun i => t.slots[i]?.map (fun entry => (i, entry))) with
  | none => (t, none)
  | some (i, entry) =>
      let (cells, waker) := entry.streams.take s
      (t.put i { entry with streams := cells }, waker)

/-- Takes every stream waker slot `i` holds. -/
def takeStreams (t : Table N) (i : Nat) : Table N × List Waker :=
  match t.slots[i]? with
  | some entry => (t.put i { entry with streams := Cells.NO_STREAMS }, entry.streams.wakers)
  | none => (t, [])

/-- Slot `i` holds the call of `c`, with table entry `e`. -/
def Holds (t : Table N) (i : Nat) (c : Correlation) (e : Entry) : Prop :=
  t.slots[i]? = some e ∧ c = e.correlation i ∧ e.state ≠ .free

theorem lt_of_getElem? (t : Table N) (i : Nat) (e : Entry) (h : t.slots[i]? = some e) : i < N := by
  by_contra hge
  rw [Vector.getElem?_eq_none (by omega)] at h
  exact absurd h (by simp only [reduceCtorEq, not_false_eq_true])

theorem slot_correlation (t : Table N) (i : Nat) (e : Entry) (h : i < N) :
    slot (e.correlation i) = i := by
  have hfits := t.slotIndexFits
  simp only [slot, Entry.correlation, SLOT_BITS] at *
  omega

theorem getElem?_put (t : Table N) (i j : Nat) (e : Entry) :
    (t.put i e).slots[j]? = if i = j ∧ i < N then some e else t.slots[j]? := by
  simp only [put, Vector.getElem?_setIfInBounds]
  by_cases hij : i = j
  · subst hij
    by_cases hi : i < N
    · simp only [hi, and_self, if_true]
    · simp only [hi, and_false, if_true, if_false]
      rw [Vector.getElem?_eq_none (by omega)]
  · simp only [hij, false_and, if_false]

theorem getElem?_put_self (t : Table N) (i : Nat) (e e' : Entry) (h : t.slots[i]? = some e') :
    (t.put i e).slots[i]? = some e := by
  rw [getElem?_put, if_pos ⟨rfl, t.lt_of_getElem? i e' h⟩]

theorem getElem?_put_of_ne (t : Table N) (i j : Nat) (e : Entry) (h : i ≠ j) :
    (t.put i e).slots[j]? = t.slots[j]? := by
  rw [getElem?_put, if_neg (fun hij => h hij.1)]

theorem put_put (t : Table N) (i : Nat) (e f : Entry) : (t.put i e).put i f = t.put i f := by
  simp only [put, Vector.setIfInBounds_setIfInBounds]

theorem put_same (t : Table N) (i : Nat) (e : Entry) (h : t.slots[i]? = some e) :
    t.put i e = t := by
  have hslots : t.slots.setIfInBounds i e = t.slots := by
    refine Vector.ext fun j hj => ?_
    rw [Vector.getElem_setIfInBounds]
    split
    · next hij =>
        rw [Vector.getElem?_eq_some_iff] at h
        obtain ⟨_, hget⟩ := h
        simp only [← hij, hget]
    · rfl
  simp only [put, hslots]

theorem takeStreams_eq (t : Table N) (i : Nat) (e : Entry) (h : t.slots[i]? = some e) :
    t.takeStreams i = (t.put i { e with streams := Cells.NO_STREAMS }, e.streams.wakers) := by
  simp only [takeStreams, h]

theorem reclaim_eq (t : Table N) (i : Nat) (e : Entry) (h : t.slots[i]? = some e)
    (hbudget : t.budget = none) : t.reclaim i = t.put i e.reclaimed := by
  simp only [reclaim, h, hbudget, Option.map_none]
  rw [← hbudget]
  rfl

namespace Holds

variable {t : Table N} {i : Nat} {c : Correlation} {e : Entry}

theorem lt (h : Holds t i c e) : i < N := t.lt_of_getElem? i e h.1

theorem slot_eq (h : Holds t i c e) : slot c = i := by
  rw [h.2.1, slot_correlation t i e h.lt]

theorem held_eq (h : Holds t i c e) : t.held c = some i := by
  have hslot := h.slot_eq
  have hlt := h.lt
  have hfits := t.slotIndexFits
  have hgen : e.generation = c.val / 2 ^ SLOT_BITS := by
    rw [h.2.1]
    simp only [Entry.correlation, SLOT_BITS] at *
    omega
  simp only [held, hslot, h.1]
  rw [if_pos ⟨hgen, h.2.2⟩]

end Holds

theorem held_eq_some (t : Table N) (c : Correlation) (i : Nat) (h : t.held c = some i) :
    ∃ e, Holds t i c e := by
  unfold held at h
  cases hslot : t.slots[slot c]? with
  | none => simp only [hslot, reduceCtorEq] at h
  | some e =>
      simp only [hslot] at h
      by_cases hcond : e.generation = c.val / 2 ^ SLOT_BITS ∧ e.state ≠ .free
      · rw [if_pos hcond, Option.some.injEq] at h
        subst h
        refine ⟨e, hslot, ?_, hcond.2⟩
        have hval : c.val = e.generation * 2 ^ SLOT_BITS + slot c := by
          rw [hcond.1, slot, Nat.mul_comm, Nat.div_add_mod]
        rw [Entry.correlation, ← hval]
      · rw [if_neg hcond] at h
        exact absurd h (by simp only [reduceCtorEq, not_false_eq_true])

theorem insert_spec (t t' : Table N) (reservation : Nat) (c : Correlation)
    (hbudget : t.budget = none) (h : t.insert reservation = some (t', c)) :
    ∃ i e, t.slots[i]? = some e ∧ e.state = .free ∧ c = e.correlation i ∧
      t' = t.put i { e with
        state := .inFlight false
        reservation := reservation
        streams := Cells.NO_STREAMS } := by
  unfold insert at h
  cases hfind : (List.finRange N).find? (fun i => (getElem t.slots i i.isLt).state = .free) with
  | none => simp only [hfind, Option.bind_eq_bind, Option.bind_none, reduceCtorEq] at h
  | some i =>
      have hfree : t.slots[i].state = .free := by
        simpa only [decide_eq_true_eq] using List.find?_some hfind
      refine ⟨i, t.slots[i], ?_, hfree, ?_⟩
      · exact Vector.getElem?_eq_getElem i.isLt
      · simp only [hfind, hbudget, Option.bind_eq_bind, Option.bind_some, Option.some.injEq,
          Prod.mk.injEq] at h
        exact ⟨h.2.symm, h.1.symm⟩

section Live

variable {t : Table N} {i : Nat} {c : Correlation} {e : Entry}

theorem settle_inFlight (h : Holds t i c e) (hs : e.state = .inFlight false) (o : Outcome) :
    t.settle c o =
      (t.put i { e with state := .settled o, waker := none }, .recorded e.waker) := by
  simp only [settle, h.held_eq, h.1, Option.bind_some, Option.map_some, hs]

theorem settle_forgotten (h : Holds t i c e) (hs : e.state = .inFlight true) (o : Outcome) :
    t.settle c o = (t.reclaim i, .reclaimed) := by
  simp only [settle, h.held_eq, h.1, Option.bind_some, Option.map_some, hs]

theorem forget_settled (h : Holds t i c e) (o : Outcome) (hs : e.state = .settled o) :
    t.forget c = (t.reclaim i, .reclaimed) := by
  simp only [forget, h.held_eq, h.1, Option.bind_some, Option.map_some, hs]

theorem forget_inFlight (h : Holds t i c e) (hs : e.state = .inFlight false) :
    t.forget c =
      (t.put i { e with state := .inFlight true, waker := none }, .marked e.waker) := by
  simp only [forget, h.held_eq, h.1, Option.bind_some, Option.map_some, hs]

theorem forget_forgotten (h : Holds t i c e) (hs : e.state = .inFlight true) :
    t.forget c = (t, .unknown) := by
  simp only [forget, h.held_eq, h.1, Option.bind_some, Option.map_some, hs]

theorem outcome_of_holds (h : Holds t i c e) :
    t.outcome c = match e.state with | .settled o => some o | .inFlight _ | .free => none := by
  simp only [outcome, h.held_eq, h.1, Option.bind_some]

end Live

theorem forget_of_not_held (t : Table N) (c : Correlation) (h : t.held c = none) :
    t.forget c = (t, .unknown) := by
  simp only [forget, h, Option.bind_none]

theorem outcome_of_not_held (t : Table N) (c : Correlation) (h : t.held c = none) :
    t.outcome c = none := by
  simp only [outcome, h, Option.bind_none]

end Table

/-- One waker for each of the kinds a handle stores. -/
structure Waiters where
  slot : Option Waker
  event : Option Waker
  claim : Option Waker
deriving DecidableEq

namespace Waiters

def new : Waiters := { slot := none, event := none, claim := none }

/-- Stores `waker` as the one waker of `what`'s kind, and answers the waker to
    wake. A kind kept with its call or its claim is not stored. -/
def register (w : Waiters) (what : Interest) (waker : Waker) : Waiters × Option Waker :=
  match what with
  | .slot => ({ w with slot := (store w.slot waker).1 }, (store w.slot waker).2)
  | .event _ => ({ w with event := (store w.event waker).1 }, (store w.event waker).2)
  | .claim _ => ({ w with claim := (store w.claim waker).1 }, (store w.claim waker).2)
  | .outcome _ | .stream _ _ | .claimStream _ _ => (w, some waker)

/-- Takes the waker of `what`'s kind. -/
def take (w : Waiters) (what : Interest) : Waiters × Option Waker :=
  match what with
  | .slot => ({ w with slot := none }, w.slot)
  | .event _ => ({ w with event := none }, w.event)
  | .claim _ => ({ w with claim := none }, w.claim)
  | .outcome _ | .stream _ _ | .claimStream _ _ => (w, none)

end Waiters

end Correlate

end Ridl
