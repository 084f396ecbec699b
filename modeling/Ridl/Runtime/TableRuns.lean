import Ridl.Library.Run
import Ridl.Runtime.Correlate

/-!
# Runs of the Call Table

The call table as a machine: what a runtime asks of it, in any order, and what
each operation answers. No operation fails, so every list of operations is a
run.

An operation moves one slot at most. `SlotStep` lists the moves of a slot,
with what each does to the byte budget, and `Table.step_cases` says that every
operation is one of them or leaves the table as it was. What a run keeps of
every slot is proved on these moves.

## Main definitions

* `TableOp`, `TableAnswer`: The operations and their answers.
* `Table.step`: One operation.

## Theorems

* `Table.step_cases`: Every operation is a move of one slot, or none.
* `entry_of_run`: What a step of a run does to a slot.
-/

namespace Ridl

namespace Correlate

open Library

/-- What a runtime asks of its call table. -/
inductive TableOp
  | insert (reservation : UInt64)
  | settle (c : Correlation) (outcome : Outcome)
  | forget (c : Correlation)
  | wakeOn (c : Correlation) (waker : Waker)
  | wakeOnStream (c : Correlation) (s : StreamNo) (waker : Waker)
  | takeStream (c : Correlation) (s : StreamNo)
  | takeStreams (slot : Nat)

inductive TableAnswer
  | inserted (c : Option Correlation)
  | settled (s : Settled)
  | forgotten (f : Forgotten)
  | registered (displaced : Option Waker)
  | took (waker : Option Waker)
  | tookAll (wakers : List Waker)

namespace TableAnswer

/-- The wakers an answer hands back. -/
def wakers : TableAnswer → List Waker
  | .settled (.recorded w) => w.toList
  | .forgotten (.marked w) => w.toList
  | .registered w | .took w => w.toList
  | .tookAll ws => ws
  | .inserted _ | .settled _ | .forgotten _ => []

/-- The operation freed a slot. -/
def reclaims : TableAnswer → Bool
  | .settled .reclaimed | .forgotten .reclaimed => true
  | _ => false

end TableAnswer

/-- The operation is about the call of `c`, or about its slot. -/
def TableOp.about (c : Correlation) : TableOp → Prop
  | .settle c' _ | .forget c' | .wakeOn c' _ | .wakeOnStream c' _ _ | .takeStream c' _ => c' = c
  | .takeStreams i => i = Table.slot c
  | .insert _ => False

namespace Table

variable {N : Nat}

def step (t : Table N) : TableOp → Table N × TableAnswer
  | .insert reservation =>
      match t.insert reservation.toNat with
      | some (t, c) => (t, .inserted (some c))
      | none => (t, .inserted none)
  | .settle c outcome =>
      let (t, settled) := t.settle c outcome
      (t, .settled settled)
  | .forget c =>
      let (t, forgotten) := t.forget c
      (t, .forgotten forgotten)
  | .wakeOn c waker =>
      let (t, back) := t.wakeOn c waker
      (t, .registered back)
  | .wakeOnStream c s waker =>
      let (t, back) := t.wakeOnStream c s waker
      (t, .registered back)
  | .takeStream c s =>
      let (t, waker) := t.takeStream c s
      (t, .took waker)
  | .takeStreams i =>
      let (t, wakers) := t.takeStreams i
      (t, .tookAll wakers)

end Table

/-- A table of `N` calls with its budget, from its start. -/
def callTable (N : Nat) (budget : Option UInt64) (h : N ≤ 2 ^ SLOT_BITS) :
    Machine (Table N) TableOp TableAnswer :=
  { init := Table.new (budget.map UInt64.toNat) h
    step := fun t op => some (t.step op) }

abbrev TableStep (N : Nat) := Machine.Item (Table N) TableOp TableAnswer

/-- The moves of slot `i`, from an entry and a budget to the next. -/
inductive SlotStep (i : Nat) (e : Entry) (b : Option Nat) :
    TableOp → TableAnswer → Entry → Option Nat → Prop
  | issued (r : UInt64) (hfree : e.state = .free) (hr : ∀ free, b = some free → r.toNat ≤ free) :
      SlotStep i e b (.insert r) (.inserted (some (e.correlation i)))
        { e with
          state := .inFlight false
          reservation := r.toNat
          streams := Cells.NO_STREAMS }
        (b.map (fun free => free - r.toNat))
  | recorded (o : Outcome) (hs : e.state = .inFlight false) :
      SlotStep i e b (.settle (e.correlation i) o) (.settled (.recorded e.waker))
        { e with state := .settled o, waker := none } b
  | marked (hs : e.state = .inFlight false) :
      SlotStep i e b (.forget (e.correlation i)) (.forgotten (.marked e.waker))
        { e with state := .inFlight true, waker := none } b
  | ended (o : Outcome) (hs : e.state = .inFlight true) :
      SlotStep i e b (.settle (e.correlation i) o) (.settled .reclaimed) e.reclaimed
        (b.map (fun free => min (free + e.reservation) (2 ^ 64 - 1)))
  | released (o : Outcome) (hs : e.state = .settled o) :
      SlotStep i e b (.forget (e.correlation i)) (.forgotten .reclaimed) e.reclaimed
        (b.map (fun free => min (free + e.reservation) (2 ^ 64 - 1)))
  | stored (w : Waker) (hs : e.state = .inFlight false) :
      SlotStep i e b (.wakeOn (e.correlation i) w) (.registered (store e.waker w).2)
        { e with waker := (store e.waker w).1 } b
  | streamStored (s : StreamNo) (w : Waker) (hs : e.state ≠ .free)
      (hlive : e.state ≠ .inFlight true) :
      SlotStep i e b (.wakeOnStream (e.correlation i) s w)
        (.registered (e.streams.store s w).2) { e with streams := (e.streams.store s w).1 } b
  | streamTaken (s : StreamNo) (hs : e.state ≠ .free) :
      SlotStep i e b (.takeStream (e.correlation i) s) (.took (e.streams.take s).2)
        { e with streams := (e.streams.take s).1 } b
  | streamsTaken :
      SlotStep i e b (.takeStreams i) (.tookAll e.streams.wakers)
        { e with streams := Cells.NO_STREAMS } b

/-- The answers of an operation that leaves the table as it was. -/
inductive Unmoved : TableOp → TableAnswer → Prop
  | refused (r : UInt64) : Unmoved (.insert r) (.inserted none)
  | settle (c : Correlation) (o : Outcome) : Unmoved (.settle c o) (.settled .unknown)
  | forget (c : Correlation) : Unmoved (.forget c) (.forgotten .unknown)
  | wakeOn (c : Correlation) (w : Waker) : Unmoved (.wakeOn c w) (.registered (some w))
  | wakeOnStream (c : Correlation) (s : StreamNo) (w : Waker) :
      Unmoved (.wakeOnStream c s w) (.registered (some w))
  | takeStream (c : Correlation) (s : StreamNo) : Unmoved (.takeStream c s) (.took none)
  | takeStreams (i : Nat) : Unmoved (.takeStreams i) (.tookAll [])

namespace Table

variable {N : Nat} {t t' : Table N} {op : TableOp} {a : TableAnswer}

/-- A table with a slot and the budget replaced. -/
def moved (t : Table N) (i : Nat) (e : Entry) (b : Option Nat) : Table N :=
  { t.put i e with budget := b }

theorem getElem?_moved_self (i : Nat) (e e' : Entry) (b : Option Nat) (h : t.slots[i]? = some e) :
    (t.moved i e' b).slots[i]? = some e' :=
  t.getElem?_put_self i e' e h

theorem getElem?_moved_of_ne (i j : Nat) (e : Entry) (b : Option Nat) (h : i ≠ j) :
    (t.moved i e b).slots[j]? = t.slots[j]? :=
  t.getElem?_put_of_ne i j e h

def Full (t : Table N) : Prop :=
  ∀ (i : Nat) (e : Entry), t.slots[i]? = some e → e.state ≠ .free

/-- What an insert takes and issues, with a budget or without. -/
theorem insert_cases (r : Nat) :
    (t.insert r = none ∧ (t.Full ∨ ∃ free, t.budget = some free ∧ free < r)) ∨
    ∃ (i : Nat) (e : Entry), t.slots[i]? = some e ∧ e.state = .free ∧ (∀ free, t.budget = some free → r ≤ free) ∧
      t.insert r = some (t.moved i { e with
        state := .inFlight false
        reservation := r
        streams := Cells.NO_STREAMS } (t.budget.map (fun free => free - r)), e.correlation i) := by
  unfold insert
  cases hfind : (List.finRange N).find? (fun i => t.slots[i].state = .free) with
  | none =>
      refine Or.inl ⟨rfl, Or.inl fun i e he hfree => ?_⟩
      have hlt := t.lt_of_getElem? i e he
      rw [Vector.getElem?_eq_getElem hlt, Option.some.injEq] at he
      have hnot := List.find?_eq_none.mp hfind ⟨i, hlt⟩ (List.mem_finRange _)
      simp only [Fin.getElem_fin, he, hfree, decide_true, not_true_eq_false] at hnot
  | some i =>
      have hfree : t.slots[i].state = .free := by
        simpa only [decide_eq_true_eq] using List.find?_some hfind
      have hget : t.slots[i.val]? = some t.slots[i] := Vector.getElem?_eq_getElem i.isLt
      simp only [Option.bind_eq_bind, Option.bind_some]
      cases hbudget : t.budget with
      | none =>
          refine Or.inr ⟨i, t.slots[i], hget, hfree, ?_, ?_⟩
          · exact fun free h => absurd h (Option.some_ne_none free).symm
          simp only [Option.map_none, moved]
          rw [← hbudget]
          rfl
      | some free =>
          by_cases hr : r ≤ free
          · refine Or.inr ⟨i, t.slots[i], hget, hfree, ?_, ?_⟩
            · rintro _ ⟨⟩
              exact hr
            · simp only [if_pos hr, Option.map_some, moved]
          · refine Or.inl ⟨if_neg hr, Or.inr ⟨free, rfl, by omega⟩⟩

theorem reclaim_moved (i : Nat) (e : Entry) (h : t.slots[i]? = some e) :
    t.reclaim i = t.moved i e.reclaimed
      (t.budget.map (fun free => min (free + e.reservation) (2 ^ 64 - 1))) := by
  simp only [reclaim, h, moved]

section NotHeld

variable (c : Correlation) (h : t.held c = none)

include h

theorem settle_of_not_held (o : Outcome) : t.settle c o = (t, .unknown) := by
  simp only [settle, h, Option.bind_none]

theorem wakeOn_of_not_held (w : Waker) : t.wakeOn c w = (t, some w) := by
  simp only [wakeOn, h, Option.bind_none]

theorem wakeOnStream_of_not_held (s : StreamNo) (w : Waker) :
    t.wakeOnStream c s w = (t, some w) := by
  simp only [wakeOnStream, h, Option.bind_none]

theorem takeStream_of_not_held (s : StreamNo) : t.takeStream c s = (t, none) := by
  simp only [takeStream, h, Option.bind_none]

end NotHeld

section Live

variable {i : Nat} {c : Correlation} {e : Entry} (h : t.Holds i c e)

include h

theorem settle_settled (o' : Outcome) (hs : e.state = .settled o') (o : Outcome) :
    t.settle c o = (t, .unknown) := by
  simp only [settle, h.held_eq, h.1, Option.bind_some, Option.map_some, hs]

theorem wakeOn_inFlight (hs : e.state = .inFlight false) (w : Waker) :
    t.wakeOn c w =
      (t.put i { e with waker := (store e.waker w).1 }, (store e.waker w).2) := by
  simp only [wakeOn, h.held_eq, h.1, Option.bind_some, Option.map_some, hs]

theorem wakeOn_ended (hs : e.state ≠ .inFlight false) (w : Waker) :
    t.wakeOn c w = (t, some w) := by
  simp only [wakeOn, h.held_eq, h.1, Option.bind_some, Option.map_some]
  split
  · next hstate => exact absurd hstate hs
  all_goals rfl

theorem wakeOnStream_live (hs : e.state ≠ .inFlight true) (s : StreamNo) (w : Waker) :
    t.wakeOnStream c s w =
      (t.put i { e with streams := (e.streams.store s w).1 }, (e.streams.store s w).2) := by
  simp only [wakeOnStream, h.held_eq, h.1, Option.bind_some, Option.map_some]
  split
  · rfl
  · rfl
  · next hstate => exact absurd hstate hs
  · next hstate => exact absurd hstate h.2.2

theorem wakeOnStream_forgotten (hs : e.state = .inFlight true) (s : StreamNo) (w : Waker) :
    t.wakeOnStream c s w = (t, some w) := by
  simp only [wakeOnStream, h.held_eq, h.1, Option.bind_some, Option.map_some, hs]

theorem takeStream_live (s : StreamNo) :
    t.takeStream c s =
      (t.put i { e with streams := (e.streams.take s).1 }, (e.streams.take s).2) := by
  simp only [takeStream, h.held_eq, h.1, Option.bind_some, Option.map_some]

end Live

/-- What one operation is: a move of one slot, or none. -/
def Steps (t : Table N) (op : TableOp) (a : TableAnswer) (t' : Table N) : Prop :=
  (t' = t ∧ Unmoved op a) ∨
  ∃ (i : Nat) (e e' : Entry) (b' : Option Nat), t.slots[i]? = some e ∧
    SlotStep i e t.budget op a e' b' ∧ t' = t.moved i e' b'

theorem Steps.kept (hstep : t.step op = (t, a)) (h : Unmoved op a) :
    Steps t op (t.step op).2 (t.step op).1 := by
  rw [hstep]
  exact Or.inl ⟨rfl, h⟩

theorem Steps.move {i : Nat} {e e' : Entry} {b' : Option Nat}
    (hstep : t.step op = (t.moved i e' b', a)) (he : t.slots[i]? = some e)
    (h : SlotStep i e t.budget op a e' b') : Steps t op (t.step op).2 (t.step op).1 := by
  rw [hstep]
  exact Or.inr ⟨i, e, e', b', he, h, rfl⟩

theorem step_cases (t : Table N) (op : TableOp) : Steps t op (t.step op).2 (t.step op).1 := by
  cases op with
  | insert r =>
      rcases t.insert_cases r.toNat with ⟨hnone, _⟩ | ⟨i, e, he, hfree, hr, hsome⟩
      · exact .kept (by rw [step, hnone]) (.refused r)
      · exact .move (by rw [step, hsome]) he (.issued r hfree hr)
  | settle c o =>
      cases hheld : t.held c with
      | none => exact .kept (by rw [step, settle_of_not_held c hheld]) (.settle c o)
      | some i =>
          rcases t.held_eq_some c i hheld with ⟨e, h⟩
          rcases h.2.1 with rfl
          rcases hs : e.state with _ | forgotten | o'
          · exact absurd hs h.2.2
          · cases forgotten with
            | false =>
                exact .move (by rw [step, settle_inFlight h hs o]; rfl) h.1 (.recorded o hs)
            | true =>
                exact .move (by rw [step, settle_forgotten h hs o, t.reclaim_moved i e h.1]) h.1
                  (.ended o hs)
          · exact .kept (by rw [step, settle_settled h o' hs o]) (.settle _ o)
  | forget c =>
      cases hheld : t.held c with
      | none => exact .kept (by rw [step, t.forget_of_not_held c hheld]) (.forget c)
      | some i =>
          rcases t.held_eq_some c i hheld with ⟨e, h⟩
          rcases h.2.1 with rfl
          rcases hs : e.state with _ | forgotten | o'
          · exact absurd hs h.2.2
          · cases forgotten with
            | false => exact .move (by rw [step, forget_inFlight h hs]; rfl) h.1 (.marked hs)
            | true => exact .kept (by rw [step, forget_forgotten h hs]) (.forget _)
          · exact .move (by rw [step, forget_settled h o' hs, t.reclaim_moved i e h.1]) h.1
              (.released o' hs)
  | wakeOn c w =>
      cases hheld : t.held c with
      | none => exact .kept (by rw [step, wakeOn_of_not_held c hheld]) (.wakeOn c w)
      | some i =>
          rcases t.held_eq_some c i hheld with ⟨e, h⟩
          rcases h.2.1 with rfl
          by_cases hs : e.state = .inFlight false
          · exact .move (by rw [step, wakeOn_inFlight h hs w]; rfl) h.1 (.stored w hs)
          · exact .kept (by rw [step, wakeOn_ended h hs w]) (.wakeOn _ w)
  | wakeOnStream c s w =>
      cases hheld : t.held c with
      | none => exact .kept (by rw [step, wakeOnStream_of_not_held c hheld]) (.wakeOnStream c s w)
      | some i =>
          rcases t.held_eq_some c i hheld with ⟨e, h⟩
          rcases h.2.1 with rfl
          by_cases hs : e.state = .inFlight true
          · exact .kept (by rw [step, wakeOnStream_forgotten h hs s w]) (.wakeOnStream _ s w)
          · exact .move (by rw [step, wakeOnStream_live h hs s w]; rfl) h.1
              (.streamStored s w h.2.2 hs)
  | takeStream c s =>
      cases hheld : t.held c with
      | none => exact .kept (by rw [step, takeStream_of_not_held c hheld]) (.takeStream c s)
      | some i =>
          rcases t.held_eq_some c i hheld with ⟨e, h⟩
          rcases h.2.1 with rfl
          exact .move (by rw [step, takeStream_live h s]; rfl) h.1 (.streamTaken s h.2.2)
  | takeStreams i =>
      cases he : t.slots[i]? with
      | none => exact .kept (by rw [step, takeStreams, he]) (.takeStreams i)
      | some e => exact .move (by rw [step, t.takeStreams_eq i e he]; rfl) he .streamsTaken

end Table

section Run

variable {N : Nat} {budget : Option UInt64} {hN : N ≤ 2 ^ SLOT_BITS} {s t : Table N}
  {xs : List (TableStep N)}

/-- Every step of a run is a move of one slot, or leaves the table as it was. -/
theorem step_of_run (h : (callTable N budget hN).IsRun s xs t) (x : TableStep N) (hx : x ∈ xs) :
    Table.Steps x.pre x.op x.answer x.post := by
  have hstep : x.pre.step x.op = (x.post, x.answer) := Option.some.inj (h.step_of_mem x hx)
  have hcases := x.pre.step_cases x.op
  rw [hstep] at hcases
  exact hcases

theorem entry_of_run (h : (callTable N budget hN).IsRun s xs t) (x : TableStep N) (hx : x ∈ xs)
    (i : Nat) (e : Entry) (he : x.pre.slots[i]? = some e) :
    ∃ e', x.post.slots[i]? = some e' ∧
      (e' = e ∨ ∃ b', SlotStep i e x.pre.budget x.op x.answer e' b') := by
  rcases step_of_run h x hx with ⟨hsame, _⟩ | ⟨j, f, f', b', hf, hmove, hstep⟩
  · rw [hsame]
    exact ⟨e, he, Or.inl rfl⟩
  · rw [hstep]
    by_cases hij : j = i
    · rw [hij] at hf hmove ⊢
      rcases Option.some.inj (hf.symm.trans he) with rfl
      exact ⟨f', Table.getElem?_moved_self i f f' b' hf, Or.inr ⟨b', hmove⟩⟩
    · rw [Table.getElem?_moved_of_ne j i f' b' hij]
      exact ⟨e, he, Or.inl rfl⟩

theorem getElem?_new (b : Option Nat) (i : Nat) (e : Entry)
    (h : (Table.new b hN).slots[i]? = some e) : e = Entry.FREE := by
  rw [Table.new, Vector.getElem?_replicate] at h
  split at h
  · exact (Option.some.inj h).symm
  · exact absurd h (Option.some_ne_none e).symm

theorem slots_of_run (h : (callTable N budget hN).IsRun s xs t) (P : Nat → Entry → Prop)
    (hs : ∀ (i : Nat) (e : Entry), s.slots[i]? = some e → P i e)
    (hmove : ∀ (i : Nat) (e e' : Entry) (b b' : Option Nat) (op : TableOp) (a : TableAnswer),
      SlotStep i e b op a e' b' → P i e → P i e')
    (i : Nat) (e : Entry) (he : t.slots[i]? = some e) : P i e := by
  refine h.invariant (fun t => ∀ (i : Nat) (e : Entry), t.slots[i]? = some e → P i e) hs ?_ i e he
  intro x hx hstep hpre i e he
  have hlt := x.post.lt_of_getElem? i e he
  have hold : x.pre.slots[i]? = some x.pre.slots[i] := Vector.getElem?_eq_getElem hlt
  rcases entry_of_run h x hx i _ hold with ⟨e', he', hcase⟩
  rcases Option.some.inj (he.symm.trans he') with rfl
  rcases hcase with hsame | ⟨b', hstep⟩
  · rw [hsame]
    exact hpre i _ hold
  · exact hmove i _ _ _ _ _ _ hstep (hpre i _ hold)

end Run

end Correlate

end Ridl
