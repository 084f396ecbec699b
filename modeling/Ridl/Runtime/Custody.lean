import Ridl.Runtime.Conservation

/-!
# What Becomes of a Waker

A call table stores one outcome waker for a call and one waker for each of
its streams, and wakes none. A waker handed to it is a task asleep, so it has
to come back.

An outcome waker is stored for a call in flight that was not forgotten, and
for no other, so the two operations that end such a call hand it back and the
ones that reuse its slot find none. A stream waker outlives its call: a
reclaim leaves it in its cell for `takeStreams`, and the slot's next insert
clears what is left. So a runtime that takes the streams of a slot after each
settlement and forget loses none, and `stream_cleared` is a run of one that
does not.

## Main definitions

* `Table.StoresOutcome`, `Table.StoresStream`: A waker of the task is stored.
* `TableStep.handsBack`: A step about the call answered the waker.

## Theorems

* `SlotStep.sound`: Every move keeps the wakers sound.
* `SlotStep.outcome`, `SlotStep.stream`: A stored waker stays or is handed
  back.
* `empty_of_taken`: An insert finds the cells of its slot empty.
* `custody`: What becomes of every waker in every run.
* `stream_cleared`: A stream waker lost where the streams are not taken.
-/

namespace Ridl

namespace Correlate

open Library

/-- An outcome waker is stored for a call in flight, and a stream has one
    cell. -/
structure Entry.Sound (e : Entry) : Prop where
  waiting : e.waker ≠ none → e.state = .inFlight false
  distinct : e.streams.Distinct

theorem Entry.sound_FREE : Entry.FREE.Sound :=
  { waiting := fun h => absurd rfl h
    distinct := Cells.distinct_NO_STREAMS }

section Move

variable {i : Nat} {e e' : Entry} {b b' : Option Nat} {op : TableOp} {a : TableAnswer}

theorem SlotStep.sound (h : SlotStep i e b op a e' b') (hsound : e.Sound) : e'.Sound := by
  cases h with
  | issued r hfree hr => exact ⟨fun _ => rfl, Cells.distinct_NO_STREAMS⟩
  | recorded o hs => exact ⟨fun h => absurd rfl h, hsound.distinct⟩
  | marked hs => exact ⟨fun h => absurd rfl h, hsound.distinct⟩
  | ended o hs => exact ⟨fun h => absurd rfl h, hsound.distinct⟩
  | released o hs => exact ⟨fun h => absurd rfl h, hsound.distinct⟩
  | stored w hs => exact ⟨fun _ => hs, hsound.distinct⟩
  | streamStored s w hs hlive =>
      exact ⟨hsound.waiting, Cells.distinct_store e.streams s w hsound.distinct⟩
  | streamTaken s hs => exact ⟨hsound.waiting, Cells.distinct_take e.streams s hsound.distinct⟩
  | streamsTaken => exact ⟨hsound.waiting, Cells.distinct_NO_STREAMS⟩

theorem SlotStep.outcome (h : SlotStep i e b op a e' b') (hsound : e.Sound) (w : Waker)
    (hw : e.waker = some w) :
    (e'.waker = some w ∧ e'.correlation i = e.correlation i ∧ e'.state ≠ .free) ∨
      (op.about (e.correlation i) ∧ w ∈ a.wakers) := by
  have hstate : e.state = .inFlight false :=
    hsound.waiting (by rw [hw]; exact Option.some_ne_none w)
  have hback : w ∈ e.waker.toList := by rw [hw]; exact List.mem_singleton_self w
  have hlive : e.state ≠ .free := by rw [hstate]; exact State.noConfusion
  cases h with
  | issued r hfree hr => exact absurd hfree hlive
  | recorded o hs => exact Or.inr ⟨rfl, hback⟩
  | marked hs => exact Or.inr ⟨rfl, hback⟩
  | ended o hs => rw [hstate] at hs; cases hs
  | released o hs => rw [hstate] at hs; cases hs
  | stored v hs =>
      by_cases hv : w.willWake v = true
      · rw [Waker.willWake_iff] at hv
        exact Or.inl ⟨congrArg some hv.symm, rfl, hlive⟩
      · refine Or.inr ⟨rfl, ?_⟩
        rw [Bool.not_eq_true] at hv
        simp only [TableAnswer.wakers, store, hw, Option.filter_some, hv, Bool.not_false, if_true,
          Option.toList_some, List.mem_singleton]
  | streamStored s v hs hl => exact Or.inl ⟨hw, rfl, hlive⟩
  | streamTaken s hs => exact Or.inl ⟨hw, rfl, hlive⟩
  | streamsTaken => exact Or.inl ⟨hw, rfl, hlive⟩

theorem SlotStep.stream (h : SlotStep i e b op a e' b') (c : Correlation)
    (hslot : Table.slot c = i) (hc : e.correlation i = c ∨ e.state = .free) (s : StreamNo)
    (w : Waker) (j : Fin STREAM_WAKERS) (hw : e.streams[j] = some (s, w)) :
    ((∃ k : Fin STREAM_WAKERS, getElem e'.streams k k.isLt = some (s, w)) ∧
        (e'.correlation i = c ∨ e'.state = .free)) ∨
      (op.about c ∧ w ∈ a.wakers) ∨ a = .inserted (some (e.correlation i)) := by
  have hlive : e.state ≠ .free → e.correlation i = c := fun hs => hc.resolve_right hs
  cases h with
  | issued r hfree hr => exact Or.inr (Or.inr rfl)
  | recorded o hs =>
      exact Or.inl ⟨⟨j, hw⟩, Or.inl (hlive (by rw [hs]; exact State.noConfusion))⟩
  | marked hs => exact Or.inl ⟨⟨j, hw⟩, Or.inl (hlive (by rw [hs]; exact State.noConfusion))⟩
  | ended o hs => exact Or.inl ⟨⟨j, hw⟩, Or.inr rfl⟩
  | released o hs => exact Or.inl ⟨⟨j, hw⟩, Or.inr rfl⟩
  | stored v hs => exact Or.inl ⟨⟨j, hw⟩, hc⟩
  | streamStored s' v hs hl =>
      rcases Cells.store_keeps e.streams s' v j s w hw with hkept | hback
      · exact Or.inl ⟨⟨j, hkept⟩, hc⟩
      · refine Or.inr (Or.inl ⟨hlive hs, ?_⟩)
        simp only [TableAnswer.wakers, hback, Option.toList_some, List.mem_singleton]
  | streamTaken s' hs =>
      rcases Cells.take_keeps e.streams s' j s w hw with hkept | hback
      · exact Or.inl ⟨⟨j, hkept⟩, hc⟩
      · refine Or.inr (Or.inl ⟨hlive hs, ?_⟩)
        simp only [TableAnswer.wakers, hback, Option.toList_some, List.mem_singleton]
  | streamsTaken => exact Or.inr (Or.inl ⟨hslot.symm, Cells.mem_wakers e.streams j s w hw⟩)

theorem SlotStep.freed (h : SlotStep i e b op a e' b') (hfree : e'.state = .free) :
    op = .takeStreams i ∨ (e.state ≠ .free ∧ a.reclaims = true ∧
      ((∃ o, op = .settle (e.correlation i) o) ∨ op = .forget (e.correlation i))) := by
  cases h with
  | issued r hs hr => cases hfree
  | recorded o hs => cases hfree
  | marked hs => cases hfree
  | ended o hs => exact Or.inr ⟨by rw [hs]; exact State.noConfusion, rfl, Or.inl ⟨o, rfl⟩⟩
  | released o hs => exact Or.inr ⟨by rw [hs]; exact State.noConfusion, rfl, Or.inr rfl⟩
  | stored v hs => rw [hs] at hfree; cases hfree
  | streamStored s v hs hl => exact absurd hfree hs
  | streamTaken s hs => exact absurd hfree hs
  | streamsTaken => exact Or.inl rfl

theorem SlotStep.ended_of_frees (h : SlotStep i e b op a e' b') (hfrees : frees i op a = true) :
    e.state ≠ .inFlight false := by
  intro hstate
  cases h with
  | ended o hs => rw [hs] at hstate; cases hstate
  | released o hs => rw [hs] at hstate; cases hstate
  | _ => simp only [frees, TableAnswer.reclaims, Bool.and_false, Bool.false_eq_true] at hfrees

theorem SlotStep.registered {c : Correlation} {w : Waker}
    (h : SlotStep i e b (.wakeOn c w) a e' b') :
    e'.waker = some w ∧ c = e'.correlation i ∧ e'.state ≠ .free := by
  cases h with
  | stored _ hs => exact ⟨rfl, rfl, by rw [hs]; exact State.noConfusion⟩

/-- A registration on a stream stores the waker, or hands it back when no cell
    is left. -/
theorem SlotStep.streamRegistered {c : Correlation} {s : StreamNo} {w : Waker}
    (h : SlotStep i e b (.wakeOnStream c s w) a e' b') :
    e'.correlation i = c ∧
      ((∃ k : Fin STREAM_WAKERS, getElem e'.streams k k.isLt = some (s, w)) ∨ w ∈ a.wakers) := by
  cases h with
  | streamStored _ _ hs hl =>
      refine ⟨rfl, ?_⟩
      rcases Cells.store_stores e.streams s w with hk | hback
      · exact Or.inl hk
      · right
        simp only [TableAnswer.wakers, hback, Option.toList_some, List.mem_singleton]

theorem Unmoved.registered {w : Waker} (h : Unmoved op a)
    (hop : (∃ c, op = .wakeOn c w) ∨ ∃ c s, op = .wakeOnStream c s w) : w ∈ a.wakers := by
  rcases hop with ⟨c, rfl⟩ | ⟨c, s, rfl⟩ <;> cases h <;> exact List.mem_singleton_self w

end Move

namespace Table

variable {N : Nat}

/-- A waker of `w`'s task is the outcome waker of the call of `c`. -/
def StoresOutcome (t : Table N) (c : Correlation) (w : Waker) : Prop :=
  ∃ e v, t.Holds (slot c) c e ∧ e.waker = some v ∧ v.willWake w = true

/-- A waker of `w`'s task is in a cell of stream `s` in the slot of `c`, which
    holds the call of `c` or is free. -/
def StoresStream (t : Table N) (c : Correlation) (s : StreamNo) (w : Waker) : Prop :=
  ∃ (e : Entry) (v : Waker), t.slots[slot c]? = some e ∧
    (e.correlation (slot c) = c ∨ e.state = .free) ∧
    (∃ j : Fin STREAM_WAKERS, getElem e.streams j j.isLt = some (s, v)) ∧ v.willWake w = true

end Table

namespace TableStep

variable {N : Nat}

/-- The step is about the call of `c` and answered the waker. -/
def handsBack (x : TableStep N) (c : Correlation) (w : Waker) : Prop :=
  x.op.about c ∧ w ∈ x.answer.wakers

/-- The step settled or forgot the call of `c`. -/
def stops (x : TableStep N) (c : Correlation) : Prop :=
  (∃ o, x.op = .settle c o ∧ x.answer ≠ .settled .unknown) ∨
    (x.op = .forget c ∧ x.answer ≠ .forgotten .unknown)

end TableStep

/-- The streams of a slot are taken after every settlement and every forget of
    its call, before the next insert. -/
def TakesStreams {N : Nat} (xs : List (TableStep N)) : Prop :=
  ∀ front x mid y back, xs = front ++ x :: (mid ++ y :: back) →
    ∀ c c', TableStep.stops x c → TableStep.issues y c' →
      ∃ z ∈ mid, z.op = .takeStreams (Table.slot c)

section Run

variable {N : Nat} {hN : N ≤ 2 ^ SLOT_BITS} {budget : Option UInt64} {t : Table N}
  {xs : List (TableStep N)}
  (h : (callTable N budget hN).IsRun (Table.new (budget.map UInt64.toNat) hN) xs t)

include h

theorem sound_of_table (i : Nat) (e : Entry) (he : t.slots[i]? = some e) : e.Sound := by
  refine slots_of_run h (fun _ e => e.Sound) ?_ (fun _ _ _ _ _ _ _ hmove => hmove.sound) i e he
  intro i e he
  rw [getElem?_new _ i e he]
  exact Entry.sound_FREE

theorem run_to (x : TableStep N) (hx : x ∈ xs) :
    ∃ ys, (callTable N budget hN).IsRun (Table.new (budget.map UInt64.toNat) hN) ys x.pre := by
  rcases List.append_of_mem hx with ⟨front, back, rfl⟩
  rcases (Machine.isRun_append _ _ _ _).mp h with ⟨m, hfront, hpre, _⟩
  exact ⟨front, hpre ▸ hfront⟩

theorem sound_before (x : TableStep N) (hx : x ∈ xs) (i : Nat) (e : Entry)
    (he : x.pre.slots[i]? = some e) : e.Sound := by
  rcases run_to h x hx with ⟨ys, hys⟩
  exact sound_of_table hys i e he

theorem not_waiting_of_frees (x : TableStep N) (hx : x ∈ xs) (i : Nat) (e : Entry)
    (he : x.pre.slots[i]? = some e) (hfrees : frees i x.op x.answer = true) :
    e.state ≠ .inFlight false := by
  rcases step_of_run h x hx with ⟨_, hunmoved⟩ | ⟨j, f, f', b', hf, hmove, _⟩
  · rw [hunmoved.not_frees i] at hfrees
    cases hfrees
  · have hslot := x.pre.slot_correlation j f (x.pre.lt_of_getElem? j f hf)
    by_cases hij : j = i
    · subst hij
      rcases Option.some.inj (hf.symm.trans he) with rfl
      exact hmove.ended_of_frees hfrees
    · rw [hmove.not_frees hslot i hij] at hfrees
      cases hfrees

theorem outcome_step (x : TableStep N) (hx : x ∈ xs) (c : Correlation) (w : Waker)
    (hstored : x.pre.StoresOutcome c w) (hnot : ¬ x.post.StoresOutcome c w) : x.handsBack c w := by
  rcases hstored with ⟨e, v, hholds, hv, hwake⟩
  rcases entry_of_run h x hx _ e hholds.1 with ⟨e', he', rfl | ⟨b', hmove⟩⟩
  · exact absurd ⟨e', v, ⟨he', hholds.2⟩, hv, hwake⟩ hnot
  · rcases hmove.outcome (sound_before h x hx _ e hholds.1) v hv with ⟨hv', hc, hs⟩ | hback
    · exact absurd ⟨e', v, ⟨he', hholds.2.1.trans hc.symm, hs⟩, hv', hwake⟩ hnot
    · rw [← hholds.2.1, (Waker.willWake_iff v w).mp hwake] at hback
      exact hback

theorem stream_step (x : TableStep N) (hx : x ∈ xs) (c : Correlation) (s : StreamNo) (w : Waker)
    (hstored : x.pre.StoresStream c s w) (hnot : ¬ x.post.StoresStream c s w) :
    x.handsBack c w ∨ ∃ c', x.issues c' ∧ Table.slot c' = Table.slot c := by
  rcases hstored with ⟨e, v, he, hc, ⟨j, hj⟩, hwake⟩
  rcases entry_of_run h x hx _ e he with ⟨e', he', rfl | ⟨b', hmove⟩⟩
  · exact absurd ⟨e', v, he', hc, ⟨j, hj⟩, hwake⟩ hnot
  · rcases hmove.stream c rfl hc s v j hj with ⟨hk, hc'⟩ | hback | hissue
    · exact absurd ⟨e', v, he', hc', hk, hwake⟩ hnot
    · rw [(Waker.willWake_iff v w).mp hwake] at hback
      exact Or.inl hback
    · exact Or.inr ⟨_, hissue, x.pre.slot_correlation _ e (x.pre.lt_of_getElem? _ e he)⟩

theorem outcome_registered (x : TableStep N) (hx : x ∈ xs) (c : Correlation) (w : Waker)
    (hop : x.op = .wakeOn c w) : x.post.StoresOutcome c w ∨ x.handsBack c w := by
  have habout : x.op.about c := by rw [hop]; rfl
  rcases step_of_run h x hx with ⟨_, hunmoved⟩ | ⟨i, e, e', b', he, hmove, hstep⟩
  · exact Or.inr ⟨habout, hunmoved.registered (Or.inl ⟨c, hop⟩)⟩
  · rw [hop] at hmove
    rcases hmove.registered with ⟨hw, rfl, hs⟩
    have hpost := Table.getElem?_moved_self i e e' b' he
    have hslot := x.pre.slot_correlation i e' (x.pre.lt_of_getElem? i e he)
    rw [← hstep] at hpost
    refine Or.inl ⟨e', w, ?_, hw, (Waker.willWake_iff w w).mpr rfl⟩
    rw [hslot]
    exact ⟨hpost, rfl, hs⟩

theorem stream_registered (x : TableStep N) (hx : x ∈ xs) (c : Correlation) (s : StreamNo)
    (w : Waker) (hop : x.op = .wakeOnStream c s w) :
    x.post.StoresStream c s w ∨ x.handsBack c w := by
  have habout : x.op.about c := by rw [hop]; rfl
  rcases step_of_run h x hx with ⟨_, hunmoved⟩ | ⟨i, e, e', b', he, hmove, hstep⟩
  · exact Or.inr ⟨habout, hunmoved.registered (Or.inr ⟨c, s, hop⟩)⟩
  · rw [hop] at hmove
    rcases hmove.streamRegistered with ⟨rfl, hk | hback⟩
    · have hpost := Table.getElem?_moved_self i e e' b' he
      have hslot := x.pre.slot_correlation i e' (x.pre.lt_of_getElem? i e he)
      rw [← hstep] at hpost
      refine Or.inl ⟨e', w, ?_, Or.inl ?_, hk, (Waker.willWake_iff w w).mpr rfl⟩
      · rw [hslot]
        exact hpost
      · rw [hslot]
    · exact Or.inr ⟨habout, hback⟩

theorem empty_after_take (x : TableStep N) (hx : x ∈ xs) (i : Nat) (e : Entry)
    (he : x.post.slots[i]? = some e) (hop : x.op = .takeStreams i) :
    e.streams = Cells.NO_STREAMS := by
  have hstep : x.pre.step x.op = (x.post, x.answer) := Option.some.inj (h.step_of_mem x hx)
  have hlt := x.post.lt_of_getElem? i e he
  have hold : x.pre.slots[i]? = some x.pre.slots[i] := Vector.getElem?_eq_getElem hlt
  rw [hop, Table.step, x.pre.takeStreams_eq i _ hold, Prod.mk.injEq] at hstep
  rw [← hstep.1, Table.getElem?_put_self _ i _ _ hold, Option.some.injEq] at he
  rw [← he]

/-- The streams of a free slot are empty, unless its call was stopped and the
    streams not taken since. -/
theorem empty_or_stopped (i : Nat) (e : Entry) (he : t.slots[i]? = some e)
    (hfree : e.state = .free) :
    e.streams = Cells.NO_STREAMS ∨ ∃ front x after c, xs = front ++ x :: after ∧
      Table.slot c = i ∧ TableStep.stops x c ∧ ∀ z ∈ after, z.op ≠ .takeStreams i := by
  refine h.history (fun xs t => ∀ e, t.slots[i]? = some e → e.state = .free →
    e.streams = Cells.NO_STREAMS ∨ ∃ front x after c, xs = front ++ x :: after ∧
      Table.slot c = i ∧ TableStep.stops x c ∧ ∀ z ∈ after, z.op ≠ .takeStreams i) ?_ ?_ e he hfree
  · intro e he _
    rw [getElem?_new _ i e he]
    exact Or.inl rfl
  · intro ys x hmem _ _ hprev e he hfree
    have hx := hmem x (List.mem_append_right _ (List.mem_singleton_self x))
    have hlt := x.post.lt_of_getElem? i e he
    have hold : x.pre.slots[i]? = some x.pre.slots[i] := Vector.getElem?_eq_getElem hlt
    by_cases htake : x.op = .takeStreams i
    · exact Or.inl (empty_after_take h x hx i e he htake)
    · rcases entry_of_run h x hx i _ hold with ⟨e', he', hcase⟩
      rcases Option.some.inj (he.symm.trans he') with rfl
      rcases hcase with hsame | ⟨b', hmove⟩
      · rw [hsame] at hfree ⊢
        rcases hprev _ hold hfree with hempty | ⟨front, z, after, c, rfl, hslot, hstops, hnot⟩
        · exact Or.inl hempty
        · refine Or.inr ⟨front, z, after ++ [x], c, ?_, hslot, hstops, ?_⟩
          · rw [List.append_assoc, List.cons_append]
          · intro y hy
            rcases List.mem_append.mp hy with hy | hy
            · exact hnot y hy
            · rw [List.mem_singleton.mp hy]
              exact htake
      · rcases (hmove.freed hfree).resolve_left htake with ⟨_, hreclaims, hop⟩
        refine Or.inr ⟨ys, x, [], _, rfl, x.pre.slot_correlation i x.pre.slots[i] hlt, ?_,
          List.forall_mem_nil _⟩
        rcases hop with ⟨o, hop⟩ | hop
        · exact Or.inl ⟨o, hop, fun hans => by rw [hans] at hreclaims; cases hreclaims⟩
        · exact Or.inr ⟨hop, fun hans => by rw [hans] at hreclaims; cases hreclaims⟩

theorem empty_of_taken (htakes : TakesStreams xs) (x : TableStep N) (hx : x ∈ xs)
    (c : Correlation) (hissue : x.issues c) (e : Entry)
    (he : x.pre.slots[Table.slot c]? = some e) : e.streams = Cells.NO_STREAMS := by
  rcases slot_of_issue h x hx c hissue with ⟨f, _, hf, hfree, _⟩
  rcases Option.some.inj (he.symm.trans hf) with rfl
  rcases List.append_of_mem hx with ⟨front, back, rfl⟩
  rcases (Machine.isRun_append _ _ _ _).mp h with ⟨m, hfront, hpre, _⟩
  rcases empty_or_stopped (hpre ▸ hfront) _ e he hfree with
    hempty | ⟨before, z, after, c', rfl, hslot, hstops, hnot⟩
  · exact hempty
  · have hsplit : before ++ z :: after ++ x :: back = before ++ z :: (after ++ x :: back) := by
      rw [List.append_assoc, List.cons_append]
    rcases htakes before z after x back hsplit c' c hstops hissue with ⟨y, hy, hop⟩
    rw [hslot] at hop
    exact absurd hop (hnot y hy)

/-- What becomes of a waker stored after a step: it is stored at the end, or a
    later step ended its storage. -/
theorem stored_until (P : Table N → Prop) (E : TableStep N → Prop)
    (hend : ∀ z ∈ xs, P z.pre → ¬ P z.post → E z) (front after : List (TableStep N))
    (x : TableStep N) (hsplit : xs = front ++ x :: after) (hx : P x.post) :
    P t ∨ ∃ z ∈ after, P z.pre ∧ E z := by
  by_cases ht : P t
  · exact Or.inl ht
  · subst hsplit
    rcases (Machine.isRun_append _ _ _ _).mp h with ⟨_, _, _, _, hafter⟩
    rcases hafter.changes P hx ht with ⟨mid, z, rest, rfl, hpre, hpost, _⟩
    have hz : z ∈ mid ++ z :: rest := List.mem_append_right _ (List.mem_cons_self)
    refine Or.inr ⟨z, hz, hpre, hend z ?_ hpre hpost⟩
    exact List.mem_append_right _ (List.mem_cons_of_mem _ hz)

end Run

/-- In every run of a table an outcome waker is stored for a call in flight
    that was not forgotten, so that no reclaim and no insert finds one; a waker
    registered for an outcome is stored, or replaced by one of its task, or was
    handed back; so is one registered on a stream, unless the slot's next insert
    cleared it; a stream has one cell; and where the streams are taken after
    every settlement and forget, no insert clears one. -/
theorem custody {N : Nat} (hN : N ≤ 2 ^ SLOT_BITS) (budget : Option UInt64)
    (xs : List (TableStep N)) (t : Table N)
    (h : (callTable N budget hN).IsRun (Table.new (budget.map UInt64.toNat) hN) xs t) :
    (∀ (i : Nat) (e : Entry), t.slots[i]? = some e →
      (e.waker ≠ none → e.state = .inFlight false) ∧ e.streams.Distinct) ∧
    (∀ x ∈ xs, ∀ (i : Nat) (e : Entry), x.pre.slots[i]? = some e →
      (frees i x.op x.answer = true ∨ ∃ c, TableStep.issues x c ∧ Table.slot c = i) →
        e.waker = none) ∧
    (∀ front x after, xs = front ++ x :: after → ∀ c w, x.op = .wakeOn c w →
      t.StoresOutcome c w ∨ ∃ z ∈ x :: after, TableStep.handsBack z c w) ∧
    (∀ front x after, xs = front ++ x :: after → ∀ c s w, x.op = .wakeOnStream c s w →
      t.StoresStream c s w ∨ (∃ z ∈ x :: after, TableStep.handsBack z c w) ∨
        ∃ z ∈ after, z.pre.StoresStream c s w ∧
          ∃ c', TableStep.issues z c' ∧ Table.slot c' = Table.slot c) ∧
    (TakesStreams xs → ∀ x ∈ xs, ∀ c e, TableStep.issues x c →
      x.pre.slots[Table.slot c]? = some e → e.streams = Cells.NO_STREAMS) := by
  refine ⟨fun i e he => ?_, fun x hx i e he hends => ?_, ?_, ?_, ?_⟩
  · have hsound := sound_of_table h i e he
    exact ⟨hsound.waiting, hsound.distinct⟩
  · have hsound := sound_before h x hx i e he
    by_contra hw
    have hstate := hsound.waiting hw
    rcases hends with hfrees | ⟨c, hissue, rfl⟩
    · exact not_waiting_of_frees h x hx i e he hfrees hstate
    · rcases slot_of_issue h x hx c hissue with ⟨f, _, hf, hfree, _⟩
      rcases Option.some.inj (he.symm.trans hf) with rfl
      rw [hfree] at hstate
      cases hstate
  · intro front x after hsplit c w hop
    have hx : x ∈ xs := by rw [hsplit]; exact List.mem_append_right _ (List.mem_cons_self)
    rcases outcome_registered h x hx c w hop with hstored | hback
    · rcases stored_until h (fun t => t.StoresOutcome c w) (fun z => TableStep.handsBack z c w)
        (fun z hz => outcome_step h z hz c w) front after x hsplit hstored with
        hkept | ⟨z, hz, _, hback⟩
      · exact Or.inl hkept
      · exact Or.inr ⟨z, List.mem_cons_of_mem x hz, hback⟩
    · exact Or.inr ⟨x, List.mem_cons_self, hback⟩
  · intro front x after hsplit c s w hop
    have hx : x ∈ xs := by rw [hsplit]; exact List.mem_append_right _ (List.mem_cons_self)
    rcases stream_registered h x hx c s w hop with hstored | hback
    · rcases stored_until h (fun t => t.StoresStream c s w) _
        (fun z hz => stream_step h z hz c s w) front after x hsplit hstored with
        hkept | ⟨z, hz, hpre, hback | hissue⟩
      · exact Or.inl hkept
      · exact Or.inr (Or.inl ⟨z, List.mem_cons_of_mem x hz, hback⟩)
      · exact Or.inr (Or.inr ⟨z, hz, hpre, hissue⟩)
    · exact Or.inr (Or.inl ⟨x, List.mem_cons_self, hback⟩)
  · intro htakes x hx c e hissue he
    exact empty_of_taken h htakes x hx c hissue e he

/-- A call's outcome waker comes back with the settlement. -/
theorem custody_settled :
    ∃ xs t, (callTable 1 none (by decide)).IsRun (Table.new none (by decide)) xs t ∧
      xs.map Machine.Item.op = [.insert 0, .wakeOn ⟨0⟩ (.task 1), .settle ⟨0⟩ (.ok ())] ∧
      ∃ z ∈ xs, TableStep.handsBack z ⟨0⟩ (.task 1) := by
  have hrun := Machine.isRun_exec (M := callTable 1 none (by decide))
    (Table.new none (by decide)) _ [.insert 0, .wakeOn ⟨0⟩ (.task 1), .settle ⟨0⟩ (.ok ())] _ rfl
  refine ⟨_, _, hrun, rfl, ?_⟩
  rcases (custody (by decide) none _ _ hrun).2.2.1 [_] _ [_] rfl ⟨0⟩ (.task 1) rfl with
    ⟨e, v, hholds, hv, _⟩ | ⟨z, hz, hback⟩
  · rcases Option.some.inj hholds.1 with rfl
    cases hv
  · exact ⟨z, List.mem_cons_of_mem _ hz, hback⟩

/-- A stream waker that the runtime does not take is cleared by the insert that
    reuses its slot: it is not stored, and nothing handed it back. -/
theorem stream_cleared :
    ∃ xs t, (callTable 1 none (by decide)).IsRun (Table.new none (by decide)) xs t ∧
      xs.map Machine.Item.op = [.insert 0, .wakeOnStream ⟨0⟩ 0 (.task 1), .settle ⟨0⟩ (.ok ()),
        .forget ⟨0⟩, .insert 0] ∧
      (∀ z ∈ xs, z.answer.wakers = []) ∧
      ∀ (i : Nat) (e : Entry), t.slots[i]? = some e →
        e.waker = none ∧ e.streams = Cells.NO_STREAMS := by
  have hrun := Machine.isRun_exec (M := callTable 1 none (by decide))
    (Table.new none (by decide)) _ [.insert 0, .wakeOnStream ⟨0⟩ 0 (.task 1),
      .settle ⟨0⟩ (.ok ()), .forget ⟨0⟩, .insert 0] _ rfl
  refine ⟨_, _, hrun, rfl, ?_, fun i e he => ?_⟩
  · simp only [List.forall_mem_cons]
    exact ⟨rfl, rfl, rfl, rfl, rfl, List.forall_mem_nil _⟩
  · have hlt := Table.lt_of_getElem? _ i e he
    rcases Nat.lt_one_iff.mp hlt with rfl
    rcases Option.some.inj he with rfl
    exact ⟨rfl, rfl⟩

end Correlate

end Ridl
