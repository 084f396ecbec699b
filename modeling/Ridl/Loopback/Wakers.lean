import Ridl.Loopback.Exclusive

/-!
# No Waker Sleeps On

A task that found nothing to do leaves a waker and sleeps. Two things could
make it sleep for good: what it waits for is there already while its waker is
stored, or its waker is dropped.

`Asleep` says that the first never holds, and it is an invariant of the
store. For the second, a waker has one of a few cells, and each move either
leaves a cell as it is or hands its waker back. A path of moves therefore
hands back what it takes out of any cell, and the reply of an operation wakes
all of that, except what a dropped handle gets back itself.

## Main definitions

* `WakerCell`, `Store.Stores`: Where a waker is stored.

## Theorems

* `Edit.stores`, `Move.stores`, `Path.stores`: What leaves a cell is handed
  back.
* `asleep_in_every_run`, `no_waker_dropped`: In every run, both.
-/

namespace Ridl

namespace Loopback

open Library Correlate

/-- Where a waker of one call is stored. -/
inductive CallCell
  | outcome
  | stream (side : Side) (no : StreamNo)

/-- Where a waker is stored: with a handle, or with the call of a slot. -/
inductive WakerCell
  | handle (cell : HandleCell)
  | call (slot : Nat) (cell : CallCell)

/-- The call with entry `k` and table entry `e` stores `w` in the cell. -/
def CallCell.Stores (k : Option CallEntry) (e : Option Entry) : CallCell → Waker → Prop
  | .outcome, w => ∃ f, e = some f ∧ f.waker = some w
  | .stream .caller no, w =>
      ∃ f, e = some f ∧ ∃ j : Fin STREAM_WAKERS, getElem f.streams j j.isLt = some (no, w)
  | .stream .provider no, w =>
      ∃ l st, k = some l ∧ l.streams[no]? = some st ∧ st.claimWaker = some w

namespace Store

def Stores (s : Store) : WakerCell → Waker → Prop
  | .handle cell, w => s.handleWaker cell = some w
  | .call i cell, w => cell.Stores s.calls[i]? s.table.slots[i]? w

end Store

variable {s t : Store} {k k' : CallEntry} {e e' : Entry} {ws : List Waker} {evs : List Event}

/-! ### One call -/

/-- Streams whose wakers stay or are handed back, in an entry of the table
    whose wakers do. -/
theorem CallCell.stores_of
    (hwaker : ∀ w, e.waker = some w → e'.waker = some w ∨ w ∈ ws)
    (hcells : ∀ (j : Fin STREAM_WAKERS) no w, getElem e.streams j j.isLt = some (no, w) →
      getElem e'.streams j j.isLt = some (no, w) ∨ w ∈ ws)
    (hstreams : ∀ (no : StreamNo) (st : StreamState) (w : Waker), k.streams[no]? = some st →
      st.claimWaker = some w →
      (∃ st' : StreamState, k'.streams[no]? = some st' ∧ st'.claimWaker = some w) ∨ w ∈ ws)
    (cell : CallCell) (w : Waker) (h : cell.Stores (some k) (some e) w) :
    cell.Stores (some k') (some e') w ∨ w ∈ ws := by
  cases cell with
  | outcome =>
      rcases h with ⟨f, hf, hw⟩
      cases hf
      exact (hwaker w hw).imp_left fun hw' => ⟨e', rfl, hw'⟩
  | stream side no =>
      cases side with
      | caller =>
          rcases h with ⟨f, hf, j, hj⟩
          cases hf
          exact (hcells j no w hj).imp_left fun hj' => ⟨e', rfl, j, hj'⟩
      | provider =>
          rcases h with ⟨l, st, hl, hst, hw⟩
          cases hl
          refine (hstreams no st w hst hw).imp_left ?_
          rintro ⟨st', hst', hw'⟩
          exact ⟨k', st', rfl, hst', hw'⟩

/-- The waker of a stream that is put in place of another with the same waker. -/
theorem CallEntry.claimWaker_setStream {no : StreamNo} {st : StreamState}
    (hst : st.claimWaker = (k.stream no).claimWaker) (no' : StreamNo) (old : StreamState)
    (w : Waker) (hold : k.streams[no']? = some old) (hw : old.claimWaker = some w) :
    ∃ st', (k.setStream no st).streams[no']? = some st' ∧ st'.claimWaker = some w := by
  rw [getElem?_setStream]
  by_cases hno : no = no'
  · subst hno
    rw [stream_of_getElem? k no old hold, hw] at hst
    exact ⟨st, if_pos rfl, hst⟩
  · exact ⟨old, (if_neg hno).trans hold, hw⟩

/-- Every waker of the provider is handed back by a release of the stream
    parameters, but the one of the reply stream. -/
theorem CallEntry.mem_releaseParameters {no : StreamNo} {st : StreamState} {w : Waker}
    (hst : k.streams[no]? = some st) (hw : st.claimWaker = some w) (hno : no ≠ REPLY_STREAM) :
    w ∈ k.releaseParameters.2 := by
  simp only [releaseParameters, mem_sweep]
  refine ⟨no, st, hst, ?_⟩
  simp only [hno, ne_eq, not_false_eq_true, if_true, hw, Option.toList_some, List.mem_singleton]

theorem CallEntry.mem_takeClaimWakers {no : StreamNo} {st : StreamState} {w : Waker}
    (hst : k.streams[no]? = some st) (hw : st.claimWaker = some w) :
    w ∈ k.takeClaimWakers.2 := by
  simp only [takeClaimWakers, mem_sweep]
  exact ⟨no, st, hst, Option.mem_toList.mpr hw⟩

theorem Edit.stores (h : Edit k e ws evs k' e') (cell : CallCell) (w : Waker)
    (hw : cell.Stores (some k) (some e) w) : cell.Stores (some k') (some e') w ∨ w ∈ ws := by
  refine CallCell.stores_of ?_ ?_ ?_ cell w hw
  · intro w hw
    cases h with
    | change no side => cases side <;> exact .inl hw
    | mark => exact .inr (List.mem_append_left _ (hw ▸ List.mem_singleton_self w))
    | deferInFlight =>
        rcases store_kept e.waker .noop w hw with hin | hout
        · exact .inl hin
        · exact .inr (List.mem_append_left _ hout)
    | waitOutcome w' => exact store_kept e.waker w' w hw
    | _ => exact .inl hw
  · intro j no w hj
    have hmem := e.streams.mem_wakers j no w hj
    cases h with
    | change no' side =>
        cases side with
        | caller => exact .inl hj
        | provider =>
            exact (e.streams.take_keeps no' j no w hj).imp_right fun hout =>
              Option.mem_toList.mpr hout
    | mark => exact .inr (List.mem_append_right _ hmem)
    | deferInFlight => exact .inr (List.mem_append_right _ hmem)
    | deferSettled => exact .inr (List.mem_cons_of_mem _ hmem)
    | close => exact .inr (List.mem_append_right _ hmem)
    | waitStream no' w' =>
        exact (e.streams.store_keeps no' w' j no w hj).imp_right fun hout =>
          Option.mem_toList.mpr hout
    | _ => exact .inl hj
  · intro no st w hst hw
    cases h with
    | name no' => exact .inl (k.claimWaker_setStream rfl no st w hst hw)
    | change no' side evs st' _ _ hc =>
        cases side with
        | provider => exact .inl (k.claimWaker_setStream hc.claimWaker no st w hst hw)
        | caller =>
            by_cases hno : no' = no
            · subst hno
              refine .inr (Option.mem_toList.mpr ?_)
              rw [CallEntry.stream_of_getElem? k no' st hst] at hc
              exact hc.claimWaker.trans hw
            · exact .inl ⟨st, (CallEntry.getElem?_setStream ..).trans ((if_neg hno).trans hst), hw⟩
    | tidy no' evs st' ht => exact .inl (k.claimWaker_setStream ht.claimWaker no st w hst hw)
    | interrupt =>
        simp only [CallEntry.interrupted, mem_sweep]
        exact .inr ⟨no, st, hst, Option.mem_toList.mpr hw⟩
    | quiet => exact .inr (CallEntry.mem_takeClaimWakers hst hw)
    | close =>
        refine .inr (List.mem_append_left _ ?_)
        by_cases hno : no = REPLY_STREAM
        · -- The release leaves the reply stream, whose waker is taken after it.
          have hkept := CallEntry.getElem?_releaseParameters { k with settledBy := none } no
          rw [hst, Option.map_some, if_neg (not_not.mpr hno)] at hkept
          exact List.mem_append_right _ (CallEntry.mem_takeClaimWakers hkept hw)
        · exact List.mem_append_left _ (CallEntry.mem_releaseParameters hst hw hno)
    | waitClaimStream no' w' =>
        by_cases hno : no' = no
        · subst hno
          rw [CallEntry.stream_of_getElem? k no' st hst]
          refine (store_kept st.claimWaker w' w hw).imp_left fun hin =>
            ⟨{ st with claimWaker := (store st.claimWaker w').1 }, ?_, hin⟩
          exact (CallEntry.getElem?_setStream ..).trans (if_pos rfl)
        · exact .inl ⟨st, (CallEntry.getElem?_setStream ..).trans ((if_neg hno).trans hst), hw⟩
    | _ => exact .inl ⟨st, hst, hw⟩

theorem Verdict.stores {handler : Nat} {o : Outcome} (h : Verdict handler k o ws evs k')
    (cell : CallCell) (w : Waker) (hw : cell.Stores (some k) (some e) w) :
    cell.Stores (some k') (some { e with
        state := .settled o, waker := none, streams := Cells.NO_STREAMS }) w ∨
      w ∈ ws ++ e.waker.toList ++ e.streams.wakers := by
  refine CallCell.stores_of ?_ ?_ ?_ cell w hw
  · exact fun w hw => .inr (List.mem_append_left _ (List.mem_append_right _
      (Option.mem_toList.mpr hw)))
  · exact fun j no w hj => .inr (List.mem_append_right _ (e.streams.mem_wakers j no w hj))
  · intro no st w hst hw
    suffices (∃ st' : StreamState, k'.streams[no]? = some st' ∧ st'.claimWaker = some w) ∨ w ∈ ws by
      exact this.imp_right fun hmem => List.mem_append_left _ (List.mem_append_left _ hmem)
    cases h with
    | settled outcome =>
        have hkept := Store.getElem?_settledEntry k handler outcome no
        by_cases hno : REPLY_STREAM = no
        · subst hno
          rw [if_pos rfl, CallEntry.stream_of_getElem? k _ st hst] at hkept
          exact .inl ⟨_, hkept, (st.claimWaker_settled outcome).trans hw⟩
        · rw [if_neg hno] at hkept
          by_cases hreleases : Store.releases k outcome = true
          · refine .inr ?_
            have hws : (Store.settledEntry k handler outcome).2 = k.releaseParameters.2 := by
              simp only [Store.settledEntry]
              split_ifs with hreleased
              · rfl
              · exact absurd hreleases hreleased
            rw [hws]
            exact CallEntry.mem_releaseParameters hst hw (Ne.symm hno)
          · rw [if_neg hreleases] at hkept
            exact .inl ⟨st, hkept.trans hst, hw⟩
    | interrupted hk =>
        refine .inr ?_
        by_cases hno : no = REPLY_STREAM
        · subst hno
          refine List.mem_append_right _ (Option.mem_toList.mpr ?_)
          change (k.releaseParameters.1.stream REPLY_STREAM).claimWaker = some w
          rw [CallEntry.stream_releaseParameters_reply, CallEntry.stream_of_getElem? k _ st hst]
          exact hw
        · exact List.mem_append_left _ (CallEntry.mem_releaseParameters hst hw hno)

/-! ### The store -/

theorem handlersWoken_kept (key : Key) (id : Nat) (w : Waker)
    (h : s.handleWaker (.claim id) = some w) :
    (s.handlersWoken key)[id]?.bind (·.waiters.claim) = some w ∨
      w ∈ (s.wakeHandlersServing key).2 := by
  rcases Option.bind_eq_some_iff.mp h with ⟨state, hstate, hw⟩
  by_cases hserves : state.serves key = true
  · refine .inr ?_
    simp only [Store.wakeHandlersServing, mem_sweep]
    refine ⟨id, state, hstate, ?_⟩
    rw [if_pos hserves]
    exact Option.mem_toList.mpr hw
  · refine .inl ?_
    simp only [Store.handlersWoken, Store.wakeHandlersServing, getElem?_sweep, hstate,
      Option.map_some, if_neg hserves]
    exact hw

theorem stores_put {i : Nat} (hat : s.At i k e)
    (h : ∀ (cell : CallCell) w, cell.Stores (some k) (some e) w →
      cell.Stores (some k') (some e') w ∨ w ∈ ws) (j : Nat) (cell : CallCell) (w : Waker)
    (hw : cell.Stores s.calls[j]? s.table.slots[j]? w) :
    cell.Stores (s.calls.insert i k')[j]? (s.table.put i e').slots[j]? w ∨ w ∈ ws := by
  by_cases hij : i = j
  · subst hij
    rw [hat.1, hat.2] at hw
    rw [OrdMap.getElem?_insert_self, s.table.getElem?_put_self i e' e hat.2]
    exact h cell w hw
  · rw [OrdMap.getElem?_insert_of_ne _ _ _ _ hij, s.table.getElem?_put_of_ne _ _ _ hij]
    exact .inl hw

theorem Move.stores (h : Move s ws evs t) (ha : Accounts s) (cell : WakerCell) (w : Waker)
    (hw : s.Stores cell w) : t.Stores cell w ∨ w ∈ ws := by
  cases h with
  | outside t ws closed h =>
      cases cell with
      | handle cell => exact h.kept cell w hw
      | call i cell =>
          refine .inl ?_
          rw [Store.Stores, h.calls, h.table]
          exact hw
  | edit i k k' e e' ws evs hat he =>
      cases cell with
      | handle => exact .inl hw
      | call j cell => exact stores_put hat he.stores j cell w hw
  | send i e k ws he hfree _ _ _ hws =>
      cases cell with
      | handle cell =>
          cases cell with
          | claim id => exact (handlersWoken_kept k.key id w hw).imp_right (hws w)
          | _ => exact .inl hw
      | call j cell =>
          by_cases hij : i = j
          · -- A free slot stores nothing.
            subst hij
            rcases ha.free i e he hfree with ⟨hcall, hwaker, hcells⟩
            rw [Store.Stores, hcall, he] at hw
            exfalso
            cases cell with
            | outcome =>
                rcases hw with ⟨f, hf, hw⟩
                cases hf
                rw [hwaker] at hw
                cases hw
            | stream side no =>
                cases side with
                | caller =>
                    rcases hw with ⟨f, hf, j, hj⟩
                    cases hf
                    rw [hcells j] at hj
                    cases hj
                | provider =>
                    rcases hw with ⟨l, _, hl, _⟩
                    cases hl
          · refine .inl ?_
            rw [Store.Stores, OrdMap.getElem?_insert_of_ne _ _ _ _ hij,
              Table.getElem?_put_of_ne _ _ _ _ hij]
            exact hw
  | present i k e id handler taken hat =>
      cases cell with
      | handle => exact .inl hw
      | call j cell =>
          have hput := @stores_put s k { k with claim := some id } e e [] i hat
            (CallCell.stores_of (fun _ hw => .inl hw) (fun _ _ _ hj => .inl hj)
              fun _ st _ hst hw => .inl ⟨st, hst, hw⟩) j cell w hw
          rw [s.table.put_same i e hat.2] at hput
          exact hput
  | record i k k' e o id owner ws evs hat hs hid hclaim hv =>
      cases cell with
      | handle => exact .inl hw
      | call j cell => exact stores_put hat hv.stores j cell w hw
  | unoffer => exact .inl hw
  | giveBack i k e id owner pending ws _ _ _ _ _ _ _ hws =>
      cases cell with
      | handle cell =>
          cases cell with
          | claim id => exact (handlersWoken_kept k.key id w hw).imp_right (hws w)
          | _ => exact .inl hw
      | call => exact .inl hw
  | drop i k e ws evs hat hwaker hstreams hclaims hslots =>
      cases cell with
      | handle cell =>
          cases cell with
          | slot id =>
              rcases Option.bind_eq_some_iff.mp hw with ⟨waiters, hwaiters, hslot⟩
              exact .inr (hslots id waiters w hwaiters hslot)
          | _ => exact .inl hw
      | call j cell =>
          by_cases hij : i = j
          · subst hij
            rw [Store.Stores, hat.1, hat.2] at hw
            refine .inr ?_
            cases cell with
            | outcome =>
                rcases hw with ⟨f, hf, hw⟩
                cases hf
                exact hwaker w hw
            | stream side no =>
                cases side with
                | caller =>
                    rcases hw with ⟨f, hf, j, hj⟩
                    cases hf
                    exact hstreams w (e.streams.mem_wakers j no w hj)
                | provider =>
                    rcases hw with ⟨l, st, hl, hst, hw⟩
                    cases hl
                    exact hclaims no st w hst hw
          · refine .inl ?_
            rw [Store.Stores, OrdMap.getElem?_erase_of_ne _ _ _ hij,
              Table.getElem?_put_of_ne _ _ _ _ hij]
            exact hw

theorem Path.stores (h : Path s ws evs t) (ha : Accounts s) (cell : WakerCell) (w : Waker)
    (hw : s.Stores cell w) : t.Stores cell w ∨ w ∈ ws := by
  induction h with
  | refl => exact .inl hw
  | snoc t u ws ws' evs evs' hp hm ih =>
      rcases ih with hkept | hback
      · exact (hm.stores (hp.accounts ha) cell w hkept).imp_right (List.mem_append_right _)
      · exact .inr (List.mem_append_left _ hback)

/-! ### Every run -/

/-- What a stored waker waits for is not there: a source with an `Event` waker
    has an empty queue, no waiting call is one that a handler with a `Claim`
    waker serves, the table is full while a `Slot` waker is stored, and a call
    with an outcome waker is in flight, and not forgotten unless it is the
    waker of no task. -/
structure Asleep (s : Store) : Prop where
  event : ∀ (id : Nat) (state : SourceState), s.sources[id]? = some state →
    state.waiters.event ≠ none → state.queue = []
  claim : ∀ (id : Nat) (state : HandlerState), s.handlers[id]? = some state →
    state.waiters.claim ≠ none → ∀ c ∈ s.pending, ∃ k, s.entry c = some k ∧
      state.serves k.key = false
  slot : ∀ (id : Nat) (waiters : Waiters), s.callers[id]? = some waiters →
    waiters.slot ≠ none → ∀ i < SLOTS, ∃ e, s.table.slots[i]? = some e ∧ e.state ≠ .free
  outcome : ∀ (i : Nat) (e : Entry) (w : Waker), s.table.slots[i]? = some e →
    e.waker = some w → e.state = .inFlight false ∧ ∃ k, s.calls[i]? = some k ∧
      (k.forgotten = true → w = .noop)

theorem Sound.asleep (hs : Sound s) : Asleep s where
  event := hs.handles.event
  claim := by
    intro id state hstate hw c hc
    rcases hs.accounts.waiting c hc with ⟨k, e, hat, -⟩
    exact ⟨k, hat.1, hs.handles.claim id state hstate hw c hc k hat.1⟩
  slot := by
    intro id waiters hwaiters hw i hi
    have hget : s.table.slots[i]? = some s.table.slots[i] := Vector.getElem?_eq_getElem hi
    exact ⟨_, hget, hs.handles.slot id waiters hwaiters hw i _ hget⟩
  outcome := by
    intro i e w he hw
    by_cases hfree : e.state = .free
    · rw [(hs.accounts.free i e he hfree).2.1] at hw
      cases hw
    · rcases hs.accounts.full i e he hfree with ⟨k, hk⟩
      rcases hs.accounts.call i k hk with ⟨f, hf, hok⟩
      rw [he, Option.some.injEq] at hf
      subst hf
      exact ⟨(hok.waker w hw).1, k, hk, (hok.waker w hw).2⟩

/-- In every state of every run, what a stored waker waits for is not there. -/
theorem asleep_in_every_run (xs : List Step) (t : Store) (h : loopback.IsRun Store.new xs t) :
    Asleep t :=
  (sound_of_run h).asleep

/-- A source that is subscribed, waits and is raised to. -/
def wokenOps : List Op :=
  [.openSource, .subscribe 0 5 [1], .waitEvent 0 5 (.task 7), .raise 5 1 [3] 0 none]

theorem asleep_in_every_run_waiting :
    ∃ xs t, loopback.IsRun Store.new xs t ∧ Asleep t ∧
      (t.sources[0]?).any (fun state => state.waiters.event.isSome) = true := by
  have hexec : (loopback.exec Store.new (wokenOps.take 3)).any (fun run =>
      (run.2.sources[0]?).any (fun state => state.waiters.event.isSome)) = true := by
    decide +kernel
  rcases (Option.any_eq_true _ _).mp hexec with ⟨⟨xs, t⟩, heq, hwaits⟩
  have hrun := Machine.isRun_exec _ _ _ _ heq
  exact ⟨xs, t, hrun, asleep_in_every_run xs t hrun, hwaits⟩

/-- In every run, a waker leaves its cell only to be woken by the reply of the
    same operation, or to go back to the handle that is dropped. -/
theorem no_waker_dropped (xs : List Step) (t : Store) (h : loopback.IsRun Store.new xs t) :
    ∀ x ∈ xs, ∀ cell w, x.pre.Stores cell w →
      x.post.Stores cell w ∨ w ∈ x.answer.wake ∨ w ∈ x.answer.answer.back := by
  intro x hx cell w hw
  have hs := (sound_of_mem h x hx).1
  rcases stepPath_of_step hs (h.step_of_mem x hx) with ⟨ws, evs, hpath⟩
  exact (hpath.path.stores hs.accounts cell w hw).imp_right (hpath.woken w)

theorem no_waker_dropped_raised :
    ∃ xs t, loopback.IsRun Store.new xs t ∧ ∃ x ∈ xs, ¬ x.post.Stores (.handle (.event 0)) (.task 7) ∧
      ((.task 7) ∈ x.answer.wake ∨ (.task 7) ∈ x.answer.answer.back) := by
  have hexec : (loopback.exec Store.new wokenOps).any (fun run => run.1.any (fun x =>
      decide (x.pre.handleWaker (.event 0) = some (.task 7) ∧
        x.post.handleWaker (.event 0) ≠ some (.task 7)))) = true := by
    decide +kernel
  rcases (Option.any_eq_true _ _).mp hexec with ⟨⟨xs, t⟩, heq, hany⟩
  rcases List.any_eq_true.mp hany with ⟨x, hx, hwaker⟩
  rcases of_decide_eq_true hwaker with ⟨hpre, hpost⟩
  have hrun := Machine.isRun_exec _ _ _ _ heq
  refine ⟨xs, t, hrun, x, hx, hpost, ?_⟩
  exact (no_waker_dropped xs t hrun x hx (.handle (.event 0)) (.task 7) hpre).resolve_left hpost

end Loopback

end Ridl
