import Ridl.Loopback.Lives

/-!
# The Paths of the Calling Side

Each operation of the calling side, from a store that accounts for its slots:
it reaches none of the branches the source calls unreachable, and it is a path
of moves.

A call leaves the store in one way, whichever operation takes it out
(`drop_path`): the table reclaims its slot, its place among the waiting calls
and its claim go, and everything that waited for it is woken. A forget is the
caller's stop of the streams, followed by that, by the mark in the table, by a
deferral, or by nothing.

## Theorems

* `forget_path`, `closeCaller_path`: The caller's releases.
-/

namespace Ridl

namespace Loopback

open Library Correlate

variable {s : Store} {i : Nat} {k : CallEntry} {e : Entry}

namespace Store

/-- The store once the table reclaimed slot `i` and the call lost its place
    and its claim. -/
def dropping (s : Store) (i : Nat) (k : CallEntry) (e : Entry) : Store :=
  { s with
    table := s.table.put i e.reclaimed
    pending := s.pending.erase k.correlation
    claims := s.dropClaim k.claim }

end Store

/-- However a call leaves the store, the moves are one drop. -/
theorem drop_path (ha : Accounts s) (hat : s.At i k e) (ws : List Waker)
    (hw : ∀ w, e.waker = some w → w ∈ ws) :
    Path s (ws ++ ((s.dropping i k e).reclaimed k.correlation).2)
      ((s.heldClaim k).toList.map .finished)
      ((s.dropping i k e).reclaimed k.correlation).1 := by
  have hslot := ha.slot_eq hat
  have htable : (s.table.put i e.reclaimed).takeStreams i =
      (s.table.put i { e.reclaimed with streams := Cells.NO_STREAMS }, e.streams.wakers) := by
    rw [Table.takeStreams_eq _ i e.reclaimed (Table.getElem?_put_self _ i _ e hat.2),
      Table.put_put]
    rfl
  have hreclaimed : (s.dropping i k e).reclaimed k.correlation =
      ({ s with
          table := s.table.put i { e.reclaimed with streams := Cells.NO_STREAMS }
          calls := s.calls.erase i
          pending := s.pending.erase k.correlation
          claims := s.dropClaim k.claim
          callers := s.callersWoken },
        e.streams.wakers ++
          k.streams.toList.flatMap (fun p => p.2.claimWaker.toList) ++
          (sweep (fun (_ : Nat) (waiters : Waiters) =>
            ((waiters.take .slot).1, (waiters.take .slot).2.toList)) s.callers).2) := by
    simp only [Store.reclaimed, Store.dropping, hslot, htable, hat.1]
    rfl
  rw [hreclaimed]
  refine Path.single _ _ _ _ (Move.drop s i k e _ _ hat ?_ ?_ ?_ ?_ rfl)
  · intro w hwaker
    exact List.mem_append_left _ (hw w hwaker)
  · intro w hwaker
    exact List.mem_append_right _ (List.mem_append_left _ (List.mem_append_left _ hwaker))
  · intro no st w hst hwaker
    refine List.mem_append_right _ (List.mem_append_left _ (List.mem_append_right _ ?_))
    refine List.mem_flatMap.mpr ⟨(no, st), ?_, ?_⟩
    · exact Std.ExtTreeMap.mem_toList_iff_getElem?_eq_some.mpr hst
    · rw [hwaker]
      exact List.mem_singleton_self w
  · intro id waiters w hwaiters hwaker
    refine List.mem_append_right _ (List.mem_append_right _ ?_)
    refine (mem_sweep _ _ _).mpr ⟨id, waiters, hwaiters, ?_⟩
    rw [show (waiters.take .slot).2 = waiters.slot from rfl, hwaker]
    exact List.mem_singleton_self w

theorem Accounts.not_waiting (ha : Accounts s) (hat : s.At i k e) (o : Outcome)
    (hs : e.state = .settled o) : k.correlation ∉ s.pending := by
  intro hmem
  obtain ⟨k', e', hat', _, f, hf⟩ := ha.waiting _ hmem
  rw [ha.slot_eq hat] at hat'
  have he := hat'.2
  rw [hat.2, Option.some.injEq] at he
  rw [← he, hs] at hf
  cases hf

/-- A settled call has no place among the waiting calls and no claim. -/
theorem dropping_settled (ha : Accounts s) (hat : s.At i k e) (o : Outcome)
    (hs : e.state = .settled o) :
    s.dropping i k e = { s with table := s.table.put i e.reclaimed } ∧ s.heldClaim k = none := by
  have hwait := ha.not_waiting hat o hs
  have hclaim : ∀ id, k.claim = some id → s.claims[id]? = none := by
    intro id hid
    cases ho : s.claims[id]? with
    | none => rfl
    | some owner =>
        obtain ⟨_, f, hf⟩ := ha.claimed_at hat id owner hid ho
        rw [hs] at hf
        cases hf
  have hdrop : s.dropClaim k.claim = s.claims := by
    refine Std.ExtTreeMap.ext_getElem? fun id => ?_
    rw [s.getElem?_dropClaim]
    split_ifs with hid
    · exact (hclaim id hid).symm
    · rfl
  constructor
  · rw [Store.dropping, List.erase_of_not_mem hwait, hdrop]
  · unfold Store.heldClaim
    cases hid : k.claim with
    | none => rfl
    | some id =>
        rw [Option.filter_some, Std.ExtTreeMap.contains_eq_isSome_getElem?, hclaim id hid]
        rfl

/-! ### The parts of a forget -/

theorem forgetInTable_inFlight (h : s.table.Holds i k.correlation e) (hk : s.calls[i]? = some k)
    (hpending : k.pendingForget = false) (hs : e.state = .inFlight false) :
    s.forgetInTable k.correlation =
      some (s.edit i { k with forgotten := true, pendingForget := false }
          { e with state := .inFlight true, waker := none, streams := Cells.NO_STREAMS },
        e.waker.toList ++ e.streams.wakers) := by
  have htable := Table.takeStreams_eq _ i _ (Table.getElem?_put_self s.table i
    { e with state := .inFlight true, waker := none } e h.1)
  simp only [Store.forgetInTable, Table.forget_inFlight h hs, h.slot_eq, htable, Table.put_put,
    Store.entry, hk, Option.bind_eq_bind, Option.bind_some, ← hpending]
  rfl

theorem forgetInTable_settled (h : s.table.Holds i k.correlation e)
    (hbudget : s.table.budget = none) (o : Outcome) (hs : e.state = .settled o) :
    s.forgetInTable k.correlation =
      some ({ s with table := s.table.put i e.reclaimed }.reclaimed k.correlation) := by
  simp only [Store.forgetInTable, Table.forget_settled h o hs,
    Table.reclaim_eq s.table i e h.1 hbudget]

theorem forgetInTable_forgotten (h : s.table.Holds i k.correlation e)
    (hs : e.state = .inFlight true) : s.forgetInTable k.correlation = some (s, []) := by
  simp only [Store.forgetInTable, Table.forget_forgotten h hs]

theorem forgetInTable_unknown (c : Correlation) (h : s.table.held c = none) :
    s.forgetInTable c = some (s, []) := by
  simp only [Store.forgetInTable, Table.forget_of_not_held s.table c h]

/-- Every event is one side's act. -/
def ActsOnly (side : Side) (evs : List Event) : Prop :=
  ∀ ev ∈ evs, ∃ call, ev = .acts side call

theorem ActsOnly.nil (side : Side) : ActsOnly side [] := by
  intro ev hev
  cases hev

variable {side : Side} {evs : List Event}

theorem ActsOnly.append {evs' : List Event} (h : ActsOnly side evs)
    (h' : ActsOnly side evs') : ActsOnly side (evs ++ evs') := by
  intro ev hev
  rcases List.mem_append.mp hev with hmem | hmem
  · exact h ev hmem
  · exact h' ev hmem

theorem ActsOnly.singleton (side : Side) (call : Nat) : ActsOnly side [.acts side call] := by
  intro ev hev
  exact ⟨call, List.mem_singleton.mp hev⟩

theorem callerSlot_eq_none (c : Correlation)
    (h : ∀ k, s.calls[Table.slot c]? = some k → k.correlation = c → k.forgotten = true) :
    s.callerSlot c = none := by
  unfold Store.callerSlot Store.entry
  cases hk : s.calls[Table.slot c]? with
  | none => rfl
  | some k =>
      rw [Option.map_eq_none_iff, Option.filter_eq_none_iff]
      intro k' hk'
      rw [Option.some.injEq] at hk'
      rw [← hk']
      by_cases hc : k.correlation = c
      · simp only [h k hk hc, Bool.not_true, Bool.and_false, Bool.false_eq_true, not_false_eq_true]
      · simp only [hc, decide_false, Bool.false_and, Bool.false_eq_true, not_false_eq_true]

theorem callerSlot_of_entry (hk : s.entry k.correlation = some k) (h : k.forgotten = false) :
    s.callerSlot k.correlation = some (Table.slot k.correlation) := by
  simp only [Store.callerSlot, hk, Option.filter_some, h, decide_true, Bool.not_false,
    Bool.and_true, if_true, Option.map_some]

theorem callerSlot_eq_some (ha : Accounts s) (c : Correlation) (h : s.callerSlot c = some i) :
    ∃ k e, s.At i k e ∧ k.correlation = c ∧ k.forgotten = false := by
  simp only [Store.callerSlot, Store.entry, Option.map_eq_some_iff, Option.filter_eq_some_iff,
    Bool.and_eq_true, decide_eq_true_eq, Bool.not_eq_true'] at h
  obtain ⟨k, ⟨hk, hc, hforgotten⟩, hslot⟩ := h
  rw [hslot] at hk
  obtain ⟨e, hat⟩ := ha.exists_at hk
  exact ⟨k, e, hat, hc, hforgotten⟩

theorem forgetInTable_path (ha : Accounts s) (hat : s.At i k e) (hq : k.Quiet)
    (hpending : k.pendingForget = false)
    (hheld : (∃ f, e.state = .inFlight f) → s.HeldOrSettled k) :
    ∃ t ws evs, s.forgetInTable k.correlation = some (t, ws) ∧ Path s ws evs t ∧
      ActsOnly .caller evs ∧ t.callerSlot k.correlation = none := by
  have hold := ha.holds hat
  have hslot := ha.slot_eq hat
  cases hs : e.state with
  | free => exact absurd hs (ha.slotOk hat).live
  | settled o =>
      obtain ⟨hdrop, hclaim⟩ := dropping_settled ha hat o hs
      have hpath := drop_path ha hat [] (by
        intro w hw
        have := ((ha.slotOk hat).waker w hw).1
        rw [hs] at this
        cases this)
      rw [hclaim, hdrop] at hpath
      refine ⟨_, _, [], forgetInTable_settled hold ha.budget o hs, hpath, ActsOnly.nil _, ?_⟩
      refine callerSlot_eq_none _ fun k' hk' _ => ?_
      simp only [OrdMap.getElem?_erase_self, reduceCtorEq] at hk'
  | inFlight f =>
      cases f with
      | true =>
          refine ⟨s, [], [], forgetInTable_forgotten hold hs, Path.refl s, ActsOnly.nil _, ?_⟩
          refine callerSlot_eq_none _ fun k' hk' _ => ?_
          rw [hslot, hat.1, Option.some.injEq] at hk'
          have := (ha.slotOk hat).marked true hs
          rw [← hk']
          simpa only [hpending, Bool.not_false, Bool.and_true] using this.symm
      | false =>
          have hmove := Move.edit s i k _ e _ _ _ hat (Edit.mark k e hs hq)
            (fun _ => Or.inr (hheld ⟨false, hs⟩)) (fun h => Or.inl h)
          refine ⟨_, _, _, forgetInTable_inFlight hold hat.1 hpending hs, Path.single _ _ _ _ hmove,
            ?_, ?_⟩
          · split
            · exact ActsOnly.nil _
            · exact ActsOnly.singleton _ _
          · refine callerSlot_eq_none _ fun k' hk' _ => ?_
            rw [hslot] at hk'
            simp only [Store.edit, OrdMap.getElem?_insert_self, Option.some.injEq] at hk'
            rw [← hk']

theorem forgetInTable_stale (ha : Accounts s) (c : Correlation)
    (h : ∀ k e, s.At (Table.slot c) k e → k.correlation ≠ c) :
    s.forgetInTable c = some (s, []) := by
  refine forgetInTable_unknown c ?_
  cases hc : s.table.held c with
  | none => rfl
  | some j =>
      obtain ⟨k, e, hat, hcorr⟩ := ha.at_of_held c hc
      have hj := ha.slot_eq hat
      rw [hcorr] at hj
      rw [← hj] at hat
      exact absurd hcorr (h k e hat)

theorem releaseIfDrained_path (ha : Accounts s) (hat : s.At i k e) :
    ∃ t ws, s.releaseIfDrained i = some (t, ws) ∧ Path s ws [] t := by
  have hold := ha.holds hat
  have hok := ha.slotOk hat
  simp only [Store.releaseIfDrained, hat.1]
  by_cases hdue : !k.pendingForget || k.undrained
  · simp only [hdue, if_true]
    exact ⟨s, [], rfl, Path.refl s⟩
  · simp only [hdue, Bool.false_eq_true, if_false]
    simp only [Bool.or_eq_true, Bool.not_eq_true', not_or, Bool.not_eq_false] at hdue
    have hforgotten := hok.deferred hdue.1
    have hcalls : (s.setCall i { k with pendingForget := false }).calls[i]? =
        some { k with pendingForget := false } := OrdMap.getElem?_insert_self _ _ _
    have hold' : (s.setCall i { k with pendingForget := false }).table.Holds i
        ({ k with pendingForget := false } : CallEntry).correlation e := hold
    cases hs : e.state with
    | free => exact absurd hs hok.live
    | settled o =>
        obtain ⟨hdrop, hclaim⟩ := dropping_settled ha hat o hs
        have hpath := drop_path ha hat [] (by
          intro w hw
          have := (hok.waker w hw).1
          rw [hs] at this
          cases this)
        rw [hclaim, hdrop] at hpath
        refine ⟨_, _, forgetInTable_settled hold' ha.budget o hs, ?_⟩
        have hslot := ha.slot_eq hat
        simp only [Store.reclaimed, Store.setCall, hslot, OrdMap.getElem?_insert_self,
          OrdMap.erase_insert, hat.1] at hpath ⊢
        exact hpath
    | inFlight f =>
        have hmark := hok.marked f hs
        rw [hforgotten, hdue.1] at hmark
        rw [hmark] at hs
        have hmove := Move.edit s i k _ e _ _ _ hat (Edit.mark k e hs (hok.quiet hforgotten))
          (fun _ => Or.inl hforgotten) (fun h => Or.inl h)
        refine ⟨_, _, forgetInTable_inFlight (k := { k with pendingForget := false }) hold' hcalls
          rfl hs, ?_⟩
        have hedit : (s.setCall i { k with pendingForget := false }).edit i
            { k with forgotten := true, pendingForget := false }
            { e with state := .inFlight true, waker := none, streams := Cells.NO_STREAMS } =
            s.edit i { k with forgotten := true, pendingForget := false }
              { e with state := .inFlight true, waker := none, streams := Cells.NO_STREAMS } := by
          simp only [Store.edit, Store.setCall, OrdMap.insert_insert]
        rw [hforgotten] at hmove
        exact hedit ▸ Path.single _ _ _ _ hmove

/-- Withdraws a call in flight: whatever the table knew of it, its slot is
    reclaimed. -/
theorem withdraw_eq (h : s.table.Holds i k.correlation e) (hbudget : s.table.budget = none)
    (f : Bool) (hs : e.state = .inFlight f) :
    ∃ ws, s.withdraw k.correlation =
      some (({ s with table := s.table.put i e.reclaimed }.reclaimed k.correlation).1,
        ws ++ ({ s with table := s.table.put i e.reclaimed }.reclaimed k.correlation).2) ∧
      (f = false → ws = e.waker.toList) := by
  cases f with
  | true =>
      refine ⟨[], ?_, fun h => by cases h⟩
      simp only [Store.withdraw, Table.settle_forgotten h hs,
        Table.reclaim_eq s.table i e h.1 hbudget, List.nil_append]
  | false =>
      refine ⟨e.waker.toList, ?_, fun _ => rfl⟩
      have hput := Table.getElem?_put_self s.table i
        { e with state := .settled (.error (.transport .undelivered)), waker := none } e h.1
      have hold : (s.table.put i
          { e with state := .settled (.error (.transport .undelivered)), waker := none }).Holds i
          k.correlation
          { e with state := .settled (.error (.transport .undelivered)), waker := none } :=
        ⟨hput, h.2.1, by simp only [ne_eq, reduceCtorEq, not_false_eq_true]⟩
      simp only [Store.withdraw, Table.settle_inFlight h hs, Table.forget_settled hold _ rfl,
        Table.reclaim_eq _ i _ hput hbudget, Table.put_put]
      rfl

theorem dropClaim_eq (h : s.heldClaim k = none) : s.dropClaim k.claim = s.claims := by
  refine Std.ExtTreeMap.ext_getElem? fun id => ?_
  rw [s.getElem?_dropClaim]
  split
  · next hid =>
      rw [Store.heldClaim, hid, Option.filter_some, ite_eq_right_iff,
        Std.ExtTreeMap.contains_eq_isSome_getElem?] at h
      cases ho : s.claims[id]? with
      | none => rfl
      | some o => exact absurd (h (by rw [ho]; rfl)) (by simp only [reduceCtorEq, not_false_eq_true])
  · rfl

theorem heldClaim_eq_none (h : ∀ id o, k.claim = some id → s.claims[id]? ≠ some o) :
    s.heldClaim k = none := by
  rw [Store.heldClaim, Option.filter_eq_none_iff]
  intro id hid
  rw [Std.ExtTreeMap.contains_eq_isSome_getElem?]
  cases ho : s.claims[id]? with
  | none => simp only [Option.isSome_none, Bool.false_eq_true, not_false_eq_true]
  | some o => exact absurd ho (h id o hid)

theorem withdraw_path (ha : Accounts s) (hat : s.At i k e) (hs : ∃ f, e.state = .inFlight f) :
    ∃ t ws, { s with
        pending := s.pending.erase k.correlation
        claims := s.dropClaim k.claim }.withdraw k.correlation = some (t, ws) ∧
      Path s ws ((s.heldClaim k).toList.map .finished) t ∧ t.calls[i]? = none ∧
      t.claims = s.dropClaim k.claim := by
  obtain ⟨f, hs⟩ := hs
  have hold := ha.holds hat
  obtain ⟨ws, hwithdraw, hws⟩ := withdraw_eq
    (s := { s with
      pending := s.pending.erase k.correlation
      claims := s.dropClaim k.claim }) hold ha.budget f hs
  refine ⟨_, _, hwithdraw, ?_, ?_, rfl⟩
  · refine drop_path ha hat ws ?_
    intro w hw
    have hfalse : f = false := by
      have := ((ha.slotOk hat).waker w hw).1
      rw [hs, State.inFlight.injEq] at this
      exact this
    rw [hws hfalse, hw]
    exact List.mem_singleton_self w
  · simp only [Store.reclaimed, ha.slot_eq hat, OrdMap.getElem?_erase_self]

theorem offered_iff (ha : Accounts s) (hat : s.At i k e) :
    s.offered k.correlation = true ↔
      ∃ id o, k.claim = some id ∧ s.claims[id]? = some o ∧ o.taken = false := by
  simp only [Store.offered, ha.entry_eq hat, Option.bind_some, Option.any_eq_true,
    Option.bind_eq_some_iff, Bool.not_eq_true']
  constructor
  · rintro ⟨o, ⟨id, hid, ho⟩, htaken⟩
    exact ⟨id, o, hid, ho, htaken⟩
  · rintro ⟨id, o, hid, ho, htaken⟩
    exact ⟨o, ⟨id, hid, ho⟩, htaken⟩

theorem deferForget_path (ha : Accounts s) (hat : s.At i k e) (hq : k.Quiet) (t : Store)
    (ws : List Waker) (h : s.deferForget k.correlation = some (t, ws)) :
    Path s ws [.acts .caller k.sent] t ∧ t.callerSlot k.correlation = none := by
  have hold := ha.holds hat
  have hslot := ha.slot_eq hat
  have hok := ha.slotOk hat
  simp only [Store.deferForget, ha.entry_eq hat] at h
  split at h
  · cases h
  · next hcond =>
      simp only [ne_eq, not_true_eq_false, decide_false, Bool.false_or, Bool.or_eq_true,
        Bool.not_eq_true', not_or, Bool.not_eq_true, Bool.not_eq_false] at hcond
      obtain ⟨⟨hforgotten, hheld⟩, _⟩ := hcond
      have hheld' : s.HeldOrSettled k := by
        rcases hheld with hany | hsettled
        · obtain ⟨id, hid, hclaim⟩ := (Option.any_eq_true _ _).mp hany
          rw [Std.ExtTreeMap.contains_eq_isSome_getElem?, Option.isSome_iff_exists] at hclaim
          obtain ⟨o, ho⟩ := hclaim
          exact Or.inl ⟨id, o, hid, ho⟩
        · exact Or.inr hsettled
      have hgone : ∀ e' : Entry, (s.edit i { k with forgotten := true, pendingForget := true }
          e').callerSlot k.correlation = none := by
        intro e'
        refine callerSlot_eq_none _ fun k' hk' _ => ?_
        rw [hslot] at hk'
        simp only [Store.edit, OrdMap.getElem?_insert_self, Option.some.injEq] at hk'
        rw [← hk']
      cases hs : e.state with
      | free => exact absurd hs hok.live
      | settled o =>
          have hwake : s.table.wakeOn k.correlation .noop = (s.table, some .noop) := by
            simp only [Table.wakeOn, hold.held_eq, hat.2, Option.bind_some, Option.map_some, hs]
          simp only [hwake, hslot, Table.takeStreams_eq _ i e hat.2, Option.some.injEq,
            Prod.mk.injEq] at h
          have hmove := Move.edit s i k _ e _ _ _ hat (Edit.deferSettled k e o hforgotten hs hq)
            (fun _ => Or.inr hheld') (fun h => Or.inl h)
          rw [← h.1, ← h.2]
          exact ⟨Path.single _ _ _ _ hmove, hgone _⟩
      | inFlight f =>
          have hmark := hok.marked f hs
          rw [hforgotten, Bool.false_and] at hmark
          rw [hmark] at hs
          have hwake : s.table.wakeOn k.correlation .noop =
              (s.table.put i { e with waker := some .noop },
                e.waker.filter (fun w => !w.willWake .noop)) := by
            simp only [Table.wakeOn, hold.held_eq, hat.2, Option.bind_some, Option.map_some, hs,
              store]
          have hput := Table.takeStreams_eq _ i _
            (Table.getElem?_put_self s.table i { e with waker := some .noop } e hat.2)
          simp only [hwake, hslot, hput, Table.put_put, Option.some.injEq, Prod.mk.injEq] at h
          have hmove := Move.edit s i k _ e _ _ _ hat (Edit.deferInFlight k e hforgotten hs hq)
            (fun _ => Or.inr hheld') (fun h => Or.inl h)
          rw [← h.1, ← h.2]
          exact ⟨Path.single _ _ _ _ hmove, hgone _⟩

/-- The rest of a forget is a path, once the call's streams are finished. -/
theorem forgetCall_path (ha : Accounts s) (hat : s.At i k e) (hq : k.Quiet)
    (hpending : k.pendingForget = false) :
    ∃ t ws evs, s.forgetCall k.correlation = some (t, ws) ∧ Path s ws evs t ∧
      ActsOnly .caller evs ∧ t.callerSlot k.correlation = none := by
  unfold Store.forgetCall
  by_cases hwithdraw : !s.offered k.correlation && s.pending.contains k.correlation
  · -- A waiting call that was not offered has no claim.
    simp only [hwithdraw, if_true]
    simp only [Bool.and_eq_true, Bool.not_eq_true', List.contains_iff_mem] at hwithdraw
    obtain ⟨hoffered, hwait⟩ := hwithdraw
    have hclaim : s.heldClaim k = none := by
      refine heldClaim_eq_none fun id o hid ho => ?_
      have htaken := ha.balanced.taken id o ho
      rw [← (ha.claimed_at hat id o hid ho).1] at htaken
      have : s.offered k.correlation = true :=
        (offered_iff ha hat).mpr ⟨id, o, hid, ho,
          Bool.eq_false_iff.mpr fun h => htaken.mp h hwait⟩
      rw [hoffered] at this
      cases this
    obtain ⟨k', e', hat', _, hs⟩ := ha.waiting _ hwait
    rw [ha.slot_eq hat] at hat'
    have he : e' = e := by
      have := hat'.2
      rw [hat.2, Option.some.injEq] at this
      exact this.symm
    obtain ⟨t, ws, heq, hpath, hgone, _⟩ := withdraw_path ha hat (he ▸ hs)
    rw [dropClaim_eq hclaim] at heq
    rw [hclaim] at hpath
    refine ⟨t, ws, [], heq, hpath, ActsOnly.nil _, callerSlot_eq_none _ fun l hl _ => ?_⟩
    rw [ha.slot_eq hat, hgone] at hl
    cases hl
  · simp only [hwithdraw, Bool.false_eq_true, if_false]
    cases hdefer : s.deferForget k.correlation with
    | some p =>
        obtain ⟨hpath, hgone⟩ := deferForget_path ha hat hq p.1 p.2 hdefer
        exact ⟨p.1, p.2, _, rfl, hpath, ActsOnly.singleton _ _, hgone⟩
    | none =>
        refine forgetInTable_path ha hat hq hpending ?_
        rintro ⟨f, hs⟩
        simp only [Bool.and_eq_true, Bool.not_eq_true', List.contains_iff_mem, not_and]
          at hwithdraw
        by_cases hwait : k.correlation ∈ s.pending
        · have hoffered : s.offered k.correlation = true := by
            by_contra hnot
            exact hwithdraw (by simpa only [Bool.not_eq_true] using hnot) hwait
          obtain ⟨id, o, hid, ho, _⟩ := (offered_iff ha hat).mp hoffered
          exact Or.inl ⟨id, o, hid, ho⟩
        · have hfly : (lineOf k e).flying = true := (flying_iff e.state).mpr ⟨f, hs⟩
          obtain ⟨id, o, hid, ho⟩ := ha.balanced.held i _ (Store.line_of_at hat) hfly hwait
          exact Or.inl ⟨id, o, hid, ho⟩

/-! ### The forget and the drop of a caller -/

theorem edit_same_table (hat : s.At i k e) (k' : CallEntry) :
    s.edit i k' e = s.setCall i k' := by
  rw [Store.edit, Table.put_same _ _ _ hat.2]
  rfl

theorem interruptStreams_path (ha : Accounts s) (hat : s.At i k e) (hk : k.forgotten = false) :
    s.interruptStreams k.correlation = some (s.edit i k.interrupted.1 e, k.interrupted.2) ∧
      Path s k.interrupted.2 [.acts .caller k.sent] (s.edit i k.interrupted.1 e) := by
  constructor
  · have hslot : s.callerSlot k.correlation = some i := by
      rw [callerSlot_of_entry (ha.entry_eq hat) hk, ha.slot_eq hat]
    simp only [Store.interruptStreams, hslot, hat.1, Option.bind_eq_bind, Option.bind_some,
      edit_same_table hat]
    rfl
  · have hk' : k.interrupted.1.forgotten = false := hk
    refine Path.single _ _ _ _ (Move.edit s i k _ e e _ _ hat (Edit.interrupt k e hk) ?_ ?_)
    · intro h
      rw [hk'] at h
      cases h
    · exact fun h => Or.inl h

theorem forget_path (ha : Accounts s) (c : Correlation) :
    ∃ t ws evs, s.forget c = some (t, ws) ∧ Path s ws evs t ∧ ActsOnly .caller evs ∧
      t.callerSlot c = none := by
  unfold Store.forget
  by_cases hpending : s.forgottenPending c
  · -- The forget already waits for the provider.
    simp only [hpending, if_true]
    refine ⟨s, [], [], rfl, Path.refl s, ActsOnly.nil _, callerSlot_eq_none c fun k hk hc => ?_⟩
    rcases ha.exists_at hk with ⟨e, hat⟩
    simp only [Store.forgottenPending, Store.entry, hk, Option.any_some, hc, decide_true,
      Bool.true_and] at hpending
    exact (ha.slotOk hat).deferred hpending
  simp only [hpending, Bool.false_eq_true, if_false]
  by_cases hlive : ∃ k e, s.At (Table.slot c) k e ∧ k.correlation = c
  · rcases hlive with ⟨k, e, hat, rfl⟩
    have hnot : k.pendingForget = false := by
      simpa only [Store.forgottenPending, ha.entry_eq hat, Option.any_some, decide_true,
        Bool.true_and, Bool.not_eq_true] using hpending
    by_cases hk : k.forgotten
    · -- Forgotten while a handler holds it: the streams are stopped already.
      have hnone : s.callerSlot k.correlation = none := by
        refine callerSlot_eq_none _ fun l hl _ => ?_
        rw [hat.1, Option.some.injEq] at hl
        rw [← hl]
        exact hk
      rcases forgetCall_path ha hat ((ha.slotOk hat).quiet hk) hnot with
        ⟨t, ws, evs, heq, hpath, hacts, hgone⟩
      refine ⟨t, ws, evs, ?_, hpath, hacts, hgone⟩
      simp only [Store.interruptStreams, hnone, Option.bind_eq_bind, Option.bind_some, heq,
        List.nil_append]
    · rcases interruptStreams_path ha hat (Bool.not_eq_true _ ▸ hk) with ⟨hstop, hstopped⟩
      have hat' : (s.edit (Table.slot k.correlation) k.interrupted.1 e).At
          (Table.slot k.correlation) k.interrupted.1 e :=
        ⟨OrdMap.getElem?_insert_self _ _ _, Table.getElem?_put_self _ _ _ _ hat.2⟩
      rcases forgetCall_path (hstopped.accounts ha) hat' (CallEntry.quiet_interrupted k) hnot with
        ⟨t, ws, evs, heq, hpath, hacts, hgone⟩
      refine ⟨t, _, _, ?_, hstopped.trans hpath, (ActsOnly.singleton _ _).append hacts, hgone⟩
      have hcorr : k.interrupted.1.correlation = k.correlation := rfl
      rw [hcorr] at heq
      simp only [hstop, Option.bind_eq_bind, Option.bind_some, heq]
  · -- No call of the store has this correlation.
    have hstale : ∀ k e, s.At (Table.slot c) k e → k.correlation ≠ c :=
      fun k e hat hc => hlive ⟨k, e, hat, hc⟩
    have hnone : s.callerSlot c = none := by
      refine callerSlot_eq_none c fun k hk hc => ?_
      rcases ha.exists_at hk with ⟨e, hat⟩
      exact absurd hc (hstale k e hat)
    have hwait : s.pending.contains c = false := by
      rw [Bool.eq_false_iff, ne_eq, List.contains_iff_mem]
      intro hmem
      rcases ha.waiting c hmem with ⟨k, e, hat, hc, _⟩
      exact hstale k e hat hc
    have hdefer : s.deferForget c = none := by
      unfold Store.deferForget Store.entry
      cases hk : s.calls[Table.slot c]? with
      | none => rfl
      | some k =>
          rcases ha.exists_at hk with ⟨e, hat⟩
          simp only [ne_eq, hstale k e hat, not_false_eq_true, decide_true, Bool.true_or, if_true]
    refine ⟨s, [], [], ?_, Path.refl s, ActsOnly.nil _, hnone⟩
    simp only [Store.interruptStreams, hnone, Option.bind_eq_bind, Option.bind_some,
      Store.forgetCall, hwait, Bool.and_false, Bool.false_eq_true, if_false, hdefer,
      forgetInTable_stale ha c hstale, List.nil_append]

theorem ActsOnly.not_sent (h : ActsOnly side evs)
    (call caller : Nat) (c : Correlation) : .sent call caller c ∉ evs := by
  intro hmem
  rcases h _ hmem with ⟨_, heq⟩
  cases heq

theorem later_of_path {t : Store} {ws : List Waker}
    (h : Path s ws evs t) (hacts : ActsOnly side evs) (j : Nat) (k' : CallEntry)
    (hk' : t.calls[j]? = some k') : ∃ k, s.calls[j]? = some k ∧ k.Later k' := by
  rcases h.lives.call j k' hk' with hold | ⟨_, hsent⟩
  · exact hold
  · exact absurd hsent (hacts.not_sent _ _ _)

theorem callerSlot_of_path {t : Store} {ws : List Waker}
    (h : Path s ws evs t) (hacts : ActsOnly side evs) (c : Correlation)
    (hc : s.callerSlot c = none) : t.callerSlot c = none := by
  refine callerSlot_eq_none c fun k' hk' hcorr => ?_
  rcases later_of_path h hacts _ k' hk' with ⟨k, hk, hlater⟩
  refine hlater.forgotten ?_
  by_contra hnot
  rw [hlater.correlation] at hcorr
  subst hcorr
  rw [callerSlot_of_entry hk (Bool.eq_false_iff.mpr hnot)] at hc
  cases hc

theorem forEach_forget_path (cs : List Correlation) (ha : Accounts s) :
    ∃ t ws evs, Store.forEach Store.forget cs s = some (t, ws) ∧ Path s ws evs t ∧
      ActsOnly .caller evs ∧ ∀ c ∈ cs, t.callerSlot c = none := by
  induction cs generalizing s with
  | nil => exact ⟨s, [], [], rfl, Path.refl s, ActsOnly.nil _, fun c hc => nomatch hc⟩
  | cons c cs ih =>
      rcases forget_path ha c with ⟨t, ws, evs, heq, hpath, hacts, hgone⟩
      rcases ih (hpath.accounts ha) with ⟨u, ws', evs', heq', hpath', hacts', hall⟩
      refine ⟨u, ws ++ ws', evs ++ evs', ?_, hpath.trans hpath', hacts.append hacts', ?_⟩
      · simp only [Store.forEach, heq, heq', Option.bind_eq_bind, Option.bind_some]
      · intro d hd
        rcases List.mem_cons.mp hd with hdc | hmem
        · exact hdc ▸ callerSlot_of_path hpath' hacts' c hgone
        · exact hall d hmem

/-- The wakers a handle's waiters hold. -/
def handedBack (waiters : Option Waiters) : List Waker :=
  match waiters with
  | none => []
  | some w => w.slot.toList ++ w.event.toList ++ w.claim.toList

theorem closeCaller_path (ha : Accounts s) (id : Nat) :
    ∃ t ws evs, s.closeCaller id = some (t, ws, s.callers[id]?) ∧
      Path s (handedBack s.callers[id]? ++ ws) (.closed (.slot id) :: evs) t ∧
      ActsOnly .caller evs ∧
      ∀ (j : Nat) (k : CallEntry), t.calls[j]? = some k → k.caller = id →
        k.forgotten = true := by
  have hclosed : s.Outside { s with callers := s.callers.erase id }
      (handedBack s.callers[id]?) (some (.slot id)) := by
    refine ⟨rfl, rfl, rfl, rfl, rfl, rfl, ?_, fun _ h => Or.inl h, ?_, ?_⟩
    · intro id' hopen
      by_cases hid : id = id'
      · exact Or.inr (hid ▸ rfl)
      · exact Or.inl (by rw [OrdMap.getElem?_erase_of_ne _ _ _ hid]; exact hopen)
    · intro hs
      exact {
        sourceLt := hs.sourceLt
        callerLt := fun id' waiters h =>
          hs.callerLt id' waiters (OrdMap.getElem?_of_erase _ _ _ _ h)
        handlerLt := hs.handlerLt
        event := hs.event
        claim := hs.claim
        slot := fun id' waiters h =>
          hs.slot id' waiters (OrdMap.getElem?_of_erase _ _ _ _ h) }
    · intro cell w hw
      cases cell with
      | event => exact Or.inl hw
      | claim => exact Or.inl hw
      | slot id' =>
          simp only [Store.handleWaker, OrdMap.getElem?_erase] at hw ⊢
          by_cases hid : id = id'
          · subst hid
            rw [Option.bind_eq_some_iff] at hw
            rcases hw with ⟨waiters, hwaiters, hslot⟩
            refine Or.inr ?_
            simp only [handedBack, hwaiters, hslot, Option.toList_some, List.append_assoc,
              List.mem_append, List.mem_singleton, true_or]
          · rw [if_neg hid]
            exact Or.inl hw
  have hmove := Path.single _ _ _ _ (Move.outside s _ _ _ hclosed)
  unfold Store.closeCaller
  rcases forEach_forget_path
      ((({ s with callers := s.callers.erase id } : Store).calls.toList.filter
        (fun p => p.2.caller = id)).map (·.2.correlation)) (hmove.accounts ha) with
    ⟨t, ws, evs, heq, hpath, hacts, hall⟩
  refine ⟨t, ws, evs, ?_, hmove.trans hpath, hacts, ?_⟩
  · simp only [heq, Option.bind_eq_bind, Option.bind_some]
  · intro j k' hk' hcaller
    rcases later_of_path hpath hacts j k' hk' with ⟨k, hk, hlater⟩
    rcases ha.exists_at hk with ⟨e, hat⟩
    have hgone := hall k.correlation (by
      refine List.mem_map.mpr ⟨(j, k), List.mem_filter.mpr ⟨?_, ?_⟩, rfl⟩
      · exact Std.ExtTreeMap.mem_toList_iff_getElem?_eq_some.mpr hk
      · exact decide_eq_true (hlater.caller.symm.trans hcaller))
    by_contra hnot
    have hentry : t.entry k'.correlation = some k' := by
      rw [Store.entry, hlater.correlation, ha.slot_eq hat, hk']
    rw [← hlater.correlation, callerSlot_of_entry hentry (Bool.eq_false_iff.mpr hnot)] at hgone
    cases hgone

end Loopback

end Ridl
