import Mathlib.Data.Finset.Card
import Ridl.Loopback.CallPaths

/-!
# The Paths of the Handles

The operations that change the handles and no call: the event sources, the
registrations with a handle, and the opening and closing of the handles. Each
is one `Move.outside`. The send is here too, since it is the one operation
that wakes handles for a new call.

A registration stores the waker or hands it back: `register_waits` says that
what is stored waits for nothing that is there, and `register_kept` that what
was stored before stays or is handed back.

## Theorems

* `register_waits`, `register_kept`: The two halves of a registration.
* `outside_source`, `outside_caller`, `outside_handler`: One handle changes.
* `raise_path`, `serve_path`, `waitClaim_path`, `waitSlot_path`: The
  operations.
-/

namespace Ridl

namespace Correlate

namespace Waiters

/-- The waker stored for the kind of `what`. -/
def stored (w : Waiters) (what : Interest) : Option Waker :=
  match what with
  | .slot => w.slot
  | .event _ => w.event
  | .claim _ => w.claim
  | .outcome _ | .stream _ _ | .claimStream _ _ => none

end Waiters

theorem store_kept (stored : Option Waker) (waker w : Waker) (h : stored = some w) :
    (store stored waker).1 = some w ∨ w ∈ (store stored waker).2.toList := by
  subst h
  by_cases heq : w = waker
  · exact Or.inl (congrArg some heq.symm)
  · refine Or.inr ?_
    have hnot : w.willWake waker = false := by
      rw [Bool.eq_false_iff, ne_eq, Waker.willWake_iff]
      exact heq
    simp only [store, Option.filter_some, hnot, Bool.not_false, if_true, Option.toList_some,
      List.mem_singleton]

end Correlate

namespace Loopback

open Library Correlate

variable {s : Store}

theorem register_waits (waiters : Waiters) (what what' : Interest) (waker : Waker) (ready : Bool)
    (h : (Store.register waiters what waker ready).1.stored what' ≠ none) :
    waiters.stored what' ≠ none ∨ ready = false := by
  cases ready with
  | false => exact Or.inr rfl
  | true =>
      refine Or.inl ?_
      cases what <;> cases what' <;> first | exact h | exact absurd rfl h

theorem register_kept (waiters : Waiters) (what what' : Interest) (waker w : Waker) (ready : Bool)
    (h : waiters.stored what' = some w) :
    (Store.register waiters what waker ready).1.stored what' = some w ∨
      w ∈ (Store.register waiters what waker ready).2 := by
  have hkept := store_kept (waiters.stored what') waker w h
  cases ready with
  | false =>
      cases what <;> cases what' <;> first | exact hkept | exact Or.inl h
  | true =>
      -- Ready: what the registration stored is taken at once and woken.
      have hback : w ∈ (store (waiters.stored what') waker).2.toList ++
          (store (waiters.stored what') waker).1.toList := by
        rw [List.mem_append]
        rcases hkept with hin | hout
        · exact Or.inr (hin ▸ List.mem_singleton_self w)
        · exact Or.inl hout
      cases what <;> cases what' <;> first | exact Or.inr hback | exact Or.inl h

/-! ### One handle changes -/

theorem outside_source (id : Nat) (state state' : SourceState) (ws : List Waker)
    (hid : s.sources[id]? = some state)
    (hevent : (state.waiters.event ≠ none → state.queue = []) →
      state'.waiters.event ≠ none → state'.queue = [])
    (hkept : ∀ w, state.waiters.event = some w → state'.waiters.event = some w ∨ w ∈ ws) :
    s.Outside { s with sources := s.sources.insert id state' } ws none := by
  refine ⟨rfl, rfl, rfl, rfl, rfl, rfl, fun _ h => Or.inl h,
    fun _ h => Or.inl h, ?_, ?_⟩
  · intro hs
    exact {
      sourceLt := OrdMap.forall_insert _ _ _ _ (hs.sourceLt id state hid) hs.sourceLt
      callerLt := hs.callerLt
      handlerLt := hs.handlerLt
      event := OrdMap.forall_insert _ _ _ _ (hevent (hs.event id state hid)) hs.event
      claim := hs.claim
      slot := hs.slot }
  · intro cell w hw
    cases cell with
    | event id' =>
        simp only [Store.handleWaker, OrdMap.getElem?_insert] at hw ⊢
        by_cases heq : id = id'
        · rw [← heq, hid] at hw
          rw [if_pos heq]
          exact hkept w hw
        · rw [if_neg heq]
          exact Or.inl hw
    | claim => exact Or.inl hw
    | slot => exact Or.inl hw

theorem outside_caller (id : Nat) (waiters waiters' : Waiters) (ws : List Waker)
    (hid : s.callers[id]? = some waiters)
    (hslot : waiters'.slot ≠ none → waiters.slot ≠ none ∨
      ∀ (i : Nat) (e : Entry), s.table.slots[i]? = some e → e.state ≠ .free)
    (hkept : ∀ w, waiters.slot = some w → waiters'.slot = some w ∨ w ∈ ws) :
    s.Outside { s with callers := s.callers.insert id waiters' } ws none := by
  refine ⟨rfl, rfl, rfl, rfl, rfl, rfl,
    fun _ h => Or.inl (OrdMap.insert_ne_none _ _ _ _ h), fun _ h => Or.inl h, ?_, ?_⟩
  · intro hs
    refine {
      sourceLt := hs.sourceLt
      callerLt := OrdMap.forall_insert _ _ _ _ (hs.callerLt id waiters hid) hs.callerLt
      handlerLt := hs.handlerLt
      event := hs.event
      claim := hs.claim
      slot := OrdMap.forall_insert _ _ _ _ ?_ hs.slot }
    intro hstored
    rcases hslot hstored with hold | hfull
    · exact hs.slot id waiters hid hold
    · exact hfull
  · intro cell w hw
    cases cell with
    | slot id' =>
        simp only [Store.handleWaker, OrdMap.getElem?_insert] at hw ⊢
        by_cases heq : id = id'
        · rw [← heq, hid] at hw
          rw [if_pos heq]
          exact hkept w hw
        · rw [if_neg heq]
          exact Or.inl hw
    | claim => exact Or.inl hw
    | event => exact Or.inl hw

/-- No waiting call is one the handler serves. -/
def Store.NoneServed (s : Store) (state : HandlerState) : Prop :=
  ∀ c ∈ s.pending, ∀ k, s.entry c = some k → state.serves k.key = false

theorem outside_handler (id : Nat) (state state' : HandlerState) (ws : List Waker)
    (hid : s.handlers[id]? = some state)
    (hclaim : (state.waiters.claim ≠ none → s.NoneServed state) →
      state'.waiters.claim ≠ none → s.NoneServed state')
    (hkept : ∀ w, state.waiters.claim = some w → state'.waiters.claim = some w ∨ w ∈ ws) :
    s.Outside { s with handlers := s.handlers.insert id state' } ws none := by
  refine ⟨rfl, rfl, rfl, rfl, rfl, rfl, fun _ h => Or.inl h,
    fun _ h => Or.inl (OrdMap.insert_ne_none _ _ _ _ h), ?_, ?_⟩
  · intro hs
    exact {
      sourceLt := hs.sourceLt
      callerLt := hs.callerLt
      handlerLt := OrdMap.forall_insert _ _ _ _ (hs.handlerLt id state hid) hs.handlerLt
      event := hs.event
      claim := OrdMap.forall_insert _ _ _ _ (hclaim (hs.claim id state hid)) hs.claim
      slot := hs.slot }
  · intro cell w hw
    cases cell with
    | claim id' =>
        simp only [Store.handleWaker, OrdMap.getElem?_insert] at hw ⊢
        by_cases heq : id = id'
        · rw [← heq, hid] at hw
          rw [if_pos heq]
          exact hkept w hw
        · rw [if_neg heq]
          exact Or.inl hw
    | slot => exact Or.inl hw
    | event => exact Or.inl hw

theorem outside_settings (limits : Key → Option Nat) (fail : Bool) :
    s.Outside { s with limits := limits, failNextSettle := fail } [] none := by
  refine ⟨rfl, rfl, rfl, rfl, rfl, rfl, fun _ h => Or.inl h, fun _ h => Or.inl h, ?_, fun cell w hw => Or.inl ?_⟩
  · exact fun hs => ⟨hs.sourceLt, hs.callerLt, hs.handlerLt, hs.event, hs.claim, hs.slot⟩
  · cases cell <;> exact hw

/-! ### The sources -/

theorem openSource_path (hs : s.Handles) : Path s [] [] s.openSource.1 := by
  refine Path.single _ _ _ _ (Move.outside _ _ _ none
    ⟨rfl, rfl, rfl, rfl, rfl, rfl, fun _ h => Or.inl h, fun _ h => Or.inl h, fun _ => ?_, ?_⟩)
  · exact {
      sourceLt := OrdMap.forall_insert _ _ _ _ (Nat.lt_succ_self _)
        (fun id state h => Nat.lt_succ_of_lt (hs.sourceLt id state h))
      callerLt := hs.callerLt
      handlerLt := hs.handlerLt
      event := OrdMap.forall_insert _ _ _ _ (fun _ => rfl) hs.event
      claim := hs.claim
      slot := hs.slot }
  · intro cell w hw
    refine Or.inl ?_
    cases cell with
    | event id =>
        simp only [Store.handleWaker, Option.bind_eq_some_iff] at hw ⊢
        rcases hw with ⟨state, hstate, hw⟩
        have hlt := hs.sourceLt id state hstate
        refine ⟨state, ?_, hw⟩
        rw [Store.openSource, OrdMap.getElem?_insert_of_ne _ _ _ _ (by omega)]
        exact hstate
    | claim => exact hw
    | slot => exact hw

theorem closeSource_path (id : Nat) :
    Path s (handedBack (s.closeSource id).2) [] (s.closeSource id).1 := by
  refine Path.single _ _ _ _ (Move.outside _ _ _ none
    ⟨rfl, rfl, rfl, rfl, rfl, rfl, fun _ h => Or.inl h, fun _ h => Or.inl h, fun hs => ?_, ?_⟩)
  · exact {
      sourceLt := fun id' state h =>
        hs.sourceLt id' state (OrdMap.getElem?_of_erase _ _ _ _ h)
      callerLt := hs.callerLt
      handlerLt := hs.handlerLt
      event := fun id' state h => hs.event id' state (OrdMap.getElem?_of_erase _ _ _ _ h)
      claim := hs.claim
      slot := hs.slot }
  · intro cell w hw
    cases cell with
    | event id' =>
        simp only [Store.handleWaker, Store.closeSource, OrdMap.getElem?_erase] at hw ⊢
        by_cases hid : id = id'
        · subst hid
          rw [Option.bind_eq_some_iff] at hw
          rcases hw with ⟨state, hstate, hevent⟩
          refine Or.inr ?_
          simp only [handedBack, hstate, Option.map_some, hevent, Option.toList_some,
            List.mem_append, List.mem_singleton, or_true, true_or]
        · rw [if_neg hid]
          exact Or.inl hw
    | claim => exact Or.inl hw
    | slot => exact Or.inl hw

theorem subscribe_path (id : Nat) (iface : InterfaceNo) (ords : List Ordinal) :
    Path s [] [] (s.subscribe id iface ords) := by
  unfold Store.subscribe
  cases hid : s.sources[id]? with
  | none => exact Path.refl s
  | some state =>
      exact Path.single _ _ _ _ (Move.outside _ _ _ none
        (outside_source id state _ [] hid (fun h => h) (fun w hw => Or.inl hw)))

theorem unsubscribe_path (id : Nat) (iface : InterfaceNo) (ords : List Ordinal) :
    Path s [] [] (s.unsubscribe id iface ords) := by
  unfold Store.unsubscribe
  cases hid : s.sources[id]? with
  | none => exact Path.refl s
  | some state =>
      refine Path.single _ _ _ _ (Move.outside _ _ _ none
        (outside_source id state _ [] hid (fun h hevent => ?_) (fun w hw => Or.inl hw)))
      simp only [h hevent, List.filter_nil]

theorem raise_path (iface : InterfaceNo) (ord : Ordinal) (bytes : Bytes) (seq : UInt64)
    (trace : Option TraceContext) (t : Store) (ws : List Waker)
    (h : s.raise iface ord bytes seq trace = .ok (t, ws)) : Path s ws [] t := by
  unfold Store.raise at h
  cases hadmits : s.admitPayload (iface, ord) .event bytes.length with
  | error cap => simp only [hadmits, reduceCtorEq] at h
  | ok u =>
      simp only [hadmits, Except.ok.injEq, Prod.mk.injEq] at h
      rcases h with ⟨rfl, rfl⟩
      refine Path.single _ _ _ _ (Move.outside _ _ _ none
        ⟨rfl, rfl, rfl, rfl, rfl, rfl, fun _ h => Or.inl h, fun _ h => Or.inl h, fun hs => ?_, ?_⟩)
      · refine { sourceLt := ?_, callerLt := hs.callerLt, handlerLt := hs.handlerLt, event := ?_,
                 claim := hs.claim, slot := hs.slot }
        · intro id st hst
          rw [getElem?_sweep, Option.map_eq_some_iff] at hst
          rcases hst with ⟨state, hstate, _⟩
          exact hs.sourceLt id state hstate
        · intro id st hst hevent
          rw [getElem?_sweep, Option.map_eq_some_iff] at hst
          rcases hst with ⟨state, hstate, heq⟩
          by_cases hsub : (iface, ord) ∈ state.subscribed
          · -- The waker of a source that took the occurrence is taken.
            rw [if_pos hsub] at heq
            exact absurd (heq ▸ rfl) hevent
          · rw [if_neg hsub] at heq
            rw [← heq] at hevent ⊢
            exact hs.event id state hstate hevent
      · intro cell w hw
        cases cell with
        | event id =>
            simp only [Store.handleWaker, Option.bind_eq_some_iff] at hw ⊢
            rcases hw with ⟨state, hstate, hw⟩
            by_cases hsub : (iface, ord) ∈ state.subscribed
            · refine Or.inr ((mem_sweep _ _ _).mpr ⟨id, state, hstate, ?_⟩)
              rw [if_pos hsub]
              exact Option.mem_toList.mpr hw
            · refine Or.inl ⟨state, ?_, hw⟩
              rw [getElem?_sweep, hstate, Option.map_some, if_neg hsub]
        | claim => exact Or.inl hw
        | slot => exact Or.inl hw

theorem nextEvent_path (id cap : Nat) (t : Store) (event : Option RawOccurrence)
    (h : s.nextEvent id cap = .ok (t, event)) : Path s [] [] t := by
  unfold Store.nextEvent at h
  cases hid : s.sources[id]? with
  | none =>
      simp only [hid, Except.ok.injEq, Prod.mk.injEq] at h
      exact h.1 ▸ Path.refl s
  | some state =>
      cases hqueue : state.queue with
      | nil =>
          simp only [hid, hqueue, Except.ok.injEq, Prod.mk.injEq] at h
          exact h.1 ▸ Path.refl s
      | cons event rest =>
          simp only [hid, hqueue] at h
          by_cases hcap : cap < event.bytes.length
          · rw [if_pos hcap] at h
            cases h
          · rw [if_neg hcap, Except.ok.injEq, Prod.mk.injEq] at h
            rw [← h.1]
            refine Path.single _ _ _ _ (Move.outside _ _ _ none
              (outside_source id state _ [] hid (fun hidle hevent => ?_) (fun w hw => Or.inl hw)))
            have hnil := hidle hevent
            rw [hqueue] at hnil
            cases hnil

theorem waitEvent_path (id : Nat) (iface : InterfaceNo) (waker : Waker) :
    ∃ ws, Path s ws [] (s.waitEvent id (.event iface) waker).1 ∧
      ∀ w ∈ ws, w ∈ (s.waitEvent id (.event iface) waker).2 := by
  unfold Store.waitEvent
  cases hid : s.sources[id]? with
  | none => exact ⟨[], Path.refl s, fun w hw => nomatch hw⟩
  | some state =>
      refine ⟨_, Path.single _ _ _ _ (Move.outside _ _ _ none
        (outside_source id state _ _ hid (fun hidle hevent => ?_) (fun w hw => ?_))),
        fun w hw => hw⟩
      · rcases register_waits state.waiters (.event iface) (.event iface) waker _ hevent with
          hold | hready
        · exact hidle hold
        · simpa only [Bool.not_eq_false', List.isEmpty_iff] using hready
      · exact register_kept state.waiters (.event iface) (.event iface) waker w _ hw

/-! ### The callers -/

theorem openCaller_path (hs : s.Handles) : Path s [] [] s.openCaller.1 := by
  refine Path.single _ _ _ _ (Move.outside _ _ _ none
    ⟨rfl, rfl, rfl, rfl, rfl, rfl, fun _ h => Or.inl (OrdMap.insert_ne_none _ _ _ _ h),
      fun _ h => Or.inl h, fun _ => ?_, ?_⟩)
  · exact {
      sourceLt := hs.sourceLt
      callerLt := OrdMap.forall_insert _ _ _ _ (Nat.lt_succ_self _)
        (fun id waiters h => Nat.lt_succ_of_lt (hs.callerLt id waiters h))
      handlerLt := hs.handlerLt
      event := hs.event
      claim := hs.claim
      slot := OrdMap.forall_insert _ _ _ _ (fun h => absurd rfl h) hs.slot }
  · intro cell w hw
    refine Or.inl ?_
    cases cell with
    | slot id =>
        simp only [Store.handleWaker, Option.bind_eq_some_iff] at hw ⊢
        rcases hw with ⟨waiters, hwaiters, hw⟩
        have hlt := hs.callerLt id waiters hwaiters
        refine ⟨waiters, ?_, hw⟩
        rw [Store.openCaller, OrdMap.getElem?_insert_of_ne _ _ _ _ (by omega)]
        exact hwaiters
    | claim => exact hw
    | event => exact hw

theorem Accounts.full_of_size (ha : Accounts s) (h : SLOTS ≤ s.calls.size) (i : Nat) (e : Entry)
    (he : s.table.slots[i]? = some e) : e.state ≠ .free := by
  intro hfree
  have hnone := (ha.free i e he hfree).1
  have hlt := s.table.lt_of_getElem? i e he
  -- The slots with a call are below `SLOTS`, and `i` is not one of them.
  have hsub : s.calls.keys.toFinset ⊆ (Finset.range SLOTS).erase i := by
    intro j hj
    rw [List.mem_toFinset, Std.ExtTreeMap.mem_keys, Std.ExtTreeMap.mem_iff_isSome_getElem?,
      Option.isSome_iff_exists] at hj
    rcases hj with ⟨k, hk⟩
    rcases ha.exists_at hk with ⟨e', hat⟩
    refine Finset.mem_erase.mpr ⟨?_, Finset.mem_range.mpr (s.table.lt_of_getElem? j e' hat.2)⟩
    intro hji
    rw [hji, hnone] at hk
    cases hk
  have hcard := Finset.card_le_card hsub
  rw [List.toFinset_card_of_nodup Std.ExtTreeMap.nodup_keys, Std.ExtTreeMap.length_keys,
    Finset.card_erase_of_mem (Finset.mem_range.mpr hlt), Finset.card_range] at hcard
  have : 0 < SLOTS := by decide
  omega

theorem waitSlot_path (ha : Accounts s) (id : Nat) (waker : Waker) :
    ∃ ws, Path s ws [] (s.waitSlot id waker).1 ∧ ∀ w ∈ ws, w ∈ (s.waitSlot id waker).2 := by
  unfold Store.waitSlot
  cases hid : s.callers[id]? with
  | none => exact ⟨[], Path.refl s, fun w hw => nomatch hw⟩
  | some waiters =>
      refine ⟨_, Path.single _ _ _ _ (Move.outside _ _ _ none
        (outside_caller id waiters _ _ hid (fun hslot => ?_) (fun w hw => ?_))), fun w hw => hw⟩
      · rcases register_waits waiters .slot .slot waker _ hslot with hold | hready
        · exact Or.inl hold
        · refine Or.inr (ha.full_of_size ?_)
          rw [decide_eq_false_iff_not] at hready
          omega
      · exact register_kept waiters .slot .slot waker w _ hw

/-! ### The handlers -/

theorem openHandler_path (hs : s.Handles) : Path s [] [] s.openHandler.1 := by
  refine Path.single _ _ _ _ (Move.outside _ _ _ none
    ⟨rfl, rfl, rfl, rfl, rfl, rfl, fun _ h => Or.inl h,
      fun _ h => Or.inl (OrdMap.insert_ne_none _ _ _ _ h), fun _ => ?_, ?_⟩)
  · exact {
      sourceLt := hs.sourceLt
      callerLt := hs.callerLt
      handlerLt := OrdMap.forall_insert _ _ _ _ (Nat.lt_succ_self _)
        (fun id state h => Nat.lt_succ_of_lt (hs.handlerLt id state h))
      event := hs.event
      claim := OrdMap.forall_insert _ _ _ _ (fun h => absurd rfl h) hs.claim
      slot := hs.slot }
  · intro cell w hw
    refine Or.inl ?_
    cases cell with
    | claim id =>
        simp only [Store.handleWaker, Option.bind_eq_some_iff] at hw ⊢
        rcases hw with ⟨state, hstate, hw⟩
        have hlt := hs.handlerLt id state hstate
        refine ⟨state, ?_, hw⟩
        rw [Store.openHandler, OrdMap.getElem?_insert_of_ne _ _ _ _ (by omega)]
        exact hstate
    | event => exact hw
    | slot => exact hw

/-- The search among the waiting calls finds one the handler serves, or there
    is none. -/
theorem firstServed_spec (ha : Accounts s) (state : HandlerState) (cs : List Correlation)
    (hcs : ∀ c ∈ cs, c ∈ s.pending) :
    (∃ c k, s.firstServed state cs = some (some c) ∧ c ∈ s.pending ∧ s.entry c = some k ∧
        state.serves k.key = true) ∨
      s.firstServed state cs = some none ∧
        ∀ c ∈ cs, ∀ k, s.entry c = some k → state.serves k.key = false := by
  induction cs with
  | nil => exact Or.inr ⟨rfl, fun c hc => nomatch hc⟩
  | cons c cs ih =>
      have hwait := hcs c (List.mem_cons_self)
      rcases ha.waiting c hwait with ⟨k, e, hat, hc, _⟩
      have hentry : s.entry c = some k := hat.1
      by_cases hserves : state.serves k.key = true
      · refine Or.inl ⟨c, k, ?_, hwait, hentry, hserves⟩
        simp only [Store.firstServed, Store.servesCall, hentry, Option.map_some,
          Option.bind_eq_bind, Option.bind_some, hserves, if_true]
      · have hnext : s.firstServed state (c :: cs) = s.firstServed state cs := by
          simp only [Store.firstServed, Store.servesCall, hentry, Option.map_some,
            Option.bind_eq_bind, Option.bind_some, Bool.eq_false_iff.mpr hserves,
            Bool.false_eq_true, if_false]
        rw [hnext]
        rcases ih (fun d hd => hcs d (List.mem_cons_of_mem _ hd)) with hfound | ⟨hnone, hall⟩
        · exact Or.inl hfound
        · refine Or.inr ⟨hnone, ?_⟩
          intro d hd l hl
          rcases List.mem_cons.mp hd with hdc | hmem
          · rw [hdc, hentry, Option.some.injEq] at hl
            exact hl ▸ Bool.eq_false_iff.mpr hserves
          · exact hall d hmem l hl

theorem claimWaiting_spec (ha : Accounts s) (handler : Nat) :
    ∃ ready, s.claimWaiting handler = some ready ∧
      (ready = false → ∀ state, s.handlers[handler]? = some state → s.NoneServed state) := by
  unfold Store.claimWaiting
  cases hid : s.handlers[handler]? with
  | none => exact ⟨false, rfl, fun _ state hstate => nomatch hstate⟩
  | some state =>
      rcases firstServed_spec ha state s.pending (fun c hc => hc) with
        ⟨c, k, hfound, _⟩ | ⟨hnone, hall⟩
      · refine ⟨true, ?_, fun h => nomatch h⟩
        simp only [hfound, Option.map_some, Option.isSome_some]
      · refine ⟨false, ?_, fun _ state' hstate' => ?_⟩
        · simp only [hnone, Option.map_some, Option.isSome_none]
        · rw [Option.some.injEq] at hstate'
          exact hstate' ▸ hall

theorem waitClaim_path (ha : Accounts s) (handler : Nat) (iface : InterfaceNo) (waker : Waker) :
    ∃ t ws ws', s.waitClaim handler (.claim iface) waker = some (t, ws') ∧ Path s ws [] t ∧
      ∀ w ∈ ws, w ∈ ws' := by
  rcases claimWaiting_spec ha handler with ⟨ready, hready, hnone⟩
  unfold Store.waitClaim
  cases hid : s.handlers[handler]? with
  | none =>
      exact ⟨s, [], [waker], by simp only [hready, Option.bind_eq_bind, Option.bind_some],
        Path.refl s, fun w hw => nomatch hw⟩
  | some state =>
      simp only [hready, Option.bind_eq_bind, Option.bind_some]
      refine ⟨_, _, _, rfl, Path.single _ _ _ _ (Move.outside _ _ _ none
        (outside_handler handler state _ _ hid (fun hold hclaim => ?_) (fun w hw => ?_))),
        fun w hw => hw⟩
      · rcases register_waits state.waiters (.claim iface) (.claim iface) waker _ hclaim with
          hstored | hnot
        · exact hold hstored
        · exact hnone hnot state hid
      · exact register_kept state.waiters (.claim iface) (.claim iface) waker w _ hw

theorem serve_path (ha : Accounts s) (handler : Nat) (iface : InterfaceNo)
    (ords : List Ordinal) :
    ∃ t ws, s.serve handler iface ords = some (t, ws) ∧ Path s ws [] t := by
  unfold Store.serve
  cases hid : s.handlers[handler]? with
  | none => exact ⟨s, [], rfl, Path.refl s⟩
  | some state =>
      simp only [Waiters.take]
      generalize ords.foldl (fun served ord =>
        if served.contains (iface, ord) then served else served ++ [(iface, ord)])
        state.served = served
      cases htaken : state.waiters.claim with
      | none =>
          refine ⟨_, _, rfl, Path.single _ _ _ _ (Move.outside _ _ _ none
            (outside_handler handler state _ _ hid (fun _ hclaim => absurd rfl hclaim)
              (fun w hw => ?_)))⟩
          rw [htaken] at hw
          cases hw
      | some waker =>
          have hpath : Path s [waker] [] { s with
              handlers := s.handlers.insert handler
                { served := served, waiters := { state.waiters with claim := none } } } := by
            refine Path.single _ _ _ _ (Move.outside _ _ _ none
              (outside_handler handler state _ _ hid (fun _ hclaim => absurd rfl hclaim)
                (fun w hw => ?_)))
            rw [htaken, Option.some.injEq] at hw
            exact Or.inr (hw ▸ List.mem_singleton_self waker)
          rcases claimWaiting_spec (hpath.accounts ha) handler with ⟨ready, hready, hnone⟩
          cases ready with
          | true =>
              refine ⟨_, _, ?_, hpath⟩
              simp only [hready, Option.bind_eq_bind, Option.bind_some, if_true]
          | false =>
              -- No call it serves is waiting, so the waker may be put back.
              have hback := outside_handler handler state
                { served := served, waiters := { state.waiters with claim := some waker } } []
                hid (fun _ _ => hnone rfl
                  { served := served, waiters := { state.waiters with claim := none } }
                  (OrdMap.getElem?_insert_self _ _ _)) (fun w hw => by
                  rw [htaken, Option.some.injEq] at hw
                  exact Or.inl (congrArg some hw))
              refine ⟨_, [], ?_, Path.single _ _ _ _ (Move.outside _ _ _ none hback)⟩
              simp only [hready, Option.bind_eq_bind, Option.bind_some, Bool.false_eq_true,
                if_false, OrdMap.getElem?_insert_self, OrdMap.insert_insert]
              rfl

/-! ### The send -/

theorem send_path (ha : Accounts s) (caller : Nat) (kind : CallKind) (key : Key) (args : Bytes)
    (seq : UInt64) (trace : Option TraceContext) (t : Store) (ws : List Waker) (c : Correlation)
    (h : s.send caller kind key args seq trace = .ok (t, ws, c)) :
    Path s ws [.sent s.nextSent caller c] t ∧
      ∃ k e, t.At (Table.slot c) k e ∧ k.correlation = c ∧ e.state = .inFlight false := by
  unfold Store.send at h
  cases hadmits : s.admitPayload key kind.kind args.length with
  | error cap => simp only [hadmits, reduceCtorEq] at h
  | ok u =>
      cases hinsert : s.table.insert 0 with
      | none => simp only [hadmits, hinsert, reduceCtorEq] at h
      | some p =>
          rcases s.table.insert_spec p.1 0 p.2 ha.budget hinsert with ⟨i, e, he, hfree, hc, ht⟩
          have hslot : Table.slot p.2 = i := by
            rw [hc, s.table.slot_correlation i e (s.table.lt_of_getElem? i e he)]
          simp only [hadmits, hinsert, Except.ok.injEq, Prod.mk.injEq] at h
          rcases h with ⟨rfl, rfl, rfl⟩
          have hmove := Move.send s i e
            { correlation := p.2, caller, kind, iface := key.1, ord := key.2, args
              envelope := { stamp := s.now, seq := seq }, trace, sent := s.nextSent
              reply := [], forgotten := false, claim := none, settledBy := none, streams := ∅
              pendingForget := false, parametersReleased := false
              providerUsedStreams := false }
            _ he hfree hc rfl ⟨rfl, rfl, rfl, rfl, rfl, rfl, rfl⟩ (fun w hw => hw)
          rw [ht, hslot]
          exact ⟨Path.single _ _ _ _ hmove, _, _, ⟨OrdMap.getElem?_insert_self _ _ _,
            Table.getElem?_put_self _ _ _ _ he⟩, rfl, rfl⟩

end Loopback

end Ridl
