import Ridl.Loopback.Paths

/-!
# Slot Accounting

The invariants of the runs of the loopback. Between two steps the store
accounts for its slots, its handles are in order, and every call is somebody's
(`Owned`). So every operation of every run has a result, and a store without
an open caller and without an open handler holds no call.

A drop is where ownership needs care: the handle is out of the handles first,
and what it owned goes call by call. The step lemma follows it with the owners
of the state before, and gives the handle up at the end, when nothing is its
any more.

## Theorems

* `slot_accounting`: Every run keeps the slots accounted for.
-/

namespace Ridl

namespace Loopback

open Library Correlate

variable {s t : Store} {ws : List Waker} {evs : List Event}

/-! ### The handles -/

/-- No handler waits for a call it serves, once the waiting calls are fewer
    and the handlers are the same. -/
theorem claim_of_subset (hs : s.Handles) (hhandlers : t.handlers = s.handlers)
    (hpending : ∀ c ∈ t.pending, c ∈ s.pending)
    (hentry : ∀ c ∈ t.pending, ∀ k', t.entry c = some k' →
      ∃ k, s.entry c = some k ∧ k'.key = k.key)
    (id : Nat) (state : HandlerState) (hstate : t.handlers[id]? = some state)
    (hw : state.waiters.claim ≠ none) (c : Correlation) (hc : c ∈ t.pending) (k' : CallEntry)
    (hk' : t.entry c = some k') : state.serves k'.key = false := by
  rcases hentry c hc k' hk' with ⟨k, hk, hkey⟩
  rw [hkey]
  exact hs.claim id state (hhandlers ▸ hstate) hw c (hpending c hc) k hk

theorem entry_insert {i : Nat} {k m : CallEntry} {e : Entry} (hat : s.At i k e)
    (hkey : m.key = k.key) (hcalls : t.calls = s.calls.insert i m) (c : Correlation)
    (l : CallEntry) (hl : t.entry c = some l) : ∃ n, s.entry c = some n ∧ l.key = n.key := by
  rw [Store.entry, hcalls, OrdMap.getElem?_insert] at hl
  by_cases hic : i = Table.slot c
  · rw [if_pos hic, Option.some.injEq] at hl
    exact ⟨k, by rw [Store.entry, ← hic, hat.1], hl ▸ hkey⟩
  · rw [if_neg hic] at hl
    exact ⟨l, hl, rfl⟩

theorem handlersWoken_spec (s : Store) (key : Key) (id : Nat) (state : HandlerState)
    (h : (s.handlersWoken key)[id]? = some state) (hw : state.waiters.claim ≠ none) :
    s.handlers[id]? = some state ∧ state.serves key = false := by
  rw [Store.handlersWoken, Store.wakeHandlersServing, getElem?_sweep, Option.map_eq_some_iff] at h
  rcases h with ⟨old, hold, heq⟩
  by_cases hserves : old.serves key = true
  · rw [if_pos hserves] at heq
    exact absurd (heq ▸ rfl) hw
  · rw [if_neg hserves] at heq
    exact ⟨heq ▸ hold, heq ▸ Bool.eq_false_iff.mpr hserves⟩

theorem handlersWoken_lt (s : Store) (key : Key) (hs : s.Handles) (id : Nat)
    (state : HandlerState) (h : (s.handlersWoken key)[id]? = some state) :
    id < s.nextHandlerId := by
  rw [Store.handlersWoken, Store.wakeHandlersServing, getElem?_sweep, Option.map_eq_some_iff] at h
  rcases h with ⟨old, hold, _⟩
  exact hs.handlerLt id old hold

/-- Every move keeps the handles in order. -/
theorem Move.handles (h : Move s ws evs t) (ha : Accounts s) (hs : s.Handles) : t.Handles := by
  cases h with
  | outside t ws closed h => exact h.handles hs
  | edit i k k' e e' ws evs hat he =>
      refine { hs with claim := ?_, slot := ?_ }
      · exact claim_of_subset hs rfl (fun c hc => hc)
          (fun c _ l hl => entry_insert hat he.same.1.key rfl c l hl)
      · intro id waiters hwaiters hw j f hf
        rw [Store.edit, Store.getElem?_put_at hat] at hf
        by_cases hij : i = j
        · rw [if_pos hij, Option.some.injEq] at hf
          exact hf ▸ (he.slotOk (ha.slotOk hat)).live
        · rw [if_neg hij] at hf
          exact hs.slot id waiters hwaiters hw j f hf
  | send i e k ws he hfree hk hsent hnew hws =>
      refine { hs with handlerLt := handlersWoken_lt s k.key hs, claim := ?_, slot := ?_ }
      · intro id state hstate hw c hc l hl
        rcases handlersWoken_spec s k.key id state hstate hw with ⟨hold, hserves⟩
        simp only [Store.entry, OrdMap.getElem?_insert] at hl
        rcases List.mem_append.mp hc with hmem | hmem
        · by_cases hic : i = Table.slot c
          · -- A free slot has no waiting call.
            rcases ha.waiting c hmem with ⟨m, f, hat, _⟩
            rw [← hic] at hat
            have hget := hat.1
            rw [(ha.free i e he hfree).1] at hget
            cases hget
          · rw [if_neg hic] at hl
            exact hs.claim id state hold hw c hmem l hl
        · have hslot : Table.slot c = i := by
            rw [List.mem_singleton.mp hmem, hk,
              s.table.slot_correlation i e (s.table.lt_of_getElem? i e he)]
          rw [if_pos hslot.symm, Option.some.injEq] at hl
          exact hl ▸ hserves
      · intro id waiters hwaiters hw
        exact absurd hfree (hs.slot id waiters hwaiters hw i e he)
  | present i k e id handler taken hat hwait hid =>
      refine { hs with claim := ?_ }
      refine claim_of_subset hs rfl (fun c hc => ?_)
        (fun c _ l hl => entry_insert (m := { k with claim := some id }) hat rfl rfl c l hl)
      change c ∈ (if taken then s.pending.erase k.correlation else s.pending) at hc
      split at hc
      · exact List.mem_of_mem_erase hc
      · exact hc
  | record i k k' e o id owner ws evs hat hflight hid hclaim h =>
      refine { hs with claim := ?_, slot := ?_ }
      · exact claim_of_subset hs rfl (fun c hc => List.mem_of_mem_erase hc)
          (fun c _ l hl => entry_insert hat h.same.key rfl c l hl)
      · intro id waiters hwaiters hw j f hf
        simp only [Store.getElem?_put_at hat] at hf
        by_cases hij : i = j
        · rw [if_pos hij, Option.some.injEq] at hf
          rw [← hf]
          exact State.noConfusion
        · rw [if_neg hij] at hf
          exact hs.slot id waiters hwaiters hw j f hf
  | unoffer => exact { hs with }
  | giveBack i k e id owner pending ws hat hid hclaim htaken hunused hforgotten hpending =>
      refine { hs with handlerLt := handlersWoken_lt s k.key hs, claim := ?_ }
      intro id state hstate hw c hc l hl
      rcases handlersWoken_spec s k.key id state hstate hw with ⟨hold, hserves⟩
      rcases (mem_insertBySent s _ _ _ _ hpending c).mp hc with heq | hmem
      · have hk : s.entry c = some k := heq ▸ ha.entry_eq hat
        have : l = k := Option.some.inj (hl.symm.trans hk)
        exact this ▸ hserves
      · exact hs.claim id state hold hw c hmem l hl
  | drop i k e ws evs hat =>
      refine { hs with callerLt := ?_, claim := ?_, slot := ?_ }
      · intro id waiters hwaiters
        rw [Store.callersWoken, getElem?_sweep, Option.map_eq_some_iff] at hwaiters
        rcases hwaiters with ⟨old, hold, _⟩
        exact hs.callerLt id old hold
      · refine claim_of_subset hs rfl (fun c hc => List.mem_of_mem_erase hc) (fun c _ l hl => ?_)
        exact ⟨l, OrdMap.getElem?_of_erase _ _ _ _ hl, rfl⟩
      · intro id waiters hwaiters hw
        rw [Store.callersWoken, getElem?_sweep, Option.map_eq_some_iff] at hwaiters
        rcases hwaiters with ⟨old, _, heq⟩
        exact absurd (heq ▸ rfl) hw

theorem Path.handles (h : Path s ws evs t) (ha : Accounts s) (hs : s.Handles) : t.Handles := by
  induction h with
  | refl => exact hs
  | snoc t u ws ws' evs evs' hp hm ih => exact hm.handles (hp.accounts ha) ih

/-! ### Who is open -/

/-- The handler is open. -/
def Store.Serving (s : Store) (id : Nat) : Prop := s.handlers[id]? ≠ none

/-- The caller is open. -/
def Store.Calling (s : Store) (id : Nat) : Prop := s.callers[id]? ≠ none

theorem serving_handlersWoken (s : Store) (key : Key) (id : Nat) (h : s.Serving id) :
    (s.handlersWoken key)[id]? ≠ none := by
  rw [Store.handlersWoken, Store.wakeHandlersServing, getElem?_sweep, ne_eq, Option.map_eq_none_iff]
  exact h

theorem Move.serving (h : Move s ws evs t) (id : Nat) (hopen : s.Serving id)
    (hevs : .closed (.claim id) ∉ evs) : t.Serving id := by
  cases h with
  | outside t ws closed h =>
      rcases h.handlers id hopen with hkept | rfl
      · exact hkept
      · exact absurd (List.mem_singleton_self _) hevs
  | send i e k => exact serving_handlersWoken s k.key id hopen
  | giveBack i k => exact serving_handlersWoken s k.key id hopen
  | _ => exact hopen

theorem Path.serving (h : Path s ws evs t) (id : Nat) (hopen : s.Serving id)
    (hevs : .closed (.claim id) ∉ evs) : t.Serving id := by
  induction h with
  | refl => exact hopen
  | snoc t u ws ws' evs evs' hp hm ih =>
      rw [List.mem_append, not_or] at hevs
      exact hm.serving id (ih hevs.1) hevs.2

theorem Move.calling (h : Move s ws evs t) (id : Nat) (hopen : s.Calling id)
    (hevs : .closed (.slot id) ∉ evs) : t.Calling id := by
  cases h with
  | outside t ws closed h =>
      rcases h.callers id hopen with hkept | rfl
      · exact hkept
      · exact absurd (List.mem_singleton_self _) hevs
  | drop =>
      rw [Store.Calling, Store.callersWoken, getElem?_sweep, ne_eq, Option.map_eq_none_iff]
      exact hopen
  | _ => exact hopen

theorem Path.calling (h : Path s ws evs t) (id : Nat) (hopen : s.Calling id)
    (hevs : .closed (.slot id) ∉ evs) : t.Calling id := by
  induction h with
  | refl => exact hopen
  | snoc t u ws ws' evs evs' hp hm ih =>
      rw [List.mem_append, not_or] at hevs
      exact hm.calling id (ih hevs.1) hevs.2

/-! ### Whose the calls are -/

/-- A call not forgotten is one of `callers`, a claim or a settled call is an
    open handler's, and no call is an orphan. -/
def Owned (callers : Nat → Prop) (s : Store) : Prop :=
  OwnedBy callers s.Serving s.Serving (fun _ => False) s

theorem owned_new (callers : Nat → Prop) : Owned callers Store.new := by
  constructor <;>
    simp only [Store.new, Store.At, Std.ExtTreeMap.getElem?_empty, reduceCtorEq, false_implies,
      implies_true, false_and]

theorem Owned.sound {callers : Nat → Prop} (ho : Owned callers s) (ha : Accounts s)
    (hs : s.Handles) : Sound s where
  accounts := ha
  handles := hs
  deferred := fun i k e o hat hk hstate =>
    (ho.deferred i k e o hat hk hstate).resolve_right fun h => h

/-- Owners that own nothing can be left out. -/
theorem OwnedBy.mono {C C' H H' S S' : Nat → Prop} {R R' : Correlation → Prop}
    (ho : OwnedBy C H S R s)
    (hC : ∀ (i : Nat) (k : CallEntry), s.calls[i]? = some k → k.forgotten = false →
      C k.caller → C' k.caller)
    (hH : ∀ (id : Nat) (o : ClaimOwner), s.claims[id]? = some o → H o.handler → H' o.handler)
    (hS : ∀ (i : Nat) (k : CallEntry) (h : Nat), s.calls[i]? = some k → k.settledBy = some h →
      S h → S' h)
    (hR : ∀ (i : Nat) (k : CallEntry), s.calls[i]? = some k → R k.correlation →
      R' k.correlation) : OwnedBy C' H' S' R' s where
  caller := fun i k hk hlive => hC i k hk hlive (ho.caller i k hk hlive)
  holder := fun id o h => hH id o h (ho.holder id o h)
  settler := fun i k h hk hby => hS i k h hk hby (ho.settler i k h hk hby)
  held := fun i k hk hforgotten => (ho.held i k hk hforgotten).imp_right (hR i k hk)
  deferred := fun i k e o hat hforgotten hs =>
    (ho.deferred i k e o hat hforgotten hs).imp_right (hR i k hat.1)

variable {op : Op} {r : Reply} {callers : Nat → Prop}

theorem heldCall_holder {handler : Nat} {claim : ClaimId} {k : CallEntry}
    (h : s.heldCall handler claim = some k) :
    ∃ o, s.claims[claim.val]? = some o ∧ o.handler = handler ∧ s.entry o.call = some k := by
  rw [Store.heldCall, Option.bind_eq_some_iff] at h
  rcases h with ⟨o, ho, hk⟩
  rcases Option.filter_eq_some_iff.mp ho with ⟨ho, hhandler⟩
  exact ⟨o, ho, of_decide_eq_true hhandler, hk⟩

/-- The events of a step that drops no handler make only open owners. -/
theorem Explains.allowed {answer : Answer} {ev : Event} (h : Explains s op answer ev)
    (ho : Owned callers s) (hop : ∀ id, op ≠ .closeHandler id)
    (hsend : ∀ caller kind key args seq trace, op = .send caller kind key args seq trace →
      callers caller) :
    Allowed callers s.Serving s.Serving (fun _ => False) ev := by
  cases ev with
  | sent call caller c =>
      rcases h with ⟨_, kind, key, args, seq, trace, hsent, _⟩
      exact hsend caller kind key args seq trace hsent
  | presented claim handler =>
      rcases h with ⟨_, state, hstate⟩
      intro hnone
      rw [hstate] at hnone
      cases hnone
  | answered call handler =>
      rcases h with ⟨claim, outcome, k, _, hheld, _⟩
      rcases heldCall_holder hheld with ⟨o, hclaim, hhandler, _⟩
      exact hhandler ▸ ho.holder _ o hclaim
  | orphaned c =>
      rcases h with ⟨id, hclose⟩
      exact hop id hclose
  | _ => exact trivial

theorem StepPath.serving (h : StepPath s op t r ws evs) (hop : ∀ id, op ≠ .closeHandler id)
    (id : Nat) (hopen : s.Serving id) : t.Serving id :=
  h.path.serving id hopen fun hev => hop id (h.explained _ hev)

theorem StepPath.calling (h : StepPath s op t r ws evs) (id : Nat) (hopen : s.Calling id)
    (hop : op ≠ .closeCaller id) : t.Calling id :=
  h.path.calling id hopen fun hev => hop (h.explained _ hev)

/-- A drop of a handler keeps the calls owned by the others. -/
theorem closeHandler_owned (ha : Accounts s) (ho : Owned callers s) (id : Nat)
    (hstep : s.step (.closeHandler id) = some (t, r)) : Owned callers t := by
  rcases closeHandler_path ha id with ⟨u, ws, evs, due, heq, hpath, hevs, hgone⟩
  simp only [Store.step, heq, Option.bind_eq_bind, Option.bind_some, Option.some.injEq,
    Prod.mk.injEq] at hstep
  rcases hstep with ⟨rfl, _⟩
  have howned : OwnedBy callers s.Serving s.Serving (· ∈ due) u := by
    refine hpath.owned ha (ho.mono (fun _ _ _ _ h => h) (fun _ _ _ h => h)
      (fun _ _ _ _ _ h => h) (fun _ _ _ h => h.elim)) ?_
    exact List.forall_mem_cons.mpr ⟨trivial, fun ev hev => (hevs ev hev).allowed fun c h => h⟩
  have hserving : ∀ id', id' ≠ id → s.Serving id' → u.Serving id' := by
    intro id' hne hopen
    refine hpath.serving id' hopen fun hmem => ?_
    rcases List.mem_cons.mp hmem with heq | hmem
    · exact hne (HandleCell.claim.inj (Event.closed.inj heq))
    · exact hevs _ hmem
  refine howned.mono (fun _ _ _ _ h => h) ?_ ?_ ?_
  · exact fun claim o hclaim hopen => hserving _ (hgone.holder claim o hclaim) hopen
  · exact fun i k h hk hby hopen =>
      hserving h (fun heq => hgone.settler i k hk (heq ▸ hby)) hopen
  · exact fun i k hk hmem => hgone.due _ hmem i k hk rfl

theorem closeCaller_forgets (ha : Accounts s) (id : Nat)
    (hstep : s.step (.closeCaller id) = some (t, r)) (i : Nat) (k : CallEntry)
    (hk : t.calls[i]? = some k) (hcaller : k.caller = id) : k.forgotten = true := by
  rcases closeCaller_path ha id with ⟨u, ws, evs, heq, _, _, hall⟩
  simp only [Store.step, heq, Option.bind_eq_bind, Option.bind_some, Option.some.injEq,
    Prod.mk.injEq] at hstep
  rcases hstep with ⟨rfl, _⟩
  exact hall i k hk hcaller

theorem step_owned {callers' : Nat → Prop} (hs : Sound s) (ho : Owned callers s)
    (hstep : s.step op = some (t, r))
    (hkeep : ∀ id, callers id → op ≠ .closeCaller id → callers' id)
    (hsend : ∀ caller kind key args seq trace, op = .send caller kind key args seq trace →
      callers' caller) : Owned callers' t := by
  -- The owners of both states own the calls of both.
  have hboth : Owned (fun id => callers id ∨ callers' id) s :=
    ho.mono (fun _ _ _ _ h => Or.inl h) (fun _ _ _ h => h) (fun _ _ _ _ _ h => h)
      (fun _ _ _ h => h)
  have howned : Owned (fun id => callers id ∨ callers' id) t := by
    by_cases hop : ∃ id, op = .closeHandler id
    · rcases hop with ⟨id, rfl⟩
      exact closeHandler_owned hs.accounts hboth id hstep
    · have hnot : ∀ id, op ≠ .closeHandler id := fun id h => hop ⟨id, h⟩
      rcases step_path hs op with ⟨u, r', ws, evs, heq, hpath⟩
      rw [heq, Option.some.injEq, Prod.mk.injEq] at hstep
      rcases hstep with ⟨rfl, rfl⟩
      have howned := hpath.path.owned hs.accounts hboth fun ev hev =>
        (hpath.explained ev hev).allowed hboth hnot fun caller kind key args seq trace h =>
          Or.inr (hsend caller kind key args seq trace h)
      exact howned.mono (fun _ _ _ _ h => h) (fun _ _ _ h => hpath.serving hnot _ h)
        (fun _ _ h _ _ hopen => hpath.serving hnot h hopen) (fun _ _ _ h => h)
  refine howned.mono (fun i k hk hlive hcaller => ?_) (fun _ _ _ h => h)
    (fun _ _ _ _ _ h => h) (fun _ _ _ h => h)
  rcases hcaller with hold | hnew
  · refine hkeep k.caller hold fun hclose => ?_
    rw [hclose] at hstep
    rw [closeCaller_forgets hs.accounts k.caller hstep i k hk rfl] at hlive
    cases hlive
  · exact hnew

/-! ### Every run -/

/-- What every step keeps: the store is accounted for, its handles are in
    order, and its calls are owned. -/
structure Whole (callers : Store → Nat → Prop) (s : Store) : Prop where
  accounts : Accounts s
  handles : s.Handles
  owned : Owned (callers s) s

theorem Whole.sound {callers : Store → Nat → Prop} (h : Whole callers s) : Sound s :=
  h.owned.sound h.accounts h.handles

theorem handles_new : Store.new.Handles := by
  constructor <;>
    simp only [Store.new, Std.ExtTreeMap.getElem?_empty, reduceCtorEq, false_implies,
      implies_true]

theorem whole_new (callers : Store → Nat → Prop) : Whole callers Store.new :=
  ⟨accounts_new, handles_new, owned_new _⟩

theorem step_whole {callers : Store → Nat → Prop} (h : Whole callers s)
    (hstep : s.step op = some (t, r))
    (hkeep : ∀ id, callers s id → op ≠ .closeCaller id → callers t id)
    (hsend : ∀ caller kind key args seq trace, op = .send caller kind key args seq trace →
      callers t caller) : Whole callers t := by
  have howned := step_owned h.sound h.owned hstep hkeep hsend
  rcases step_path h.sound op with ⟨u, r', ws, evs, heq, hpath⟩
  rw [heq, Option.some.injEq, Prod.mk.injEq] at hstep
  rcases hstep with ⟨rfl, rfl⟩
  exact ⟨hpath.path.accounts h.accounts, hpath.path.handles h.accounts h.handles, howned⟩

theorem sound_of_run {xs : List Step} (h : loopback.IsRun Store.new xs t) : Sound t := by
  have hall := h.invariant (Whole fun _ _ => True) (whole_new _) fun x _ hstep hpre =>
    step_whole hpre hstep (fun _ _ _ => trivial) fun _ _ _ _ _ _ _ => trivial
  exact hall.sound

theorem sound_of_mem {xs : List Step} (h : loopback.IsRun Store.new xs t) (x : Step)
    (hx : x ∈ xs) : Sound x.pre ∧ Sound x.post := by
  have hall := h.invariant_mem (Whole fun _ _ => True) (whole_new _) (fun x _ hstep hpre =>
    step_whole hpre hstep (fun _ _ _ => trivial) fun _ _ _ _ _ _ _ => trivial) x hx
  exact ⟨hall.1.sound, hall.2.sound⟩

/-! ### The accounting -/

/-- The table, the calls, the waiting calls and the claims agree. -/
structure SlotAccounting (s : Store) : Prop where
  /-- A slot that is not free is a key of the calls, and no other. -/
  keys : ∀ i : Nat, s.calls[i]? ≠ none ↔
    ∃ e : Entry, s.table.slots[i]? = some e ∧ e.state ≠ .free
  correlation : ∀ (i : Nat) (k : CallEntry) (e : Entry), s.At i k e →
    k.correlation = e.correlation i
  waiting : ∀ c ∈ s.pending, ∃ k e, s.At (Table.slot c) k e ∧ k.correlation = c ∧
    ∃ forgotten, e.state = .inFlight forgotten
  once : s.pending.Nodup
  claimed : ∀ (id : Nat) (o : ClaimOwner), s.claims[id]? = some o →
    ∃ k, s.entry o.call = some k ∧ k.correlation = o.call ∧ k.claim = some id
  taken : ∀ (id : Nat) (o : ClaimOwner), s.claims[id]? = some o →
    (o.taken = true ↔ o.call ∉ s.pending)

theorem Accounts.slotAccounting (ha : Accounts s) : SlotAccounting s where
  keys := by
    intro i
    constructor
    · intro hi
      rcases Option.ne_none_iff_exists'.mp hi with ⟨k, hk⟩
      rcases ha.call i k hk with ⟨e, he, hok⟩
      exact ⟨e, he, hok.live⟩
    · rintro ⟨e, he, hlive⟩
      rcases ha.full i e he hlive with ⟨k, hk⟩
      rw [hk]
      exact Option.some_ne_none k
  correlation := fun i k e hat => (ha.slotOk hat).correlation
  waiting := ha.waiting
  once := ha.balanced.nodup
  claimed := by
    intro id o ho
    rcases ha.claimed id o ho with ⟨k, e, hat, hcorr, hid, _⟩
    exact ⟨k, hat.1, hcorr, hid⟩
  taken := ha.balanced.taken

theorem Owned.calls_eq_none {callers : Nat → Prop} (ho : Owned callers s)
    (hcallers : ∀ id, ¬ callers id) (hhandlers : ∀ id, ¬ s.Serving id) (i : Nat) :
    s.calls[i]? = none := by
  cases hk : s.calls[i]? with
  | none => rfl
  | some k =>
      exfalso
      by_cases hforgotten : k.forgotten = true
      · rcases (ho.held i k hk hforgotten).resolve_right fun h => h with ⟨id, o, _, hclaim⟩ | hby
        · exact hhandlers _ (ho.holder id o hclaim)
        · rcases Option.isSome_iff_exists.mp hby with ⟨h, hby⟩
          exact hhandlers h (ho.settler i k h hk hby)
      · exact hcallers _ (ho.caller i k hk (Bool.not_eq_true _ ▸ hforgotten))

/-- The step sends, if it sends, through an open caller: a caller's handle is
    what a call is sent through, and its drop closes it. -/
def Step.sendsOpen (x : Step) : Bool :=
  match x.op with
  | .send caller .. => x.pre.callers.contains caller
  | _ => true

theorem StepPath.calling_of_send (h : StepPath s op t r ws evs) {caller : Nat} {kind : CallKind}
    {key : Key} {args : Bytes} {seq : UInt64} {trace : Option TraceContext}
    (hop : op = .send caller kind key args seq trace) (hopen : s.callers.contains caller = true) :
    t.Calling caller := by
  refine h.calling caller (fun hnone => ?_) (fun hclose => nomatch hop.symm.trans hclose)
  rw [Std.ExtTreeMap.contains_eq_isSome_getElem?, hnone] at hopen
  cases hopen

/-- Every state of every run is accounted for, so every operation has a
    result; and when all who could own a call have closed, nothing is left. -/
theorem slot_accounting (xs : List Step) (t : Store) (h : loopback.IsRun Store.new xs t) :
    SlotAccounting t ∧ (∀ op, t.step op ≠ none) ∧
      ((∀ x ∈ xs, x.sendsOpen = true) → t.callers = ∅ → t.handlers = ∅ →
        t.calls = ∅ ∧ t.pending = [] ∧ t.claims = ∅ ∧
          ∀ (i : Nat) (e : Entry), t.table.slots[i]? = some e → e.state = .free) := by
  have hsound := sound_of_run h
  refine ⟨hsound.accounts.slotAccounting, fun op hnone => ?_, fun hsends hcallers hhandlers => ?_⟩
  · rcases step_path hsound op with ⟨u, r, ws, evs, heq, _⟩
    rw [heq] at hnone
    cases hnone
  · -- With every send from an open caller, the open callers own the calls.
    have hwhole : Whole Store.Calling t := by
      refine h.invariant (Whole Store.Calling) (whole_new _) fun x hx hstep hpre => ?_
      rcases step_path hpre.sound x.op with ⟨u, r, ws, evs, heq, hpath⟩
      change x.pre.step x.op = _ at hstep
      have hpost : u = x.post ∧ r = x.answer := by
        rw [heq, Option.some.injEq, Prod.mk.injEq] at hstep
        exact hstep
      rw [hpost.1, hpost.2] at hpath
      refine step_whole hpre hstep (fun id hopen hop => hpath.calling id hopen hop) ?_
      intro caller kind key args seq trace hop
      have hopen := hsends x hx
      rw [Step.sendsOpen, hop] at hopen
      exact hpath.calling_of_send hop hopen
    have hcalls := hwhole.owned.calls_eq_none
      (fun id hopen => hopen (by rw [hcallers]; exact Std.ExtTreeMap.getElem?_empty))
      (fun id hopen => hopen (by rw [hhandlers]; exact Std.ExtTreeMap.getElem?_empty))
    have ha := hwhole.accounts
    refine ⟨?_, ?_, ?_, ?_⟩
    · refine Std.ExtTreeMap.ext_getElem? fun i => ?_
      rw [hcalls, Std.ExtTreeMap.getElem?_empty]
    · refine List.eq_nil_iff_forall_not_mem.mpr fun c hc => ?_
      rcases ha.waiting c hc with ⟨k, e, hat, _⟩
      exact Option.some_ne_none k (hat.1.symm.trans (hcalls _))
    · refine Std.ExtTreeMap.ext_getElem? fun id => ?_
      rw [Std.ExtTreeMap.getElem?_empty]
      cases ho : t.claims[id]? with
      | none => rfl
      | some o =>
          rcases ha.claimed id o ho with ⟨k, e, hat, _⟩
          exact absurd (hat.1.symm.trans (hcalls _)) (Option.some_ne_none k)
    · intro i e he
      by_contra hlive
      rcases ha.full i e he hlive with ⟨k, hk⟩
      exact Option.some_ne_none k (hk.symm.trans (hcalls i))

/-- Two handlers, of which the second takes over the call the first returned
    with its drop, and settles it; then everything closes. -/
def handoverOps : List Op :=
  [.openCaller, .openHandler, .openHandler, .send 0 .query (0, 0) [1] 0 none, .nextClaim 0 4,
    .closeHandler 0, .nextClaim 1 4, .pushClaim 1 ⟨0⟩ REPLY_STREAM [2],
    .settle 1 ⟨0⟩ (.ok [3]), .closeCaller 0, .closeHandler 1]

/-- The handover of a call leaves no slot behind. -/
theorem slot_accounting_handover :
    ∃ xs t, loopback.IsRun Store.new xs t ∧ SlotAccounting t ∧ (∀ op, t.step op ≠ none) ∧
      t.calls = ∅ := by
  have hexec : (loopback.exec Store.new handoverOps).any (fun p =>
      p.1.all Step.sendsOpen && p.2.callers.isEmpty && p.2.handlers.isEmpty) = true := by
    decide +kernel
  rcases (Option.any_eq_true _ _).mp hexec with ⟨⟨xs, t⟩, heq, hall⟩
  simp only [Bool.and_eq_true, List.all_eq_true] at hall
  have hrun := Machine.isRun_exec _ _ _ _ heq
  rcases slot_accounting xs t hrun with ⟨hslots, htotal, hclosed⟩
  exact ⟨xs, t, hrun, hslots, htotal, (hclosed hall.1.1
    (Std.ExtTreeMap.isEmpty_iff.mp hall.1.2) (Std.ExtTreeMap.isEmpty_iff.mp hall.2)).1⟩

end Loopback

end Ridl
