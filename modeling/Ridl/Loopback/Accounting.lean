import Ridl.Loopback.Ledger
import Ridl.Loopback.Moves

/-!
# The Accounting of the Slots

The five structures of the store name each other: the table holds a call
exactly when `calls` has its entry, a waiting call and a held claim name calls
in flight, and a call in flight that does not wait is held. `Accounts` is that
joint invariant, and `SlotOk` its part about one call. Every move keeps it.

The table's mark of a forgotten call and the entry's agree except while the
forget waits for the provider (`SlotOk.marked`). A forgotten call takes no
part in any stream any more: its streams are finished and hold no waker of
the provider (`SlotOk.quiet`).

## Theorems

* `Edit.slotOk`: Every edit keeps a call's two halves in agreement.
-/

namespace Ridl

namespace Loopback

open Library Correlate

/-- The entry `k` and the table entry `e` of the call in slot `i` agree. -/
structure SlotOk (i : Nat) (k : CallEntry) (e : Entry) : Prop where
  live : e.state ≠ .free
  correlation : k.correlation = e.correlation i
  marked : ∀ f, e.state = .inFlight f → f = (k.forgotten && !k.pendingForget)
  deferred : k.pendingForget = true → k.forgotten = true
  settled : k.settledBy ≠ none → ∃ o, e.state = .settled o
  waker : ∀ w, e.waker = some w → e.state = .inFlight false ∧ (k.forgotten = true → w = .noop)
  cells : e.streams.Distinct
  quiet : k.forgotten = true → k.Quiet

/-! ### One call -/

variable {ws : List Waker} {evs : List Event} {call : Nat} {no : StreamNo} {st st' : StreamState}

theorem Edit.same {k k' : CallEntry} {e e' : Entry} (h : Edit k e ws evs k' e') :
    k.Same k' ∧ e'.generation = e.generation ∧
      ((∃ f, e'.state = .inFlight f) ↔ ∃ f, e.state = .inFlight f) := by
  cases h with
  | change no side _ st =>
      cases side <;>
        exact ⟨⟨rfl, rfl, rfl, rfl, rfl, rfl, rfl, rfl, rfl⟩, rfl, Iff.rfl⟩
  | mark hs =>
      refine ⟨⟨rfl, rfl, rfl, rfl, rfl, rfl, rfl, rfl, rfl⟩, rfl, ?_⟩
      simp only [hs, State.inFlight.injEq, exists_eq']
  | _ => exact ⟨⟨rfl, rfl, rfl, rfl, rfl, rfl, rfl, rfl, rfl⟩, rfl, Iff.rfl⟩

theorem Change.finished {side : Side}
    (h : Change call no side st evs st') (hf : st.finished = true) :
    st'.finished = true := by
  cases h with
  | pull => exact hf
  | push chunk hside hopen => rw [st.finished_of_closed side hopen] at hf; cases hf
  | finish hside hopen => rw [st.finished_of_closed side hopen] at hf; cases hf
  | stop error drained hopen => rw [hopen] at hf; cases hf

theorem Change.claimWaker {side : Side}
    (h : Change call no side st evs st') : st'.claimWaker = st.claimWaker := by
  cases h <;> rfl

theorem Tidy.finished (h : Tidy call no st evs st') : st'.finished = true := by
  cases h <;> assumption

theorem Tidy.claimWaker (h : Tidy call no st evs st') : st'.claimWaker = st.claimWaker := by
  cases h <;> rfl

namespace CallEntry

theorem quiet_takeClaimWakers (k : CallEntry) (h : k.Quiet) : k.takeClaimWakers.1.Quiet := by
  intro no st hst
  rw [getElem?_takeClaimWakers, Option.map_eq_some_iff] at hst
  obtain ⟨st₀, hst₀, hst⟩ := hst
  rw [← hst]
  exact ⟨(h no st₀ hst₀).1, rfl⟩

theorem quiet_closedEntry (k : CallEntry) (h : k.Quiet) : (Store.closedEntry k).1.Quiet := by
  intro no st hst
  rw [Store.getElem?_closedEntry, Option.map_eq_some_iff] at hst
  obtain ⟨st₀, hst₀, hst⟩ := hst
  rw [← hst]
  refine ⟨?_, rfl⟩
  show (if no ≠ REPLY_STREAM then st₀.release else st₀).finished = true
  split_ifs
  · exact st₀.finished_release
  · exact (h no st₀ hst₀).1

theorem quiet_settledEntry (k : CallEntry) (handler : Nat) (outcome : Except CallError Bytes)
    (h : k.Quiet) (hk : k.forgotten = true) : (Store.settledEntry k handler outcome).1.Quiet := by
  intro no st hst
  rw [Store.getElem?_settledEntry] at hst
  split_ifs at hst
  · rw [Option.some.injEq] at hst
    rw [← hst, StreamState.claimWaker_settled]
    exact ⟨StreamState.finished_settled _ _, (k.quiet_stream h hk REPLY_STREAM).2⟩
  · rw [Option.map_eq_some_iff] at hst
    obtain ⟨st₀, hst₀, hst⟩ := hst
    rw [← hst]
    exact ⟨st₀.finished_release, rfl⟩
  · exact h no st hst

theorem quiet_interrupted (k : CallEntry) : k.interrupted.1.Quiet := by
  intro no st hst
  rw [getElem?_interrupted, Option.map_eq_some_iff] at hst
  obtain ⟨st₀, hst₀, hst⟩ := hst
  rw [← hst]
  refine ⟨?_, rfl⟩
  cases hf : st₀.finished with
  | true => simpa only [StreamState.finished, if_true] using hf
  | false =>
      simp only [StreamState.finished, Bool.false_eq_true, if_false, Option.isSome_some,
        Bool.or_true]

end CallEntry

theorem Edit.slotOk {i : Nat} {k k' : CallEntry} {e e' : Entry}
    (h : Edit k e ws evs k' e') (hok : SlotOk i k e) : SlotOk i k' e' := by
  cases h with
  | name no =>
      refine { hok with quiet := ?_ }
      intro hk
      have hst := k.quiet_stream (hok.quiet hk) hk no
      exact k.quiet_setStream no _ (hok.quiet hk) hst.1 hst.2
  | use => exact { hok with }
  | change no side evs st hcaller hused hc =>
      have hquiet : ∀ (w : Option Waker), k.forgotten = true →
          (w = none ∨ w = st.claimWaker) → (k.setStream no { st with claimWaker := w }).Quiet := by
        intro w hk hw
        have hst := k.quiet_stream (hok.quiet hk) hk no
        refine k.quiet_setStream no _ (hok.quiet hk) (hc.finished hst.1) ?_
        rcases hw with hw | hw
        · exact hw
        · rw [hw, hc.claimWaker, hst.2]
      cases side with
      | caller =>
          exact { hok with quiet := fun hk => hquiet none hk (Or.inl rfl) }
      | provider =>
          exact { hok with
            cells := Cells.distinct_take e.streams no hok.cells
            quiet := fun hk => hquiet st.claimWaker hk (Or.inr rfl) }
  | tidy no evs st ht =>
      refine { hok with quiet := ?_ }
      intro hk
      have hst := k.quiet_stream (hok.quiet hk) hk no
      exact k.quiet_setStream no st (hok.quiet hk) ht.finished (ht.claimWaker.trans hst.2)
  | interrupt hk => exact { hok with quiet := fun _ => k.quiet_interrupted }
  | mark hs hq =>
      exact {
        live := by simp only [ne_eq, reduceCtorEq, not_false_eq_true]
        correlation := hok.correlation
        marked := fun f hf => by
          simp only [State.inFlight.injEq] at hf
          rw [← hf]
          rfl
        deferred := fun _ => rfl
        settled := fun hby => by
          obtain ⟨o, ho⟩ := hok.settled hby
          rw [hs] at ho
          cases ho
        waker := fun w hw => by cases hw
        cells := Cells.distinct_NO_STREAMS
        quiet := fun _ => hq }
  | deferInFlight hk hs hq =>
      exact { hok with
        marked := fun f hf => by
          rw [hs, State.inFlight.injEq] at hf
          rw [← hf]
          rfl
        deferred := fun _ => rfl
        waker := fun w hw => by
          rw [Option.some.injEq] at hw
          exact ⟨hs, fun _ => hw.symm⟩
        cells := Cells.distinct_NO_STREAMS
        quiet := fun _ => hq }
  | deferSettled o hk hs hq =>
      exact { hok with
        marked := fun f hf => by rw [hs] at hf; cases hf
        deferred := fun _ => rfl
        waker := fun w hw => by
          have hin := (hok.waker w hw).1
          rw [hs] at hin
          cases hin
        cells := Cells.distinct_NO_STREAMS
        quiet := fun _ => hq }
  | quiet => exact { hok with quiet := fun hk => k.quiet_takeClaimWakers (hok.quiet hk) }
  | close o hs =>
      exact {
        live := hok.live
        correlation := hok.correlation
        marked := fun f hf => by rw [hs] at hf; cases hf
        deferred := fun hp => by cases hp
        settled := fun hby => absurd rfl hby
        waker := hok.waker
        cells := Cells.distinct_NO_STREAMS
        quiet := fun hk => k.quiet_closedEntry (hok.quiet hk) }
  | waitOutcome w hs hk =>
      exact { hok with waker := fun _ _ => ⟨hs, fun hf => by rw [hk] at hf; cases hf⟩ }
  | waitStream no w hk =>
      exact { hok with cells := Cells.distinct_store e.streams no w hok.cells }
  | waitClaimStream no w hk hopen =>
      exact { hok with quiet := fun hf => by rw [show k.forgotten = true from hf] at hk; cases hk }

theorem Verdict.same {handler : Nat} {k k' : CallEntry} {o : Outcome}
    (h : Verdict handler k o ws evs k') : k.Same k' := by
  cases h with
  | settled outcome => exact Store.settledEntry_same k handler outcome
  | interrupted => exact Store.interruptedEntry_same k

/-- A settlement keeps the two halves of a call in agreement. -/
theorem Verdict.slotOk {i handler : Nat} {k k' : CallEntry} {e : Entry} {o : Outcome}
    (h : Verdict handler k o ws evs k')
    (hok : SlotOk i k e) :
    SlotOk i k' { e with state := .settled o, waker := none, streams := Cells.NO_STREAMS } where
  live := by simp only [ne_eq, reduceCtorEq, not_false_eq_true]
  correlation := h.same.correlation.trans hok.correlation
  marked := fun f hf => by cases hf
  deferred := by
    cases h with
    | settled outcome =>
        rw [Store.settledEntry_pendingForget, Store.settledEntry_forgotten]
        exact hok.deferred
    | interrupted => exact hok.deferred
  settled := fun _ => ⟨o, rfl⟩
  waker := fun w hw => by cases hw
  cells := Cells.distinct_NO_STREAMS
  quiet := by
    cases h with
    | settled outcome =>
        rw [Store.settledEntry_forgotten]
        exact fun hk => k.quiet_settledEntry handler outcome (hok.quiet hk) hk
    | interrupted hk =>
        intro hf
        rw [show k.forgotten = true from hf] at hk
        cases hk

/-! ### The store -/

/-- Whether a call in this state is still to be settled. -/
def flying : State → Bool
  | .inFlight _ => true
  | .free | .settled _ => false

theorem flying_iff (st : State) : flying st = true ↔ ∃ f, st = .inFlight f := by
  cases st <;> simp only [flying, reduceCtorEq, exists_false, State.inFlight.injEq, exists_eq']

/-- What the ledger says of a call. -/
def lineOf (k : CallEntry) (e : Entry) : Line :=
  { correlation := k.correlation, sent := k.sent, claim := k.claim, flying := flying e.state }

namespace Store

/-- The line of the call in slot `i`. -/
def line (s : Store) (i : Nat) : Option Line :=
  s.calls[i]?.bind (fun k => s.table.slots[i]?.map (lineOf k))

def ledger (s : Store) : Ledger :=
  { lines := s.line
    pending := s.pending
    claims := fun id => s.claims[id]?
    nextSent := s.nextSent
    nextClaimId := s.nextClaimId }

theorem getElem?_dropClaim (s : Store) (claim : Option Nat) (id : Nat) :
    (s.dropClaim claim)[id]? = if claim = some id then none else s.claims[id]? := by
  cases claim with
  | none => simp only [dropClaim, reduceCtorEq, if_false]
  | some id' => simp only [dropClaim, OrdMap.getElem?_erase, Option.some.injEq]

variable {s : Store} {i : Nat} {k : CallEntry} {e : Entry}

theorem line_of_at (h : s.At i k e) : s.line i = some (lineOf k e) := by
  simp only [line, h.1, h.2, Option.bind_some, Option.map_some]

theorem at_of_line (l : Line) (h : s.line i = some l) :
    ∃ k e, s.At i k e ∧ l = lineOf k e := by
  simp only [line, Option.bind_eq_some_iff, Option.map_eq_some_iff] at h
  obtain ⟨k, hk, e, he, hl⟩ := h
  exact ⟨k, e, ⟨hk, he⟩, hl.symm⟩

theorem getElem?_put_at (hat : s.At i k e) (e' : Entry) (j : Nat) :
    (s.table.put i e').slots[j]? = if i = j then some e' else s.table.slots[j]? := by
  have hlt := s.table.lt_of_getElem? i e hat.2
  simp only [Table.getElem?_put, hlt, and_true]

theorem line_update (s t : Store) (i : Nat) (k : CallEntry) (e : Entry)
    (hcalls : ∀ j : Nat, t.calls[j]? = if i = j then some k else s.calls[j]?)
    (hslots : ∀ j : Nat, t.table.slots[j]? = if i = j then some e else s.table.slots[j]?) :
    t.line = Function.update s.line i (some (lineOf k e)) := by
  funext j
  by_cases hij : j = i
  · subst hij
    simp only [line, hcalls, hslots, if_true, Option.bind_some, Option.map_some,
      Function.update_self]
  · rw [Function.update_of_ne hij]
    simp only [line, hcalls, hslots, Ne.symm hij, if_false]

end Store

/-- The table, the calls, the waiting calls and the claims agree. -/
structure Accounts (s : Store) : Prop where
  budget : s.table.budget = none
  free : ∀ (i : Nat) (e : Entry), s.table.slots[i]? = some e → e.state = .free →
    s.calls[i]? = none ∧ e.waker = none ∧ ∀ j : Fin STREAM_WAKERS, getElem e.streams j j.isLt = none
  full : ∀ (i : Nat) (e : Entry), s.table.slots[i]? = some e → e.state ≠ .free →
    ∃ k, s.calls[i]? = some k
  call : ∀ (i : Nat) (k : CallEntry), s.calls[i]? = some k →
    ∃ e, s.table.slots[i]? = some e ∧ SlotOk i k e
  balanced : s.ledger.Balanced

theorem accounts_new : Accounts Store.new where
  budget := rfl
  free := by
    intro i e he _
    have hlt := Store.new.table.lt_of_getElem? i e he
    simp only [Store.new, Table.new, Vector.getElem?_replicate] at he
    split_ifs at he
    rw [Option.some.injEq] at he
    subst he
    exact ⟨Std.ExtTreeMap.getElem?_empty, rfl, Cells.getElem_NO_STREAMS⟩
  full := by
    intro i e he hlive
    simp only [Store.new, Table.new, Vector.getElem?_replicate] at he
    split_ifs at he
    rw [Option.some.injEq] at he
    subst he
    exact absurd rfl hlive
  call := by
    intro i k hk
    simp only [Store.new, Std.ExtTreeMap.getElem?_empty, reduceCtorEq] at hk
  balanced := by
    constructor <;>
      simp only [Store.ledger, Store.new, Store.line, Std.ExtTreeMap.getElem?_empty,
        Option.bind_none, List.not_mem_nil, List.Pairwise.nil, reduceCtorEq, false_implies,
        implies_true]

namespace Accounts

variable {s : Store} {i : Nat} {k : CallEntry} {e : Entry}

theorem slotOk (h : Accounts s) (hat : s.At i k e) : SlotOk i k e := by
  obtain ⟨e', he', hok⟩ := h.call i k hat.1
  rw [hat.2, Option.some.injEq] at he'
  rw [he']
  exact hok

theorem holds (h : Accounts s) (hat : s.At i k e) : s.table.Holds i k.correlation e :=
  ⟨hat.2, (h.slotOk hat).correlation, (h.slotOk hat).live⟩

theorem slot_eq (h : Accounts s) (hat : s.At i k e) : Table.slot k.correlation = i :=
  (h.holds hat).slot_eq

theorem entry_eq (h : Accounts s) (hat : s.At i k e) : s.entry k.correlation = some k := by
  rw [Store.entry, h.slot_eq hat, hat.1]

theorem exists_at (h : Accounts s) (hk : s.calls[i]? = some k) : ∃ e, s.At i k e := by
  obtain ⟨e, he, _⟩ := h.call i k hk
  exact ⟨e, hk, he⟩

theorem at_of_held (h : Accounts s) (c : Correlation) (hc : s.table.held c = some i) :
    ∃ k e, s.At i k e ∧ k.correlation = c := by
  obtain ⟨e, he, hcorr, hlive⟩ := s.table.held_eq_some c i hc
  obtain ⟨k, hk⟩ := h.full i e he hlive
  exact ⟨k, e, ⟨hk, he⟩, (h.slotOk ⟨hk, he⟩).correlation.trans hcorr.symm⟩

theorem waiting (h : Accounts s) (c : Correlation) (hc : c ∈ s.pending) :
    ∃ k e, s.At (Table.slot c) k e ∧ k.correlation = c ∧ ∃ f, e.state = .inFlight f := by
  obtain ⟨l, hl, hcorr, hfly⟩ := h.balanced.waiting c hc
  obtain ⟨k, e, hat, hl⟩ := s.at_of_line l hl
  subst hl
  exact ⟨k, e, hat, hcorr, (flying_iff e.state).mp hfly⟩

theorem claimed (h : Accounts s) (id : Nat) (o : ClaimOwner) (ho : s.claims[id]? = some o) :
    ∃ k e, s.At (Table.slot o.call) k e ∧ k.correlation = o.call ∧ k.claim = some id ∧
      ∃ f, e.state = .inFlight f := by
  obtain ⟨l, hl, hcorr, hid, hfly⟩ := h.balanced.claim id o ho
  obtain ⟨k, e, hat, hl⟩ := s.at_of_line l hl
  subst hl
  exact ⟨k, e, hat, hcorr, hid, (flying_iff e.state).mp hfly⟩

theorem claimed_at (h : Accounts s) (hat : s.At i k e) (id : Nat) (o : ClaimOwner)
    (hid : k.claim = some id) (ho : s.claims[id]? = some o) :
    k.correlation = o.call ∧ ∃ f, e.state = .inFlight f := by
  obtain ⟨l, m, hlm, hcorr, hlid, hfly⟩ := h.claimed id o ho
  have hi := h.balanced.claimInj i _ _ _ id (Store.line_of_at hat) (Store.line_of_at hlm) hid hlid
  have hk := hlm.1
  have he := hlm.2
  rw [← hi, hat.1, Option.some.injEq] at hk
  rw [← hi, hat.2, Option.some.injEq] at he
  exact ⟨hk ▸ hcorr, he ▸ hfly⟩

end Accounts

/-! ### The moves -/

section Moves

variable {s t : Store} {i : Nat} {k k' : CallEntry} {e e' : Entry}

/-- A store that differs in the slot of one call. -/
theorem Accounts.update (h : Accounts s)
    (hcalls : ∀ j : Nat, t.calls[j]? = if i = j then some k' else s.calls[j]?)
    (hslots : ∀ j : Nat, t.table.slots[j]? = if i = j then some e' else s.table.slots[j]?)
    (hbudget : t.table.budget = s.table.budget) (hok : SlotOk i k' e')
    (hbalanced : t.ledger.Balanced) : Accounts t where
  budget := hbudget.trans h.budget
  free := by
    intro j f hf hfree
    rw [hslots] at hf
    split_ifs at hf with hij
    · rw [Option.some.injEq] at hf
      exact absurd (hf ▸ hfree) hok.live
    · rw [hcalls, if_neg hij]
      exact h.free j f hf hfree
  full := by
    intro j f hf hlive
    rw [hslots] at hf
    rw [hcalls]
    split_ifs at hf ⊢
    · exact ⟨k', rfl⟩
    · exact h.full j f hf hlive
  call := by
    intro j l hl
    rw [hcalls] at hl
    rw [hslots]
    split_ifs at hl ⊢ with hij
    · rw [Option.some.injEq] at hl
      exact ⟨e', rfl, hij ▸ hl ▸ hok⟩
    · exact h.call j l hl
  balanced := hbalanced

theorem mem_insertBySent (s : Store) (c : Correlation) (sent : Nat) (pending p : List Correlation)
    (h : s.insertBySent c sent pending = some p) (d : Correlation) :
    d ∈ p ↔ d = c ∨ d ∈ pending := by
  induction pending generalizing p with
  | nil =>
      simp only [Store.insertBySent, Option.some.injEq] at h
      rw [← h, List.mem_singleton]
      simp only [List.not_mem_nil, or_false]
  | cons call rest ih =>
      simp only [Store.insertBySent, Option.bind_eq_bind, Option.bind_eq_some_iff] at h
      obtain ⟨k, _, h⟩ := h
      split_ifs at h
      · simp only [Option.bind_eq_some_iff, Option.some.injEq] at h
        obtain ⟨r, hr, hp⟩ := h
        rw [← hp, List.mem_cons, List.mem_cons, ih r hr]
        tauto
      · rw [Option.some.injEq] at h
        rw [← h, List.mem_cons]

/-- The waiting calls stay in send order. -/
theorem sorted_insertBySent (s : Store) (c : Correlation) (k : CallEntry)
    (hc : s.entry c = some k) (pending p : List Correlation)
    (h : s.insertBySent c k.sent pending = some p)
    (hsorted : pending.Pairwise s.ledger.Before)
    (hlines : ∀ d ∈ pending, ∀ l, s.entry d = some l → (∃ m, s.ledger.lines (Table.slot d) = some m) ∧ l.sent ≠ k.sent) :
    p.Pairwise s.ledger.Before := by
  have hsent : ∀ d l m, s.entry d = some l → s.ledger.lines (Table.slot d) = some m → m.sent = l.sent := by
    intro d l m hl hm
    obtain ⟨l', e, hat, hm⟩ := s.at_of_line m hm
    rw [Store.entry, hat.1, Option.some.injEq] at hl
    rw [hm, ← hl]
    rfl
  induction pending generalizing p with
  | nil =>
      simp only [Store.insertBySent, Option.some.injEq] at h
      rw [← h]
      exact List.pairwise_singleton _ _
  | cons call rest ih =>
      simp only [Store.insertBySent, Option.bind_eq_bind, Option.bind_eq_some_iff] at h
      obtain ⟨l, hl, h⟩ := h
      have hcons := List.pairwise_cons.mp hsorted
      have hcall := hlines call List.mem_cons_self l hl
      split_ifs at h with hlt
      · simp only [Option.bind_eq_some_iff, Option.some.injEq] at h
        obtain ⟨r, hr, hp⟩ := h
        rw [← hp]
        refine List.pairwise_cons.mpr ⟨?_, ih r hr hcons.2 (fun d hd => hlines d (List.mem_cons_of_mem _ hd))⟩
        intro d hd
        rcases (mem_insertBySent s c k.sent rest r hr d).mp hd with hdc | hdr
        · intro m n hm hn
          rw [hsent call l m hl hm, hsent c k n hc (hdc ▸ hn)]
          exact hlt
        · exact hcons.1 d hdr
      · rw [Option.some.injEq] at h
        rw [← h]
        have hfirst : s.ledger.Before c call := by
          intro m n hm hn
          rw [hsent c k m hc hm, hsent call l n hl hn]
          have := hcall.2
          omega
        refine List.pairwise_cons.mpr ⟨?_, hsorted⟩
        intro d hd
        rcases List.mem_cons.mp hd with hdc | hdr
        · exact hdc ▸ hfirst
        · intro m n hm hn
          obtain ⟨q, hq⟩ := hcall.1
          exact (hfirst m q hm hq).trans (hcons.1 d hdr q n hq hn)

theorem balanced_update (L : Ledger) (h : L.Balanced)
    (hcalls : ∀ j : Nat, t.calls[j]? = if i = j then some k' else s.calls[j]?)
    (hslots : ∀ j : Nat, t.table.slots[j]? = if i = j then some e' else s.table.slots[j]?)
    (hlines : L.lines = Function.update s.line i (some (lineOf k' e')))
    (hpending : t.pending = L.pending) (hclaims : ∀ id : Nat, t.claims[id]? = L.claims id)
    (hsent : t.nextSent = L.nextSent) (hclaimId : t.nextClaimId = L.nextClaimId) :
    t.ledger.Balanced := by
  have hledger : t.ledger = L :=
    Ledger.ext ((Store.line_update s t i k' e' hcalls hslots).trans hlines.symm) hpending
      (funext hclaims) hsent hclaimId
  exact hledger ▸ h

theorem balanced_edit (h : s.ledger.Balanced) (hat : s.At i k e) (hsame : k.Same k')
    (hfly : (∃ f, e'.state = .inFlight f) ↔ ∃ f, e.state = .inFlight f) :
    (s.edit i k' e').ledger.Balanced := by
  have hline : lineOf k' e' = lineOf k e := by
    have hflying : flying e'.state = flying e.state := by
      rw [Bool.eq_iff_iff, flying_iff, flying_iff, hfly]
    simp only [lineOf, hsame.correlation, hsame.sent, hsame.claim, hflying]
  refine balanced_update s.ledger h (fun j => OrdMap.getElem?_insert s.calls i j k')
    (Store.getElem?_put_at hat e') ?_ rfl (fun _ => rfl) rfl rfl
  rw [hline, ← Store.line_of_at hat, Function.update_eq_self]
  rfl

theorem Store.getElem?_same (hat : s.At i k e) (j : Nat) :
    s.table.slots[j]? = if i = j then some e else s.table.slots[j]? := by
  split_ifs with hij
  · exact hij ▸ hat.2
  · rfl

variable {ws : List Waker}

theorem Outside.accounts {closed : Option HandleCell}
    (h : s.Outside t ws closed) (ha : Accounts s) : Accounts t := by
  have hline : t.line = s.line := by
    funext j
    simp only [Store.line, h.table, h.calls]
  have hledger : t.ledger = s.ledger :=
    Ledger.ext hline h.pending (by simp only [Store.ledger, h.claims]) h.nextSent h.nextClaimId
  exact {
    budget := h.table ▸ ha.budget
    free := by rw [h.table, h.calls]; exact ha.free
    full := by rw [h.table, h.calls]; exact ha.full
    call := by rw [h.table, h.calls]; exact ha.call
    balanced := hledger ▸ ha.balanced }

theorem slotOk_send (ha : Accounts s) (he : s.table.slots[i]? = some e) (hfree : e.state = .free)
    (hk : k.correlation = e.correlation i) (hforgotten : k.forgotten = false)
    (hsettled : k.settledBy = none) (hpending : k.pendingForget = false) :
    SlotOk i k { e with
      state := .inFlight false
      reservation := 0
      streams := Cells.NO_STREAMS } where
  live := by simp only [ne_eq, reduceCtorEq, not_false_eq_true]
  correlation := hk
  marked := fun f hf => by
    rw [State.inFlight.injEq] at hf
    rw [← hf, hforgotten]
    rfl
  deferred := fun h => by rw [hpending] at h; cases h
  settled := fun h => absurd hsettled h
  waker := fun w hw => by rw [(ha.free i e he hfree).2.1] at hw; cases hw
  cells := Cells.distinct_NO_STREAMS
  quiet := fun h => by rw [hforgotten] at h; cases h

theorem Move.accounts {evs : List Event} (h : Move s ws evs t) (ha : Accounts s) : Accounts t := by
  cases h with
  | outside t ws closed ho => exact Outside.accounts ho ha
  | edit i k k' e e' ws evs hat he =>
      obtain ⟨hsame, _, hfly⟩ := he.same
      exact ha.update (fun j => OrdMap.getElem?_insert s.calls i j k')
        (Store.getElem?_put_at hat e') rfl (he.slotOk (ha.slotOk hat))
        (balanced_edit ha.balanced hat hsame hfly)
  | send i e k ws he hfree hk hsent hnew =>
      obtain ⟨hforgotten, hclaim, hsettled, _, hpending, _⟩ := hnew
      have hlt := s.table.lt_of_getElem? i e he
      have hslots := fun (f : Entry) j => show (s.table.put i f).slots[j]? =
          if i = j then some f else s.table.slots[j]? by
        simp only [Table.getElem?_put, hlt, and_true]
      refine ha.update (fun j => OrdMap.getElem?_insert s.calls i j k) (hslots _) rfl
        (slotOk_send ha he hfree hk hforgotten hsettled hpending) ?_
      refine balanced_update (s.ledger.send i (lineOf k { e with state := .inFlight false }))
        (ha.balanced.send i _ ?_ ?_ hsent hclaim rfl)
        (fun j => OrdMap.getElem?_insert s.calls i j k) (hslots _) rfl rfl (fun _ => rfl) rfl rfl
      · simp only [Store.ledger, Store.line, (ha.free i e he hfree).1, Option.bind_none]
      · rw [lineOf, hk, Table.slot_correlation s.table i e hlt]
  | present i k e id handler taken hat hwait hid =>
      refine ha.update (fun j => OrdMap.getElem?_insert s.calls i j _)
        (fun j => Store.getElem?_same hat j) rfl { ha.slotOk hat with } ?_
      refine balanced_update (s.ledger.present i (lineOf k e) id handler taken)
        (ha.balanced.present i _ id handler taken (Store.line_of_at hat) hwait hid)
        (fun j => OrdMap.getElem?_insert s.calls i j _) (fun j => Store.getElem?_same hat j)
        rfl rfl (fun id' => ?_) rfl rfl
      simp only [OrdMap.getElem?_insert, Ledger.present, Function.update_apply, eq_comm]
      rfl
  | record i k k' e o id owner ws evs hat hs hid hclaim hv =>
      have hline : lineOf k' { e with
          state := .settled o
          waker := none
          streams := Cells.NO_STREAMS } = { lineOf k e with flying := false } := by
        simp only [lineOf, hv.same.correlation, hv.same.sent, hv.same.claim, flying]
      refine ha.update (fun j => OrdMap.getElem?_insert s.calls i j k')
        (Store.getElem?_put_at hat _) rfl (hv.slotOk (ha.slotOk hat)) ?_
      refine balanced_update (s.ledger.record i (lineOf k e) id)
        (ha.balanced.record i _ id (Store.line_of_at hat) hid)
        (fun j => OrdMap.getElem?_insert s.calls i j k') (Store.getElem?_put_at hat _)
        (by rw [hline]; rfl) rfl (fun id' => ?_) rfl rfl
      simp only [OrdMap.getElem?_erase, Ledger.record, Function.update_apply, eq_comm]
      rfl
  | unoffer i k e id owner hat hid hclaim hoffered =>
      have hledger : ({ s with claims := s.claims.erase id } : Store).ledger =
          s.ledger.unoffer id := by
        refine Ledger.ext rfl rfl (funext fun id' => ?_) rfl rfl
        simp only [Store.ledger, OrdMap.getElem?_erase, Ledger.unoffer, Function.update_apply,
          eq_comm]
      exact { ha with balanced := hledger ▸ ha.balanced.unoffer id owner hclaim hoffered }
  | giveBack i k e id owner pending ws hat hid hclaim htaken hunused hforgotten hpending =>
      have hledger : ({ s with
          claims := s.claims.erase id
          pending := pending
          handlers := s.handlersWoken k.key } : Store).ledger = s.ledger.giveBack id pending := by
        refine Ledger.ext rfl rfl (funext fun id' => ?_) rfl rfl
        simp only [Store.ledger, OrdMap.getElem?_erase, Ledger.giveBack, Function.update_apply,
          eq_comm]
      have hmem := mem_insertBySent s k.correlation k.sent s.pending pending hpending
      have hnot : k.correlation ∉ s.pending := by
        rw [(ha.claimed_at hat id owner hid hclaim).1]
        exact (ha.balanced.taken id owner hclaim).mp htaken
      have hsorted : pending.Pairwise s.ledger.Before := by
        refine sorted_insertBySent s k.correlation k (ha.entry_eq hat) s.pending pending hpending
          ha.balanced.sorted ?_
        intro d hd l hl
        obtain ⟨m, hm, hcorr, _⟩ := ha.balanced.waiting d hd
        refine ⟨⟨m, hm⟩, ?_⟩
        -- Calls sent at one place are one call, and this one does not wait.
        intro hsent
        obtain ⟨l', e', hat', hm'⟩ := s.at_of_line m hm
        rw [Store.entry, hat'.1, Option.some.injEq] at hl
        have hi := ha.balanced.sentInj _ _ _ _ hm (Store.line_of_at hat)
          (by rw [hm']; exact (hl ▸ hsent))
        have hk := hat'.1
        rw [hi, hat.1, Option.some.injEq] at hk
        have hdk : d = k.correlation := by
          rw [← hcorr, hm', hk]
          rfl
        exact hnot (hdk ▸ hd)
      have hbal := ha.balanced.giveBack i (lineOf k e) id owner pending (Store.line_of_at hat) hid
        hclaim hmem hsorted
      exact { ha with balanced := hledger ▸ hbal }
  | drop i k e ws evs hat =>
      have hslots := Store.getElem?_put_at hat { e.reclaimed with streams := Cells.NO_STREAMS }
      have hcalls := fun j => OrdMap.getElem?_erase s.calls i j
      exact {
        budget := ha.budget
        free := by
          intro j f hf hfree
          rw [hslots] at hf
          show (s.calls.erase i)[j]? = none ∧ _
          rw [hcalls]
          split_ifs at hf ⊢ with hij
          · rw [Option.some.injEq] at hf
            rw [← hf]
            exact ⟨rfl, rfl, Cells.getElem_NO_STREAMS⟩
          · exact ha.free j f hf hfree
        full := by
          intro j f hf hlive
          rw [hslots] at hf
          show ∃ l, (s.calls.erase i)[j]? = some l
          rw [hcalls]
          split_ifs at hf ⊢ with hij
          · rw [Option.some.injEq] at hf
            exact absurd (by rw [← hf]; rfl) hlive
          · exact ha.full j f hf hlive
        call := by
          intro j l hl
          rw [show (s.calls.erase i)[j]? = some l ↔ _ from by rw [hcalls]] at hl
          rw [hslots]
          split_ifs at hl ⊢
          exact ha.call j l hl
        balanced := by
          have hledger : ({ s with
              table := s.table.put i { e.reclaimed with streams := Cells.NO_STREAMS }
              calls := s.calls.erase i
              pending := s.pending.erase k.correlation
              claims := s.dropClaim k.claim
              callers := s.callersWoken } : Store).ledger = s.ledger.drop i (lineOf k e) := by
            refine Ledger.ext (funext fun j => ?_) rfl (funext fun id => ?_) rfl rfl
            · simp only [Store.ledger, Store.line, hcalls, hslots, Ledger.drop,
                Function.update_apply, eq_comm]
              split_ifs <;> rfl
            · by_cases hc : k.claim = some id <;>
                simp only [Store.ledger, Store.getElem?_dropClaim, Ledger.drop, lineOf, hc,
                  if_true, if_false]
          exact hledger ▸ ha.balanced.drop i _ (Store.line_of_at hat) }

theorem Path.accounts {evs : List Event} (h : Path s ws evs t) (ha : Accounts s) : Accounts t := by
  induction h with
  | refl => exact ha
  | snoc t u ws ws' evs evs' _ hm ih => exact hm.accounts ih

end Moves

end Loopback

end Ridl
