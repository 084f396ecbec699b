import Ridl.Loopback.HandlePaths
import Ridl.Loopback.Owners

/-!
# The Paths of the Handling Side

Each operation of the handling side, from a store that accounts for its slots:
it reaches none of the branches the source calls unreachable, and it is a path
of moves.

A presentation is one move. A settlement records the outcome and may complete
the caller's deferred forget, or frees the slot of a forgotten call. A
handler's drop goes through the calls it settled, then completes the forgets
that waited for it, then gives up the claims it holds one by one.

## Main definitions

* `Store.presenting`: The store once a waiting call is presented.

## Theorems

* `nextClaim_spec`: What a handler is presented.
* `settle_path`: A settlement.
* `closeSlots_path`, `closeClaim_path`: The parts of a handler's drop.
-/

namespace Ridl

namespace Loopback

open Library Correlate

variable {s : Store} {i : Nat} {k : CallEntry} {e : Entry}

/-! ### The presentation -/

namespace Store

/-- The store once the waiting call in slot `i` is presented to `handler`. -/
def presenting (s : Store) (i : Nat) (k : CallEntry) (id handler : Nat) (taken : Bool) : Store :=
  { s with
    nextClaimId := if k.claim = none then s.nextClaimId + 1 else s.nextClaimId
    calls := s.calls.insert i { k with claim := some id }
    pending := if taken then s.pending.erase k.correlation else s.pending
    claims := s.claims.insert id { call := k.correlation, handler, taken } }

end Store

/-- A waiting call, its entry and the id it is presented under. -/
structure Presents (s : Store) (i : Nat) (k : CallEntry) (e : Entry) (id handler : Nat) :
    Prop where
  at_slot : s.At i k e
  waits : k.correlation ∈ s.pending
  minted : k.claim = some id ∨ k.claim = none ∧ id = s.nextClaimId
  handler : ∃ state, s.handlers[handler]? = some state ∧ state.serves k.key = true

theorem Presents.path {id handler : Nat} (h : Presents s i k e id handler) (taken : Bool) :
    Path s [] [.presented id handler] (s.presenting i k id handler taken) :=
  Path.single _ _ _ _
    (Move.present s i k e id handler taken h.at_slot h.waits h.minted)

theorem nextClaim_spec (ha : Accounts s) (handler cap : Nat) :
    s.nextClaim handler cap = some (s, .ok none) ∨
      ∃ i k e id, Presents s i k e id handler ∧
        (k.args.length ≤ cap ∧ s.nextClaim handler cap =
            some (s.presenting i k id handler true,
              .ok (some { id := ⟨id⟩, iface := k.iface, ord := k.ord, envelope := k.envelope
                          trace := k.trace, remaining := none, args := k.args })) ∨
          cap < k.args.length ∧ s.nextClaim handler cap =
            some (s.presenting i k id handler false,
              .error (.shortClaim ⟨id⟩ k.args.length k.trace))) := by
  unfold Store.nextClaim
  cases hid : s.handlers[handler]? with
  | none => exact Or.inl rfl
  | some state =>
      rcases firstServed_spec ha state s.pending (fun c hc => hc) with
        ⟨c, k, hfound, hwait, hentry, hserves⟩ | ⟨hnone, _⟩
      · refine Or.inr ?_
        rcases ha.waiting c hwait with ⟨k', e, hat, hc, _⟩
        have hk : k' = k := by
          rw [Store.entry, hat.1, Option.some.injEq] at hentry
          exact hentry
        subst hk hc
        simp only [hfound, hentry, Option.bind_eq_bind, Option.bind_some]
        cases hclaim : k'.claim with
        | some id =>
            have hsame : ({ k' with claim := some id } : CallEntry) = k' := by
              rw [← hclaim]
            have hpre : Presents s _ k' e id handler :=
              ⟨hat, hwait, Or.inl hclaim, state, hid, hserves⟩
            refine ⟨_, k', e, id, hpre, ?_⟩
            simp only [hentry, Option.bind_some, Store.presenting, hclaim, hsame,
              OrdMap.insert_same _ _ _ hat.1, reduceCtorEq, if_false, if_true,
              Bool.false_eq_true]
            by_cases hcap : cap < k'.args.length
            · exact Or.inr ⟨hcap, by rw [if_pos hcap]⟩
            · exact Or.inl ⟨Nat.le_of_not_lt hcap, by rw [if_neg hcap]⟩
        | none =>
            have hpre : Presents s _ k' e s.nextClaimId handler :=
              ⟨hat, hwait, Or.inr ⟨hclaim, rfl⟩, state, hid, hserves⟩
            refine ⟨_, k', e, s.nextClaimId, hpre, ?_⟩
            simp only [Store.entry, Store.setCall, OrdMap.getElem?_insert_self, Option.bind_some,
              Store.presenting, hclaim, if_true, Bool.false_eq_true, if_false]
            by_cases hcap : cap < k'.args.length
            · exact Or.inr ⟨hcap, by rw [if_pos hcap]⟩
            · exact Or.inl ⟨Nat.le_of_not_lt hcap, by rw [if_neg hcap]⟩
      · exact Or.inl (by simp only [hnone, Option.bind_eq_bind, Option.bind_some])

/-! ### The settlement -/

/-- What a recorded settlement does to the call. -/
def settleEvents (k : CallEntry) (id handler : Nat) (outcome : Except CallError Bytes) :
    List Event :=
  .acts .provider k.sent :: .finished id ::
    (.answered k.sent handler ::
      (if outcome.toOption.isSome && !(k.stream REPLY_STREAM).finished then
        [.ended k.sent REPLY_STREAM] else []) ++
      (if Store.releases k outcome then [.released k.sent] else []))

/-- A held claim, and the call it names. -/
structure Held (s : Store) (id : Nat) (owner : ClaimOwner) (k : CallEntry) (e : Entry) :
    Prop where
  claim : s.claims[id]? = some owner
  at_slot : s.At (Table.slot owner.call) k e
  correlation : k.correlation = owner.call
  minted : k.claim = some id
  flying : ∃ f, e.state = .inFlight f

theorem Accounts.held (ha : Accounts s) (id : Nat) (owner : ClaimOwner)
    (ho : s.claims[id]? = some owner) : ∃ k e, Held s id owner k e := by
  rcases ha.claimed id owner ho with ⟨k, e, hat, hc, hid, hfly⟩
  exact ⟨k, e, ho, hat, hc, hid, hfly⟩

/-- The store with a claim and its call's place given up, whichever of the two
    the call is in. -/
theorem Held.released {id : Nat} {owner : ClaimOwner} (h : Held s id owner k e)
    (ha : Accounts s) :
    (if owner.taken then { s with claims := s.claims.erase id }
      else { s with claims := s.claims.erase id, pending := s.pending.erase owner.call }) =
      { s with
        pending := s.pending.erase k.correlation
        claims := s.dropClaim k.claim } := by
  have hclaims : s.dropClaim k.claim = s.claims.erase id := by
    rw [h.minted]
    rfl
  rw [hclaims, h.correlation]
  by_cases htaken : owner.taken = true
  · -- A taken call does not wait.
    have hnot : owner.call ∉ s.pending := (ha.balanced.taken id owner h.claim).mp htaken
    rw [if_pos htaken, List.erase_of_not_mem hnot]
  · rw [if_neg htaken]

/-- A claim's settlement records the outcome, or frees the slot of a call its
    caller forgot. -/
theorem settleOwner_path (ha : Accounts s) (claim : ClaimId) (owner : ClaimOwner)
    (outcome : Except CallError Bytes) (h : Held s claim.val owner k e) :
    ∃ t ws evs, s.settleOwner owner.handler claim owner outcome = some (t, ws) ∧
      Path s ws evs t ∧
      (e.state = .inFlight true ∧ evs = [.finished claim.val] ∨
        e.state = .inFlight false ∧
          evs = settleEvents k claim.val owner.handler outcome) := by
  have hat := h.at_slot
  have hold := ha.holds hat
  have hslot := ha.slot_eq hat
  have hrel := h.released ha
  rw [h.correlation] at hold
  simp only [Store.settleOwner, hrel]
  rcases h.flying with ⟨f, hs⟩
  cases f with
  | true =>
      -- The caller forgot the call, so its slot goes with the settlement.
      have hpath := drop_path ha hat [] (by
        intro w hw
        have := ((ha.slotOk hat).waker w hw).1
        rw [hs] at this
        cases this)
      have hheld : s.heldClaim k = some claim.val := by
        rw [Store.heldClaim, h.minted, Option.filter_some,
          Std.ExtTreeMap.contains_eq_isSome_getElem?, h.claim]
        rfl
      rw [hheld, h.correlation] at hpath
      refine ⟨_, _, _, ?_, hpath, Or.inl ⟨hs, rfl⟩⟩
      simp only [Table.settle_forgotten hold hs, Table.reclaim_eq s.table _ e hat.2 ha.budget,
        List.nil_append]
      rfl
  | false =>
      have hmove := Move.record s _ k _ e _ claim.val owner _ _ hat hs h.minted h.claim
        (Verdict.settled k outcome)
      have hat' : ({ s with
          table := s.table.put (Table.slot owner.call)
            { e with
              state := .settled (outcome.map (fun _ => ()))
              waker := none
              streams := Cells.NO_STREAMS }
          calls := s.calls.insert (Table.slot owner.call)
            (Store.settledEntry k owner.handler outcome).1
          pending := s.pending.erase k.correlation
          claims := s.claims.erase claim.val } : Store).At (Table.slot owner.call)
            (Store.settledEntry k owner.handler outcome).1
            { e with
              state := .settled (outcome.map (fun _ => ()))
              waker := none
              streams := Cells.NO_STREAMS } :=
        ⟨OrdMap.getElem?_insert_self _ _ _, Table.getElem?_put_self _ _ _ _ hat.2⟩
      rcases releaseIfDrained_path (hmove.accounts ha) hat' with ⟨t, ws, hrelease, hdrained⟩
      refine ⟨t, _, _, ?_, (Path.single _ _ _ _ hmove).trans hdrained, Or.inr ⟨hs, ?_⟩⟩
      · have htable := Table.takeStreams_eq _ _ _ (Table.getElem?_put_self s.table
          (Table.slot owner.call)
          { e with state := .settled (outcome.map (fun _ => ())), waker := none } e hat.2)
        simp only [Table.settle_inFlight hold hs, Store.entry, hat.1, Option.bind_eq_bind,
          Option.bind_some, htable, Table.put_put, Store.setCall]
        have hclaims : s.dropClaim k.claim = s.claims.erase claim.val := by
          rw [h.minted]
          rfl
        rw [hclaims, hrelease, Option.bind_some]
      · rw [List.append_nil]
        rfl

/-- What an answered settlement did. -/
structure Settles (s : Store) (handler : Nat) (claim : ClaimId)
    (outcome : Except CallError Bytes) (k : CallEntry) (e : Entry) (evs : List Event) :
    Prop where
  held : Held s claim.val { call := k.correlation, handler := handler, taken := true } k e ∨
    Held s claim.val { call := k.correlation, handler := handler, taken := false } k e
  events : e.state = .inFlight true ∧ evs = [.finished claim.val] ∨
    e.state = .inFlight false ∧ evs = settleEvents k claim.val handler outcome

theorem settle_path (ha : Accounts s) (handler : Nat) (claim : ClaimId)
    (outcome : Except CallError Bytes) :
    (∃ t error, s.settle handler claim outcome = some (t, [], .error error) ∧
      (t = s ∨ t = { s with failNextSettle := false })) ∨
    ∃ t ws evs k e, s.settle handler claim outcome = some (t, ws, .ok ()) ∧ Path s ws evs t ∧
      Settles s handler claim outcome k e evs := by
  unfold Store.settle
  cases ho : s.claims[claim.val]? with
  | none => exact Or.inl ⟨s, _, rfl, Or.inl rfl⟩
  | some owner =>
      simp only
      by_cases hhandler : owner.handler = handler
      · subst hhandler
        rw [if_neg (not_not_intro rfl)]
        rcases ha.held claim.val owner ho with ⟨k, e, hheld⟩
        -- The reply is checked against its member's limit first.
        have hadmits : ∃ admitted, s.admitReply owner.call outcome = some admitted := by
          cases outcome with
          | error error => exact ⟨_, rfl⟩
          | ok reply =>
              simp only [Store.admitReply, Store.entry, hheld.at_slot.1, Option.bind_eq_bind,
                Option.bind_some, Option.some.injEq, exists_eq']
        rcases hadmits with ⟨admitted, hadmits⟩
        simp only [hadmits, Option.bind_eq_bind, Option.bind_some]
        cases admitted with
        | error cap => exact Or.inl ⟨s, _, rfl, Or.inl rfl⟩
        | ok u =>
            simp only
            by_cases hfail : s.failNextSettle = true
            · rw [if_pos hfail]
              exact Or.inl ⟨_, _, rfl, Or.inr rfl⟩
            · rw [if_neg hfail]
              refine Or.inr ?_
              rcases settleOwner_path ha claim owner outcome hheld with
                ⟨t, ws, evs, heq, hpath, hevs⟩
              refine ⟨t, ws, evs, k, e, ?_, hpath, ?_, hevs⟩
              · rw [heq, Option.bind_some]
              · rcases owner with ⟨call, handler, taken⟩
                have hc : k.correlation = call := hheld.correlation
                subst hc
                cases taken with
                | true => exact Or.inl hheld
                | false => exact Or.inr hheld
      · rw [if_pos hhandler]
        exact Or.inl ⟨s, _, rfl, Or.inl rfl⟩

/-- An event of the rest of a handler's drop: the provider's, on the calls it
    settled and the claims it held. -/
def Closing (claims : Nat → Prop) (due : Correlation → Prop) : Event → Prop
  | .acts side _ => side = .provider
  | .abandoned _ => True
  | .orphaned c => due c
  | .finished id => claims id
  | .returned id => claims id
  | _ => False

theorem edit_same_calls (hat : s.At i k e) (e' : Entry) :
    s.edit i k e' = { s with table := s.table.put i e' } := by
  rw [Store.edit, OrdMap.insert_same _ _ _ hat.1]

/-- What the drop of a handler leaves of the call in one slot. -/
structure SlotClosed (s t : Store) (handler slot : Nat) (due : List Correlation) : Prop where
  claims : t.claims = s.claims
  other : ∀ j, j ≠ slot → t.calls[j]? = s.calls[j]? ∧ t.table.slots[j]? = s.table.slots[j]?
  settler : ∀ l, t.calls[slot]? = some l → l.settledBy ≠ some handler
  due : ∀ c ∈ due, ∃ l f o, t.At slot l f ∧ l.correlation = c ∧ l.pendingForget = false ∧
    f.state = .settled o

/-- The drop's part for the call in one slot is at most one edit. -/
theorem closeSlot_path (ha : Accounts s) (handler slot : Nat) :
    ∃ t ws due evs, s.closeSlot handler slot = (t, ws, due) ∧ Path s ws evs t ∧
      (∀ ev ∈ evs, Closing (fun _ => False) (· ∈ due) ev) ∧ SlotClosed s t handler slot due := by
  unfold Store.closeSlot
  cases hk : s.calls[slot]? with
  | none =>
      refine ⟨s, [], [], [], rfl, Path.refl s, List.forall_mem_nil _, rfl, fun _ _ =>
        ⟨rfl, rfl⟩, fun l hl => ?_, List.forall_mem_nil _⟩
      rw [hk] at hl
      cases hl
  | some k =>
      rcases ha.exists_at hk with ⟨e, hat⟩
      have hother : ∀ (k' : CallEntry) (e' : Entry) (j : Nat), j ≠ slot →
          (s.edit slot k' e').calls[j]? = s.calls[j]? ∧
            (s.edit slot k' e').table.slots[j]? = s.table.slots[j]? := fun k' e' j hj =>
        ⟨OrdMap.getElem?_insert_of_ne _ _ _ _ (Ne.symm hj),
          Table.getElem?_put_of_ne _ _ _ _ (Ne.symm hj)⟩
      have hself : ∀ (k' : CallEntry) (e' : Entry), (s.edit slot k' e').At slot k' e' :=
        fun k' e' => ⟨OrdMap.getElem?_insert_self _ _ _, Table.getElem?_put_self _ _ _ _ hat.2⟩
      by_cases hby : k.settledBy = some handler
      · -- The call it settled: the parameters are released.
        rcases (ha.slotOk hat).settled (by rw [hby]; exact Option.some_ne_none _) with ⟨o, hs⟩
        have hmove := Move.edit s slot k _ e _ _ _ hat (Edit.close k e o hs) Or.inl Or.inl
        refine ⟨_, _, if k.pendingForget then [k.correlation] else [], _, ?_,
          Path.single _ _ _ _ hmove, ?_, ?_⟩
        · simp only [hby, if_true, Table.takeStreams_eq _ _ e hat.2]
          rfl
        · intro ev hev
          simp only [List.mem_append, List.mem_cons, List.not_mem_nil, or_false] at hev
          rcases hev with (heq | heq) | hmem
          · exact heq ▸ rfl
          · exact heq ▸ trivial
          · by_cases hpending : k.pendingForget = true
            · rw [if_pos hpending] at hmem ⊢
              exact List.mem_singleton.mp hmem ▸ List.mem_singleton_self _
            · rw [if_neg hpending] at hmem
              cases hmem
        · refine ⟨rfl, hother _ _, fun l hl => ?_, fun c hc => ?_⟩
          · rw [(hself _ _).1, Option.some.injEq] at hl
            rw [← hl]
            exact Ne.symm (Option.some_ne_none handler)
          · refine ⟨_, _, o, hself _ _, ?_, rfl, hs⟩
            split at hc
            · exact (List.mem_singleton.mp hc).symm
            · cases hc
      · simp only [hby, if_false]
        split
        · -- A call it holds: only the provider's wakers are taken.
          have hmove := Move.edit s slot k _ e _ _ _ hat (Edit.quiet k e) Or.inl Or.inl
          rw [edit_same_table hat] at hmove
          refine ⟨_, _, _, _, rfl, Path.single _ _ _ _ hmove, List.forall_mem_nil _, rfl, ?_,
            fun l hl => ?_, List.forall_mem_nil _⟩
          · intro j hj
            exact ⟨OrdMap.getElem?_insert_of_ne _ _ _ _ (Ne.symm hj), rfl⟩
          · simp only [Store.setCall, OrdMap.getElem?_insert_self, Option.some.injEq] at hl
            rw [← hl]
            exact hby
        · refine ⟨s, [], [], [], rfl, Path.refl s, List.forall_mem_nil _, rfl, fun _ _ =>
            ⟨rfl, rfl⟩, fun l hl => ?_, List.forall_mem_nil _⟩
          rw [hk, Option.some.injEq] at hl
          rw [← hl]
          exact hby

/-- A call whose deferred forget is due: settled, and nobody's provider. -/
def Due (s : Store) (c : Correlation) : Prop :=
  ∃ i k e o, s.At i k e ∧ k.correlation = c ∧ k.pendingForget = false ∧ e.state = .settled o

theorem closeSlots_path (ha : Accounts s) (handler : Nat) (slots : List Nat)
    (hnodup : slots.Nodup) :
    ∃ t ws due evs, Store.closeSlots handler slots s = (t, ws, due) ∧ Path s ws evs t ∧
      (∀ ev ∈ evs, Closing (fun _ => False) (· ∈ due) ev) ∧ t.claims = s.claims ∧
      (∀ j, j ∉ slots → t.calls[j]? = s.calls[j]? ∧ t.table.slots[j]? = s.table.slots[j]?) ∧
      (∀ j ∈ slots, ∀ l, t.calls[j]? = some l → l.settledBy ≠ some handler) ∧
      ∀ c ∈ due, Due t c := by
  induction slots generalizing s with
  | nil =>
      exact ⟨s, [], [], [], rfl, Path.refl s, List.forall_mem_nil _, rfl,
        fun _ _ => ⟨rfl, rfl⟩, List.forall_mem_nil _, List.forall_mem_nil _⟩
  | cons slot slots ih =>
      rcases closeSlot_path ha handler slot with ⟨t, ws, due, evs, heq, hpath, hevs, hslot⟩
      rcases ih (hpath.accounts ha) (List.nodup_cons.mp hnodup).2 with
        ⟨u, ws', due', evs', heq', hpath', hevs', hclaims, hother, hsettler, hdue⟩
      have hnot := (List.nodup_cons.mp hnodup).1
      refine ⟨u, ws ++ ws', due ++ due', evs ++ evs', ?_, hpath.trans hpath', ?_, ?_, ?_, ?_, ?_⟩
      · simp only [Store.closeSlots, heq, heq']
      · intro ev hev
        rcases List.mem_append.mp hev with hmem | hmem
        · have := hevs ev hmem
          cases ev <;> first | exact this | exact List.mem_append_left _ this
        · have := hevs' ev hmem
          cases ev <;> first | exact this | exact List.mem_append_right _ this
      · rw [hclaims, hslot.claims]
      · intro j hj
        rw [List.mem_cons, not_or] at hj
        rw [(hother j hj.2).1, (hother j hj.2).2]
        exact hslot.other j hj.1
      · intro j hj l hl
        rcases List.mem_cons.mp hj with heq | hmem
        · subst heq
          rw [(hother j hnot).1] at hl
          exact hslot.settler l hl
        · exact hsettler j hmem l hl
      · intro c hc
        rcases List.mem_append.mp hc with hmem | hmem
        · -- Its slot is not touched again.
          rcases hslot.due c hmem with ⟨l, f, o, hat, hcorr, hpending, hs⟩
          refine ⟨slot, l, f, o, ⟨?_, ?_⟩, hcorr, hpending, hs⟩
          · rw [(hother slot hnot).1]
            exact hat.1
          · rw [(hother slot hnot).2]
            exact hat.2
        · exact hdue c hmem

def Unknown (s : Store) (c : Correlation) : Prop :=
  ∀ (i : Nat) (k : CallEntry), s.calls[i]? = some k → k.correlation ≠ c

/-- A forget that waited for the handler frees the slot. -/
theorem forgetInTable_due (ha : Accounts s) (c : Correlation) (h : Due s c ∨ Unknown s c) :
    ∃ t ws, s.forgetInTable c = some (t, ws) ∧ Path s ws [] t ∧ t.claims = s.claims ∧
      Unknown t c ∧ (∀ (i : Nat) (k : CallEntry), t.calls[i]? = some k → s.calls[i]? = some k) ∧
      ∀ (i : Nat) (k : CallEntry) (e : Entry), s.At i k e → k.correlation ≠ c → t.At i k e := by
  rcases h with ⟨i, k, e, o, hat, rfl, _, hs⟩ | hunknown
  · rcases dropping_settled ha hat o hs with ⟨hdrop, hclaim⟩
    have hslot := ha.slot_eq hat
    have hpath := drop_path ha hat [] (by
      intro w hw
      have := ((ha.slotOk hat).waker w hw).1
      rw [hs] at this
      cases this)
    rw [hclaim, hdrop] at hpath
    refine ⟨_, _, forgetInTable_settled (ha.holds hat) ha.budget o hs, hpath, rfl, ?_, ?_, ?_⟩
    · intro j l hl hc
      -- Another slot holds another correlation.
      have hold := OrdMap.getElem?_of_erase _ _ _ _ hl
      rcases ha.exists_at hold with ⟨f, hat'⟩
      have hij := ha.slot_eq hat'
      rw [← hij, hc] at hl
      simp only [OrdMap.getElem?_erase_self, reduceCtorEq] at hl
    · exact fun j l hl => OrdMap.getElem?_of_erase _ _ _ _ hl
    · intro j l f hat' hc
      have hij : i ≠ j := by
        intro heq
        have hl := hat'.1
        rw [← heq, hat.1, Option.some.injEq] at hl
        exact hc (by rw [hl])
      have htable : (({ s with table := s.table.put i e.reclaimed } : Store).reclaimed
          k.correlation).1.table.slots[j]? = s.table.slots[j]? := by
        simp only [Store.reclaimed, hslot,
          Table.takeStreams_eq _ _ _ (Table.getElem?_put_self s.table i e.reclaimed e hat.2),
          Table.getElem?_put_of_ne _ _ _ _ hij]
      refine ⟨?_, htable.trans hat'.2⟩
      simp only [hslot, OrdMap.getElem?_erase_of_ne _ _ _ hij]
      exact hat'.1
  · refine ⟨s, [], ?_, Path.refl s, rfl, hunknown, fun _ _ h => h, fun _ _ _ h _ => h⟩
    exact forgetInTable_stale ha c fun k e hat => hunknown _ k hat.1

/-- The forgets that waited for the handler complete one by one. -/
theorem forEach_forgetInTable_path (cs : List Correlation) (ha : Accounts s)
    (hdue : ∀ c ∈ cs, Due s c ∨ Unknown s c) :
    ∃ t ws, Store.forEach Store.forgetInTable cs s = some (t, ws) ∧ Path s ws [] t ∧
      t.claims = s.claims ∧ (∀ c ∈ cs, Unknown t c) ∧
      ∀ (i : Nat) (k : CallEntry), t.calls[i]? = some k → s.calls[i]? = some k := by
  induction cs generalizing s with
  | nil => exact ⟨s, [], rfl, Path.refl s, rfl, List.forall_mem_nil _, fun _ _ h => h⟩
  | cons c cs ih =>
      rcases forgetInTable_due ha c (hdue c (List.mem_cons_self)) with
        ⟨t, ws, heq, hpath, hclaims, hgone, hold, hkeep⟩
      have hdue' : ∀ d ∈ cs, Due t d ∨ Unknown t d := by
        intro d hd
        by_cases hdc : d = c
        · exact Or.inr (hdc ▸ hgone)
        · rcases hdue d (List.mem_cons_of_mem _ hd) with ⟨i, k, e, o, hat, hc, hrest⟩ | hunknown
          · exact Or.inl ⟨i, k, e, o, hkeep i k e hat (hc ▸ hdc), hc, hrest⟩
          · exact Or.inr fun i k hk => hunknown i k (hold i k hk)
      rcases ih (hpath.accounts ha) hdue' with ⟨u, ws', heq', hpath', hclaims', hgone', hold'⟩
      refine ⟨u, ws ++ ws', ?_, hpath.trans hpath', hclaims'.trans hclaims, ?_, ?_⟩
      · simp only [Store.forEach, heq, heq', Option.bind_eq_bind, Option.bind_some]
      · intro d hd
        rcases List.mem_cons.mp hd with hdc | hmem
        · exact fun i k hk => hdc ▸ hgone i k (hold' i k hk)
        · exact hgone' d hmem
      · exact fun i k hk => hold i k (hold' i k hk)

/-! ### The drop of a handler, claim by claim -/

/-- A call is put back in its place, since every waiting call has an entry. -/
theorem insertBySent_total (ha : Accounts s) (claims : OrdMap Nat ClaimOwner) (c : Correlation)
    (sent : Nat) (cs : List Correlation) (hcs : ∀ d ∈ cs, d ∈ s.pending) :
    ∃ p, s.insertBySent c sent cs = some p ∧
      Store.insertBySent { s with claims := claims } c sent cs = some p := by
  induction cs with
  | nil => exact ⟨[c], rfl, rfl⟩
  | cons d cs ih =>
      rcases ha.waiting d (hcs d (List.mem_cons_self)) with ⟨k, e, hat, _⟩
      have hentry : s.entry d = some k := hat.1
      have hentry' : Store.entry { s with claims := claims } d = some k := hat.1
      rcases ih (fun d hd => hcs d (List.mem_cons_of_mem _ hd)) with ⟨p, hp, hp'⟩
      simp only [Store.insertBySent, hentry, hentry', hp, hp', Option.bind_eq_bind,
        Option.bind_some]
      by_cases hlt : k.sent < sent
      · exact ⟨_, by rw [if_pos hlt], by rw [if_pos hlt]⟩
      · exact ⟨_, by rw [if_neg hlt], by rw [if_neg hlt]⟩

theorem heldClaim_eq_some {id : Nat} {owner : ClaimOwner} (hid : k.claim = some id)
    (ho : s.claims[id]? = some owner) : s.heldClaim k = some id := by
  rw [Store.heldClaim, hid, Option.filter_some, Std.ExtTreeMap.contains_eq_isSome_getElem?, ho]
  rfl

theorem closeClaim_path (ha : Accounts s) (id : Nat) (owner : ClaimOwner)
    (ho : s.claims[id]? = some owner) :
    ∃ t ws evs, s.closeClaim id = some (t, ws) ∧ Path s ws evs t ∧
      (∀ ev ∈ evs, Closing (· = id) (fun _ => False) ev) ∧ t.claims = s.claims.erase id := by
  rcases ha.held id owner ho with ⟨k, e, h⟩
  have hat := h.at_slot
  have hslot := ha.slot_eq hat
  have hdrop : s.dropClaim k.claim = s.claims.erase id := by
    rw [h.minted]
    rfl
  have hentry : Store.entry { s with claims := s.claims.erase id } owner.call = some k := hat.1
  unfold Store.closeClaim
  simp only [ho, hentry, Option.bind_eq_bind, Option.bind_some]
  by_cases hforgotten : k.forgotten = true
  · -- The caller is gone: the call is withdrawn.
    rw [if_pos hforgotten, h.released ha]
    rcases withdraw_path ha hat h.flying with ⟨t, ws, heq, hpath, _, hclaims⟩
    rw [heldClaim_eq_some h.minted ho] at hpath
    refine ⟨t, ws, _, h.correlation ▸ heq, hpath, ?_, hclaims.trans hdrop⟩
    intro ev hev
    exact (List.mem_singleton.mp hev) ▸ rfl
  rw [if_neg hforgotten]
  have hlive : k.forgotten = false := Bool.not_eq_true _ ▸ hforgotten
  by_cases htaken : owner.taken = true
  · simp only [htaken, Bool.not_true, Bool.false_eq_true, if_false]
    by_cases hused : k.providerUsedStreams = true
    · -- The handler moved a stream, so no other can take the call over.
      rw [if_pos hused]
      rcases h.flying with ⟨f, hs⟩
      have hf := (ha.slotOk hat).marked f hs
      rw [hlive, Bool.false_and] at hf
      subst hf
      have hmove := Move.record s _ k _ e _ id owner _ _ hat hs h.minted ho
        (Verdict.interrupted k hlive)
      have hwait : k.correlation ∉ s.pending := by
        rw [h.correlation]
        exact (ha.balanced.taken id owner ho).mp htaken
      rw [List.erase_of_not_mem hwait] at hmove
      refine ⟨_, _, _, ?_, Path.single _ _ _ _ hmove, ?_, rfl⟩
      · have hold := ha.holds hat
        rw [h.correlation] at hold
        have htable := Table.takeStreams_eq _ _ _ (Table.getElem?_put_self s.table
          (Table.slot owner.call)
          { e with state := .settled (.error INTERRUPTED), waker := none } e hat.2)
        simp only [Store.interruptClaim, hentry, Option.bind_eq_bind, Option.bind_some,
          Store.setCall, Table.settle_inFlight hold hs, htable, Table.put_put]
      · intro ev hev
        simp only [List.mem_cons, List.not_mem_nil, or_false] at hev
        rcases hev with heq | heq | heq
        · exact heq ▸ rfl
        · exact heq ▸ rfl
        · exact heq ▸ trivial
    · -- The call waits again, in its place.
      rw [if_neg hused]
      rcases insertBySent_total ha (s.claims.erase id) k.correlation k.sent s.pending
        (fun c hc => hc) with ⟨p, hp, hp'⟩
      have hmove := Move.giveBack s _ k e id owner p _ hat h.minted ho htaken
        (Bool.not_eq_true _ ▸ hused) hlive hp (fun w hw => hw)
      refine ⟨_, _, _, ?_, Path.single _ _ _ _ hmove, ?_, rfl⟩
      · rw [← h.correlation, hp', Option.bind_some]
        rfl
      · intro ev hev
        exact (List.mem_singleton.mp hev) ▸ rfl
  · -- An offered call is waiting still.
    simp only [htaken, Bool.not_false, if_true]
    have hmove := Move.unoffer s _ k e id owner hat h.minted ho (Bool.not_eq_true _ ▸ htaken) hlive
    refine ⟨_, _, _, rfl, Path.single _ _ _ _ hmove, ?_, rfl⟩
    intro ev hev
    exact (List.mem_singleton.mp hev) ▸ rfl

/-- The claims of a dropped handler are given up one by one. -/
theorem forEach_closeClaim_path (ids : List Nat) (hnodup : ids.Nodup) (ha : Accounts s)
    (hids : ∀ id ∈ ids, ∃ o, s.claims[id]? = some o) :
    ∃ t ws evs, Store.forEach Store.closeClaim ids s = some (t, ws) ∧ Path s ws evs t ∧
      (∀ ev ∈ evs, Closing (· ∈ ids) (fun _ => False) ev) ∧
      ∀ (id : Nat) (o : ClaimOwner), t.claims[id]? = some o → s.claims[id]? = some o ∧ id ∉ ids := by
  induction ids generalizing s with
  | nil =>
      exact ⟨s, [], [], rfl, Path.refl s, List.forall_mem_nil _,
        fun id o ho => ⟨ho, List.not_mem_nil⟩⟩
  | cons id ids ih =>
      rcases hids id (List.mem_cons_self) with ⟨owner, ho⟩
      rcases closeClaim_path ha id owner ho with ⟨t, ws, evs, heq, hpath, hevs, hclaims⟩
      have hnot := (List.nodup_cons.mp hnodup).1
      have hids' : ∀ id' ∈ ids, ∃ o, t.claims[id']? = some o := by
        intro id' hid'
        rcases hids id' (List.mem_cons_of_mem _ hid') with ⟨o, ho'⟩
        refine ⟨o, ?_⟩
        have hne : id ≠ id' := by
          intro h
          rw [h] at hnot
          exact hnot hid'
        rw [hclaims, OrdMap.getElem?_erase_of_ne _ _ _ hne]
        exact ho'
      rcases ih (List.nodup_cons.mp hnodup).2 (hpath.accounts ha) hids' with
        ⟨u, ws', evs', heq', hpath', hevs', hclaims'⟩
      refine ⟨u, ws ++ ws', evs ++ evs', ?_, hpath.trans hpath', ?_, ?_⟩
      · simp only [Store.forEach, heq, heq', Option.bind_eq_bind, Option.bind_some]
      · intro ev hev
        rcases List.mem_append.mp hev with hmem | hmem
        · have := hevs ev hmem
          cases ev <;> first | exact this | exact this ▸ List.mem_cons_self
        · have := hevs' ev hmem
          cases ev <;> first | exact this | exact List.mem_cons_of_mem _ this
      · intro id' o ho'
        rcases hclaims' id' o ho' with ⟨hmid, hmem⟩
        rw [hclaims, OrdMap.getElem?_erase] at hmid
        by_cases heq : id = id'
        · rw [if_pos heq] at hmid
          cases hmid
        · rw [if_neg heq] at hmid
          refine ⟨hmid, ?_⟩
          rw [List.mem_cons, not_or]
          exact ⟨Ne.symm heq, hmem⟩

/-- The handler is out of the handles first. -/
theorem outside_closeHandler (id : Nat) :
    s.Outside { s with handlers := s.handlers.erase id }
      (handedBack (s.handlers[id]?.map (·.waiters))) (some (.claim id)) := by
  refine ⟨rfl, rfl, rfl, rfl, rfl, rfl, fun _ h => Or.inl h, ?_, fun hs => ?_, ?_⟩
  · intro id' hopen
    by_cases hid : id = id'
    · exact Or.inr (hid ▸ rfl)
    · exact Or.inl (by rw [OrdMap.getElem?_erase_of_ne _ _ _ hid]; exact hopen)
  · exact {
      sourceLt := hs.sourceLt
      callerLt := hs.callerLt
      handlerLt := fun id' state h =>
        hs.handlerLt id' state (OrdMap.getElem?_of_erase _ _ _ _ h)
      event := hs.event
      claim := fun id' state h => hs.claim id' state (OrdMap.getElem?_of_erase _ _ _ _ h)
      slot := hs.slot }
  · intro cell w hw
    cases cell with
    | claim id' =>
        simp only [Store.handleWaker, OrdMap.getElem?_erase] at hw ⊢
        by_cases hid : id = id'
        · subst hid
          rw [Option.bind_eq_some_iff] at hw
          rcases hw with ⟨state, hstate, hclaim⟩
          refine Or.inr ?_
          simp only [handedBack, hstate, Option.map_some, hclaim, Option.toList_some,
            List.mem_append, List.mem_singleton, or_true]
        · rw [if_neg hid]
          exact Or.inl hw
    | event => exact Or.inl hw
    | slot => exact Or.inl hw

/-- What the drop of a handler leaves: no call it settled, no claim of its, and
    no forget that waits for it. -/
structure HandlerGone (t : Store) (handler : Nat) (due : List Correlation) : Prop where
  settler : ∀ (i : Nat) (k : CallEntry), t.calls[i]? = some k → k.settledBy ≠ some handler
  holder : ∀ (id : Nat) (o : ClaimOwner), t.claims[id]? = some o → o.handler ≠ handler
  due : ∀ c ∈ due, Unknown t c

theorem Closing.mono {claims claims' : Nat → Prop} {due due' : Correlation → Prop} {ev : Event}
    (h : Closing claims due ev) (hclaims : ∀ id, claims id → claims' id)
    (hdue : ∀ c, due c → due' c) : Closing claims' due' ev := by
  cases ev with
  | finished id => exact hclaims id h
  | returned id => exact hclaims id h
  | orphaned c => exact hdue c h
  | _ => exact h

theorem Closing.allowed {claims : Nat → Prop} {due : Correlation → Prop} {ev : Event}
    (h : Closing claims due ev) {C H S : Nat → Prop} {R : Correlation → Prop}
    (hR : ∀ c, due c → R c) : Allowed C H S R ev := by
  cases ev with
  | orphaned c => exact hR c h
  | sent => exact h.elim
  | presented => exact h.elim
  | answered => exact h.elim
  | _ => exact trivial

theorem closeHandler_path (ha : Accounts s) (id : Nat) :
    ∃ t ws evs due, s.closeHandler id =
        some (t, ws, s.handlers[id]?.map (·.waiters)) ∧
      Path s (handedBack (s.handlers[id]?.map (·.waiters)) ++ ws)
        (.closed (.claim id) :: evs) t ∧
      (∀ ev ∈ evs, Closing (fun claim => ∃ o, s.claims[claim]? = some o ∧ o.handler = id)
        (· ∈ due) ev) ∧ HandlerGone t id due := by
  have hgone := Path.single _ _ _ _ (Move.outside s _ _ _ (outside_closeHandler (s := s) id))
  unfold Store.closeHandler
  rcases closeSlots_path (hgone.accounts ha) id _ (Std.ExtTreeMap.nodup_keys (t := s.calls)) with
    ⟨t, ws, due, evs, heq, hpath, hevs, hclaims, hother, hsettler, hdue⟩
  have hat := (hgone.trans hpath).accounts ha
  rcases forEach_forgetInTable_path due hat (fun c hc => Or.inl (hdue c hc)) with
    ⟨u, ws', heq', hpath', hclaims', hunknown, hold⟩
  have hau := hpath'.accounts hat
  have hheld : ∀ claim ∈ (u.claims.toList.filter (fun p => p.2.handler = id)).map (·.1),
      ∃ o, u.claims[claim]? = some o ∧ o.handler = id := by
    intro claim hmem
    rcases List.mem_map.mp hmem with ⟨⟨claim', o⟩, hp, rfl⟩
    rcases List.mem_filter.mp hp with ⟨hp, hhandler⟩
    exact ⟨o, Std.ExtTreeMap.mem_toList_iff_getElem?_eq_some.mp hp, of_decide_eq_true hhandler⟩
  have hnodup : ((u.claims.toList.filter (fun p => p.2.handler = id)).map (·.1)).Nodup := by
    refine List.Nodup.sublist (List.Sublist.map _ List.filter_sublist) ?_
    rw [Std.ExtTreeMap.map_fst_toList_eq_keys]
    exact Std.ExtTreeMap.nodup_keys
  rcases forEach_closeClaim_path _ hnodup hau
      (fun claim hmem => (hheld claim hmem).imp fun o h => h.1) with
    ⟨v, ws'', evs'', heq'', hpath'', hevs'', hclaims''⟩
  have hsame : u.claims = s.claims := hclaims'.trans hclaims
  refine ⟨v, ws ++ ws' ++ ws'', evs ++ evs'', due, ?_, ?_, ?_, ?_⟩
  · simp only [heq, heq', heq'', Option.bind_eq_bind, Option.bind_some]
  · have hall := ((hgone.trans hpath).trans hpath').trans hpath''
    simpa only [List.append_assoc, List.nil_append, Option.toList_some, List.map_cons,
      List.map_nil, List.cons_append] using hall
  · intro ev hev
    rcases List.mem_append.mp hev with hmem | hmem
    · exact (hevs ev hmem).mono (fun _ h => h.elim) (fun _ h => h)
    · exact (hevs'' ev hmem).mono (fun claim h => hsame ▸ hheld claim h) (fun _ h => h.elim)
  · have howned : OwnedBy (fun _ => True) (fun _ => True) (· ≠ id) (fun _ => True) u := by
      refine ⟨fun _ _ _ _ => trivial, fun _ _ _ => trivial, ?_, fun _ _ _ _ => Or.inr trivial,
        fun _ _ _ _ _ _ _ => Or.inr trivial⟩
      intro i k h hk hby hid
      have hkt := hold i k hk
      by_cases hslot : i ∈ s.calls.keys
      · exact hsettler i hslot k hkt (hid ▸ hby)
      · -- A slot without a call has none afterwards.
        rw [(hother i hslot).1] at hkt
        rw [Std.ExtTreeMap.mem_keys, Std.ExtTreeMap.mem_iff_isSome_getElem?] at hslot
        exact hslot (by rw [hkt]; rfl)
    have howned' := hpath''.owned hau howned fun ev hev =>
      (hevs'' ev hev).allowed fun c h => h.elim
    refine ⟨fun i k hk hby => howned'.settler i k id hk hby rfl, ?_, ?_⟩
    · intro claim o ho hhandler
      rcases hclaims'' claim o ho with ⟨ho', hnot⟩
      refine hnot (List.mem_map.mpr ⟨(claim, o), List.mem_filter.mpr ⟨?_, ?_⟩, rfl⟩)
      · exact Std.ExtTreeMap.mem_toList_iff_getElem?_eq_some.mpr ho'
      · exact decide_eq_true hhandler
    · intro c hc i k' hk' hcorr
      rcases hpath''.lives.call i k' hk' with ⟨k, hk, hlater⟩ | ⟨_, hsent⟩
      · exact hunknown c hc i k hk (hlater.correlation.symm.trans hcorr)
      · exact (hevs'' _ hsent).elim

end Loopback

end Ridl
