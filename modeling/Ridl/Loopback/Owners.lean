import Ridl.Loopback.Lives

/-!
# The Owners of the Calls

Every call of the store is somebody's: a call its caller did not forget is
that caller's, and a forgotten one is kept for the handler that holds or
settled it. `OwnedBy` says so for a given set of callers and handlers, so that
a drop can be followed: the dropped handle is out of the handles at once, and
its calls go one by one. A settled call whose forget waits for a handler that
is gone is an orphan until the drop completes the forget.

When no handle is left there is nobody to own a call, so there is none.

## Theorems

* `Path.owned`: A path whose events are allowed keeps the calls owned.
* `Path.claims`, `Path.settledBy`: Where holders and settlers come from.
-/

namespace Ridl

namespace Loopback

open Library Correlate

/-- The owners: `callers` of the calls not forgotten, `holders` of the claims,
    `settlers` of the settled calls, and the `orphans` a drop left. -/
structure OwnedBy (callers holders settlers : Nat → Prop) (orphans : Correlation → Prop)
    (s : Store) : Prop where
  caller : ∀ (i : Nat) (k : CallEntry), s.calls[i]? = some k → k.forgotten = false →
    callers k.caller
  holder : ∀ (id : Nat) (o : ClaimOwner), s.claims[id]? = some o → holders o.handler
  settler : ∀ (i : Nat) (k : CallEntry) (h : Nat), s.calls[i]? = some k →
    k.settledBy = some h → settlers h
  held : ∀ (i : Nat) (k : CallEntry), s.calls[i]? = some k → k.forgotten = true →
    s.HeldOrSettled k ∨ orphans k.correlation
  deferred : ∀ (i : Nat) (k : CallEntry) (e : Entry) (o : Outcome), s.At i k e →
    k.forgotten = true → e.state = .settled o → k.pendingForget = true ∨ orphans k.correlation

/-- The event gives a call or a claim to one of the owners. -/
def Allowed (callers holders settlers : Nat → Prop) (orphans : Correlation → Prop) :
    Event → Prop
  | .sent _ caller _ => callers caller
  | .presented _ handler => holders handler
  | .answered _ handler => settlers handler
  | .orphaned c => orphans c
  | _ => True

variable {s t : Store} {i : Nat} {k k' : CallEntry} {e e' : Entry} {ws : List Waker}
  {evs : List Event}

/-! ### One call -/

theorem Edit.settledBy (h : Edit k e ws evs k' e') :
    k'.settledBy = k.settledBy ∨ k'.settledBy = none ∧ k'.forgotten = k.forgotten ∧
      (∃ o, e.state = .settled o) ∧ (k.pendingForget = true → .orphaned k.correlation ∈ evs) := by
  cases h with
  | change no side evs st hcaller hused h => cases side <;> exact Or.inl rfl
  | close o hs =>
      refine Or.inr ⟨rfl, rfl, ⟨o, hs⟩, fun hpending => ?_⟩
      rw [if_pos hpending]
      exact List.mem_append_right _ (List.mem_singleton_self _)
  | _ => exact Or.inl rfl

/-- A settled call is forgotten only by a deferral, which an edit ends only by
    making an orphan. -/
theorem Edit.deferred (h : Edit k e ws evs k' e') (o : Outcome) (hs : e'.state = .settled o)
    (hk : k'.forgotten = true) :
    k'.pendingForget = true ∨ k.forgotten = true ∧ e.state = .settled o ∧
      (k.pendingForget = true → .orphaned k.correlation ∈ evs) := by
  have hkeep : k'.pendingForget = k.pendingForget → k'.forgotten = k.forgotten →
      e'.state = e.state → k'.pendingForget = true ∨ k.forgotten = true ∧
        e.state = .settled o ∧ (k.pendingForget = true → .orphaned k.correlation ∈ evs) := by
    intro hpending hforgotten hstate
    by_cases hdue : k.pendingForget = true
    · exact Or.inl (hpending.trans hdue)
    · exact Or.inr ⟨hforgotten ▸ hk, hstate ▸ hs, fun h => absurd h hdue⟩
  cases h with
  | change no side evs st hcaller hused h => cases side <;> exact hkeep rfl rfl rfl
  | mark hflight hq => cases hs
  | deferInFlight => exact Or.inl rfl
  | deferSettled => exact Or.inl rfl
  | close o' hs' =>
      refine Or.inr ⟨hk, hs, fun hpending => ?_⟩
      rw [if_pos hpending]
      exact List.mem_append_right _ (List.mem_singleton_self _)
  | _ => exact hkeep rfl rfl rfl

theorem Verdict.settledBy {handler : Nat} {o : Outcome} (h : Verdict handler k o ws evs k') :
    k'.settledBy = some handler ∧ .answered k.sent handler ∈ evs ∨
      k'.settledBy = k.settledBy ∧ k'.forgotten = false := by
  cases h with
  | settled outcome =>
      exact Or.inl ⟨Store.settledEntry_settledBy k handler outcome, List.mem_cons_self⟩
  | interrupted hk => exact Or.inr ⟨rfl, hk⟩

/-! ### The moves -/

theorem heldOrSettled_of_claims (h : s.HeldOrSettled k)
    (hclaims : ∀ id o, k.claim = some id → s.claims[id]? = some o → ∃ o', t.claims[id]? = some o') :
    t.HeldOrSettled k := by
  rcases h with ⟨id, o, hid, ho⟩ | hsettled
  · rcases hclaims id o hid ho with ⟨o', ho'⟩
    exact Or.inl ⟨id, o', hid, ho'⟩
  · exact Or.inr hsettled

/-- The claims of the other calls stay when the one of the call in slot `i`
    goes. -/
theorem claims_erase_other (ha : Accounts s) (hat : s.At i k e) (id : Nat)
    (hid : k.claim = some id) (j : Nat) (l : CallEntry) (hl : s.calls[j]? = some l)
    (hij : i ≠ j) (id' : Nat) (o : ClaimOwner) (hid' : l.claim = some id')
    (ho : s.claims[id']? = some o) : (s.claims.erase id)[id']? = some o := by
  rcases ha.exists_at hl with ⟨f, hat'⟩
  have hne : id ≠ id' := by
    intro heq
    exact hij (ha.balanced.claimInj i j _ _ id (Store.line_of_at hat) (Store.line_of_at hat') hid
      (heq ▸ hid'))
  rw [OrdMap.getElem?_erase_of_ne _ _ _ hne]
  exact ho

variable {C H S : Nat → Prop} {R : Correlation → Prop}

/-- A claim of a call that is not forgotten goes back without leaving a
    forgotten call to nobody. -/
theorem held_of_returned (ha : Accounts s) (ho : OwnedBy C H S R s) (hat : s.At i k e)
    {id : Nat} (hid : k.claim = some id) (hforgotten : k.forgotten = false) (j : Nat)
    (l : CallEntry) (hl : s.calls[j]? = some l) (hl' : l.forgotten = true) :
    Store.HeldOrSettled { s with claims := s.claims.erase id } l ∨ R l.correlation := by
  have hij : i ≠ j := by
    intro heq
    rw [← heq, hat.1, Option.some.injEq] at hl
    rw [← hl, hforgotten] at hl'
    cases hl'
  rcases ho.held j l hl hl' with hheld | horphan
  · exact Or.inl (heldOrSettled_of_claims hheld fun id' o hid' ho' =>
      ⟨o, claims_erase_other ha hat id hid j l hl hij id' o hid' ho'⟩)
  · exact Or.inr horphan

/-- A move whose events are allowed keeps the calls owned. -/
theorem Move.owned (h : Move s ws evs t) (ha : Accounts s) (ho : OwnedBy C H S R s)
    (hevs : ∀ ev ∈ evs, Allowed C H S R ev) : OwnedBy C H S R t := by
  cases h with
  | outside t ws closed h =>
      refine ⟨?_, ?_, ?_, ?_, ?_⟩
      · rw [h.calls]; exact ho.caller
      · rw [h.claims]; exact ho.holder
      · rw [h.calls]; exact ho.settler
      · intro j l hl hforgotten
        rw [h.calls] at hl
        rcases ho.held j l hl hforgotten with hheld | horphan
        · exact Or.inl (heldOrSettled_of_claims hheld fun id o _ hid => ⟨o, h.claims ▸ hid⟩)
        · exact Or.inr horphan
      · intro j l f o hat hforgotten hs
        exact ho.deferred j l f o ⟨h.calls ▸ hat.1, h.table ▸ hat.2⟩ hforgotten hs
  | edit i k k' e e' ws evs hat he hheld =>
      have hlater := he.later
      refine ⟨?_, ho.holder, ?_, ?_, ?_⟩
      · refine OrdMap.forall_insert _ _ _ _ (fun hforgotten => ?_) ho.caller
        rw [hlater.caller]
        refine ho.caller i k hat.1 ?_
        by_contra hnot
        rw [hlater.forgotten (Bool.not_eq_false _ ▸ hnot)] at hforgotten
        cases hforgotten
      · intro j l h
        refine OrdMap.forall_insert _ _ _ (fun _ l => l.settledBy = some h → S h)
          (fun hby => ?_) (fun j l hl => ho.settler j l h hl) j l
        rcases he.settledBy with hsame | ⟨hnone, _⟩
        · exact ho.settler i k h hat.1 (hsame ▸ hby)
        · rw [hnone] at hby
          cases hby
      · refine OrdMap.forall_insert _ _ _ _ (fun hforgotten => ?_) ho.held
        rw [hlater.correlation]
        have hfrom : s.HeldOrSettled k ∨ R k.correlation := by
          rcases hheld hforgotten with hold | hheld
          · exact ho.held i k hat.1 hold
          · exact Or.inl hheld
        rcases hfrom with hheld' | horphan
        · rcases he.settledBy with hsame | ⟨_, hmark, ⟨o, hs⟩, horphan⟩
          · refine Or.inl ?_
            rcases hheld' with ⟨id, o, hid, hclaim⟩ | hby
            · exact Or.inl ⟨id, o, hlater.claim id hid, hclaim⟩
            · exact Or.inr (hsame ▸ hby)
          · -- The settler is gone, and the forget that waited is due.
            rcases ho.deferred i k e o hat (hmark ▸ hforgotten) hs with hpending | hR
            · exact Or.inr (hevs _ (horphan hpending))
            · exact Or.inr hR
        · exact Or.inr horphan
      · intro j l f o hat' hforgotten hs
        rcases hat' with ⟨hl, hf⟩
        simp only [Store.edit, OrdMap.getElem?_insert] at hl
        simp only [Store.edit, Store.getElem?_put_at hat] at hf
        by_cases hij : i = j
        · rw [if_pos hij, Option.some.injEq] at hl hf
          subst hl hf
          rcases he.deferred o hs hforgotten with hpending | ⟨hold, hstate, horphan⟩
          · exact Or.inl hpending
          · rw [hlater.correlation]
            rcases ho.deferred i k e o hat hold hstate with hpending | hR
            · exact Or.inr (hevs _ (horphan hpending))
            · exact Or.inr hR
        · rw [if_neg hij] at hl hf
          exact ho.deferred j l f o ⟨hl, hf⟩ hforgotten hs
  | send i e k ws he hfree hk hsent hnew hws =>
      have hnot : ¬ k.forgotten = true := by rw [hnew.1]; exact Bool.false_ne_true
      refine ⟨?_, ho.holder, ?_, ?_, ?_⟩
      · exact OrdMap.forall_insert _ _ _ _ (fun _ => hevs _ (List.mem_singleton_self _)) ho.caller
      · intro j l h
        refine OrdMap.forall_insert _ _ _ (fun _ l => l.settledBy = some h → S h)
          (fun hby => ?_) (fun j l hl => ho.settler j l h hl) j l
        rw [hnew.2.2.1] at hby
        cases hby
      · exact OrdMap.forall_insert _ _ _ _ (fun hforgotten => absurd hforgotten hnot) ho.held
      · intro j l f o hat' hforgotten hs
        rcases hat' with ⟨hl, hf⟩
        simp only [OrdMap.getElem?_insert] at hl
        by_cases hij : i = j
        · rw [if_pos hij, Option.some.injEq] at hl
          exact absurd (hl ▸ hforgotten) hnot
        · rw [if_neg hij] at hl
          simp only [Table.getElem?_put_of_ne _ _ _ _ hij] at hf
          exact ho.deferred j l f o ⟨hl, hf⟩ hforgotten hs
  | present i k e id handler taken hat hwait hid =>
      have hclaims : ∀ l : CallEntry, s.HeldOrSettled l → _ := fun l hl =>
        heldOrSettled_of_claims (t := { s with
          claims := s.claims.insert id { call := k.correlation, handler, taken } }) hl
          (fun id' o _ ho' => by
            rw [OrdMap.getElem?_insert]
            by_cases heq : id = id'
            · exact ⟨_, if_pos heq⟩
            · exact ⟨o, by rw [if_neg heq]; exact ho'⟩)
      refine ⟨?_, ?_, ?_, ?_, ?_⟩
      · exact OrdMap.forall_insert _ _ _ _ (ho.caller i k hat.1) ho.caller
      · exact OrdMap.forall_insert _ _ _ _ (hevs _ (List.mem_singleton_self _)) ho.holder
      · intro j l h
        refine OrdMap.forall_insert _ _ _ (fun _ l => l.settledBy = some h → S h)
          (fun hby => ?_) (fun j l hl => ho.settler j l h hl) j l
        exact ho.settler i k h hat.1 hby
      · refine OrdMap.forall_insert _ _ _ _ (fun _ => Or.inl (Or.inl
          ⟨id, { call := k.correlation, handler, taken }, rfl, ?_⟩)) ?_
        · exact OrdMap.getElem?_insert_self _ _ _
        · intro j l hl hforgotten
          rcases ho.held j l hl hforgotten with hheld | horphan
          · exact Or.inl (hclaims l hheld)
          · exact Or.inr horphan
      · intro j l f o hat' hforgotten hs
        rcases hat' with ⟨hl, hf⟩
        simp only [OrdMap.getElem?_insert] at hl
        by_cases hij : i = j
        · rw [if_pos hij, Option.some.injEq] at hl
          subst hl
          exact ho.deferred i k f o ⟨hat.1, hij ▸ hf⟩ hforgotten hs
        · rw [if_neg hij] at hl
          exact ho.deferred j l f o ⟨hl, hf⟩ hforgotten hs
  | record i k k' e o id owner ws evs hat hs hid hclaim h =>
      have hlater := h.later
      have hother : ∀ (j : Nat) (l : CallEntry), s.calls[j]? = some l → i ≠ j →
          s.HeldOrSettled l → Store.HeldOrSettled { s with claims := s.claims.erase id } l :=
        fun j l hl hij hheld => heldOrSettled_of_claims hheld
          (fun id' o' hid' ho' => ⟨o', claims_erase_other ha hat id hid j l hl hij id' o' hid' ho'⟩)
      refine ⟨?_, ?_, ?_, ?_, ?_⟩
      · refine OrdMap.forall_insert _ _ _ _ (fun hforgotten => ?_) ho.caller
        rw [hlater.caller]
        refine ho.caller i k hat.1 ?_
        by_contra hnot
        rw [hlater.forgotten (Bool.not_eq_false _ ▸ hnot)] at hforgotten
        cases hforgotten
      · exact fun id' o' ho' => ho.holder id' o' (OrdMap.getElem?_of_erase _ _ _ _ ho')
      · intro j l b
        refine OrdMap.forall_insert _ _ _ (fun _ l => l.settledBy = some b → S b)
          (fun hby => ?_) (fun j l hl => ho.settler j l b hl) j l
        rcases h.settledBy with ⟨hsome, hans⟩ | ⟨hsame, _⟩
        · rw [hsome, Option.some.injEq] at hby
          exact hby ▸ hevs _ (List.mem_cons_of_mem _ (List.mem_cons_of_mem _ hans))
        · exact ho.settler i k b hat.1 (hsame ▸ hby)
      · intro j l hl hforgotten
        rw [OrdMap.getElem?_insert] at hl
        by_cases hij : i = j
        · rw [if_pos hij, Option.some.injEq] at hl
          subst hl
          rcases h.settledBy with ⟨hsome, _⟩ | ⟨_, hnot⟩
          · exact Or.inl (Or.inr (by rw [hsome]; rfl))
          · rw [hnot] at hforgotten
            cases hforgotten
        · rw [if_neg hij] at hl
          rcases ho.held j l hl hforgotten with hheld | horphan
          · exact Or.inl (hother j l hl hij hheld)
          · exact Or.inr horphan
      · intro j l f o' hat' hforgotten hs'
        rcases hat' with ⟨hl, hf⟩
        simp only [OrdMap.getElem?_insert] at hl
        by_cases hij : i = j
        · rw [if_pos hij, Option.some.injEq] at hl
          subst hl
          rcases h.settledBy with ⟨hsome, _⟩ | ⟨_, hnot⟩
          · -- Only a deferred forget leaves a forgotten call to be recorded.
            have hkf : k.forgotten = true := by
              cases h with
              | settled outcome => rwa [Store.settledEntry_forgotten] at hforgotten
              | interrupted hk => rwa [show (Store.interruptedEntry k).1.forgotten =
                  k.forgotten from rfl] at hforgotten
            have hmark := (ha.slotOk hat).marked false hs
            rw [hkf, Bool.true_and] at hmark
            refine Or.inl ?_
            cases h with
            | settled outcome =>
                rw [Store.settledEntry_pendingForget]
                simpa only [Bool.not_eq_eq_eq_not, Bool.not_false] using hmark.symm
            | interrupted hk =>
                rw [hk] at hkf
                cases hkf
          · rw [hnot] at hforgotten
            cases hforgotten
        · rw [if_neg hij] at hl
          simp only [Table.getElem?_put_of_ne _ _ _ _ hij] at hf
          exact ho.deferred j l f o' ⟨hl, hf⟩ hforgotten hs'
  | unoffer i k e id owner hat hid hclaim hoffered hforgotten =>
      refine ⟨ho.caller, ?_, ho.settler, ?_, ho.deferred⟩
      · exact fun id' o' ho' => ho.holder id' o' (OrdMap.getElem?_of_erase _ _ _ _ ho')
      · exact held_of_returned ha ho hat hid hforgotten
  | giveBack i k e id owner pending ws hat hid hclaim htaken hunused hforgotten =>
      refine ⟨ho.caller, ?_, ho.settler, ?_, ho.deferred⟩
      · exact fun id' o' ho' => ho.holder id' o' (OrdMap.getElem?_of_erase _ _ _ _ ho')
      · exact held_of_returned ha ho hat hid hforgotten
  | drop i k e ws evs hat hwaker hstreams hclaims hslots hev =>
      refine ⟨?_, ?_, ?_, ?_, ?_⟩
      · exact fun j l hl => ho.caller j l (OrdMap.getElem?_of_erase _ _ _ _ hl)
      · intro id o' ho'
        change (s.dropClaim k.claim)[id]? = some o' at ho'
        rw [s.getElem?_dropClaim] at ho'
        split at ho'
        · cases ho'
        · exact ho.holder id o' ho'
      · exact fun j l b hl => ho.settler j l b (OrdMap.getElem?_of_erase _ _ _ _ hl)
      · intro j l hl hforgotten
        rw [OrdMap.getElem?_erase] at hl
        by_cases hij : i = j
        · rw [if_pos hij] at hl
          cases hl
        · rw [if_neg hij] at hl
          rcases ho.held j l hl hforgotten with hheld | horphan
          · refine Or.inl (heldOrSettled_of_claims hheld fun id o' hid' ho' => ⟨o', ?_⟩)
            change (s.dropClaim k.claim)[id]? = some o'
            rw [s.getElem?_dropClaim]
            by_cases hid : k.claim = some id
            · rw [if_pos hid]
              rw [← claims_erase_other ha hat id hid j l hl hij id o' hid' ho',
                OrdMap.getElem?_erase_self]
            · rw [if_neg hid]
              exact ho'
          · exact Or.inr horphan
      · intro j l f o' hat' hforgotten hs
        rcases hat' with ⟨hl, hf⟩
        simp only [OrdMap.getElem?_erase] at hl
        by_cases hij : i = j
        · rw [if_pos hij] at hl
          cases hl
        · rw [if_neg hij] at hl
          simp only [Table.getElem?_put_of_ne _ _ _ _ hij] at hf
          exact ho.deferred j l f o' ⟨hl, hf⟩ hforgotten hs

theorem Path.owned (h : Path s ws evs t) (ha : Accounts s) (ho : OwnedBy C H S R s)
    (hevs : ∀ ev ∈ evs, Allowed C H S R ev) : OwnedBy C H S R t := by
  induction h with
  | refl => exact ho
  | snoc t u ws ws' evs evs' hp hm ih =>
      exact hm.owned (hp.accounts ha) (ih fun ev hev => hevs ev (List.mem_append_left _ hev))
        fun ev hev => hevs ev (List.mem_append_right _ hev)

end Loopback

end Ridl
