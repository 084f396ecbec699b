import Ridl.Provided.Calls

/-!
# Settlements of Pending Claims

What one settlement does, and what each use of it does: a pass over the claims
whose time has passed, a response, and the end of the session.

A settlement is one event, or two when the port finds the outcome too large and
is given `corrupt` instead. The claim stays pending exactly when the port does
not release it. A pass settles each claim once, in the order of their numbers,
and what it does to one says nothing about another, so that the claims are
known one by one after it (`settleAll_spec`).

## Theorems

* `settle_spec`: One settlement of a pending claim.
* `expire_spec`: A pass over the claims whose time has passed.
* `down_spec`: The end of the session.
* `forward_spec`: A claim taken is sent, or refused.
-/

namespace Ridl

namespace Provided

open Library Server

def corrupt : Settlement := .error (.transport .corrupt)

/-- The events of one settlement of a claim, with what the port answered last. -/
inductive SettledAs (claim : ClaimId) (outcome : Settlement) :
    List Event → Except SettleError Unit → Prop
  | once (answer) : (∀ cap, answer ≠ .error (.tooLarge cap)) →
      SettledAs claim outcome [.settled claim outcome answer] answer
  | again (cap answer) :
      SettledAs claim outcome [.settled claim outcome (.error (.tooLarge cap)),
        .settled claim corrupt answer] answer

/-- Every event of a settlement settles the claim, as the outcome or, when that
    was too large, as `corrupt`. -/
theorem SettledAs.mem {claim : ClaimId} {outcome : Settlement} {events : List Event}
    {answer : Except SettleError Unit} (h : SettledAs claim outcome events answer) (e : Event)
    (he : e ∈ events) : ∃ given a, e = .settled claim given a ∧
      (given = outcome ∨ given = corrupt ∧
        ∃ cap, .settled claim outcome (.error (.tooLarge cap)) ∈ events) := by
  cases h with
  | once answer =>
      rw [List.mem_singleton] at he
      exact ⟨outcome, answer, he, Or.inl rfl⟩
  | again cap answer =>
      rcases List.mem_cons.mp he with hfirst | hsecond
      · exact ⟨outcome, _, hfirst, Or.inl rfl⟩
      · exact ⟨corrupt, answer, List.mem_singleton.mp hsecond,
          Or.inr ⟨rfl, cap, List.mem_cons_self⟩⟩

section Specs

variable {π : Type} (port : Port π)

namespace Calls

theorem settlePort_spec (world : π) (claim : ClaimId) (outcome : Settlement) :
    SettledAs claim outcome (settlePort port world claim outcome).2.2
      (settlePort port world claim outcome).1 := by
  unfold settlePort
  rcases port.settle world claim outcome with ⟨answer, world'⟩
  cases answer with
  | ok _ => exact SettledAs.once _ (fun _ h => by cases h)
  | error error =>
      cases error with
      | tooLarge cap => exact SettledAs.again cap _
      | unknownClaim => exact SettledAs.once _ (fun _ h => by cases h)
      | detached => exact SettledAs.once _ (fun _ h => by cases h)

/-- What a settlement leaves pending. -/
def left (pending : OrdMap UInt64 Pending) (seq : UInt64) (answer : Except SettleError Unit) :
    OrdMap UInt64 Pending :=
  if released answer then pending.erase seq else pending

theorem settle_spec (s : Calls π) (seq : UInt64) (p : Pending) (outcome : Settlement)
    (hp : s.pending[seq]? = some p) :
    ∃ answer events world, s.settle port seq outcome =
        ({ s with pending := left s.pending seq answer, world := world }, events) ∧
      SettledAs p.claim outcome events answer := by
  refine ⟨(settlePort port s.world p.claim outcome).1, (settlePort port s.world p.claim outcome).2.2,
    (settlePort port s.world p.claim outcome).2.1, ?_, settlePort_spec port s.world p.claim outcome⟩
  simp only [settle, hp]
  rfl

theorem settle_none (s : Calls π) (seq : UInt64) (outcome : Settlement)
    (hp : s.pending[seq]? = none) : s.settle port seq outcome = (s, []) := by
  simp only [settle, hp]

theorem getElem?_left_self (pending : OrdMap UInt64 Pending) (seq : UInt64)
    (answer : Except SettleError Unit) :
    (left pending seq answer)[seq]? = if released answer then none else pending[seq]? := by
  unfold left
  split
  · exact OrdMap.getElem?_erase_self _ _
  · rfl

theorem getElem?_left_of_ne (pending : OrdMap UInt64 Pending) (seq seq' : UInt64)
    (answer : Except SettleError Unit) (h : seq ≠ seq') :
    (left pending seq answer)[seq']? = pending[seq']? := by
  unfold left
  split
  · exact OrdMap.getElem?_erase_of_ne _ _ _ h
  · rfl

theorem getElem?_of_left (pending : OrdMap UInt64 Pending) (seq seq' : UInt64)
    (answer : Except SettleError Unit) (p : Pending)
    (h : (left pending seq answer)[seq']? = some p) : pending[seq']? = some p := by
  unfold left at h
  split at h
  · exact OrdMap.getElem?_of_erase _ _ _ _ h
  · exact h

/-- What a pass over the claims did to one of them: it was settled, and stays
    pending when the port did not release it. -/
def Lapsed (s t : Calls π) (e : UInt64 × Settlement) (block : List Event) : Prop :=
  ∃ p answer, s.pending[e.1]? = some p ∧ SettledAs p.claim e.2 block answer ∧
    t.pending[e.1]? = if released answer then none else some p

theorem Lapsed.of_same {s s' t : Calls π} {e : UInt64 × Settlement} {block : List Event}
    (h : Lapsed s' t e block) (hsame : s'.pending[e.1]? = s.pending[e.1]?) :
    Lapsed s t e block := by
  unfold Lapsed at h ⊢
  rw [← hsame]
  exact h

/-- A pass settles each claim of a list once, and touches no other. -/
theorem settleAll_spec (s : Calls π) (l : List (UInt64 × Settlement))
    (hnodup : (l.map Prod.fst).Nodup) (hpending : ∀ e ∈ l, ∃ p, s.pending[e.1]? = some p) :
    let r := s.settleAll port l
    (∀ e ∈ l, ∃ block, Lapsed s r.1 e block ∧ block <:+: r.2) ∧
    (∀ event ∈ r.2, ∃ e ∈ l, ∃ block, Lapsed s r.1 e block ∧ event ∈ block) ∧
    (∀ seq, seq ∉ l.map Prod.fst → r.1.pending[seq]? = s.pending[seq]?) ∧
    r.1.next = s.next ∧ r.1.short = s.short := by
  induction l generalizing s with
  | nil => exact ⟨List.forall_mem_nil _, List.forall_mem_nil _, fun _ _ => rfl, rfl, rfl⟩
  | cons e l ih =>
      rcases hpending e List.mem_cons_self with ⟨p, hp⟩
      rcases settle_spec port s e.1 p e.2 hp with ⟨answer, events, world, hsettle, hsettled⟩
      rw [List.map_cons, List.nodup_cons] at hnodup
      have hother : ∀ seq ∈ l.map Prod.fst,
          (left s.pending e.1 answer)[seq]? = s.pending[seq]? := by
        intro seq hseq
        exact getElem?_left_of_ne _ _ _ _ (fun heq => hnodup.1 (heq ▸ hseq))
      rcases ih { s with pending := left s.pending e.1 answer, world := world } hnodup.2
        (fun e' he' => by
          rcases hpending e' (List.mem_cons_of_mem e he') with ⟨p', hp'⟩
          exact ⟨p', (hother e'.1 (List.mem_map_of_mem he')).trans hp'⟩) with
        ⟨hblocks, hevents, hkept, hnext, hshort⟩
      simp only [settleAll, hsettle]
      -- the first claim stays as its own settlement left it
      have hfirst : Lapsed s _ e events := ⟨p, answer, hp, hsettled, (hkept e.1 hnodup.1).trans (by
        rw [← hp]; exact getElem?_left_self _ _ _)⟩
      refine ⟨fun e' he' => ?_, fun event hevent => ?_, fun seq hseq => ?_, hnext, hshort⟩
      · rcases List.mem_cons.mp he' with rfl | hl
        · exact ⟨events, hfirst, (List.prefix_append _ _).isInfix⟩
        · rcases hblocks e' hl with ⟨block, hlapsed, hinfix⟩
          exact ⟨block, hlapsed.of_same (hother e'.1 (List.mem_map_of_mem hl)),
            hinfix.trans (List.suffix_append _ _).isInfix⟩
      · rcases List.mem_append.mp hevent with hnow | hlater
        · exact ⟨e, List.mem_cons_self, events, hfirst, hnow⟩
        · rcases hevents event hlater with ⟨e', hl, block, hlapsed, hmem⟩
          exact ⟨e', List.mem_cons_of_mem e hl, block,
            hlapsed.of_same (hother e'.1 (List.mem_map_of_mem hl)), hmem⟩
      · rw [List.map_cons, List.mem_cons, not_or] at hseq
        exact (hkept seq hseq.2).trans (getElem?_left_of_ne _ _ _ _ (Ne.symm hseq.1))

/-- The settlement of a claim whose time has passed. -/
def lapsing (p : Pending) : Settlement := .error (.transport (lapse p.target.kind))

theorem mem_dueClaims (s : Calls π) (now : Instant) (localNow : Timestamp)
    (e : UInt64 × Settlement) :
    e ∈ s.dueClaims now localNow ↔
      ∃ p, s.pending[e.1]? = some p ∧ p.due now localNow = true ∧ e.2 = lapsing p := by
  unfold dueClaims
  rw [List.mem_map]
  constructor
  · rintro ⟨⟨seq, p⟩, hmem, rfl⟩
    rcases List.mem_filter.mp hmem with ⟨hlist, hdue⟩
    exact ⟨p, Std.ExtTreeMap.mem_toList_iff_getElem?_eq_some.mp hlist, hdue, rfl⟩
  · rintro ⟨p, hp, hdue, houtcome⟩
    refine ⟨(e.1, p), List.mem_filter.mpr
      ⟨Std.ExtTreeMap.mem_toList_iff_getElem?_eq_some.mpr hp, hdue⟩, ?_⟩
    exact Prod.ext rfl houtcome.symm

theorem nodup_dueClaims (s : Calls π) (now : Instant) (localNow : Timestamp) :
    ((s.dueClaims now localNow).map Prod.fst).Nodup := by
  unfold dueClaims
  rw [List.map_map]
  have hkeys : (s.pending.toList.map Prod.fst).Nodup := by
    rw [Std.ExtTreeMap.map_fst_toList_eq_keys]
    exact Std.ExtTreeMap.nodup_keys
  exact (List.filter_sublist.map Prod.fst).nodup hkeys

/-- A pass over the claims whose time has passed: each of them is settled as
    its kind's error and stays pending when the port does not release it; every
    event of the pass is of such a settlement; and the other claims stay. -/
theorem expire_spec (s : Calls π) (now : Instant) (localNow : Timestamp) :
    let r := s.expire port now localNow
    (∀ (seq : UInt64) (p : Pending), s.pending[seq]? = some p → p.due now localNow = true →
      ∃ block answer, block <:+: r.2 ∧ SettledAs p.claim (lapsing p) block answer ∧
        r.1.pending[seq]? = if released answer then none else some p) ∧
    (∀ event ∈ r.2, ∃ (seq : UInt64) (p : Pending) (block : List Event)
        (answer : Except SettleError Unit), s.pending[seq]? = some p ∧
      p.due now localNow = true ∧ SettledAs p.claim (lapsing p) block answer ∧ event ∈ block) ∧
    (∀ seq : UInt64, (∀ p : Pending, s.pending[seq]? = some p → p.due now localNow = false) →
      r.1.pending[seq]? = s.pending[seq]?) ∧
    r.1.next = s.next ∧ r.1.short = s.short := by
  have hpending : ∀ e ∈ s.dueClaims now localNow, ∃ p, s.pending[e.1]? = some p := by
    intro e he
    rcases (mem_dueClaims s now localNow e).mp he with ⟨p, hp, _, _⟩
    exact ⟨p, hp⟩
  rcases settleAll_spec port s _ (nodup_dueClaims s now localNow) hpending with
    ⟨hblocks, hevents, hkept, hnext, hshort⟩
  refine ⟨fun seq p hp hdue => ?_, fun event hevent => ?_, fun seq hnot => hkept seq ?_,
    hnext, hshort⟩
  · rcases hblocks (seq, lapsing p) ((mem_dueClaims s now localNow _).mpr ⟨p, hp, hdue, rfl⟩) with
      ⟨block, ⟨p', answer, hp', hsettled, hleft⟩, hinfix⟩
    rw [hp, Option.some.injEq] at hp'
    rw [← hp'] at hsettled hleft
    exact ⟨block, answer, hinfix, hsettled, hleft⟩
  · rcases hevents event hevent with ⟨e, he, block, ⟨p', answer, hp', hsettled, _⟩, hmem⟩
    rcases (mem_dueClaims s now localNow e).mp he with ⟨p, hp, hdue, houtcome⟩
    rw [hp, Option.some.injEq] at hp'
    rw [houtcome, ← hp'] at hsettled
    exact ⟨e.1, p, block, answer, hp, hdue, hsettled, hmem⟩
  · intro hmem
    rcases List.mem_map.mp hmem with ⟨e, he, rfl⟩
    rcases (mem_dueClaims s now localNow e).mp he with ⟨p, hp, hdue, _⟩
    exact absurd hdue (by rw [hnot p hp]; exact Bool.false_ne_true)

/-- A response, after the pass: it settles the claim pending under its
    correlation, if that claim's target is the response's, and nothing else. -/
theorem response_spec (cfg : Config) (s : Calls π) (target : Target) (correlation : UInt64)
    (outcome : ResponseOutcome) (now : Instant) :
    let e := s.expire port now (port.now s.world)
    let r := s.response port cfg target correlation outcome now
    (∀ p, e.1.pending[correlation]? = some p → p.target = target →
      ∃ events answer world, r = ({ e.1 with
          pending := left e.1.pending correlation answer, world := world }, e.2 ++ events) ∧
        SettledAs p.claim (responded cfg target outcome) events answer) ∧
    ((∀ p, e.1.pending[correlation]? = some p → p.target ≠ target) →
      r = (e.1, e.2 ++ [.note (.unknownCorrelation target correlation)])) := by
  refine ⟨fun p hp htarget => ?_, fun hnone => ?_⟩
  · rcases settle_spec port _ correlation p (responded cfg target outcome) hp with
      ⟨answer, events, world, hsettle, hsettled⟩
    refine ⟨events, answer, world, ?_, hsettled⟩
    simp only [response, hp, if_pos htarget, hsettle]
  · unfold response
    rcases hp : (s.expire port now (port.now s.world)).1.pending[correlation]? with _ | p
    · simp only [hp]
    · simp only [hp, if_neg (hnone p hp)]

/-- A claim too long to read is settled as `corrupt`, and remembered when the
    port did not take that. -/
theorem refuseShort_spec (s : Calls π) (claim : ClaimId) :
    ∃ answer world, (s.refuseShort port claim).2.1 = [.short claim, .settled claim corrupt answer] ∧
      (s.refuseShort port claim).1 =
        { s with short := if answer = .ok () then none else some claim, world := world } := by
  unfold refuseShort
  rcases hsettle : port.settle s.world claim (.error (.transport .corrupt)) with ⟨answer, world⟩
  simp only [hsettle]
  refine ⟨answer, world, ?_⟩
  cases answer with
  | ok _ => exact ⟨rfl, rfl⟩
  | error _ => exact ⟨rfl, rfl⟩

theorem giveDown_spec (world : π) (claims : List ClaimId) :
    (∀ claim ∈ claims, ∃ answer, .settled claim (.error (.transport .down)) answer ∈
      (giveDown port world claims).2) := by
  induction claims generalizing world with
  | nil => exact List.forall_mem_nil _
  | cons claim claims ih =>
      intro claim' hmem
      simp only [giveDown]
      rcases List.mem_cons.mp hmem with rfl | hrest
      · exact ⟨_, List.mem_cons_self⟩
      · rcases ih _ claim' hrest with ⟨answer, hanswer⟩
        exact ⟨answer, List.mem_cons_of_mem _ hanswer⟩

theorem down_spec (s : Calls π) :
    let r := s.down port
    r.1.pending = ∅ ∧ r.1.short = none ∧
    (∀ (seq : UInt64) (p : Pending), s.pending[seq]? = some p →
      ∃ answer, .settled p.claim (.error (.transport .down)) answer ∈ r.2) ∧
    ∀ claim, s.short = some claim →
      ∃ answer, .settled claim (.error (.transport .down)) answer ∈ r.2 := by
  refine ⟨rfl, rfl, fun seq p hp => ?_, fun claim hshort => ?_⟩
  · refine giveDown_spec port s.world _ p.claim (List.mem_append_left _ ?_)
    exact List.mem_map.mpr
      ⟨(seq, p), Std.ExtTreeMap.mem_toList_iff_getElem?_eq_some.mpr hp, rfl⟩
  · refine giveDown_spec port s.world _ claim (List.mem_append_right _ ?_)
    rw [hshort]
    exact List.mem_singleton_self claim

theorem erase_of_none (pending : OrdMap UInt64 Pending) (seq : UInt64)
    (h : pending[seq]? = none) : pending.erase seq = pending := by
  refine Std.ExtTreeMap.ext_getElem? fun a => ?_
  rw [OrdMap.getElem?_erase]
  split
  · next heq => rw [← heq, h]
  · rfl

/-- What `forward` does: the claim is sent under the next number, or refused,
    and a claim whose refusal the port did not take keeps the number. -/
theorem forward_spec (cfg : Config) (s : Calls π) (claim : Claim) (now : Instant) (localNow : Timestamp)
    (hfree : s.pending[s.next + 1]? = none) :
    let r := s.forward port cfg claim now localNow
    let p := pendingOf cfg claim now localNow
    r = ({ s with pending := s.pending.insert (s.next + 1) p, next := s.next + 1 },
        [.took claim, .request p.claim (.request p.target ⟨p.stamp, s.next + 1⟩ claim.args)],
        true) ∨
      ∃ outcome events answer world, SettledAs claim.id outcome events answer ∧
        ((released answer = true ∧
          r = ({ s with world := world }, .took claim :: events, true)) ∨
        (released answer = false ∧
          r = ({ s with
              pending := s.pending.insert (s.next + 1) p
              next := s.next + 1
              world := world }, .took claim :: events, false))) := by
  unfold forward
  simp only
  split
  · next error _ =>
    refine Or.inr ?_
    have hclaim : (pendingOf cfg claim now localNow).claim = claim.id := rfl
    generalize pendingOf cfg claim now localNow = p at hclaim ⊢
    rcases settle_spec port { s with pending := s.pending.insert (s.next + 1) p }
      (s.next + 1) p (.error error) (OrdMap.getElem?_insert_self _ _ _) with
      ⟨answer, events, world, hsettle, hsettled⟩
    rw [hclaim] at hsettled
    refine ⟨.error error, events, answer, world, hsettled, ?_⟩
    rw [hsettle]
    by_cases hreleased : released answer = true
    · have hleft : left (s.pending.insert (s.next + 1) p) (s.next + 1) answer = s.pending := by
        unfold left
        rw [if_pos hreleased, OrdMap.erase_insert]
        exact erase_of_none _ _ hfree
      refine Or.inl ⟨hreleased, ?_⟩
      simp only [hleft, OrdMap.contains_eq_false _ _ hfree, Bool.false_eq_true, if_false]
    · have hleft : left (s.pending.insert (s.next + 1) p) (s.next + 1) answer =
          s.pending.insert (s.next + 1) p := by
        unfold left
        rw [if_neg hreleased]
      refine Or.inr ⟨(Bool.not_eq_true _).mp hreleased, ?_⟩
      simp only [hleft, Std.ExtTreeMap.contains_insert_self, if_true]
  · exact Or.inl rfl

end Calls

end Specs

end Provided

end Ridl
