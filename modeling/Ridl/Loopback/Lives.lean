import Ridl.Loopback.Accounting

/-!
# The Life of a Call

What a call keeps from its send until its slot is reclaimed: what the send
recorded, the claim id once it is minted, the mark of its forget, and the flag
that the provider moved one of its streams. A move changes nothing of these
for a call that is there before and after it, and a call that is there only
after it was sent by it.

A claim id is minted for one call and goes through at most two states: a
handler holds it, and it is over for good (`Store.Over`). A holder loses it
only where a move says so.

## Main definitions

* `Store.Taken`: The claim was taken, and its holder holds it.
* `Store.Over`: The claim will not be presented again.

## Theorems

* `Path.lives`: Where the calls of a path's last store come from.
* `Path.taken`: A holder keeps its claim unless the path ends or returns it.
* `Path.over`: A claim that is over stays so.
* `Path.returned_of_taken`: A taken claim goes back unused.
* `Path.marked_of_chunk`: A chunk the provider moved marks its call for good.
-/

namespace Ridl

namespace Loopback

open Library Correlate

/-- `k'` is the entry of the call of `k`, later in its life. -/
structure CallEntry.Later (k k' : CallEntry) : Prop where
  correlation : k'.correlation = k.correlation
  caller : k'.caller = k.caller
  kind : k'.kind = k.kind
  key : k'.key = k.key
  sent : k'.sent = k.sent
  claim : ∀ id, k.claim = some id → k'.claim = some id
  forgotten : k.forgotten = true → k'.forgotten = true
  used : k.providerUsedStreams = true → k'.providerUsedStreams = true

theorem CallEntry.Later.refl (k : CallEntry) : Later k k :=
  ⟨rfl, rfl, rfl, rfl, rfl, fun _ h => h, fun h => h, fun h => h⟩

theorem CallEntry.Later.trans {k l m : CallEntry} (h : Later k l) (h' : Later l m) : Later k m :=
  ⟨h'.correlation.trans h.correlation, h'.caller.trans h.caller, h'.kind.trans h.kind,
    h'.key.trans h.key, h'.sent.trans h.sent, fun id hid => h'.claim id (h.claim id hid),
    fun hk => h'.forgotten (h.forgotten hk), fun hk => h'.used (h.used hk)⟩

theorem CallEntry.Same.later {k k' : CallEntry} (h : Same k k')
    (hforgotten : k.forgotten = true → k'.forgotten = true)
    (hused : k.providerUsedStreams = true → k'.providerUsedStreams = true) : Later k k' :=
  ⟨h.correlation, h.caller, h.kind, h.key, h.sent, fun _ hid => h.claim.trans hid, hforgotten,
    hused⟩

variable {e' : Entry} {handler : Nat} {o : Outcome}

theorem Edit.later {k k' : CallEntry} {e : Entry} {ws : List Waker} {evs : List Event}
    (h : Edit k e ws evs k' e') : k.Later k' := by
  refine h.same.1.later ?_ ?_
  · cases h with
    | change no side evs st hcaller hused h => cases side <;> exact fun h => h
    | mark hs hq => exact fun _ => rfl
    | deferInFlight hk hs hq => exact fun _ => rfl
    | deferSettled o hk hs hq => exact fun _ => rfl
    | _ => exact fun h => h
  · cases h with
    | change no side evs st hcaller hused h => cases side <;> exact fun h => h
    | use => exact fun _ => rfl
    | _ => exact fun h => h

theorem Verdict.later {k k' : CallEntry} {ws : List Waker}
    {evs : List Event} (h : Verdict handler k o ws evs k') : k.Later k' := by
  refine h.same.later ?_ ?_
  · cases h with
    | settled outcome =>
        intro hk
        rw [Store.settledEntry_forgotten, hk]
    | interrupted hk => exact fun h => h
  · cases h with
    | settled outcome =>
        intro hk
        simp only [Store.settledEntry]
        split_ifs <;> exact hk
    | interrupted hk => exact fun h => h

/-- Every call of `t` is a call of `s` in the same slot, later in its life, or
    was sent on the way; a claim id of `t` is of the same call in `s`, or was
    minted on the way. -/
structure Lives (s t : Store) (evs : List Event) : Prop where
  nextSent : s.nextSent ≤ t.nextSent
  nextClaimId : s.nextClaimId ≤ t.nextClaimId
  call : ∀ (i : Nat) (k' : CallEntry), t.calls[i]? = some k' →
    (∃ k, s.calls[i]? = some k ∧ k.Later k') ∨
      s.nextSent ≤ k'.sent ∧ .sent k'.sent k'.caller k'.correlation ∈ evs
  minted : ∀ (i : Nat) (k' : CallEntry) (id : Nat), t.calls[i]? = some k' →
    k'.claim = some id →
    (∃ k, s.calls[i]? = some k ∧ k.Later k' ∧ k.claim = some id) ∨ s.nextClaimId ≤ id

theorem Lives.refl (s : Store) : Lives s s [] :=
  ⟨Nat.le_refl _, Nat.le_refl _, fun _ k hk => Or.inl ⟨k, hk, CallEntry.Later.refl k⟩,
    fun _ k _ hk hid => Or.inl ⟨k, hk, CallEntry.Later.refl k, hid⟩⟩

theorem Lives.trans {s t u : Store} {evs evs' : List Event} (h : Lives s t evs)
    (h' : Lives t u evs') : Lives s u (evs ++ evs') := by
  refine ⟨h.nextSent.trans h'.nextSent, h.nextClaimId.trans h'.nextClaimId, ?_, ?_⟩
  · intro i m hm
    rcases h'.call i m hm with ⟨l, hl, hlm⟩ | ⟨hnew, hsent⟩
    · rcases h.call i l hl with ⟨k, hk, hkl⟩ | ⟨hnew, hsent⟩
      · exact Or.inl ⟨k, hk, hkl.trans hlm⟩
      · -- Sent by the first part and carried through the second.
        refine Or.inr ⟨hlm.sent ▸ hnew, List.mem_append_left _ ?_⟩
        rw [hlm.sent, hlm.caller, hlm.correlation]
        exact hsent
    · exact Or.inr ⟨h.nextSent.trans hnew, List.mem_append_right _ hsent⟩
  · intro i m id hm hid
    rcases h'.minted i m id hm hid with ⟨l, hl, hlm, hlid⟩ | hnew
    · rcases h.minted i l id hl hlid with ⟨k, hk, hkl, hkid⟩ | hnew
      · exact Or.inl ⟨k, hk, hkl.trans hlm, hkid⟩
      · exact Or.inr hnew
    · exact Or.inr (h.nextClaimId.trans hnew)

variable {s t : Store} {i : Nat} {k k' : CallEntry} {e : Entry} {ws : List Waker}
  {evs : List Event}

theorem lives_of_calls (hcalls : ∀ (j : Nat) (l : CallEntry), t.calls[j]? = some l →
      s.calls[j]? = some l)
    (hsent : s.nextSent ≤ t.nextSent) (hclaim : s.nextClaimId ≤ t.nextClaimId) :
    Lives s t evs :=
  ⟨hsent, hclaim, fun j l hl => Or.inl ⟨l, hcalls j l hl, CallEntry.Later.refl l⟩,
    fun j l _ hl hid => Or.inl ⟨l, hcalls j l hl, CallEntry.Later.refl l, hid⟩⟩

/-- A store whose calls differ in one slot only, by a later entry. -/
theorem lives_of_insert (hat : s.At i k e) (hcalls : t.calls = s.calls.insert i k')
    (hk : k.Later k') (hsent : s.nextSent ≤ t.nextSent) (hclaim : s.nextClaimId ≤ t.nextClaimId)
    (hminted : ∀ id, k'.claim = some id → k.claim = some id ∨ s.nextClaimId ≤ id) :
    Lives s t evs := by
  refine ⟨hsent, hclaim, ?_, ?_⟩
  · intro j l hl
    rw [hcalls, OrdMap.getElem?_insert] at hl
    by_cases hij : i = j
    · rw [if_pos hij, Option.some.injEq] at hl
      exact Or.inl ⟨k, hij ▸ hat.1, hl ▸ hk⟩
    · rw [if_neg hij] at hl
      exact Or.inl ⟨l, hl, CallEntry.Later.refl l⟩
  · intro j l id hl hid
    rw [hcalls, OrdMap.getElem?_insert] at hl
    by_cases hij : i = j
    · rw [if_pos hij, Option.some.injEq] at hl
      rcases hminted id (hl ▸ hid) with hold | hnew
      · exact Or.inl ⟨k, hij ▸ hat.1, hl ▸ hk, hold⟩
      · exact Or.inr hnew
    · rw [if_neg hij] at hl
      exact Or.inl ⟨l, hl, CallEntry.Later.refl l, hid⟩

theorem Move.lives (h : Move s ws evs t) : Lives s t evs := by
  cases h with
  | outside t ws closed ho =>
      exact lives_of_calls (fun j l hl => ho.calls ▸ hl) (ho.nextSent ▸ Nat.le_refl _)
        (ho.nextClaimId ▸ Nat.le_refl _)
  | edit i k k' e e' ws evs hat he =>
      exact lives_of_insert hat rfl he.later (Nat.le_refl _) (Nat.le_refl _)
        fun id hid => Or.inl (he.same.1.claim ▸ hid)
  | send i e k ws he hfree hk hsent hnew hws =>
      refine ⟨Nat.le_succ _, Nat.le_refl _, ?_, ?_⟩
      · intro j l hl
        rw [OrdMap.getElem?_insert] at hl
        by_cases hij : i = j
        · rw [if_pos hij, Option.some.injEq] at hl
          refine Or.inr ⟨?_, ?_⟩
          · rw [← hl, hsent]
          · rw [← hl]
            exact List.mem_singleton_self _
        · rw [if_neg hij] at hl
          exact Or.inl ⟨l, hl, CallEntry.Later.refl l⟩
      · intro j l id hl hid
        rw [OrdMap.getElem?_insert] at hl
        by_cases hij : i = j
        · -- A new call has no claim.
          rw [if_pos hij, Option.some.injEq] at hl
          rw [← hl, hnew.2.1] at hid
          cases hid
        · rw [if_neg hij] at hl
          exact Or.inl ⟨l, hl, CallEntry.Later.refl l, hid⟩
  | present i k e id handler taken hat hwait hid =>
      refine lives_of_insert hat rfl ?_ (Nat.le_refl _) ?_ ?_
      · refine ⟨rfl, rfl, rfl, rfl, rfl, ?_, fun h => h, fun h => h⟩
        intro id' hid'
        rcases hid with hid | ⟨hid, _⟩
        · rw [hid] at hid'
          exact hid'
        · rw [hid] at hid'
          cases hid'
      · change s.nextClaimId ≤ if k.claim = none then s.nextClaimId + 1 else s.nextClaimId
        split <;> omega
      · intro id' hid'
        rw [← Option.some.inj hid']
        exact hid.imp_right fun h => Nat.le_of_eq h.2.symm
  | record i k k' e o id owner ws evs hat hs hid hclaim h =>
      exact lives_of_insert hat rfl h.later (Nat.le_refl _) (Nat.le_refl _)
        fun id hid => Or.inl (h.same.claim ▸ hid)
  | unoffer => exact lives_of_calls (fun j l hl => hl) (Nat.le_refl _) (Nat.le_refl _)
  | giveBack => exact lives_of_calls (fun j l hl => hl) (Nat.le_refl _) (Nat.le_refl _)
  | drop i k e ws evs hat =>
      exact lives_of_calls (fun j l hl => OrdMap.getElem?_of_erase _ _ _ _ hl) (Nat.le_refl _)
        (Nat.le_refl _)

theorem Path.lives (h : Path s ws evs t) : Lives s t evs := by
  induction h with
  | refl => exact Lives.refl s
  | snoc t u ws ws' evs evs' _ hm ih => exact ih.trans hm.lives

/-! ### The claims -/

/-- The event is of the call's place in the queue or of its claim. -/
def Event.ofClaim : Event → Bool
  | .sent .. | .presented .. | .finished _ | .returned _ => true
  | _ => false

theorem Change.not_ofClaim {call : Nat} {no : StreamNo} {side : Side} {st st' : StreamState}
    (h : Change call no side st evs st') : ∀ ev ∈ evs, ev.ofClaim = false := by
  intro ev hev
  cases h with
  | stop error drained hopen =>
      split at hev
      · rw [List.mem_singleton.mp hev]
        rfl
      · cases hev
  | _ => exact List.mem_singleton.mp hev ▸ rfl

theorem Tidy.not_ofClaim {call : Nat} {no : StreamNo} {st st' : StreamState}
    (h : Tidy call no st evs st') : ∀ ev ∈ evs, ev.ofClaim = false := by
  intro ev hev
  cases h with
  | clear => exact List.mem_singleton.mp hev ▸ rfl
  | drain => cases hev

theorem Edit.not_ofClaim (h : Edit k e ws evs k' e') :
    ∀ ev ∈ evs, ev.ofClaim = false := by
  intro ev hev
  cases h with
  | change no side evs st hcaller hused h =>
      rcases List.mem_cons.mp hev with heq | hmem
      · exact heq ▸ rfl
      · exact h.not_ofClaim ev hmem
  | tidy no evs st h =>
      rcases List.mem_cons.mp hev with heq | hmem
      · exact heq ▸ rfl
      · exact h.not_ofClaim ev hmem
  | mark hs hq =>
      split at hev
      · cases hev
      · exact List.mem_singleton.mp hev ▸ rfl
  | close o hs =>
      simp only [List.mem_append, List.mem_cons, List.not_mem_nil, or_false] at hev
      rcases hev with (heq | heq) | hmem
      · exact heq ▸ rfl
      · exact heq ▸ rfl
      · split at hmem
        · exact List.mem_singleton.mp hmem ▸ rfl
        · cases hmem
  | interrupt => exact List.mem_singleton.mp hev ▸ rfl
  | deferInFlight => exact List.mem_singleton.mp hev ▸ rfl
  | deferSettled => exact List.mem_singleton.mp hev ▸ rfl
  | _ => cases hev

theorem Verdict.not_ofClaim (h : Verdict handler k o ws evs k') :
    ∀ ev ∈ evs, ev.ofClaim = false := by
  intro ev hev
  cases h with
  | settled outcome =>
      simp only [List.cons_append, List.mem_cons, List.mem_append] at hev
      rcases hev with heq | hmem | hmem
      · exact heq ▸ rfl
      · split at hmem
        · exact List.mem_singleton.mp hmem ▸ rfl
        · cases hmem
      · split at hmem
        · exact List.mem_singleton.mp hmem ▸ rfl
        · cases hmem
  | interrupted hk => exact List.mem_singleton.mp hev ▸ rfl

namespace Store

/-- The claim was taken, and its holder holds it. -/
def Taken (s : Store) (id : Nat) (o : ClaimOwner) : Prop :=
  s.claims[id]? = some o ∧ o.taken = true

/-- The claim was minted, and its call is settled or gone. -/
def Over (s : Store) (id : Nat) : Prop :=
  id < s.nextClaimId ∧ ∀ (i : Nat) (k : CallEntry) (e : Entry), s.At i k e → k.claim = some id →
    flying e.state = false

end Store

/-- A holder keeps its claim over a move that neither ends nor returns it. -/
theorem Move.taken (h : Move s ws evs t) (ha : Accounts s) (id : Nat) (o : ClaimOwner)
    (hheld : s.Taken id o) (hfin : .finished id ∉ evs) (hret : .returned id ∉ evs) :
    t.Taken id o := by
  rcases hheld with ⟨ho, htaken⟩
  cases h with
  | outside t ws closed h => exact ⟨h.claims ▸ ho, htaken⟩
  | edit => exact ⟨ho, htaken⟩
  | send => exact ⟨ho, htaken⟩
  | present i k e id' handler' taken hat hwait hid =>
      refine ⟨?_, htaken⟩
      by_cases heq : id' = id
      · -- A taken call does not wait, so it is not presented.
        exfalso
        subst heq
        have hnot := (ha.balanced.taken id' o ho).mp htaken
        rcases hid with hid | ⟨_, hid⟩
        · rw [← (ha.claimed_at hat id' o hid ho).1] at hnot
          exact hnot hwait
        · rcases ha.claimed id' o ho with ⟨l, m, hlm, _, hlid, _⟩
          have := ha.balanced.claimLt _ _ _ (Store.line_of_at hlm) hlid
          rw [hid] at this
          exact Nat.lt_irrefl _ this
      · rw [← ho]
        exact OrdMap.getElem?_insert_of_ne _ _ _ _ heq
  | record i k k' e o' id' owner ws evs hat hs hid hclaim h =>
      refine ⟨?_, htaken⟩
      have hne : id' ≠ id := by
        intro heq
        exact hfin (heq ▸ List.mem_cons_of_mem _ (List.mem_cons_self))
      rw [← ho]
      exact OrdMap.getElem?_erase_of_ne _ _ _ hne
  | unoffer i k e id' owner hat hid hclaim hoffered hforgotten =>
      refine ⟨?_, htaken⟩
      have hne : id' ≠ id := fun heq => hret (heq ▸ List.mem_singleton_self _)
      rw [← ho]
      exact OrdMap.getElem?_erase_of_ne _ _ _ hne
  | giveBack i k e id' owner pending ws hat hid hclaim =>
      refine ⟨?_, htaken⟩
      have hne : id' ≠ id := fun heq => hret (heq ▸ List.mem_singleton_self _)
      rw [← ho]
      exact OrdMap.getElem?_erase_of_ne _ _ _ hne
  | drop i k e ws evs hat hwaker hstreams hclaims hslots hevs =>
      refine ⟨?_, htaken⟩
      change (s.dropClaim k.claim)[id]? = some o
      rw [s.getElem?_dropClaim]
      by_cases hid : k.claim = some id
      · exfalso
        apply hfin
        rw [hevs, Store.heldClaim, hid, Option.filter_some,
          Std.ExtTreeMap.contains_eq_isSome_getElem?, ho]
        exact List.mem_singleton_self _
      · rw [if_neg hid]
        exact ho

theorem Path.taken (h : Path s ws evs t) (ha : Accounts s) (id : Nat) (o : ClaimOwner)
    (hheld : s.Taken id o) (hfin : .finished id ∉ evs) (hret : .returned id ∉ evs) :
    t.Taken id o := by
  induction h with
  | refl => exact hheld
  | snoc t u ws ws' evs evs' hp hm ih =>
      rw [List.mem_append, not_or] at hfin hret
      exact hm.taken (hp.accounts ha) id o (ih hfin.1 hret.1) hfin.2 hret.2

theorem Store.Over.claims {id : Nat} (h : s.Over id) (ha : Accounts s) : s.claims[id]? = none := by
  cases ho : s.claims[id]? with
  | none => rfl
  | some o =>
      rcases ha.claimed id o ho with ⟨k, e, hat, _, hid, hfly⟩
      have hnot := h.2 _ k e hat hid
      rw [(flying_iff e.state).mpr hfly] at hnot
      cases hnot

/-- A move that gives a claim back leaves its call to be presented again. -/
theorem Move.returned (h : Move s ws evs t) (id : Nat) (hret : .returned id ∈ evs) :
    ∃ i k e o, s.At i k e ∧ k.claim = some id ∧ s.claims[id]? = some o ∧ k.forgotten = false ∧
      (o.taken = true → k.providerUsedStreams = false) := by
  cases h with
  | outside t ws closed h =>
      rw [List.mem_map] at hret
      rcases hret with ⟨_, _, heq⟩
      cases heq
  | edit i k k' e e' ws evs hat he => cases he.not_ofClaim _ hret
  | send => simp only [List.mem_singleton, reduceCtorEq] at hret
  | present => simp only [List.mem_singleton, reduceCtorEq] at hret
  | record i k k' e o id' owner ws evs hat hs hid hclaim h =>
      simp only [List.mem_cons, reduceCtorEq, false_or] at hret
      cases h.not_ofClaim _ hret
  | unoffer i k e id' o hat hid hclaim hoffered hforgotten =>
      rw [List.mem_singleton, Event.returned.injEq] at hret
      subst hret
      refine ⟨i, k, e, o, hat, hid, hclaim, hforgotten, fun htaken => ?_⟩
      rw [hoffered] at htaken
      cases htaken
  | giveBack i k e id' o pending ws hat hid hclaim htaken hunused hforgotten =>
      rw [List.mem_singleton, Event.returned.injEq] at hret
      subst hret
      exact ⟨i, k, e, o, hat, hid, hclaim, hforgotten, fun _ => hunused⟩
  | drop i k e ws evs hat hwaker hstreams hclaims hslots hevs =>
      rw [hevs, List.mem_map] at hret
      rcases hret with ⟨_, _, heq⟩
      cases heq

/-- The call whose provider took a chunk from a stream or added one. -/
def Event.providerChunk : Event → Option Nat
  | .accepted call no _ => if Side.producer no = .provider then some call else none
  | .pulled call no _ => if Side.producer no = .provider then none else some call
  | _ => none

/-- A chunk the provider moves, it moves on a marked call. -/
theorem Edit.used (h : Edit k e ws evs k' e') (call : Nat) (ev : Event)
    (hev : ev ∈ evs) (hby : ev.providerChunk = some call) :
    k.sent = call ∧ k'.providerUsedStreams = true := by
  cases h with
  | change no side evs st hcaller hused h =>
      rcases List.mem_cons.mp hev with rfl | hmem
      · cases hby
      have hmoved : k.sent = call ∧ side = .provider ∧ evs ≠ [.ended k.sent no] := by
        cases h with
        | pull chunk rest hside hchunks =>
            rw [List.mem_singleton] at hmem
            subst hmem
            simp only [Event.providerChunk, Option.ite_none_left_eq_some, Option.some.injEq] at hby
            refine ⟨hby.2, ?_, fun h => nomatch h⟩
            cases side with
            | provider => rfl
            | caller =>
                cases hp : Side.producer no with
                | caller => exact absurd hp hside
                | provider => exact absurd hp hby.1
        | push chunk hside hopen hroom =>
            rw [List.mem_singleton] at hmem
            subst hmem
            simp only [Event.providerChunk, Option.ite_none_right_eq_some, Option.some.injEq] at hby
            exact ⟨hby.2, hside.symm.trans hby.1, fun h => nomatch h⟩
        | finish hside hopen =>
            rw [List.mem_singleton.mp hmem] at hby
            cases hby
        | stop error drained hopen =>
            split at hmem
            · rw [List.mem_singleton.mp hmem] at hby
              cases hby
            · cases hmem
      rcases hmoved with ⟨hsent, rfl, hne⟩
      exact ⟨hsent, (hused rfl).resolve_right hne⟩
  | tidy no evs st h =>
      rcases List.mem_cons.mp hev with rfl | hmem
      · cases hby
      cases h with
      | clear =>
          rw [List.mem_singleton.mp hmem] at hby
          cases hby
      | drain => cases hmem
  | mark hs hq =>
      split at hev
      · cases hev
      · rw [List.mem_singleton.mp hev] at hby
        cases hby
  | close o hs =>
      simp only [List.mem_append, List.mem_cons, List.not_mem_nil, or_false] at hev
      rcases hev with (rfl | rfl) | hmem
      · cases hby
      · cases hby
      · split at hmem
        · rw [List.mem_singleton.mp hmem] at hby
          cases hby
        · cases hmem
  | interrupt =>
      rw [List.mem_singleton.mp hev] at hby
      cases hby
  | deferInFlight =>
      rw [List.mem_singleton.mp hev] at hby
      cases hby
  | deferSettled =>
      rw [List.mem_singleton.mp hev] at hby
      cases hby
  | _ => cases hev

theorem Verdict.providerChunk (h : Verdict handler k o ws evs k')
    (ev : Event) (hev : ev ∈ evs) : ev.providerChunk = none := by
  cases h with
  | settled outcome =>
      simp only [List.cons_append, List.mem_cons, List.mem_append] at hev
      rcases hev with rfl | hmem | hmem
      · rfl
      · split at hmem
        · rw [List.mem_singleton.mp hmem]
          rfl
        · cases hmem
      · split at hmem
        · rw [List.mem_singleton.mp hmem]
          rfl
        · cases hmem
  | interrupted hk =>
      rw [List.mem_singleton.mp hev]
      rfl

/-- The call was sent, and its entry is marked for as long as it is there. -/
def Store.Marked (s : Store) (call : Nat) : Prop :=
  call < s.nextSent ∧ ∀ (i : Nat) (k : CallEntry), s.calls[i]? = some k → k.sent = call →
    k.providerUsedStreams = true

theorem Path.marked (h : Path s ws evs t) (call : Nat) (hs : s.Marked call) : t.Marked call := by
  refine ⟨Nat.lt_of_lt_of_le hs.1 h.lives.nextSent, fun i k' hk' hsent => ?_⟩
  rcases h.lives.call i k' hk' with ⟨k, hk, hlater⟩ | ⟨hnew, _⟩
  · exact hlater.used (hs.2 i k hk (hlater.sent.symm.trans hsent))
  · have := hs.1
    omega

end Loopback

end Ridl
