import Ridl.Provided.Once

/-!
# The Forwarding of Claims

What a providing session does with the claims of its local port, over a whole
run: the numbers of the requests, how many claims are pending, how often one is
settled, and what a response, a deadline and the end of the session settle.

A claim the port would not release after its time has passed stays pending, and
is passed over again with the next tick or response. One that it released is
owned no more, and no later response finds it.

## Theorems

* `unowned_steps`: A claim that is not pending becomes pending only if taken.
* `passed_of_run`: A claim whose time has passed is settled so, and no response
  settles it later.
* `forwarding`: The session's calls, in every run.
-/

namespace Ridl

namespace Provided

open Library Server

section Rule

variable {π : Type} {id : ClaimId} {cfg : Config}

/-- The claim is pending after what was done only if it was before, or was
    taken. -/
structure UnownedStep (id : ClaimId) (s : Calls π) (events : List Event) (t : Calls π) : Prop where
  unowned : (∀ e ∈ events, e.takes id = false) → Unowned id s → Unowned id t
  below : Below s → Below t

theorem UnownedStep.of_part {s t : Calls π} {events : List Event} (hbelow : Below s → Below t)
    (hpart : ∀ (seq : UInt64) (p : Pending), t.pending[seq]? = some p → s.pending[seq]? = some p) :
    UnownedStep id s events t :=
  ⟨fun _ hs seq p hp => hs seq p (hpart seq p hp), hbelow⟩

variable (port : Port π)

theorem forward_unowned (s : Calls π) (claim : Claim) (now : Instant) (localNow : Timestamp)
    (hbelow : Below s) (hroom : s.pending.size < cfg.capacity)
    (hnext : s.next.toNat < 2 ^ 64 - 1) :
    UnownedStep id s (s.forward port cfg claim now localNow).2.1
      (s.forward port cfg claim now localNow).1 := by
  refine ⟨fun htakes hs => ?_,
    (forward_keeps port s claim now localNow hbelow hroom hnext).below⟩
  -- the claim taken is another one
  have hother : ∀ rest, (s.forward port cfg claim now localNow).2.1 = .took claim :: rest →
      claim.id ≠ id := by
    intro rest hevents hclaim
    have htook := htakes (.took claim) (hevents ▸ List.mem_cons_self)
    rw [Event.takes, decide_eq_false_iff_not] at htook
    exact htook hclaim
  have hinsert : ∀ t : Calls π, claim.id ≠ id →
      t.pending = s.pending.insert (s.next + 1) (pendingOf cfg claim now localNow) →
      Unowned id t := by
    intro t hne hpending seq p hp
    rw [hpending, OrdMap.getElem?_insert] at hp
    split at hp
    · rw [Option.some.injEq] at hp
      rw [← hp]
      exact hne
    · exact hs seq p hp
  rcases Calls.forward_spec port cfg s claim now localNow (hbelow.free hnext) with
    hsent | ⟨outcome, events, answer, world, _, ⟨_, hgone⟩ | ⟨_, hstays⟩⟩
  · exact hinsert _ (hother _ (by rw [hsent])) (by rw [hsent])
  · rw [hgone]
    exact hs
  · exact hinsert _ (hother _ (by rw [hstays])) (by rw [hstays])

theorem unowned_steps : Steps port cfg (UnownedStep id) where
  below h := h.below
  trans hab hbc := by
    refine ⟨fun htakes hs => ?_, fun hs => hbc.below (hab.below hs)⟩
    rw [List.forall_mem_append] at htakes
    exact hbc.unowned htakes.2 (hab.unowned htakes.1 hs)
  silent hpending hnext _ _ := by
    refine UnownedStep.of_part (fun hs seq p hp => ?_) (fun seq p hp => hpending ▸ hp)
    rw [hnext]
    exact hs seq p (hpending ▸ hp)
  settle s seq outcome := by
    have hkeeps : Keeps cfg s _ _ := settle_keeps port s seq outcome
    refine UnownedStep.of_part hkeeps.below ?_
    intro seq' p hp
    rcases hs : s.pending[seq]? with _ | q
    · rwa [Calls.settle_none port s seq outcome hs] at hp
    · rcases Calls.settle_spec port s seq q outcome hs with ⟨answer, events, world, hsettle, _⟩
      rw [hsettle] at hp
      exact Calls.getElem?_of_left _ _ _ _ _ hp
  forward s claim now localNow hbelow hroom hnext :=
    forward_unowned port s claim now localNow hbelow hroom hnext
  refuseShort s claim := by
    rcases Calls.refuseShort_spec port s claim with ⟨answer, world, _, hcalls⟩
    rw [hcalls]
    exact UnownedStep.of_part (fun hs => hs) (fun _ _ hp => hp)
  down s := by
    have hkeeps : Keeps cfg s _ _ := down_keeps port s
    refine UnownedStep.of_part hkeeps.below (fun seq p hp => ?_)
    cases (Std.ExtTreeMap.getElem?_empty (a := seq)).symm.trans hp

end Rule

section Pass

variable {π : Type} {port : Port π} {cfg : Config}

/-- The instant at which a call of the session passes over the claims, and the
    calls as it finds them. -/
def passing (s : Session π) : ProvidedOp π → Option (Instant × Calls π)
  | .message (.response ..) now _ => if s.attached then some (now, s.calls) else none
  | .tick now _ commit => if s.attached then some (now, (s.deliver commit).calls) else none
  | _ => none

variable {s t : Session π} {now : Instant} {c : Calls π} {events : List Event} {step : Step}

theorem passing_pending {op : ProvidedOp π}
    (h : passing s op = some (now, c)) : c.pending = s.calls.pending ∧ c.next = s.calls.next := by
  unfold passing at h
  split at h
  · split at h
    · simp only [Option.some.injEq, Prod.mk.injEq] at h
      rw [← h.2]
      exact ⟨rfl, rfl⟩
    · cases h
  · split at h
    · simp only [Option.some.injEq, Prod.mk.injEq] at h
      rw [← h.2]
      exact ⟨rfl, rfl⟩
    · cases h
  · cases h

/-- After the pass, the call goes on from what the pass left. -/
theorem Steps.after_pass {R : Calls π → List Event → Calls π → Prop} (hR : Steps port cfg R)
    {op : ProvidedOp π}
    (hbelow : Below s.calls) (h : s.step port cfg op = some (t, events, step))
    (hpass : passing s op = some (now, c)) :
    let e := c.expire port now (port.now c.world)
    ∃ rest, events = e.2 ++ rest ∧ R e.1 rest t.calls := by
  unfold passing at hpass
  unfold Session.step at h
  split at h
  · cases h
  · split at hpass
    · split at hpass
      · next hattached =>
        simp only [Option.some.injEq, Prod.mk.injEq] at hpass
        rcases hpass with ⟨rfl, rfl⟩
        simp only [Session.onMessage, hattached, Option.some.injEq, Prod.mk.injEq] at h
        rcases h with ⟨rfl, rfl, _⟩
        exact hR.after_pass_response s.calls _ _ _ _
      · cases hpass
    · split at hpass
      · next hattached =>
        simp only [Option.some.injEq, Prod.mk.injEq] at hpass
        rcases hpass with ⟨rfl, rfl⟩
        simp only [Session.tick, Session.deliver, hattached, if_true] at h
        rcases Option.map_eq_some_iff.mp h with ⟨⟨u, more, step'⟩, hmore, heq⟩
        simp only [Prod.mk.injEq] at heq
        rcases heq with ⟨rfl, rfl, _⟩
        exact hR.after_pass_tick _ _ _ _ _ _ hbelow hmore
      · cases hpass
    · cases hpass

theorem step_response {target : Target} {envelope : Envelope}
    {correlation : UInt64} {outcome : ResponseOutcome} {change : π → π}
    {now' : Instant}
    (h : s.step port cfg (.message (.response target envelope correlation outcome) now change) =
      some (t, events, step))
    (hpass : passing s (.message (.response target envelope correlation outcome) now change) =
      some (now', c)) :
    now = now' ∧ s.calls = c ∧
      events = (s.calls.response port cfg target correlation outcome now).2 := by
  unfold passing at hpass
  simp only at hpass
  split at hpass
  · next hattached =>
    simp only [Option.some.injEq, Prod.mk.injEq] at hpass
    unfold Session.step at h
    split at h
    · cases h
    · simp only [Session.onMessage, hattached, Option.some.injEq, Prod.mk.injEq] at h
      exact ⟨hpass.1, hpass.2, h.2.1.symm⟩
  · cases hpass

theorem step_drop (h : s.step port cfg .drop = some (t, events, step)) :
    t.calls = (s.calls.down port).1 ∧ events = (s.calls.down port).2 := by
  unfold Session.step at h
  split at h
  · cases h
  · simp only [Option.some.injEq, Prod.mk.injEq] at h
    rcases h with ⟨rfl, rfl, _⟩
    exact ⟨rfl, rfl⟩

/-- What a pass over the claims did: each whose time has passed was settled as
    its kind's error, and no other. -/
structure Passed (now : Instant) (localNow : Timestamp) (s t : Calls π) (events : List Event) :
    Prop where
  lapsed : ∀ (seq : UInt64) (p : Pending), s.pending[seq]? = some p → p.due now localNow = true →
    ∃ block answer, block <:+: events ∧ SettledAs p.claim (Calls.lapsing p) block answer ∧
      t.pending[seq]? = if released answer then none else some p
  only : ∀ event ∈ events, ∃ (seq : UInt64) (p : Pending) (block : List Event)
    (answer : Except SettleError Unit), s.pending[seq]? = some p ∧ p.due now localNow = true ∧
      SettledAs p.claim (Calls.lapsing p) block answer ∧ event ∈ block
  kept : ∀ seq : UInt64, (∀ p : Pending, s.pending[seq]? = some p → p.due now localNow = false) →
    t.pending[seq]? = s.pending[seq]?

/-- What a response settled, after the pass: the claim pending under its
    correlation and its target, if there is one. -/
def Answered (cfg : Config) (trace : List Event) (u : Calls π) (target : Target)
    (correlation : UInt64) (outcome : ResponseOutcome) (rest : List Event) : Prop :=
  (∃ p answer, u.pending[correlation]? = some p ∧ p.target = target ∧
    SettledAs p.claim (responded cfg target outcome) rest answer ∧
    (Sent trace correlation p ∨ Refused trace correlation p)) ∨
  ((∀ p : Pending, u.pending[correlation]? = some p → p.target ≠ target) ∧
    rest = [.note (.unknownCorrelation target correlation)])

theorem passed_of_expire (s : Calls π) (now : Instant) (localNow : Timestamp) :
    Passed now localNow s (s.expire port now localNow).1 (s.expire port now localNow).2 := by
  rcases Calls.expire_spec port s now localNow with ⟨hlapsed, honly, hkept, _⟩
  exact ⟨hlapsed, honly, hkept⟩

theorem Passed.part {localNow : Timestamp} {s t : Calls π}
    (h : Passed now localNow s t events) (seq : UInt64) (p : Pending)
    (hp : t.pending[seq]? = some p) : s.pending[seq]? = some p := by
  by_cases hdue : ∃ q, s.pending[seq]? = some q ∧ q.due now localNow = true
  · rcases hdue with ⟨q, hq, hdue⟩
    rcases h.lapsed seq q hq hdue with ⟨_, answer, _, _, hleft⟩
    rw [hleft] at hp
    split at hp
    · cases hp
    · rw [hq]
      exact hp
  · rw [← h.kept seq (fun q hq => (Bool.not_eq_true _).mp (fun hd => hdue ⟨q, hq, hd⟩))]
    exact hp

theorem answered_of_response {s : Calls π} {trace : List Event}
    (hgood : Good cfg trace s) (target : Target) (correlation : UInt64)
    (outcome : ResponseOutcome) (rest : List Event)
    (hrest : (s.response port cfg target correlation outcome now).2 =
      (s.expire port now (port.now s.world)).2 ++ rest) :
    Answered cfg trace (s.expire port now (port.now s.world)).1 target correlation outcome rest := by
  rcases Calls.response_spec port cfg s target correlation outcome now with ⟨hmatch, hother⟩
  by_cases hfound : ∃ p, (s.expire port now (port.now s.world)).1.pending[correlation]? = some p ∧
      p.target = target
  · rcases hfound with ⟨p, hp, htarget⟩
    rcases hmatch p hp htarget with ⟨events, answer, world, hresponse, hsettled⟩
    rw [hresponse] at hrest
    rw [List.append_cancel_left hrest] at hsettled
    exact Or.inl ⟨p, answer, hp, htarget, hsettled,
      hgood.origin correlation p ((passed_of_expire s now _).part correlation p hp)⟩
  · have hnone : ∀ p : Pending,
        (s.expire port now (port.now s.world)).1.pending[correlation]? = some p →
          p.target ≠ target := fun p hp htarget => hfound ⟨p, hp, htarget⟩
    rw [hother hnone] at hrest
    exact Or.inr ⟨hnone, (List.append_cancel_left hrest).symm⟩

end Pass

section Runs

variable {π : Type} {port : Port π} {cfg : Config} {world : π}

theorem trace_append (xs ys : List (ProvidedStep π)) : trace (xs ++ ys) = trace xs ++ trace ys :=
  List.flatMap_append

theorem unowned_of_run {id : ClaimId} {s t : Session π} {xs : List (ProvidedStep π)}
    (h : (providing port cfg world).IsRun s xs t) (hbelow : Below s.calls)
    (hs : Unowned id s.calls) (htakes : ∀ e ∈ trace xs, e.takes id = false) :
    ∀ x ∈ xs, Unowned id x.pre.calls := by
  intro x hx
  have hinv := h.invariant_mem (fun u => Below u.calls ∧ Unowned id u.calls) ⟨hbelow, hs⟩
    (fun y hy hstep hpre => by
      have hmore : UnownedStep id y.pre.calls y.answer.1 y.post.calls :=
        (unowned_steps port).step hpre.1 hstep
      exact ⟨hmore.below hpre.1, hmore.unowned
        (fun e he => htakes e (List.mem_flatMap.mpr ⟨y, hy, he⟩)) hpre.2⟩) x hx
  exact hinv.1.2

/-- A claim whose time has passed, and that the port released, is pending no
    more: not after the pass, and not at any later call. -/
theorem unowned_of_passed {xs ys zs : List (ProvidedStep π)} {x : ProvidedStep π} {t : Session π}
    (h : (providing port cfg world).IsRun (providing port cfg world).init xs t)
    (hxs : xs = ys ++ x :: zs) {now : Instant} {c : Calls π}
    (hpass : passing x.pre x.op = some (now, c)) (seq : UInt64) (p : Pending)
    (hp : c.pending[seq]? = some p) (hfresh : Fresh p.claim (trace xs))
    (hgone : (c.expire port now (port.now c.world)).1.pending[seq]? = none) :
    Unowned p.claim (c.expire port now (port.now c.world)).1 ∧
      ∀ z ∈ zs, Unowned p.claim z.pre.calls := by
  subst hxs
  rcases (Machine.isRun_append _ _ ys (x :: zs)).mp h with ⟨m, hys, hpre, hstep, hzs⟩
  rw [trace_append] at hfresh
  rcases List.pairwise_append.mp hfresh with ⟨hbefore, _, hacross⟩
  rw [← hpre] at hys
  have honce := once_of_run p.claim hys hbefore
  have hbelow := (good_of_run hys).2
  rcases passing_pending hpass with ⟨hpending, _⟩
  have hown : x.pre.calls.pending[seq]? = some p := hpending ▸ hp
  have hunowned : Unowned p.claim (c.expire port now (port.now c.world)).1 := by
    intro seq' q hq hclaim
    have hq' : x.pre.calls.pending[seq']? = some q :=
      hpending ▸ (passed_of_expire c now _).part seq' q hq
    rw [honce.single seq' seq q p hq' hown hclaim rfl, hgone] at hq
    cases hq
  -- the claim was taken before, so it is not taken again
  rcases honce.taken seq p hown rfl with ⟨e, he, htook⟩
  have hnever : ∀ later ∈ trace (x :: zs), later.takes p.claim = false := by
    intro later hlater
    by_contra htakes
    have hfollows := (hacross e he later hlater).1 (Or.inl ((Bool.not_eq_false _).mp htakes))
    rw [hfollows.1] at htook
    cases htook
  have hsteps : Steps port cfg (UnownedStep p.claim) := unowned_steps port
  rcases hsteps.after_pass hbelow hstep hpass with ⟨rest, hevents, hrest⟩
  have hpost : Unowned p.claim x.post.calls := by
    refine hrest.unowned (fun e' he' => hnever e' ?_) hunowned
    refine List.mem_flatMap.mpr ⟨x, List.mem_cons_self, ?_⟩
    rw [hevents]
    exact List.mem_append_right _ he'
  refine ⟨hunowned, unowned_of_run hzs ((keeps_steps port).step hbelow hstep |>.below hbelow) hpost ?_⟩
  intro e' he'
  rw [show trace (x :: zs) = x.answer.1 ++ trace zs from List.flatMap_cons] at hnever
  exact hnever e' (List.mem_append_right _ he')

/-- The calls of a providing session, in every run: the numbers of the
    requests, how many claims are pending, that a claim is settled once, and
    what each pass, each response and the end of the session settle. -/
theorem forwarding (port : Port π) (cfg : Config) (world : π) (xs : List (ProvidedStep π))
    (t : Session π) (h : (providing port cfg world).IsRun (providing port cfg world).init xs t) :
    (requests (trace xs)).Pairwise (· < ·) ∧
    t.calls.pending.size ≤ cfg.capacity ∧
    (∀ id, Fresh id (trace xs) → settlements id (trace xs) ≤ 1) ∧
    ∀ ys x zs, xs = ys ++ x :: zs →
      (∀ now c, passing x.pre x.op = some (now, c) →
        let u := c.expire port now (port.now c.world)
        ∃ rest, x.answer.1 = u.2 ++ rest ∧ c.pending = x.pre.calls.pending ∧
          Passed now (port.now c.world) c u.1 u.2 ∧
          (∀ (seq : UInt64) (p : Pending), c.pending[seq]? = some p → u.1.pending[seq]? = none →
            Fresh p.claim (trace xs) →
              Unowned p.claim u.1 ∧ ∀ z ∈ zs, Unowned p.claim z.pre.calls) ∧
          ∀ target envelope correlation outcome change,
            x.op = .message (.response target envelope correlation outcome) now change →
              Answered cfg (trace ys) u.1 target correlation outcome rest) ∧
      (x.op = .drop → x.post.calls.pending = ∅ ∧ x.post.calls.short = none ∧
        (∀ (seq : UInt64) (p : Pending), x.pre.calls.pending[seq]? = some p →
          ∃ answer, .settled p.claim (.error (.transport .down)) answer ∈ x.answer.1) ∧
        ∀ claim, x.pre.calls.short = some claim →
          ∃ answer, .settled claim (.error (.transport .down)) answer ∈ x.answer.1) := by
  have hgood := (good_of_run h).1
  refine ⟨hgood.increasing, hgood.room, fun id hfresh => (once_of_run id h hfresh).count,
    fun ys x zs hxs => ?_⟩
  have hrun := hxs ▸ h
  rcases (Machine.isRun_append _ _ ys (x :: zs)).mp hrun with ⟨m, hys, hpre, hstep, _⟩
  rw [← hpre] at hys
  rcases good_of_run hys with ⟨hbefore, hbelow⟩
  refine ⟨fun now c hpass => ?_, fun hdrop => ?_⟩
  · have hsteps : Steps port cfg (Keeps cfg) := keeps_steps port
    rcases hsteps.after_pass hbelow hstep hpass with ⟨rest, hevents, _⟩
    refine ⟨rest, hevents, (passing_pending hpass).1, passed_of_expire c now _,
      fun seq p hp hgone hfresh => unowned_of_passed h hxs hpass seq p hp hfresh hgone,
      fun target envelope correlation outcome change hop => ?_⟩
    rw [show (providing port cfg world).step x.pre x.op = x.pre.step port cfg x.op from rfl,
      hop] at hstep
    rw [hop] at hpass
    rcases step_response hstep hpass with ⟨_, hcalls, hanswer⟩
    rw [hcalls] at hbefore hanswer
    exact answered_of_response hbefore target correlation outcome rest (hanswer ▸ hevents)
  · rw [show (providing port cfg world).step x.pre x.op = x.pre.step port cfg x.op from rfl,
      hdrop] at hstep
    rcases step_drop hstep with ⟨hcalls, hanswer⟩
    rw [hcalls, hanswer]
    exact Calls.down_spec port x.pre.calls

end Runs

/-- A local port with a queue of claims, which refuses its next settlements. -/
structure Desk where
  queue : List Claim
  refusals : Nat

def desk : Port Desk where
  now _ := 0
  serve s _ _ := (true, s)
  nextClaim s _ :=
    match s.queue with
    | [] => (.ok none, s)
    | claim :: rest => (.ok (some claim), { s with queue := rest })
  settle s _ _ :=
    if 0 < s.refusals then (.error .detached, { s with refusals := s.refusals - 1 })
    else (.ok (), s)

/-- One command, under the first ordinal of the first interface. -/
def deskConfig : Config :=
  { members :=
      { name := "desk", hash := .zero
        members := (∅ : OrdMap Key MemberTable.Entry).insert (1, 1) ⟨.command, none, none, false⟩
        compatible := [] }
    capacity := 64, callAbandonAfter := 10, maxMessageBytes := MAX_MESSAGE_LIMIT
    latest := 2 ^ 64 }

def deskTarget : Target := ⟨.command, 1, 1⟩

def deskClaim (id : Nat) (ord : Ordinal) : Claim :=
  { id := ⟨id⟩, iface := 1, ord := ord, envelope := ⟨0, 0⟩, trace := none, remaining := none,
    args := [] }

/-- What a session answers to each of the calls. -/
def deskEvents (port : Desk) (ops : List (ProvidedOp Desk)) : Option (List (List Event)) :=
  ((providing desk deskConfig port).exec (providing desk deskConfig port).init ops).map
    (fun run => run.1.map (fun x => x.answer.1))

def response (seq : UInt64) (outcome : ResponseOutcome) (now : Instant) : ProvidedOp Desk :=
  .message (.response deskTarget ⟨0, 1⟩ seq outcome) now id

def attachedOp : ProvidedOp Desk := .message (.attached .accepted) 0 id

/-- Three claims: one answered, one whose time passes, one owned at the end. -/
def threeClaims : List (ProvidedOp Desk) :=
  [attachedOp, .tick 0 5 id, response 1 .accepted 1, response 1 .accepted 2,
    .world (fun s => { s with queue := [deskClaim 3 1] }), .tick 11 5 id, response 2 .accepted 12,
    .drop]

theorem forwarding_three :
    ∃ xs t, (providing desk deskConfig ⟨[deskClaim 1 1, deskClaim 2 1], 0⟩).IsRun
        (providing desk deskConfig ⟨[deskClaim 1 1, deskClaim 2 1], 0⟩).init xs t ∧
      requests (trace xs) = [1, 2, 3] ∧ (requests (trace xs)).Pairwise (· < ·) := by
  have hexec : ((providing desk deskConfig ⟨[deskClaim 1 1, deskClaim 2 1], 0⟩).exec
      (providing desk deskConfig ⟨[deskClaim 1 1, deskClaim 2 1], 0⟩).init threeClaims).any
        (fun run => decide (requests (trace run.1) = [1, 2, 3])) = true := by
    decide +kernel
  rcases (Option.any_eq_true _ _).mp hexec with ⟨⟨xs, t⟩, hrun, hrequests⟩
  have hisRun := Machine.isRun_exec _ t _ xs hrun
  exact ⟨xs, t, hisRun, of_decide_eq_true hrequests, (forwarding _ _ _ xs t hisRun).1⟩

/-- A reply to a command settles it as `corrupt`. A response settles a claim
    that was never sent, when the port did not take its refusal, and one whose
    time has passed, when the port did not take that. -/
theorem forwarded_otherwise :
    deskEvents ⟨[deskClaim 1 1], 0⟩ [attachedOp, .tick 0 5 id, response 1 (.reply [7]) 1] =
      some [[], [.took (deskClaim 1 1), .request ⟨1⟩ (.request deskTarget ⟨0, 1⟩ [])],
        [.settled ⟨1⟩ (.error (.transport .corrupt)) (.ok ())]] ∧
    deskEvents ⟨[deskClaim 1 2], 1⟩ [attachedOp, .tick 0 5 id,
        .message (.response ⟨.command, 1, 2⟩ ⟨0, 1⟩ 1 .accepted) 1 id] =
      some [[], [.took (deskClaim 1 2),
          .settled ⟨1⟩ (.error (.contract .unknownInteraction)) (.error .detached)],
        [.settled ⟨1⟩ (.ok []) (.ok ())]] ∧
    deskEvents ⟨[deskClaim 1 1], 1⟩ [attachedOp, .tick 0 5 id, response 1 .accepted 11] =
      some [[], [.took (deskClaim 1 1), .request ⟨1⟩ (.request deskTarget ⟨0, 1⟩ [])],
        [.settled ⟨1⟩ (.error (.transport .undelivered)) (.error .detached),
          .settled ⟨1⟩ (.ok []) (.ok ())]] := by
  decide +kernel

end Provided

end Ridl
