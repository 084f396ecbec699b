import Ridl.Provision.Calls

/-!
# What a Step Does to the Calls

Every step of a session's calls has one of five effects. It may leave the
calls as they are but for some that end without a response, send a response
again, send a response first, take one request for its handler, or call one
handler. `step_effect` says so once, and every invariant is a case analysis
over it.

A session that ended keeps nothing that matters, so most of what an effect
says about the state after it is said of a session that is still open.

## Theorems

* `settle_cases`: What answering a request does.
-/

namespace Ridl

namespace Provision

open Library

namespace Event

/-- Neither a request that is taken or handled nor a response's first message. -/
def silent : Event → Bool
  | .resent _ _ | .discarded _ => true
  | _ => false

end Event

open ProvidedCalls

/-- A change that sends nothing, takes nothing and only frees the one request. -/
structure Calm (seq : UInt64) (s t : ProvidedCalls) : Prop where
  queued : t.queued = s.queued
  running : t.running = s.running
  highest : s.highest ≤ t.highest
  sequence : t.ended = false → t.sequence = s.sequence
  kept : t.ended = false → t.kept = s.kept
  wasOpen : t.ended = false → s.ended = false
  keptBound : s.kept.length ≤ CAPACITY → t.kept.length ≤ CAPACITY
  active : t.ended = false → ∀ q ∈ s.active, q ≠ seq → q ∈ t.active
  activeBound : t.active.length ≤ s.active.length

namespace Calm

variable {seq : UInt64} {s t u : ProvidedCalls}

theorem refl (seq : UInt64) (s : ProvidedCalls) : Calm seq s s :=
  ⟨rfl, rfl, UInt64.le_refl _, fun _ => rfl, fun _ => rfl, id, id, fun _ _ hq _ => hq,
    Nat.le_refl _⟩

theorem trans (hst : Calm seq s t) (htu : Calm seq t u) : Calm seq s u where
  queued := htu.queued.trans hst.queued
  running := htu.running.trans hst.running
  highest := UInt64.le_trans hst.highest htu.highest
  sequence h := (htu.sequence h).trans (hst.sequence (htu.wasOpen h))
  kept h := (htu.kept h).trans (hst.kept (htu.wasOpen h))
  wasOpen h := hst.wasOpen (htu.wasOpen h)
  keptBound h := htu.keptBound (hst.keptBound h)
  active h q hq hne := htu.active h q (hst.active (htu.wasOpen h) q hq hne) hne
  activeBound := Nat.le_trans htu.activeBound hst.activeBound

theorem clear (seq : UInt64) (s : ProvidedCalls) : Calm seq s s.clear :=
  ⟨rfl, rfl, UInt64.le_refl _, nofun, nofun, nofun, fun _ => Nat.zero_le _, nofun,
    Nat.zero_le _⟩

theorem closing (seq : UInt64) (s : ProvidedCalls) (closes : Bool) :
    Calm seq s (s.closing closes) := by
  unfold ProvidedCalls.closing
  by_cases h : closes = true
  · rw [if_pos h]
    exact clear seq s
  · rw [if_neg h]
    exact refl seq s

theorem release (seq : UInt64) (s : ProvidedCalls) : Calm seq s (s.release seq) :=
  ⟨rfl, rfl, UInt64.le_refl _, fun _ => rfl, fun _ => rfl, id, id,
    fun _ _ hq hne => List.mem_filter.2 ⟨hq, bne_iff_ne.2 hne⟩, List.length_filter_le _ _⟩

end Calm

theorem Kept.length_set_le (kept : Kept) (seq : UInt64) (bytes : Bytes) :
    (kept.set seq bytes).length ≤ kept.length + 1 := by
  unfold Kept.set
  split
  · rw [List.length_map]
    exact Nat.le_succ _
  · rw [List.length_append, List.length_singleton]

theorem le_keep_highest (s : ProvidedCalls) (r : Response) (bytes : Bytes) :
    s.highest ≤ (s.keep r bytes).highest ∧ r.correlation ≤ (s.keep r bytes).highest := by
  by_cases h : s.highest < r.correlation
  · have hhighest : (s.keep r bytes).highest = r.correlation := if_pos h
    rw [hhighest]
    exact ⟨UInt64.le_of_lt h, UInt64.le_refl _⟩
  · have hhighest : (s.keep r bytes).highest = s.highest := if_neg h
    rw [hhighest]
    exact ⟨UInt64.le_refl _, UInt64.not_lt.1 h⟩

theorem length_keep_le (s : ProvidedCalls) (r : Response) (bytes : Bytes)
    (h : s.kept.length ≤ CAPACITY) : (s.keep r bytes).kept.length ≤ CAPACITY := by
  have hset := Kept.length_set_le s.kept r.correlation bytes
  show (if (s.kept.set r.correlation bytes).length > CAPACITY then _ else _ : Kept).length ≤ _
  by_cases hfull : (s.kept.set r.correlation bytes).length > CAPACITY
  · rw [if_pos hfull, List.length_tail]
    omega
  · rw [if_neg hfull]
    exact Nat.not_lt.1 hfull

theorem Calm.keep {seq : UInt64} {s : ProvidedCalls} (h : s.ended = true) (r : Response)
    (bytes : Bytes) : Calm seq s (s.keep r bytes) :=
  have hended : (s.keep r bytes).ended ≠ false := fun hopen => Bool.false_ne_true (hopen ▸ h)
  ⟨rfl, rfl, (le_keep_highest s r bytes).1, fun h => absurd h hended, fun h => absurd h hended,
    fun h => absurd h hended, length_keep_le s r bytes, fun h => absurd h hended, Nat.le_refl _⟩

theorem discarded_calm (s : ProvidedCalls) (frame : Request) :
    Calm frame.envelope.seq s (s.discarded frame).1 ∧
      ∀ e ∈ (s.discarded frame).2, e = .discarded frame := by
  refine ⟨Calm.release _ s, fun e he => ?_⟩
  simp only [discarded] at he
  split at he
  · exact absurd he List.not_mem_nil
  · exact List.mem_singleton.1 he

variable {encode : Response → Option Bytes}

/-- A response was sent: the state after it, unless the socket closed the
    session. -/
structure Sent (encode : Response → Option Bytes) (r : Response) (bytes : Bytes)
    (s t : ProvidedCalls) : Prop where
  wasOpen : s.ended = false
  encoded : encode r = some bytes
  numbered : r.envelope.seq = nextSequence s.sequence
  queued : t.queued = s.queued
  running : t.running = s.running
  highest : s.highest ≤ t.highest ∧ r.correlation ≤ t.highest
  keptBound : s.kept.length ≤ CAPACITY → t.kept.length ≤ CAPACITY
  activeBound : t.active.length ≤ s.active.length
  kept : t.ended = false → t = (s.release r.correlation).keep r bytes

variable (encode) in
theorem settle_cases (s : ProvidedCalls) (frame : Request) (outcome : ResponseOutcome)
    (w : World) :
    (Calm frame.envelope.seq s (s.settle encode frame outcome w).1 ∧
      ∀ e ∈ (s.settle encode frame outcome w).2, e = .discarded frame) ∨
    ∃ r bytes, (s.settle encode frame outcome w).2 = [.sent r bytes] ∧
      r.target = frame.target ∧ r.correlation = frame.envelope.seq ∧ r.outcome = outcome ∧
      Sent encode r bytes s (s.settle encode frame outcome w).1 := by
  have hdiscard : ∀ u, Calm frame.envelope.seq s u →
      Calm frame.envelope.seq s (u.discarded frame).1 ∧
        ∀ e ∈ (u.discarded frame).2, e = .discarded frame :=
    fun u hu => ⟨hu.trans (discarded_calm u frame).1, (discarded_calm u frame).2⟩
  unfold settle
  by_cases hended : s.ended = true
  · rw [if_pos hended]
    exact Or.inl ⟨Calm.refl _ s, fun e he => absurd he List.not_mem_nil⟩
  rw [if_neg hended]
  have hclosing := Calm.closing frame.envelope.seq s w.closesInClock
  rcases w.clock with _ | stamp
  · exact Or.inl (hdiscard _ hclosing)
  have hfreed := hclosing.trans (Calm.release frame.envelope.seq _)
  dsimp only
  rcases hencode : encode ⟨frame.target, _, frame.envelope.seq, outcome⟩ with _ | bytes
  · exact Or.inl (hdiscard _ hfreed)
  unfold sendBytes
  by_cases hcloses : w.closesInClock = true
  · -- The clock closed the session: the response is kept and goes nowhere.
    have hover : (s.closing w.closesInClock).ended = true := by
      rw [ProvidedCalls.closing, if_pos hcloses]
      rfl
    dsimp only
    rw [if_pos (show ((s.closing w.closesInClock).release frame.envelope.seq).ended = true
      from hover)]
    exact Or.inl ⟨hfreed.trans (Calm.keep (s := (s.closing _).release _) hover _ bytes),
      fun e he => absurd he List.not_mem_nil⟩
  have hopen : s.closing w.closesInClock = s := if_neg hcloses
  rw [hopen] at hencode hfreed ⊢
  dsimp only
  rw [if_neg (show ¬ (s.release frame.envelope.seq).ended = true from hended)]
  by_cases hthrows : w.sendThrows = true
  · rw [if_pos hthrows]
    exact Or.inl (hdiscard _ (hfreed.trans (Calm.closing _ _ _)))
  rw [if_neg hthrows]
  have hsent := hfreed.trans (Calm.closing frame.envelope.seq _ w.closesInSend)
  have hkeep := le_keep_highest ((s.release frame.envelope.seq).closing w.closesInSend)
    ⟨frame.target, ⟨stamp, nextSequence s.sequence⟩, frame.envelope.seq, outcome⟩ bytes
  have hkept : ((s.release frame.envelope.seq).closing w.closesInSend).ended = false →
      (s.release frame.envelope.seq).closing w.closesInSend = s.release frame.envelope.seq := by
    intro h
    unfold ProvidedCalls.closing at h ⊢
    by_cases hcloses : w.closesInSend = true
    · rw [if_pos hcloses] at h
      exact Bool.noConfusion h
    · rw [if_neg hcloses]
  exact Or.inr ⟨_, bytes, rfl, rfl, rfl, rfl,
    { wasOpen := Bool.eq_false_iff.2 hended
      encoded := hencode
      numbered := rfl
      queued := hsent.queued
      running := hsent.running
      highest := ⟨UInt64.le_trans hsent.highest hkeep.1, hkeep.2⟩
      keptBound := fun h => length_keep_le _ _ _ (hsent.keptBound h)
      activeBound := hsent.activeBound
      kept := fun h => congrArg (fun u : ProvidedCalls => u.keep _ bytes) (hkept h) }⟩

/-- Some calls are over, and nothing else changed. -/
def Fewer (s t : ProvidedCalls) : Prop :=
  ∃ queued running, queued.Sublist t.queued ∧ running.Sublist t.running ∧
    s = { t with queued := queued, running := running }

theorem Fewer.refl (s : ProvidedCalls) : Fewer s s :=
  ⟨s.queued, s.running, List.Sublist.refl _, List.Sublist.refl _, rfl⟩

theorem Fewer.running (s : ProvidedCalls) (c : Call) :
    Fewer { s with running := s.running.erase c } s :=
  ⟨s.queued, _, List.Sublist.refl _, List.erase_sublist, rfl⟩

theorem Fewer.queued {s : ProvidedCalls} {c : Call} {rest : List Call} (h : s.queued = c :: rest) :
    Fewer { s with queued := rest } s :=
  ⟨rest, s.running, h ▸ List.sublist_cons_self c rest, List.Sublist.refl _, rfl⟩

/-- Where the outcome of a response comes from, and the calls it leaves. -/
inductive Cause (x : CallStep) (r : Response) : ProvidedCalls → Prop
  | refused (frame : Request) (limit : Nat) (known : Bool) (w : World)
      (op : x.op = .dispatch frame limit known w)
      (fresh : ¬ frame.envelope.seq ≤ x.pre.highest)
      (target : r.target = frame.target) (correlation : r.correlation = frame.envelope.seq)
      (refusal : x.pre.refusal frame limit known = some r.outcome) : Cause x r x.pre
  | handled (c : Call) (outcome : ResponseOutcome) (w : World)
      (op : x.op = .finish c.seq (.returned (some outcome)) w) (running : c ∈ x.pre.running)
      (target : r.target = c.frame.target) (correlation : r.correlation = c.seq)
      (matched : mismatched c.frame.target.kind outcome = false)
      (bound : r.outcome = bounded c.limit outcome) :
      Cause x r { x.pre with running := x.pre.running.erase c }

/-- The answer to a frame whose number is not new: the bytes sent for it, while
    they are kept. -/
def replay (kept : Kept) (seq : UInt64) (silenced : Bool) : List Event :=
  if silenced then []
  else
    match kept.lookup seq with
    | none => []
    | some bytes => [.resent seq bytes]

theorem replay_silent (kept : Kept) (seq : UInt64) (silenced : Bool) :
    ∀ e ∈ replay kept seq silenced, e.silent = true := by
  intro e he
  unfold replay at he
  split at he
  · exact absurd he List.not_mem_nil
  · split at he
    · exact absurd he List.not_mem_nil
    · rw [List.mem_singleton.1 he]
      rfl

theorem mem_of_replay {kept : Kept} {seq other : UInt64} {silenced : Bool} {bytes : Bytes}
    (h : .resent seq bytes ∈ replay kept other silenced) : (seq, bytes) ∈ kept := by
  unfold replay at h
  split at h
  · exact absurd h List.not_mem_nil
  · rcases hkept : kept.lookup other with _ | found
    · rw [hkept] at h
      exact absurd h List.not_mem_nil
    · rw [hkept] at h
      cases List.mem_singleton.1 h
      rcases List.lookup_eq_some_iff.1 hkept with ⟨l, r, hsplit, _⟩
      rw [hsplit]
      exact List.mem_append_right _ List.mem_cons_self

/-- What a step does to the calls. -/
inductive Effect (encode : Response → Option Bytes) (x : CallStep) : Prop
  | calm (seq : UInt64) (s : ProvidedCalls) (fewer : Fewer s x.pre)
      (freed : seq = 0 ∨ ¬ seq ≤ x.pre.highest ∨ ∃ c ∈ x.pre.running, c.seq = seq ∧
        s = { x.pre with running := x.pre.running.erase c })
      (change : Calm seq s x.post) (quiet : ∀ e ∈ x.answer, ∃ frame, e = .discarded frame)
  | replayed (frame : Request) (limit : Nat) (known : Bool) (w : World)
      (op : x.op = .dispatch frame limit known w) (old : frame.envelope.seq ≤ x.pre.highest)
      (change : Calm 0 x.pre x.post)
      (answer : x.answer =
        replay x.pre.kept frame.envelope.seq (x.pre.ended || w.sendThrows))
  | answered (r : Response) (bytes : Bytes) (s : ProvidedCalls) (cause : Cause x r s)
      (answer : x.answer = [.sent r bytes]) (change : Sent encode r bytes s x.post)
  | taken (frame : Request) (limit : Nat) (w : World) (op : x.op = .dispatch frame limit true w)
      (fresh : ¬ frame.envelope.seq ≤ x.pre.highest) (room : x.pre.active.length < CAPACITY)
      (answer : x.answer = [.taken frame.envelope.seq]) (post : x.post = x.pre.take ⟨frame, limit⟩)
  | invoked (c : Call) (rest : List Call) (queued : x.pre.queued = c :: rest)
      (op : x.op = .start) (live : x.pre.ended = false) (answer : x.answer = [.invoked c.request])
      (post : x.post = { x.pre with queued := rest, running := x.pre.running ++ [c] })

variable {frame : Request} {limit : Nat} {known : Bool} {w : World} {x : CallStep}

theorem room_of_refusal {s : ProvidedCalls}
    (h : s.refusal frame limit known = none) : known = true ∧ s.active.length < CAPACITY := by
  unfold refusal at h
  by_cases hknown : known = true
  · refine ⟨hknown, ?_⟩
    rw [if_neg (not_not_intro hknown)] at h
    by_cases hlarge : frame.payload.length > limit
    · rw [if_pos hlarge] at h
      cases h
    · rw [if_neg hlarge] at h
      by_cases hbusy : s.active.length ≥ CAPACITY
      · rw [if_pos hbusy] at h
        cases h
      · exact Nat.not_le.1 hbusy
  · rw [if_pos hknown] at h
    cases h

theorem dispatch_of_le {s t : ProvidedCalls}
    {events : List Event} (hle : frame.envelope.seq ≤ s.highest)
    (h : s.dispatch encode frame limit known w = (t, events)) :
    Calm 0 s t ∧ events = replay s.kept frame.envelope.seq (s.ended || w.sendThrows) := by
  unfold dispatch at h
  rw [if_pos hle] at h
  unfold replay
  rcases hkept : s.kept.lookup frame.envelope.seq with _ | kept
  · rw [hkept] at h
    cases h
    exact ⟨Calm.refl 0 _, (ite_self _).symm⟩
  rw [hkept] at h
  dsimp only [sendBytes] at h
  by_cases hended : s.ended = true
  · rw [if_pos hended] at h
    cases h
    rw [hended]
    exact ⟨Calm.refl 0 _, rfl⟩
  · rw [if_neg hended] at h
    cases h
    rw [Bool.eq_false_iff.2 hended]
    refine ⟨Calm.closing 0 _ _, ?_⟩
    rcases w.sendThrows with _ | _
    · rfl
    · rfl

theorem dispatch_effect (hop : x.op = .dispatch frame limit known w)
    (hstep : x.pre.dispatch encode frame limit known w = (x.post, x.answer)) :
    Effect encode x := by
  by_cases hle : frame.envelope.seq ≤ x.pre.highest
  · rcases dispatch_of_le hle hstep with ⟨hcalm, hanswer⟩
    exact .replayed frame limit known w hop hle hcalm hanswer
  have hpost := congrArg Prod.fst hstep
  have hanswer := congrArg Prod.snd hstep
  dsimp only at hpost hanswer
  unfold dispatch at hpost hanswer
  rw [if_neg hle] at hpost hanswer
  rcases hrefusal : x.pre.refusal frame limit known with _ | outcome
  · rw [hrefusal] at hpost hanswer
    rcases room_of_refusal hrefusal with ⟨rfl, hroom⟩
    exact .taken frame limit w hop hle hroom hanswer.symm hpost.symm
  · rw [hrefusal] at hpost hanswer
    dsimp only at hpost hanswer
    rcases settle_cases encode x.pre frame outcome w with
      ⟨hcalm, hquiet⟩ | ⟨r, bytes, hsent, htarget, hcorrelation, houtcome, hchange⟩
    · exact .calm frame.envelope.seq x.pre (Fewer.refl _) (Or.inr (Or.inl hle))
        (hpost ▸ hcalm) (fun e he => ⟨frame, hquiet e (hanswer ▸ he)⟩)
    · exact .answered r bytes x.pre
        (.refused frame limit known w hop hle htarget hcorrelation (houtcome ▸ hrefusal))
        (hanswer ▸ hsent) (hpost ▸ hchange)

theorem finish_effect {seq : UInt64} {result : Finish} (hop : x.op = .finish seq result w)
    (hstep : x.pre.finish encode seq result w = some (x.post, x.answer)) : Effect encode x := by
  unfold finish at hstep
  rcases hfind : x.pre.running.find? (fun c => c.seq == seq) with _ | c
  · rw [hfind] at hstep
    cases hstep
  have hmem := List.mem_of_find?_eq_some hfind
  have hseq : c.seq = seq := beq_iff_eq.1 (List.find?_some (p := fun c : Call => c.seq == seq) hfind)
  subst hseq
  rw [hfind] at hstep
  dsimp only at hstep
  -- Everything but a response ends the call without one.
  have hover : ∀ t events, Calm c.seq { x.pre with running := x.pre.running.erase c } t →
      (∀ e ∈ events, e = .discarded c.frame) → some (t, events) = some (x.post, x.answer) →
      Effect encode x := by
    intro t events hcalm hquiet heq
    cases heq
    exact .calm c.seq _ (Fewer.running _ c) (Or.inr (Or.inr ⟨c, hmem, rfl, rfl⟩)) hcalm
      fun e he => ⟨c.frame, hquiet e he⟩
  have hdiscard := discarded_calm { x.pre with running := x.pre.running.erase c } c.frame
  rcases result with _ | outcome
  · exact hover _ _ hdiscard.1 hdiscard.2 hstep
  dsimp only at hstep
  by_cases hended : x.pre.ended = true
  · rw [if_pos hended] at hstep
    exact hover _ _ (Calm.refl _ _) (fun e he => absurd he List.not_mem_nil) hstep
  rw [if_neg hended] at hstep
  rcases outcome with _ | outcome
  · exact hover _ _ hdiscard.1 hdiscard.2 hstep
  dsimp only at hstep
  by_cases hmatched : mismatched c.frame.target.kind outcome = true
  · rw [if_pos hmatched] at hstep
    exact hover _ _ hdiscard.1 hdiscard.2 hstep
  rw [if_neg hmatched] at hstep
  rcases settle_cases encode { x.pre with running := x.pre.running.erase c } c.frame
    (bounded c.limit outcome) w with
    ⟨hcalm, hquiet⟩ | ⟨r, bytes, hsent, htarget, hcorrelation, houtcome, hchange⟩
  · exact hover _ _ hcalm hquiet hstep
  · rw [Option.some.inj hstep] at hsent hchange
    exact .answered r bytes _ (.handled c outcome w hop hmem htarget hcorrelation
      (Bool.eq_false_iff.2 hmatched) houtcome) hsent hchange

theorem step_effect
    (h : (providedCalls encode).step x.pre x.op = some (x.post, x.answer)) : Effect encode x := by
  rcases hop : x.op with ⟨frame, limit, known, w⟩ | _ | ⟨seq, result, w⟩ | _
  · rw [hop] at h
    exact dispatch_effect hop (Option.some.inj h)
  · rw [hop] at h
    dsimp only [providedCalls, start] at h
    rcases hqueued : x.pre.queued with _ | ⟨c, rest⟩
    · rw [hqueued] at h
      cases h
    · rw [hqueued] at h
      dsimp only at h
      by_cases hended : x.pre.ended = true
      · rw [if_pos hended, Option.some.injEq, Prod.mk.injEq] at h
        exact .calm 0 _ (Fewer.queued hqueued) (Or.inl rfl) (h.1 ▸ Calm.refl 0 _)
          (h.2 ▸ fun e he => absurd he List.not_mem_nil)
      · rw [if_neg hended, Option.some.injEq, Prod.mk.injEq] at h
        exact .invoked c rest hqueued hop (Bool.eq_false_iff.2 hended) h.2.symm h.1.symm
  · rw [hop] at h
    exact finish_effect hop h
  · rw [hop] at h
    dsimp only [providedCalls] at h
    rw [Option.some.injEq, Prod.mk.injEq] at h
    exact .calm 0 x.pre (Fewer.refl _) (Or.inl rfl) (h.1 ▸ Calm.clear 0 _)
      (h.2 ▸ fun e he => absurd he List.not_mem_nil)

end Provision

end Ridl
