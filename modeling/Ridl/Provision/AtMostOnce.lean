import Ridl.Provision.Handled
import Mathlib.Data.List.Range

/-!
# Requests Are Answered at Most Once

What holds of a provided session's calls in every run: what is sent for each
request, what the session keeps, and which requests are handled.

The number of a refused request counts only when its response was sent, so a
request whose refusal could not be sent may be sent again, and is answered
then. What is called a repeat is a frame whose number is not above those taken
or answered before.

The handler runs from a microtask. Frames given in one go are all dispatched
before the first handler is called, and one of them may be refused, and so
answered, before an earlier one is handled (`answered_before_handled`). The
numbers handled still increase, and nothing above a request was answered when
its frame was given.

## Theorems

* `answered_of_run`: The invariant of the responses holds in every run.
* `provided_calls_at_most_once`: Every request is handled and answered at most
  once.
-/

namespace Ridl

namespace Provision

open Library

open ProvidedCalls

/-- The last elements of a list, at most so many. -/
def lastOf {α : Type} (n : Nat) (l : List α) : List α := l.drop (l.length - n)

/-- The responses a session may send again, oldest first. -/
def settled (trace : List Event) : Kept :=
  lastOf CAPACITY ((answers trace).map (fun a => (a.1.correlation, a.2)))

theorem lastOf_append {α : Type} (n : Nat) (l : List α) (e : α) :
    lastOf (n + 1) (l ++ [e]) =
      if (lastOf (n + 1) l ++ [e]).length > n + 1 then (lastOf (n + 1) l ++ [e]).tail
      else lastOf (n + 1) l ++ [e] := by
  have hlength : (lastOf (n + 1) l ++ [e]).length = l.length - (l.length - (n + 1)) + 1 := by
    rw [List.length_append, lastOf, List.length_drop, List.length_singleton]
  unfold lastOf at hlength ⊢
  rw [List.length_append, List.length_singleton]
  by_cases hfull : n + 1 ≤ l.length
  · rw [if_pos (by omega), ← List.drop_one, ← List.drop_append_of_le_length (by omega),
      List.drop_drop]
    congr 1
    omega
  · rw [if_neg (by omega), show l.length + 1 - (n + 1) = 0 by omega,
      show l.length - (n + 1) = 0 by omega, List.drop_zero, List.drop_zero]

theorem mem_of_settled {trace : List Event} {e : UInt64 × Bytes} (h : e ∈ settled trace) :
    ∃ a ∈ answers trace, (a.1.correlation, a.2) = e :=
  List.mem_map.1 (List.mem_of_mem_drop h)

theorem Kept.set_of_absent {kept : Kept} {seq : UInt64} (h : ∀ e ∈ kept, e.1 ≠ seq)
    (bytes : Bytes) : kept.set seq bytes = kept ++ [(seq, bytes)] := by
  refine if_neg fun hany => ?_
  rcases List.any_eq_true.1 hany with ⟨e, he, heq⟩
  exact h e he (beq_iff_eq.1 heq)

/-- There are fewer positive numbers of 64 bits than a counter of 64 bits
    counts. -/
theorem length_lt_of_nodup {l : List UInt64} (hnodup : l.Nodup) (hpos : ∀ q ∈ l, 0 < q) :
    l.length < 2 ^ 64 := by
  have hsubset : l.map UInt64.toNat ⊆ List.range' 1 (2 ^ 64 - 1) := by
    intro n hn
    rcases List.mem_map.1 hn with ⟨q, hq, rfl⟩
    have hlower : 0 < q.toNat := UInt64.lt_iff_toNat_lt.1 (hpos q hq)
    have hupper := q.toNat_lt
    exact List.mem_range'_1.2 (by omega)
  have hlength := ((hnodup.map fun _ _ => UInt64.toNat_inj.1).subperm hsubset).length_le
  rw [List.length_map, List.length_range'] at hlength
  omega

/-- What a session's state says about the responses it sent. -/
structure Answered (ys : List CallStep) (s : ProvidedCalls) : Prop where
  unanswered : ∀ c ∈ s.calls, ∀ a ∈ answers (trace ys), a.1.correlation ≠ c.seq
  below : ∀ a ∈ answers (trace ys), 0 < a.1.correlation ∧ a.1.correlation ≤ s.highest
  once : ((answers (trace ys)).map (fun a => a.1.correlation)).Nodup
  counted : (answers (trace ys)).map (fun a => a.1.envelope.seq.toNat) =
    List.range' 1 (answers (trace ys)).length
  numbered : s.ended = false → s.sequence.toNat = (answers (trace ys)).length
  kept : s.ended = false → s.kept = settled (trace ys)
  keptBound : s.kept.length ≤ CAPACITY

namespace Answered

variable {ys : List CallStep} {s t : ProvidedCalls} {x : CallStep}

theorem init : Answered [] .new where
  unanswered _ hc := absurd hc List.not_mem_nil
  below _ ha := absurd ha List.not_mem_nil
  once := List.nodup_nil
  counted := rfl
  numbered _ := rfl
  kept _ := rfl
  keptBound := Nat.zero_le _

theorem fewer (h : Answered ys t) (hfewer : Fewer s t) : Answered ys s := by
  have hcalls := hfewer.calls
  rcases hfewer with ⟨queued, running, _, _, rfl⟩
  exact { h with unanswered := fun c hc => h.unanswered c (hcalls.subset hc) }

/-- A step that answers nothing. -/
theorem quiet (h : Answered ys s) (hquiet : answers x.answer = [])
    (hcalls : ∀ c ∈ x.post.calls, c ∈ s.calls ∨ s.highest < c.seq)
    (hhighest : s.highest ≤ x.post.highest)
    (hstate : x.post.ended = false →
      s.ended = false ∧ x.post.sequence = s.sequence ∧ x.post.kept = s.kept)
    (hbound : x.post.kept.length ≤ CAPACITY) : Answered (ys ++ [x]) x.post := by
  have hanswers : answers (trace (ys ++ [x])) = answers (trace ys) := by
    rw [trace_append, answers, List.filterMap_append]
    exact (congrArg _ hquiet).trans (List.append_nil _)
  refine ⟨?_, ?_, ?_, ?_, ?_, ?_, hbound⟩
  · rw [hanswers]
    intro c hc a ha
    rcases hcalls c hc with hold | hnew
    · exact h.unanswered c hold a ha
    · exact UInt64.ne_of_lt (UInt64.lt_of_le_of_lt (h.below a ha).2 hnew)
  · rw [hanswers]
    exact fun a ha => ⟨(h.below a ha).1, UInt64.le_trans (h.below a ha).2 hhighest⟩
  · rw [hanswers]
    exact h.once
  · rw [hanswers]
    exact h.counted
  · rw [hanswers]
    intro hopen
    rw [(hstate hopen).2.1]
    exact h.numbered (hstate hopen).1
  · intro hopen
    rw [(hstate hopen).2.2, h.kept (hstate hopen).1, settled, settled, hanswers]

theorem calm {seq : UInt64} (h : Answered ys s) (hcalm : Calm seq s x.post)
    (hquiet : ∀ e ∈ x.answer, e.silent = true) : Answered (ys ++ [x]) x.post := by
  refine h.quiet (answers_quiet hquiet) (fun c hc => Or.inl ?_) hcalm.highest
    (fun hopen => ⟨hcalm.wasOpen hopen, hcalm.sequence hopen, hcalm.kept hopen⟩)
    (hcalm.keptBound h.keptBound)
  rw [calls, hcalm.queued, hcalm.running] at hc
  exact hc

theorem sent {encode : Response → Option Bytes} {r : Response} {bytes : Bytes}
    (h : Answered ys s) (hfree : ∀ c ∈ s.calls, c.seq ≠ r.correlation)
    (hpos : 0 < r.correlation) (hnew : ∀ a ∈ answers (trace ys), a.1.correlation ≠ r.correlation)
    (hsent : Sent encode r bytes s x.post) (hanswer : x.answer = [.sent r bytes]) :
    Answered (ys ++ [x]) x.post := by
  have hanswers : answers (trace (ys ++ [x])) = answers (trace ys) ++ [(r, bytes)] := by
    rw [trace_append, answers, List.filterMap_append, hanswer]
    rfl
  have hcalls : x.post.calls = s.calls := by
    rw [calls, hsent.queued, hsent.running, calls]
  have honce : ((answers (trace (ys ++ [x]))).map (fun a => a.1.correlation)).Nodup := by
    rw [hanswers, List.map_append]
    refine List.nodup_append.2 ⟨h.once, List.nodup_singleton _, fun q hq p hp => ?_⟩
    rcases List.mem_map.1 hq with ⟨a, ha, rfl⟩
    rw [List.mem_singleton.1 hp]
    exact hnew a ha
  have hbelow : ∀ a ∈ answers (trace (ys ++ [x])),
      0 < a.1.correlation ∧ a.1.correlation ≤ x.post.highest := by
    rw [hanswers]
    intro a ha
    rcases List.mem_append.1 ha with ha | ha
    · exact ⟨(h.below a ha).1, UInt64.le_trans (h.below a ha).2 hsent.highest.1⟩
    · rw [List.mem_singleton.1 ha]
      exact ⟨hpos, hsent.highest.2⟩
  -- The counter does not wrap: every response is for a number of its own.
  have hroom : (answers (trace ys)).length + 1 < 2 ^ 64 := by
    have hlength := length_lt_of_nodup honce fun q hq => by
      rcases List.mem_map.1 hq with ⟨a, ha, rfl⟩
      exact (hbelow a ha).1
    rwa [List.length_map, hanswers, List.length_append, List.length_singleton] at hlength
  have hnumber : r.envelope.seq.toNat = (answers (trace ys)).length + 1 := by
    rw [hsent.numbered, nextSequence, UInt64.toNat_add, h.numbered hsent.wasOpen]
    exact Nat.mod_eq_of_lt hroom
  refine ⟨?_, hbelow, honce, ?_, ?_, ?_, hsent.keptBound h.keptBound⟩
  · rw [hcalls, hanswers]
    intro c hc a ha
    rcases List.mem_append.1 ha with ha | ha
    · exact h.unanswered c hc a ha
    · rw [List.mem_singleton.1 ha]
      exact (hfree c hc).symm
  · rw [hanswers, List.map_append, h.counted, List.length_append, List.length_singleton,
      List.range'_1_concat, Nat.add_comm 1, ← hnumber]
    rfl
  · intro hopen
    rw [hsent.kept hopen, hanswers, List.length_append, List.length_singleton]
    exact hnumber
  · intro hopen
    have hkept := h.kept hsent.wasOpen
    have habsent : ∀ e ∈ s.kept, e.1 ≠ r.correlation := by
      rw [hkept]
      intro e he
      rcases mem_of_settled he with ⟨a, ha, rfl⟩
      exact hnew a ha
    rw [hsent.kept hopen]
    show (if (s.kept.set r.correlation bytes).length > CAPACITY then
      (s.kept.set r.correlation bytes).tail else s.kept.set r.correlation bytes) = _
    rw [Kept.set_of_absent habsent, hkept, settled, settled, hanswers, List.map_append]
    exact (lastOf_append 63 _ _).symm

end Answered

theorem fresh_of_cause {ys : List CallStep} {s : ProvidedCalls} {x : CallStep} {r : Response}
    (hhandled : Handled ys x.pre) (hanswered : Answered ys x.pre) (hcause : Cause x r s) :
    Fewer s x.pre ∧ 0 < r.correlation ∧ Handled.Free r.correlation s ∧
      (∀ a ∈ answers (trace ys), a.1.correlation ≠ r.correlation) ∧
      ((∀ c ∈ s.queued, r.correlation < c.seq) ∨ x.IsDispatch) := by
  cases hcause with
  | refused frame limit known w hop hfresh _ hcorrelation _ =>
      have hnew := UInt64.not_le.1 hfresh
      rw [hcorrelation]
      exact ⟨Fewer.refl _, UInt64.lt_of_le_of_lt UInt64.zero_le hnew,
        fun c hc => UInt64.ne_of_lt (UInt64.lt_of_le_of_lt (hhandled.numbered c hc).2 hnew),
        fun a ha => UInt64.ne_of_lt (UInt64.lt_of_le_of_lt (hanswered.below a ha).2 hnew),
        Or.inr ⟨frame, limit, known, w, hop⟩⟩
  | handled c outcome w hop hrunning _ hcorrelation _ _ =>
      have hcall : c ∈ x.pre.calls := List.mem_append_right _ hrunning
      rw [hcorrelation]
      refine ⟨Fewer.running _ c, (hhandled.numbered c hcall).1, hhandled.free_erase hrunning,
        fun a ha => hanswered.unanswered c hcall a ha, Or.inl fun d hd => ?_⟩
      exact hhandled.invokedBelow d hd _ (hhandled.handling c hrunning).2

theorem invariants_of_run {encode : Response → Option Bytes} {xs : List CallStep}
    {t : ProvidedCalls} (h : Machine.IsRun (providedCalls encode) .new xs t) :
    Handled xs t ∧ Answered xs t := by
  refine h.history (fun ys s => Handled ys s ∧ Answered ys s) ?_ fun ys x _ _ hstep hprev => ?_
  · exact ⟨Handled.init, Answered.init⟩
  rcases hprev with ⟨hhandled, hanswered⟩
  cases step_effect hstep with
  | calm seq s hfewer hfreed hcalm hnoted =>
      have hquiet : ∀ e ∈ x.answer, e.silent = true := by
        intro e he
        rcases hnoted e he with ⟨frame, rfl⟩
        rfl
      have hfree : Handled.Free seq s := by
        rcases hfreed with rfl | hnew | ⟨c, hrunning, rfl, rfl⟩
        · exact (hhandled.fewer hfewer).free_zero
        · exact fun c hc heq => hnew (heq ▸ (hhandled.numbered c (hfewer.calls.subset hc)).2)
        · exact hhandled.free_erase hrunning
      exact ⟨(hhandled.fewer hfewer).calm hfree hcalm hquiet,
        (hanswered.fewer hfewer).calm hcalm hquiet⟩
  | replayed frame limit known w hop hle hcalm hanswer =>
      have hquiet := hanswer ▸ replay_silent _ _ _
      exact ⟨hhandled.calm hhandled.free_zero hcalm hquiet, hanswered.calm hcalm hquiet⟩
  | answered r bytes s hcause hanswer hsent =>
      rcases fresh_of_cause hhandled hanswered hcause with ⟨hfewer, hpos, hfree, hnew, hearlier⟩
      exact ⟨(hhandled.fewer hfewer).sent hfree hearlier hsent hanswer,
        (hanswered.fewer hfewer).sent hfree hpos hnew hsent hanswer⟩
  | taken frame limit w hop hfresh hroom hanswer hpost =>
      have hnew := UInt64.not_le.1 hfresh
      refine ⟨hhandled.taken hop hfresh hroom hanswer hpost,
        hanswered.quiet (by rw [hanswer]; rfl) (fun c hc => ?_) ?_ ?_ ?_⟩
      · rw [hpost, calls] at hc
        rcases List.mem_append.1 hc with hqueued | hrunning
        · rcases List.mem_append.1 hqueued with hold | hlast
          · exact Or.inl (List.mem_append_left _ hold)
          · rw [List.mem_singleton.1 hlast]
            exact Or.inr hnew
        · exact Or.inl (List.mem_append_right _ hrunning)
      · rw [hpost]
        exact UInt64.le_of_lt hnew
      · rw [hpost]
        exact fun hopen => ⟨hopen, rfl, rfl⟩
      · rw [hpost]
        exact hanswered.keptBound
  | invoked c rest hqueued hop hlive hanswer hpost =>
      refine ⟨hhandled.invoked hqueued hlive hanswer hpost,
        hanswered.quiet (by rw [hanswer]; rfl) (fun d hd => Or.inl ?_) ?_ ?_ ?_⟩
      · rw [hpost, calls] at hd
        rw [calls, hqueued]
        rcases List.mem_append.1 hd with hwaiting | hrunning
        · exact List.mem_append_left _ (List.mem_cons_of_mem c hwaiting)
        · rcases List.mem_append.1 hrunning with hold | hlast
          · exact List.mem_append_right _ hold
          · rw [List.mem_singleton.1 hlast]
            exact List.mem_append_left _ List.mem_cons_self
      · rw [hpost]
        exact UInt64.le_refl _
      · rw [hpost]
        exact fun hopen => ⟨hopen, rfl, rfl⟩
      · rw [hpost]
        exact hanswered.keptBound

/-- The response is the request's own refusal. -/
def Refused (x : CallStep) (r : Response) : Prop :=
  ∃ frame limit known w, x.op = .dispatch frame limit known w ∧ r.target = frame.target ∧
    r.correlation = frame.envelope.seq ∧ x.pre.refusal frame limit known = some r.outcome

/-- The response is the outcome of the handler that was called for the request,
    within the member's limit. -/
def Reported (front : List CallStep) (x : CallStep) (r : Response) : Prop :=
  ∃ c outcome w, x.op = .finish c.seq (.returned (some outcome)) w ∧ (∃ y ∈ front, y.Takes c) ∧
    c.request ∈ invocations (trace front) ∧ r.target = c.frame.target ∧ r.correlation = c.seq ∧
    mismatched c.frame.target.kind outcome = false ∧ r.outcome = bounded c.limit outcome

/-- What holds of every run of a session's calls. -/
structure AtMostOnce (encode : Response → Option Bytes) (xs : List CallStep) : Prop where
  increasing : (invocations (trace xs)).Pairwise (fun a b => a.correlation < b.correlation)
  fresh : ∀ front y back request, xs = front ++ y :: back → .invoked request ∈ y.answer →
    ∃ c : Call, c.request = request ∧ Waiting front c
  once : ((answers (trace xs)).map (fun a => a.1.correlation)).Nodup
  own : ∀ front x back r bytes, xs = front ++ x :: back → .sent r bytes ∈ x.answer →
    encode r = some bytes ∧ (Refused x r ∨ Reported front x r)
  counted : (answers (trace xs)).map (fun a => a.1.envelope.seq.toNat) =
    List.range' 1 (answers (trace xs)).length
  repeated : ∀ front x back frame limit known w, xs = front ++ x :: back →
    x.op = .dispatch frame limit known w → (∃ q ∈ seen (trace front), frame.envelope.seq ≤ q) →
    x.answer = replay (settled (trace front)) frame.envelope.seq (x.pre.ended || w.sendThrows)
  resent : ∀ front x back seq bytes, xs = front ++ x :: back → .resent seq bytes ∈ x.answer →
    (seq, bytes) ∈ settled (trace front)
  room : ∀ x ∈ xs, x.post.running.length ≤ CAPACITY ∧ x.post.active.length ≤ CAPACITY ∧
    x.post.kept.length ≤ CAPACITY
  silent : ∀ front x back, xs = front ++ x :: back → x.op = .clear ∨ x.post.ended = true →
    ∀ y ∈ back, ∀ e ∈ y.answer, ∃ seq, e = .taken seq

section Steps

variable {encode : Response → Option Bytes} {x : CallStep}

/-- A session that is over sends nothing, calls no handler and notes nothing. -/
theorem taken_of_ended
    (h : (providedCalls encode).step x.pre x.op = some (x.post, x.answer))
    (hended : x.pre.ended = true) : ∀ e ∈ x.answer, ∃ seq, e = .taken seq := by
  have hnil : ∀ {l : List Event}, l = x.answer → l = [] → ∀ e ∈ x.answer, ∃ seq, e = .taken seq :=
    fun hl hnil e he => absurd (hnil ▸ hl ▸ he) List.not_mem_nil
  have hsettle : ∀ (s : ProvidedCalls) frame outcome w, s.ended = true →
      s.settle encode frame outcome w = (s, []) := fun s frame outcome w hs => if_pos hs
  rcases hop : x.op with ⟨frame, limit, known, w⟩ | _ | ⟨seq, result, w⟩ | _
  · rw [hop] at h
    have hanswer := congrArg Prod.snd (Option.some.inj h)
    dsimp only at hanswer
    unfold dispatch at hanswer
    by_cases hle : frame.envelope.seq ≤ x.pre.highest
    · rw [if_pos hle] at hanswer
      rcases hkept : x.pre.kept.lookup frame.envelope.seq with _ | kept
      · rw [hkept] at hanswer
        exact hnil hanswer rfl
      · rw [hkept] at hanswer
        dsimp only [sendBytes] at hanswer
        rw [if_pos hended] at hanswer
        exact hnil hanswer rfl
    · rw [if_neg hle] at hanswer
      rcases hrefusal : x.pre.refusal frame limit known with _ | outcome
      · rw [hrefusal] at hanswer
        intro e he
        rw [← hanswer] at he
        exact ⟨_, List.mem_singleton.1 he⟩
      · rw [hrefusal] at hanswer
        dsimp only at hanswer
        rw [hsettle _ _ _ _ hended] at hanswer
        exact hnil hanswer rfl
  · rw [hop] at h
    dsimp only [providedCalls, start] at h
    rcases hqueued : x.pre.queued with _ | ⟨c, rest⟩
    · rw [hqueued] at h
      cases h
    · rw [hqueued] at h
      dsimp only at h
      rw [if_pos hended, Option.some.injEq, Prod.mk.injEq] at h
      exact hnil h.2 rfl
  · rw [hop] at h
    dsimp only [providedCalls, finish] at h
    rcases hfind : x.pre.running.find? (fun c => c.seq == seq) with _ | c
    · rw [hfind] at h
      cases h
    rw [hfind] at h
    dsimp only at h
    rcases result with _ | outcome
    · have hanswer := congrArg Prod.snd (Option.some.inj h)
      exact hnil hanswer (if_pos hended)
    · dsimp only at h
      rw [if_pos hended, Option.some.injEq, Prod.mk.injEq] at h
      exact hnil h.2 rfl
  · rw [hop] at h
    exact hnil (congrArg Prod.snd (Option.some.inj h)) rfl

theorem ended_of_step (h : (providedCalls encode).step x.pre x.op = some (x.post, x.answer))
    (hended : x.pre.ended = true) : x.post.ended = true := by
  by_contra hopen
  have hpost := Bool.eq_false_iff.2 hopen
  have hpre : x.pre.ended = false := by
    cases step_effect h with
    | calm seq s hfewer _ hcalm _ =>
        rcases hfewer with ⟨queued, running, _, _, rfl⟩
        exact hcalm.wasOpen hpost
    | replayed frame limit known w _ _ hcalm _ => exact hcalm.wasOpen hpost
    | answered r bytes s hcause _ hsent =>
        cases hcause with
        | refused => exact hsent.wasOpen
        | handled => exact hsent.wasOpen
    | taken frame limit w _ _ _ _ htaken => exact (htaken ▸ hpost : (x.pre.take _).ended = false)
    | invoked c rest _ _ hlive _ _ => exact hlive
  exact Bool.false_ne_true (hpre ▸ hended)

end Steps

section Run

variable {encode : Response → Option Bytes} {xs front back : List CallStep} {x : CallStep}
  {s t : ProvidedCalls}

theorem at_step (h : Machine.IsRun (providedCalls encode) .new xs t)
    (hsplit : xs = front ++ x :: back) :
    Handled front x.pre ∧ Answered front x.pre ∧
      (providedCalls encode).step x.pre x.op = some (x.post, x.answer) ∧
      Machine.IsRun (providedCalls encode) x.post back t := by
  subst hsplit
  rcases (Machine.isRun_append _ _ _ _).1 h with ⟨m, hfront, hpre, hstep, hback⟩
  subst hpre
  exact ⟨(invariants_of_run hfront).1, (invariants_of_run hfront).2, hstep, hback⟩

theorem after_step (h : Machine.IsRun (providedCalls encode) .new (front ++ x :: back) t) :
    Handled (front ++ [x]) x.post ∧ Answered (front ++ [x]) x.post := by
  rcases (Machine.isRun_append _ _ _ _).1 h with ⟨m, hfront, hpre, hstep, _⟩
  exact invariants_of_run ((Machine.isRun_append _ _ _ _).2 ⟨m, hfront, hpre, hstep, rfl⟩)

theorem waiting_of_invoked (hinv : Handled front x.pre)
    (hstep : (providedCalls encode).step x.pre x.op = some (x.post, x.answer))
    {request : ProvidedRequest} (hmem : .invoked request ∈ x.answer) :
    ∃ c : Call, c.request = request ∧ Waiting front c := by
  cases step_effect hstep with
  | calm seq s _ _ _ hquiet =>
      rcases hquiet _ hmem with ⟨frame, heq⟩
      cases heq
  | replayed frame limit known w _ _ _ hanswer =>
      cases replay_silent _ _ _ _ (hanswer ▸ hmem)
  | answered r bytes s _ hanswer _ =>
      rw [hanswer] at hmem
      cases List.mem_singleton.1 hmem
  | taken frame limit w _ _ _ hanswer _ =>
      rw [hanswer] at hmem
      cases List.mem_singleton.1 hmem
  | invoked c rest hqueued _ _ hanswer _ =>
      rw [hanswer] at hmem
      cases List.mem_singleton.1 hmem
      exact ⟨c, rfl, hinv.waiting c (hqueued ▸ List.mem_cons_self)⟩

theorem own_of_sent (hinv : Handled front x.pre)
    (hstep : (providedCalls encode).step x.pre x.op = some (x.post, x.answer))
    {r : Response} {bytes : Bytes} (hmem : .sent r bytes ∈ x.answer) :
    encode r = some bytes ∧ (Refused x r ∨ Reported front x r) := by
  cases step_effect hstep with
  | calm seq s _ _ _ hquiet =>
      rcases hquiet _ hmem with ⟨frame, heq⟩
      cases heq
  | replayed frame limit known w _ _ _ hanswer =>
      cases replay_silent _ _ _ _ (hanswer ▸ hmem)
  | answered r' bytes' s hcause hanswer hsent =>
      rw [hanswer] at hmem
      cases List.mem_singleton.1 hmem
      refine ⟨hsent.encoded, ?_⟩
      cases hcause with
      | refused frame limit known w hop _ htarget hcorrelation hrefusal =>
          exact Or.inl ⟨frame, limit, known, w, hop, htarget, hcorrelation, hrefusal⟩
      | handled c outcome w hop hrunning htarget hcorrelation hmatched hbound =>
          rcases hinv.handling c hrunning with ⟨htakes, hcalled⟩
          exact Or.inr ⟨c, outcome, w, hop, htakes, hcalled, htarget, hcorrelation, hmatched,
            hbound⟩
  | taken frame limit w _ _ _ hanswer _ =>
      rw [hanswer] at hmem
      cases List.mem_singleton.1 hmem
  | invoked c rest _ _ _ hanswer _ =>
      rw [hanswer] at hmem
      cases List.mem_singleton.1 hmem

theorem replay_settled (hinv : Answered front x.pre) (seq : UInt64) (throws : Bool) :
    replay x.pre.kept seq (x.pre.ended || throws) =
      replay (settled (trace front)) seq (x.pre.ended || throws) := by
  rcases hended : x.pre.ended with _ | _
  · rw [hinv.kept hended]
  · rfl

theorem settled_of_resent (hinv : Answered front x.pre)
    (hstep : (providedCalls encode).step x.pre x.op = some (x.post, x.answer))
    {seq : UInt64} {bytes : Bytes} (hmem : .resent seq bytes ∈ x.answer) :
    (seq, bytes) ∈ settled (trace front) := by
  cases step_effect hstep with
  | calm seq s _ _ _ hquiet =>
      rcases hquiet _ hmem with ⟨frame, heq⟩
      cases heq
  | replayed frame limit known w _ _ _ hanswer =>
      rw [hanswer, replay_settled hinv] at hmem
      exact mem_of_replay hmem
  | answered r bytes s _ hanswer _ =>
      rw [hanswer] at hmem
      cases List.mem_singleton.1 hmem
  | taken frame limit w _ _ _ hanswer _ =>
      rw [hanswer] at hmem
      cases List.mem_singleton.1 hmem
  | invoked c rest _ _ _ hanswer _ =>
      rw [hanswer] at hmem
      cases List.mem_singleton.1 hmem

theorem over_of_run (h : Machine.IsRun (providedCalls encode) s back t) (hended : s.ended = true) :
    ∀ y ∈ back, ∀ e ∈ y.answer, ∃ seq, e = .taken seq := by
  intro y hy
  have hpre := (h.invariant_mem (fun u => u.ended = true) hended
    (fun z _ hstep hz => ended_of_step hstep hz) y hy).1
  exact taken_of_ended (h.step_of_mem y hy) hpre

end Run

/-- Every request is handled and answered at most once: the handler is called
    with increasing numbers, and for a request that was new when its frame was
    given; the response is its own refusal or its handler's outcome, and is
    numbered without a gap; a repeat is answered with the bytes sent, if at
    all. -/
theorem provided_calls_at_most_once (encode : Response → Option Bytes) (xs : List CallStep)
    (t : ProvidedCalls) (h : Machine.IsRun (providedCalls encode) .new xs t) :
    AtMostOnce encode xs := by
  rcases invariants_of_run h with ⟨hhandled, hanswered⟩
  refine ⟨hhandled.invokedOrder, ?_, hanswered.once, ?_, hanswered.counted, ?_, ?_, ?_, ?_⟩
  · intro front y back request hsplit hmem
    rcases at_step h hsplit with ⟨hinv, _, hstep, _⟩
    exact waiting_of_invoked hinv hstep hmem
  · intro front x back r bytes hsplit hmem
    rcases at_step h hsplit with ⟨hinv, _, hstep, _⟩
    exact own_of_sent hinv hstep hmem
  · intro front x back frame limit known w hsplit hop hseen
    rcases at_step h hsplit with ⟨hinv, hkept, hstep, _⟩
    rcases hseen with ⟨q, hq, hle⟩
    rw [hop] at hstep
    rw [(dispatch_of_le (UInt64.le_trans hle (hinv.seenBelow q hq)) (Option.some.inj hstep)).2]
    exact replay_settled hkept _ _
  · intro front x back seq bytes hsplit hmem
    rcases at_step h hsplit with ⟨_, hkept, hstep, _⟩
    exact settled_of_resent hkept hstep hmem
  · intro x hx
    rcases List.append_of_mem hx with ⟨front, back, rfl⟩
    rcases after_step h with ⟨hinv, hkept⟩
    exact ⟨hinv.runningBound, hinv.activeBound, hkept.keptBound⟩
  · intro front x back hsplit hover
    rcases at_step h hsplit with ⟨_, _, hstep, hback⟩
    refine over_of_run hback ?_
    rcases hover with hclear | hended
    · rw [hclear] at hstep
      have hpost : x.pre.clear = x.post := congrArg Prod.fst (Option.some.inj hstep)
      rw [← hpost]
      rfl
    · exact hended

/-- Nothing fails, and the clock stands still. -/
def steady : World :=
  { clock := some 0, closesInClock := false, sendThrows := false, closesInSend := false }

def command (seq : UInt64) : Request := ⟨⟨.command, 1, 1⟩, ⟨0, seq⟩, []⟩

/-- Two frames given in one go, the second for an interaction that is not there,
    and then the microtask of the first. -/
def givenAtOnce : List CallOp :=
  [.dispatch (command 1) 16 true steady, .dispatch (command 2) 16 false steady, .start]

theorem provided_calls_at_most_once_givenAtOnce :
    ∃ xs t, Machine.IsRun (providedCalls fun _ => some []) .new xs t ∧
      xs.map (fun x => x.answer.length) = [1, 1, 1] ∧ AtMostOnce (fun _ => some []) xs := by
  rcases hexec : (providedCalls fun _ => some []).exec .new givenAtOnce with _ | ⟨xs, t⟩
  · exact absurd hexec (by decide)
  · have hrun := Machine.isRun_exec _ _ _ _ hexec
    refine ⟨xs, t, hrun, ?_, provided_calls_at_most_once _ xs t hrun⟩
    cases hexec
    rfl

/-- The handler may be called for a request after a later one was answered. -/
theorem answered_before_handled :
    ¬ ∀ (encode : Response → Option Bytes) (xs : List CallStep) (t : ProvidedCalls),
      Machine.IsRun (providedCalls encode) .new xs t →
      ∀ front y back request, xs = front ++ y :: back → .invoked request ∈ y.answer →
        ∀ a ∈ answers (trace front), a.1.correlation < request.correlation := by
  intro hall
  rcases hexec : (providedCalls fun _ => some []).exec .new givenAtOnce with _ | ⟨xs, t⟩
  · exact absurd hexec (by decide)
  · have hrun := Machine.isRun_exec _ _ _ _ hexec
    cases hexec
    exact absurd (hall _ _ _ hrun [_, _] _ [] (Call.request ⟨command 1, 16⟩) rfl
      (List.mem_singleton_self _) _ (List.mem_singleton_self _)) (by decide)

end Provision

end Ridl
