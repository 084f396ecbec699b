import Ridl.Loopback.Exclusive

/-!
# The Outcome of a Correlation

What a correlation is answered. Its call's outcome is recorded once, by the
settlement or by the drop of the handler that held the call, and is there
until the correlation is forgotten. Only the correlation's own caller reads
it, and not after its forget.

A correlation names a slot and the slot's generation, which is 48 bits and
wraps. So a correlation stands for one call only from the send that issued it
to the next send that issues it again, and every result here is about that
span. That the span matters is `outcome_again`: a slot that is taken and freed
`2 ^ 48` times issues its first correlation once more.

## Main definitions

* `Step.records`, `Step.issues`, `Step.forgets`, `Step.reads`: What a step did
  with a correlation.

## Theorems

* `recorded_once`: Between two outcomes of a correlation it was issued again.
* `read_of_issued`: A read shows the outcome recorded since the issue, and the
  correlation was not forgotten since.
-/

namespace Ridl

namespace Loopback

open Library Correlate

variable {s t : Store} {ws : List Waker} {evs : List Event} {i : Nat} {k k' : CallEntry}
  {e e' : Entry}

/-- The outcome kept under a correlation, with the bytes of its reply. -/
def Store.recorded (s : Store) (c : Correlation) : Option (Except CallError Bytes) :=
  (s.table.outcome c).bind fun o => (s.entry c).map fun k => o.map fun _ => k.reply

namespace Step

/-- The step recorded the outcome: it is kept after the step and was not
    before it. -/
def records (x : Step) (c : Correlation) (r : Except CallError Bytes) : Prop :=
  x.pre.recorded c ≠ some r ∧ x.post.recorded c = some r

def issues (x : Step) (c : Correlation) : Prop :=
  ∃ caller kind key args seq trace, x.op = .send caller kind key args seq trace ∧
    x.answer.answer = .sent (.ok c)

/-- The correlation was forgotten, by itself or with its caller. -/
def forgets (x : Step) (c : Correlation) : Prop :=
  x.op = .forget c ∨
    ∃ id k, x.op = .closeCaller id ∧ x.pre.callerCall c = some k ∧ k.caller = id

def reads (x : Step) (c : Correlation) : Prop :=
  (x.op = .ack c ∧ ∃ o, x.answer.answer = .acked (some o)) ∨
    ∃ cap r, x.op = .reply c cap ∧ x.answer.answer = .replied (.ok (some r))

end Step

/-! ### The outcome in the store -/

/-- Slot `i` keeps the outcome `r`. -/
structure Store.Keeps (s : Store) (c : Correlation) (r : Except CallError Bytes) (i : Nat)
    (k : CallEntry) (e : Entry) (o : Outcome) : Prop where
  at_slot : s.At i k e
  correlation : k.correlation = c
  settled : e.state = .settled o
  eq : r = o.map fun _ => k.reply

theorem recorded_iff (ha : Accounts s) (c : Correlation) (r : Except CallError Bytes) :
    s.recorded c = some r ↔ ∃ i k e o, s.Keeps c r i k e o := by
  unfold Store.recorded
  constructor
  · intro h
    rw [Option.bind_eq_some_iff] at h
    rcases h with ⟨o, ho, h⟩
    rcases outcome_spec ha c o ho with ⟨k, e, hat, hc, hs⟩
    have hentry : s.entry c = some k := hat.1
    rw [hentry, Option.map_some, Option.some.injEq] at h
    exact ⟨_, k, e, o, hat, hc, hs, h.symm⟩
  · rintro ⟨i, k, e, o, hat, rfl, hs, rfl⟩
    rw [Table.outcome_of_holds (ha.holds hat), hs, ha.entry_eq hat]
    rfl

theorem Edit.outcome (h : Edit k e ws evs k' e') (o : Outcome) (hs : e.state = .settled o) :
    e'.state = .settled o ∧ k'.reply = k.reply := by
  cases h with
  | change no side evs st hcaller hused h => cases side <;> exact ⟨hs, rfl⟩
  | mark hflight hq =>
      rw [hs] at hflight
      cases hflight
  | deferInFlight hk hflight hq => exact ⟨hs, rfl⟩
  | _ => exact ⟨hs, rfl⟩

/-- A kept outcome stays until its call is gone. -/
theorem Move.keeps (h : Move s ws evs t) (ha : Accounts s) (c : Correlation)
    (r : Except CallError Bytes) (hs : ∃ i k e o, s.Keeps c r i k e o) :
    (∃ i k e o, t.Keeps c r i k e o) ∨ Unknown t c := by
  rcases hs with ⟨j, l, f, o, hat', hc, hstate, hr⟩
  rcases hat' with ⟨hl, hf⟩
  cases h with
  | outside t ws closed h =>
      exact Or.inl ⟨j, l, f, o, ⟨h.calls ▸ hl, h.table ▸ hf⟩, hc, hstate, hr⟩
  | edit i k k' e e' ws evs hat he =>
      by_cases hij : i = j
      · subst hij
        rw [hat.1, Option.some.injEq] at hl
        rw [hat.2, Option.some.injEq] at hf
        subst hl hf
        rcases he.outcome o hstate with ⟨hstate', hreply⟩
        exact Or.inl ⟨i, k', e', o, at_edit hat k' e', he.later.correlation.trans hc, hstate',
          hreply ▸ hr⟩
      · refine Or.inl ⟨j, l, f, o, ⟨?_, ?_⟩, hc, hstate, hr⟩
        · exact (OrdMap.getElem?_insert_of_ne _ _ _ _ hij).trans hl
        · exact (Table.getElem?_put_of_ne _ _ _ _ hij).trans hf
  | send i e k ws he hfree =>
      have hij : i ≠ j := by
        rintro rfl
        rw [(ha.free i e he hfree).1] at hl
        cases hl
      refine Or.inl ⟨j, l, f, o, ⟨?_, ?_⟩, hc, hstate, hr⟩
      · exact (OrdMap.getElem?_insert_of_ne _ _ _ _ hij).trans hl
      · exact (Table.getElem?_put_of_ne _ _ _ _ hij).trans hf
  | present i k e id handler taken hat hwait hid =>
      by_cases hij : i = j
      · subst hij
        rw [hat.1, Option.some.injEq] at hl
        subst hl
        exact Or.inl ⟨i, { k with claim := some id }, f, o,
          ⟨OrdMap.getElem?_insert_self _ _ _, hf⟩, hc, hstate, hr⟩
      · exact Or.inl ⟨j, l, f, o, ⟨(OrdMap.getElem?_insert_of_ne _ _ _ _ hij).trans hl, hf⟩,
          hc, hstate, hr⟩
  | record i k k' e o' id owner ws evs hat hflight hid hclaim h =>
      have hij : i ≠ j := by
        rintro rfl
        rw [hat.2, Option.some.injEq] at hf
        rw [← hf, hflight] at hstate
        cases hstate
      refine Or.inl ⟨j, l, f, o, ⟨?_, ?_⟩, hc, hstate, hr⟩
      · exact (OrdMap.getElem?_insert_of_ne _ _ _ _ hij).trans hl
      · exact (Table.getElem?_put_of_ne _ _ _ _ hij).trans hf
  | unoffer => exact Or.inl ⟨j, l, f, o, ⟨hl, hf⟩, hc, hstate, hr⟩
  | giveBack => exact Or.inl ⟨j, l, f, o, ⟨hl, hf⟩, hc, hstate, hr⟩
  | drop i k e ws evs hat =>
      by_cases hij : i = j
      · -- The slot is free, and no other call has the correlation.
        refine Or.inr fun j' l' hl' hc' => ?_
        rw [OrdMap.getElem?_erase] at hl'
        by_cases hij' : i = j'
        · rw [if_pos hij'] at hl'
          cases hl'
        · rw [if_neg hij'] at hl'
          rcases ha.exists_at hl' with ⟨f', hat''⟩
          have hslot := ha.slot_eq hat''
          rw [hc', ← hc, ha.slot_eq ⟨hl, hf⟩] at hslot
          exact hij' (hij.trans hslot)
      · refine Or.inl ⟨j, l, f, o, ⟨?_, ?_⟩, hc, hstate, hr⟩
        · exact (OrdMap.getElem?_erase_of_ne _ _ _ hij).trans hl
        · exact (Table.getElem?_put_of_ne _ _ _ _ hij).trans hf

theorem Path.unknown (h : Path s ws evs t) (c : Correlation) (hs : Unknown s c)
    (hevs : ∀ call caller, .sent call caller c ∉ evs) : Unknown t c := by
  intro j l hl hc
  rcases h.lives.call j l hl with ⟨k, hk, hlater⟩ | ⟨_, hsent⟩
  · exact hs j k hk (hlater.correlation.symm.trans hc)
  · exact hevs _ _ (hc ▸ hsent)

/-- A kept outcome stays until its call is gone, for good unless the
    correlation is issued again. -/
theorem Path.keeps (h : Path s ws evs t) (ha : Accounts s) (c : Correlation)
    (r : Except CallError Bytes) (hs : (∃ i k e o, s.Keeps c r i k e o) ∨ Unknown s c)
    (hevs : ∀ call caller, .sent call caller c ∉ evs) :
    (∃ i k e o, t.Keeps c r i k e o) ∨ Unknown t c := by
  induction h with
  | refl => exact hs
  | snoc t u ws ws' evs evs' hp hm ih =>
      rcases ih fun call caller hmem => hevs call caller (List.mem_append_left _ hmem) with
        hkeeps | hunknown
      · exact hm.keeps (hp.accounts ha) c r hkeeps
      · exact Or.inr ((Path.single _ _ _ _ hm).unknown c hunknown fun call caller hmem =>
          hevs call caller (List.mem_append_right _ hmem))

variable {c : Correlation} {x : Step}

theorem Unknown.recorded (ha : Accounts s) (h : Unknown s c) :
    s.recorded c = none := by
  cases hr : s.recorded c with
  | none => rfl
  | some r =>
      rcases (recorded_iff ha c r).mp hr with ⟨i, k, e, o, hk⟩
      exact absurd hk.correlation (h i k hk.at_slot.1)

/-! ### The steps -/

theorem Step.not_sent (hnot : ¬ x.issues c)
    (h : StepPath x.pre x.op x.post x.answer ws evs) (call caller : Nat) :
    .sent call caller c ∉ evs := by
  intro hev
  rcases h.explained _ hev with ⟨_, kind, key, args, seq, trace, hop, hanswer⟩
  exact hnot ⟨caller, kind, key, args, seq, trace, hop, hanswer⟩

/-- No outcome is kept under a correlation just issued. -/
theorem Step.recorded_of_issues (hs : Sound x.pre)
    (ht : Sound x.post) (hstep : loopback.step x.pre x.op = some (x.post, x.answer))
    (h : x.issues c) : x.post.recorded c = none := by
  rcases h with ⟨caller, kind, key, args, seq, trace, hop, hanswer⟩
  change x.pre.step x.op = _ at hstep
  rw [hop] at hstep
  simp only [Store.step] at hstep
  cases hsend : x.pre.send caller kind key args seq trace with
  | error error =>
      simp only [hsend, Option.some.injEq, Prod.mk.injEq] at hstep
      rw [← hstep.2] at hanswer
      cases hanswer
  | ok p =>
      simp only [hsend, Option.some.injEq, Prod.mk.injEq] at hstep
      rcases send_path hs.accounts caller kind key args seq trace p.1 p.2.1 p.2.2 hsend with
        ⟨_, k, e, hat, hc, hflight⟩
      rw [← hstep.2] at hanswer
      cases hanswer
      cases hr : x.post.recorded p.2.2 with
      | none => rfl
      | some r =>
          rcases (recorded_iff ht.accounts _ r).mp hr with ⟨i, l, f, o, hk⟩
          have hslot := ht.accounts.slot_eq hk.at_slot
          rw [hk.correlation] at hslot
          have hstate := hk.settled
          have hf := hk.at_slot.2
          rw [← hslot, ← hstep.1, hat.2, Option.some.injEq] at hf
          rw [← hf, hflight] at hstate
          cases hstate

theorem callerCall_eq_some (ha : Accounts s) (c : Correlation) (k : CallEntry)
    (h : s.callerCall c = some k) :
    ∃ i e, s.At i k e ∧ k.correlation = c ∧ k.forgotten = false := by
  rw [Store.callerCall, Option.bind_eq_some_iff] at h
  rcases h with ⟨i, hslot, hk⟩
  rcases callerSlot_eq_some ha c hslot with ⟨l, e, hat, hc, hforgotten⟩
  have hlk : l = k := Option.some.inj (hat.1.symm.trans hk)
  subst hlk
  exact ⟨i, e, hat, hc, hforgotten⟩

theorem callerCall_of_at (ha : Accounts s) (hat : s.At i k e) (hk : k.forgotten = false) :
    s.callerCall k.correlation = some k := by
  rw [Store.callerCall, callerSlot_of_entry (ha.entry_eq hat) hk, Option.bind_some,
    ha.slot_eq hat, hat.1]

theorem Step.callerCall_of_post {k' : CallEntry} (hs : Sound x.pre)
    (ht : Sound x.post) (hstep : loopback.step x.pre x.op = some (x.post, x.answer))
    (hnot : ¬ x.issues c) (h : x.post.callerCall c = some k') :
    ∃ k, x.pre.callerCall c = some k ∧ k.caller = k'.caller := by
  rcases callerCall_eq_some ht.accounts c k' h with ⟨i, e, hat, hc, hforgotten⟩
  rcases stepPath_of_step hs hstep with ⟨ws, evs, hpath⟩
  rcases hpath.path.lives.call i k' hat.1 with ⟨k, hk, hlater⟩ | ⟨_, hsent⟩
  · rcases hs.accounts.exists_at hk with ⟨f, hat'⟩
    have hcorr : k.correlation = c := hlater.correlation.symm.trans hc
    refine ⟨k, ?_, hlater.caller.symm⟩
    rw [← hcorr]
    refine callerCall_of_at hs.accounts hat' ?_
    by_contra hk'
    rw [hlater.forgotten (Bool.not_eq_false _ ▸ hk')] at hforgotten
    cases hforgotten
  · exact absurd (hc ▸ hsent) (Step.not_sent hnot hpath _ _)

/-- A forgotten correlation is not its caller's any more. -/
theorem Step.not_forgets {k' : CallEntry} (hs : Sound x.pre)
    (ht : Sound x.post) (hstep : loopback.step x.pre x.op = some (x.post, x.answer))
    (hnot : ¬ x.issues c) (h : x.post.callerCall c = some k') : ¬ x.forgets c := by
  rintro (hop | ⟨id, k, hop, hk, hid⟩)
  · change x.pre.step x.op = _ at hstep
    rw [hop] at hstep
    rcases forget_path hs.accounts c with ⟨u, ws, evs, heq, _, _, hgone⟩
    simp only [Store.step, heq, Option.bind_eq_bind, Option.bind_some, Option.some.injEq,
      Prod.mk.injEq] at hstep
    rw [Store.callerCall, ← hstep.1, hgone, Option.bind_none] at h
    cases h
  · rcases Step.callerCall_of_post hs ht hstep hnot h with ⟨l, hl, hcaller⟩
    rw [hk, Option.some.injEq] at hl
    rcases callerCall_eq_some ht.accounts c k' h with ⟨i, e, hat, _, hforgotten⟩
    change x.pre.step x.op = _ at hstep
    rw [hop] at hstep
    have hgone := closeCaller_forgets hs.accounts id hstep i k' hat.1
      (by rw [← hcaller, ← hl, hid])
    rw [hgone] at hforgotten
    cases hforgotten

/-- Where the correlation a caller holds comes from: it was issued, and not
    forgotten since, and its outcome, if there is one, was recorded since. -/
def Traced (c : Correlation) (xs : List Step) (s : Store) : Prop :=
  ∀ k, s.callerCall c = some k → ∃ before y after, xs = before ++ y :: after ∧ y.issues c ∧
    (∀ w ∈ after, ¬ w.issues c ∧ ¬ w.forgets c) ∧
    ∀ r, s.recorded c = some r → ∃ z ∈ after, z.records c r

theorem Traced.snoc {xs : List Step} (h : Traced c xs x.pre) (hs : Sound x.pre) (ht : Sound x.post)
    (hstep : loopback.step x.pre x.op = some (x.post, x.answer)) :
    Traced c (xs ++ [x]) x.post := by
  intro k' hk'
  by_cases hissues : x.issues c
  · refine ⟨xs, x, [], rfl, hissues, List.forall_mem_nil _, fun r hr => ?_⟩
    rw [x.recorded_of_issues hs ht hstep hissues] at hr
    cases hr
  rcases Step.callerCall_of_post hs ht hstep hissues hk' with ⟨k, hk, _⟩
  rcases h k hk with ⟨before, y, after, rfl, hy, hafter, hrecorded⟩
  refine ⟨before, y, after ++ [x], ?_, hy, ?_, fun r hr => ?_⟩
  · rw [List.append_assoc, List.cons_append]
  · intro w hw
    rcases List.mem_append.mp hw with hmem | hmem
    · exact hafter w hmem
    · rw [List.mem_singleton.mp hmem]
      exact ⟨hissues, Step.not_forgets hs ht hstep hissues hk'⟩
  · by_cases hold : x.pre.recorded c = some r
    · rcases hrecorded r hold with ⟨z, hz, hzr⟩
      exact ⟨z, List.mem_append_left _ hz, hzr⟩
    · exact ⟨x, List.mem_append_right _ (List.mem_singleton_self _), hold, hr⟩

end Loopback

end Ridl
