import Ridl.Loopback.StreamPaths

/-!
# Every Step is a Path

The paths of the operations put together. From a store that accounts for its
slots and whose handles are in order, every operation has a result: none
reaches a branch the source calls unreachable. The step is a path of moves,
every waker the path hands back is on the wake list or goes back to the
dropped handle, and every event of the path is one the operation and its
answer account for (`Explains`).
-/

namespace Ridl

namespace Loopback

open Library Correlate

/-- What holds between two steps: the store accounts for its slots, its
    handles are in order, and a settled call is forgotten only while the
    forget waits. -/
structure Sound (s : Store) : Prop where
  accounts : Accounts s
  handles : s.Handles
  deferred : ∀ (i : Nat) (k : CallEntry) (e : Entry) (o : Outcome), s.At i k e →
    k.forgotten = true → e.state = .settled o → k.pendingForget = true

/-- The operation and its answer account for the event. -/
def Explains (s : Store) (op : Op) (answer : Answer) : Event → Prop
  | .acts side _ => op.side = some side
  | .accepted call no chunk => accepted s op answer = some (call, no, chunk)
  | .pulled call no chunk => pulled s op answer = some (call, no, chunk)
  | .ended call no => Ends s op answer call no
  | .cleared call no => Clears s op call no
  | .released call => Releases s op call
  | .abandoned _ => ∃ id, op = .closeHandler id
  | .orphaned _ => ∃ id, op = .closeHandler id
  | .closed (.event _) => False
  | .closed (.claim id) => op = .closeHandler id
  | .closed (.slot id) => op = .closeCaller id
  | .sent call caller c => call = s.nextSent ∧ ∃ kind key args seq trace,
      op = .send caller kind key args seq trace ∧ answer = .sent (.ok c)
  | .presented _ handler => (∃ cap, op = .nextClaim handler cap) ∧
      ∃ state, s.handlers[handler]? = some state
  | .finished id => ∃ o, s.claims[id]? = some o ∧
      ((∃ outcome, Settling s op o.handler ⟨id⟩ outcome) ∨ op = .closeHandler o.handler)
  | .returned id => ∃ o, s.claims[id]? = some o ∧ op = .closeHandler o.handler
  | .answered call handler => ∃ claim outcome k, Settling s op handler claim outcome ∧
      s.heldCall handler claim = some k ∧ k.sent = call

/-- The chunk an event took from a producer. -/
def Event.acceptedChunk : Event → Option (Nat × StreamNo × Bytes)
  | .accepted call no chunk => some (call, no, chunk)
  | _ => none

/-- The chunk an event gave to a receiver. -/
def Event.pulledChunk : Event → Option (Nat × StreamNo × Bytes)
  | .pulled call no chunk => some (call, no, chunk)
  | _ => none

/-- The wakers an answer gives back to the dropped handle. -/
def Answer.back : Answer → List Waker
  | .closed waiters => handedBack waiters
  | _ => []

/-- A step as a path of moves, with its wakers and its events accounted for. -/
structure StepPath (s : Store) (op : Op) (t : Store) (r : Reply) (ws : List Waker)
    (evs : List Event) : Prop where
  path : Path s ws evs t
  woken : ∀ w ∈ ws, w ∈ r.wake ∨ w ∈ r.answer.back
  explained : ∀ ev ∈ evs, Explains s op r.answer ev
  accepted : evs.filterMap Event.acceptedChunk = (accepted s op r.answer).toList
  pulled : evs.filterMap Event.pulledChunk = (pulled s op r.answer).toList

variable {s t : Store} {op : Op} {ws : List Waker} {evs : List Event}

theorem StepPath.silent (r : Reply) (hpath : Path s ws [] t) (hw : ∀ w ∈ ws, w ∈ r.wake)
    (ha : Loopback.accepted s op r.answer = none) (hp : Loopback.pulled s op r.answer = none) :
    StepPath s op t r ws [] where
  path := hpath
  woken := fun w hmem => Or.inl (hw w hmem)
  explained := List.forall_mem_nil _
  accepted := by rw [ha]; rfl
  pulled := by rw [hp]; rfl

/-- An event that moves no chunk. -/
def Event.dataless (ev : Event) : Prop := ev.acceptedChunk = none ∧ ev.pulledChunk = none

theorem StepPath.dataless (r : Reply) (hpath : Path s ws evs t)
    (hw : ∀ w ∈ ws, w ∈ r.wake ∨ w ∈ r.answer.back)
    (hevs : ∀ ev ∈ evs, Explains s op r.answer ev ∧ ev.dataless)
    (ha : Loopback.accepted s op r.answer = none) (hp : Loopback.pulled s op r.answer = none) :
    StepPath s op t r ws evs where
  path := hpath
  woken := hw
  explained := fun ev hev => (hevs ev hev).1
  accepted := by
    rw [ha]
    exact List.filterMap_eq_nil_iff.mpr fun ev hev => (hevs ev hev).2.1
  pulled := by
    rw [hp]
    exact List.filterMap_eq_nil_iff.mpr fun ev hev => (hevs ev hev).2.2

variable {side : Side} {handler : Nat} {claim : ClaimId} {k : CallEntry} {e : Entry}

theorem ActsOnly.explained (h : ActsOnly side evs) (answer : Answer)
    (hside : op.side = some side) : ∀ ev ∈ evs, Explains s op answer ev ∧ ev.dataless := by
  intro ev hev
  rcases h ev hev with ⟨call, rfl⟩
  exact ⟨hside, rfl, rfl⟩

/-! ### The operations -/

theorem callerSlot_spec (ha : Accounts s) (c : Correlation) (i : Nat)
    (h : s.callerSlot c = some i) :
    ∃ k e, s.At i k e ∧ k.forgotten = false ∧ s.callerCall c = some k := by
  rcases callerSlot_eq_some ha c h with ⟨k, e, hat, _, hk⟩
  refine ⟨k, e, hat, hk, ?_⟩
  rw [Store.callerCall, h, Option.bind_some, hat.1]

theorem StepPath.ofPull {call : Nat} {no : StreamNo}
    {answer : Except ReadError Pull} (hpath : Path s ws (pullEvents side call no answer) t)
    (hside : op.side = some side) (ha : Loopback.accepted s op (.pulled answer) = none)
    (hchunk : ∀ chunk, answer = .ok (.chunk chunk) →
      Loopback.pulled s op (.pulled answer) = some (call, no, chunk))
    (hnone : (∀ chunk, answer ≠ .ok (.chunk chunk)) →
      Loopback.pulled s op (.pulled answer) = none) :
    StepPath s op t ⟨.pulled answer, ws⟩ ws (pullEvents side call no answer) := by
  by_cases hc : ∃ chunk, answer = .ok (.chunk chunk)
  · rcases hc with ⟨chunk, rfl⟩
    refine ⟨hpath, fun w hw => Or.inl hw, ?_, ?_, ?_⟩
    · intro ev hev
      simp only [pullEvents, List.mem_cons, List.not_mem_nil, or_false] at hev
      rcases hev with rfl | rfl
      · exact hside
      · exact hchunk chunk rfl
    · rw [ha]
      rfl
    · rw [hchunk chunk rfl]
      rfl
  · have hne : ∀ chunk, answer ≠ .ok (.chunk chunk) := fun chunk h => hc ⟨chunk, h⟩
    refine .dataless _ hpath (fun w hw => Or.inl hw) ?_ ha (hnone hne)
    -- Without a chunk at most the provider's drain shows.
    have hevs : ∀ ev ∈ pullEvents side call no answer, ev = .acts side call := by
      cases answer with
      | error error => exact List.forall_mem_nil _
      | ok answer =>
          cases answer with
          | chunk chunk => exact absurd rfl (hne chunk)
          | pending => exact List.forall_mem_nil _
          | done =>
              simp only [pullEvents]
              split <;> simp only [List.mem_singleton, List.not_mem_nil, imp_self, implies_true,
                IsEmpty.forall_iff]
          | failed error =>
              simp only [pullEvents]
              split <;> simp only [List.mem_singleton, List.not_mem_nil, imp_self, implies_true,
                IsEmpty.forall_iff]
    intro ev hev
    rw [hevs ev hev]
    exact ⟨hside, rfl, rfl⟩

theorem pull_stepPath (ha : Accounts s) (c : Correlation) (no : StreamNo) (cap : Nat) :
    ∃ t r ws evs, s.step (.pull c no cap) = some (t, r) ∧
      StepPath s (.pull c no cap) t r ws evs := by
  simp only [Store.step]
  cases hslot : s.callerSlot c with
  | none => exact ⟨_, _, _, _, rfl, .silent _ (Path.refl s) (List.forall_mem_nil _) rfl rfl⟩
  | some i =>
      rcases callerSlot_spec ha c i hslot with ⟨k, e, hat, hk, hcall⟩
      rcases pull_total ha hat .caller no cap (fun _ => hk) (fun h => nomatch h) with
        ⟨t, ws, answer, heq, hpath, _⟩
      refine ⟨t, ⟨.pulled answer, ws⟩, ws, _, ?_, .ofPull hpath rfl rfl ?_ ?_⟩
      · simp only [heq, Option.bind_eq_bind, Option.bind_some]
      · rintro chunk rfl
        simp only [pulled, hcall, Option.map_some]
      · intro hne
        unfold pulled
        split
        · next h => exact absurd (Answer.pulled.inj h) (hne _)
        · next hop _ => cases hop
        · rfl

theorem claimCall_of_slot {i : Nat}
    (hslot : s.claimSlot handler claim = some i) (h : Claimed s handler claim i k e) :
    s.claimCall handler claim = some k := by
  rw [Store.claimCall, hslot, Option.bind_some, h.at_slot.1]

theorem pullClaim_stepPath (ha : Accounts s) (handler : Nat) (claim : ClaimId) (no : StreamNo)
    (cap : Nat) :
    ∃ t r ws evs, s.step (.pullClaim handler claim no cap) = some (t, r) ∧
      StepPath s (.pullClaim handler claim no cap) t r ws evs := by
  simp only [Store.step]
  cases hslot : s.claimSlot handler claim with
  | none => exact ⟨_, _, _, _, rfl, .silent _ (Path.refl s) (List.forall_mem_nil _) rfl rfl⟩
  | some i =>
      rcases claimSlot_spec ha handler claim hslot with ⟨k, e, h⟩
      have hcall := claimCall_of_slot hslot h
      rcases pull_total ha h.at_slot .provider no cap (fun h => nomatch h)
        (fun _ => h.not_waiting) with ⟨t, ws, answer, heq, hpath, _⟩
      refine ⟨t, ⟨.pulled answer, ws⟩, ws, _, ?_, .ofPull hpath rfl rfl ?_ ?_⟩
      · simp only [heq, Option.bind_eq_bind, Option.bind_some]
      · rintro chunk rfl
        simp only [pulled, hcall, Option.map_some]
      · intro hne
        unfold pulled
        split
        · next hop _ => cases hop
        · next h => exact absurd (Answer.pulled.inj h) (hne _)
        · rfl

theorem StepPath.ofPush {call : Nat} {no : StreamNo} {chunk : Bytes}
    {answer : Except PushError Nat} (hpath : Path s ws (pushEvents side call no chunk answer) t)
    (hside : op.side = some side) (hp : Loopback.pulled s op (.pushed answer) = none)
    (hchunk : answer = .ok chunk.length →
      Loopback.accepted s op (.pushed answer) = some (call, no, chunk))
    (hnone : answer ≠ .ok chunk.length → Loopback.accepted s op (.pushed answer) = none) :
    StepPath s op t ⟨.pushed answer, ws⟩ ws (pushEvents side call no chunk answer) := by
  by_cases hc : answer = .ok chunk.length
  · have hevs : pushEvents side call no chunk answer =
        [.acts side call, .accepted call no chunk] := by
      rw [hc, pushEvents, if_pos rfl]
    rw [hevs] at hpath ⊢
    refine ⟨hpath, fun w hw => Or.inl hw, ?_, ?_, ?_⟩
    · intro ev hev
      simp only [List.mem_cons, List.not_mem_nil, or_false] at hev
      rcases hev with rfl | rfl
      · exact hside
      · exact hchunk hc
    · rw [hchunk hc]
      rfl
    · rw [hp]
      rfl
  · have hevs : pushEvents side call no chunk answer = [] := by
      cases answer with
      | error error => rfl
      | ok n => exact if_neg fun h => hc (congrArg Except.ok h)
    rw [hevs] at hpath ⊢
    exact .silent _ hpath (fun w hw => hw) (hnone hc) hp

theorem push_stepPath (ha : Accounts s) (c : Correlation) (no : StreamNo) (chunk : Bytes) :
    ∃ t r ws evs, s.step (.push c no chunk) = some (t, r) ∧
      StepPath s (.push c no chunk) t r ws evs := by
  simp only [Store.step]
  cases hslot : s.callerSlot c with
  | none => exact ⟨_, _, _, _, rfl, .silent _ (Path.refl s) (List.forall_mem_nil _) rfl rfl⟩
  | some i =>
      rcases callerSlot_spec ha c i hslot with ⟨k, e, hat, hk, hcall⟩
      rcases push_total ha hat .caller no chunk (fun _ => hk) (fun h => nomatch h) with
        ⟨t, ws, answer, heq, hpath, _⟩
      refine ⟨t, ⟨.pushed answer, ws⟩, ws, _, ?_, .ofPush hpath rfl rfl ?_ ?_⟩
      · simp only [heq, Option.bind_eq_bind, Option.bind_some]
      · rintro rfl
        simp only [accepted, hcall, Option.map_some, if_true]
      · intro hne
        cases answer with
        | error error => rfl
        | ok n => exact if_neg fun h => hne (congrArg Except.ok h)

theorem pushClaim_stepPath (ha : Accounts s) (handler : Nat) (claim : ClaimId) (no : StreamNo)
    (chunk : Bytes) :
    ∃ t r ws evs, s.step (.pushClaim handler claim no chunk) = some (t, r) ∧
      StepPath s (.pushClaim handler claim no chunk) t r ws evs := by
  simp only [Store.step]
  cases hslot : s.claimSlot handler claim with
  | none => exact ⟨_, _, _, _, rfl, .silent _ (Path.refl s) (List.forall_mem_nil _) rfl rfl⟩
  | some i =>
      rcases claimSlot_spec ha handler claim hslot with ⟨k, e, h⟩
      have hcall := claimCall_of_slot hslot h
      rcases push_total ha h.at_slot .provider no chunk (fun h => nomatch h)
        (fun _ => h.not_waiting) with ⟨t, ws, answer, heq, hpath, _⟩
      refine ⟨t, ⟨.pushed answer, ws⟩, ws, _, ?_, .ofPush hpath rfl rfl ?_ ?_⟩
      · simp only [heq, Option.bind_eq_bind, Option.bind_some]
      · rintro rfl
        simp only [accepted, hcall, Option.map_some, if_true]
      · intro hne
        cases answer with
        | error error => rfl
        | ok n => exact if_neg fun h => hne (congrArg Except.ok h)

theorem finish_stepPath (ha : Accounts s) (c : Correlation) (no : StreamNo) :
    ∃ t r ws evs, s.step (.finish c no) = some (t, r) ∧ StepPath s (.finish c no) t r ws evs := by
  simp only [Store.step]
  cases hslot : s.callerSlot c with
  | none => exact ⟨_, _, _, _, rfl, .silent _ (Path.refl s) (List.forall_mem_nil _) rfl rfl⟩
  | some i =>
      rcases callerSlot_spec ha c i hslot with ⟨k, e, hat, hk, hcall⟩
      rcases finish_total ha hat .caller no (fun _ => hk) with ⟨t, ws, answer, heq, hpath, _⟩
      refine ⟨t, ⟨.stopped answer, ws⟩, ws, _, ?_,
        .dataless _ hpath (fun w hw => Or.inl hw) ?_ rfl rfl⟩
      · simp only [heq, Option.bind_eq_bind, Option.bind_some]
      · intro ev hev
        cases answer with
        | error error => cases hev
        | ok u =>
            simp only [finishEvents, List.mem_cons, List.not_mem_nil, or_false] at hev
            rcases hev with rfl | rfl
            · exact ⟨rfl, rfl, rfl⟩
            · exact ⟨Or.inl ⟨c, k, rfl, rfl, hcall, rfl⟩, rfl, rfl⟩

theorem abort_stepPath (ha : Accounts s) (c : Correlation) (no : StreamNo) (error : CallError) :
    ∃ t r ws evs, s.step (.abort c no error) = some (t, r) ∧
      StepPath s (.abort c no error) t r ws evs := by
  simp only [Store.step]
  cases hslot : s.callerSlot c with
  | none => exact ⟨_, _, _, _, rfl, .silent _ (Path.refl s) (List.forall_mem_nil _) rfl rfl⟩
  | some i =>
      rcases callerSlot_spec ha c i hslot with ⟨k, e, hat, hk, hcall⟩
      rcases abort_path ha hat .caller no error (fun _ => hk) (fun h => nomatch h) with
        ⟨t, ws, heq, hpath⟩
      refine ⟨t, ⟨.stopped (abortAnswer k no), ws⟩, ws, _, ?_,
        .dataless _ hpath (fun w hw => Or.inl hw) ?_ rfl rfl⟩
      · simp only [heq, Option.bind_eq_bind, Option.bind_some]
      · intro ev hev
        unfold abortEvents at hev
        by_cases hreceiver : Side.producer no ≠ .caller
        · rw [if_pos hreceiver] at hev
          simp only [List.mem_cons, List.not_mem_nil, or_false] at hev
          rcases hev with rfl | rfl
          · exact ⟨rfl, rfl, rfl⟩
          · refine ⟨Or.inl ⟨c, error, k, rfl, ?_, hcall, rfl⟩, rfl, rfl⟩
            cases hp : Side.producer no with
            | caller => exact absurd hp hreceiver
            | provider => rfl
        · rw [if_neg hreceiver] at hev
          by_cases hfinished : (k.stream no).finished = true
          · rw [if_pos hfinished] at hev
            cases hev
          · rw [if_neg hfinished] at hev
            rw [List.mem_singleton.mp hev]
            exact ⟨rfl, rfl, rfl⟩

/-! ### The settlements -/

theorem heldCall_eq {o : ClaimOwner} (h : Held s claim.val o k e) (hhandler : o.handler = handler) :
    s.heldCall handler claim = some k := by
  simp only [Store.heldCall, h.claim, Option.filter_some, hhandler, decide_true, if_true,
    Option.bind_some, Store.entry, h.at_slot.1]

/-- The events of a settlement are explained by the operation that makes it. -/
theorem settle_explained {o : ClaimOwner}
    {outcome : Except CallError Bytes} (answer : Answer) (hside : op.side = some .provider)
    (hheld : Held s claim.val o k e) (hhandler : o.handler = handler)
    (hop : Settling s op handler claim outcome)
    (hends : (∃ reply, outcome = .ok reply) → (k.stream REPLY_STREAM).finished = false →
      Ends s op answer k.sent REPLY_STREAM)
    (hevs : evs = [.finished claim.val] ∨ evs = settleEvents k claim.val handler outcome) :
    ∀ ev ∈ evs, Explains s op answer ev ∧ ev.dataless := by
  have hcall := heldCall_eq hheld hhandler
  have hfin : Explains s op answer (.finished claim.val) :=
    ⟨o, hheld.claim, Or.inl ⟨outcome, hhandler.symm ▸ hop⟩⟩
  intro ev hev
  rcases hevs with rfl | rfl
  · rw [List.mem_singleton.mp hev]
    exact ⟨hfin, rfl, rfl⟩
  · simp only [settleEvents, List.cons_append, List.mem_cons, List.mem_append] at hev
    rcases hev with rfl | rfl | rfl | hmem | hmem
    · exact ⟨hside, rfl, rfl⟩
    · exact ⟨hfin, rfl, rfl⟩
    · exact ⟨⟨claim, outcome, k, hop, hcall, rfl⟩, rfl, rfl⟩
    · by_cases hc : (outcome.toOption.isSome && !(k.stream REPLY_STREAM).finished) = true
      · rw [if_pos hc] at hmem
        rw [List.mem_singleton.mp hmem]
        simp only [Bool.and_eq_true, Bool.not_eq_true'] at hc
        refine ⟨hends ?_ hc.2, rfl, rfl⟩
        cases outcome with
        | ok reply => exact ⟨reply, rfl⟩
        | error error => cases hc.1
      · rw [if_neg hc] at hmem
        cases hmem
    · by_cases hc : Store.releases k outcome = true
      · rw [if_pos hc] at hmem
        rw [List.mem_singleton.mp hmem]
        exact ⟨⟨handler, claim, outcome, k, hop, hcall, rfl, hc⟩, rfl, rfl⟩
      · rw [if_neg hc] at hmem
        cases hmem

theorem settle_stepPath (ha : Accounts s) (handler : Nat) (claim : ClaimId)
    (outcome : Except CallError Bytes) :
    ∃ t r ws evs, s.step (.settle handler claim outcome) = some (t, r) ∧
      StepPath s (.settle handler claim outcome) t r ws evs := by
  simp only [Store.step]
  rcases settle_path ha handler claim outcome with
    ⟨t, error, heq, hsame⟩ | ⟨t, ws, evs, k, e, heq, hpath, hsettles⟩
  · refine ⟨t, ⟨.settled (.error error), []⟩, [], [], ?_, .silent _ ?_ (List.forall_mem_nil _)
      rfl rfl⟩
    · simp only [heq, Option.bind_eq_bind, Option.bind_some]
    · rcases hsame with rfl | rfl
      · exact Path.refl t
      · exact Path.single _ _ _ _ (Move.outside _ _ _ none (outside_settings s.limits false))
  · have hheld : ∃ o, Held s claim.val o k e ∧ o.handler = handler := by
      rcases hsettles.held with h | h <;> exact ⟨_, h, rfl⟩
    rcases hheld with ⟨o, hheld, hhandler⟩
    have hcall := heldCall_eq hheld hhandler
    refine ⟨t, ⟨.settled (.ok ()), ws⟩, ws, evs, ?_, .dataless _ hpath (fun w hw => Or.inl hw)
      (settle_explained _ rfl hheld hhandler (.settle handler claim outcome) ?_ ?_) rfl rfl⟩
    · simp only [heq, Option.bind_eq_bind, Option.bind_some]
    · rintro ⟨reply, rfl⟩ _
      exact Or.inr (Or.inr ⟨rfl, handler, claim, reply, k, rfl, rfl, hcall, rfl⟩)
    · exact hsettles.events.imp And.right And.right

theorem Claimed.held {i : Nat} (h : Claimed s handler claim i k e) (ha : Accounts s)
    (hheld : s.claims.contains claim.val = true) :
    ∃ o, Held s claim.val o k e ∧ o.handler = handler := by
  rcases h.holder with ⟨o, ho, hhandler, _⟩ | ⟨hnone, _⟩
  · rcases ha.claimed_at h.at_slot claim.val o h.minted ho with ⟨hcorr, hfly⟩
    refine ⟨o, ⟨ho, ?_, hcorr, h.minted, hfly⟩, hhandler⟩
    rw [← hcorr, ha.slot_eq h.at_slot]
    exact h.at_slot
  · rw [Std.ExtTreeMap.contains_eq_isSome_getElem?, hnone] at hheld
    cases hheld

theorem endClaim_stepPath (ha : Accounts s) (handler : Nat) (claim : ClaimId) (no : StreamNo) :
    ∃ t r ws evs, s.step (.endClaim handler claim no) = some (t, r) ∧
      StepPath s (.endClaim handler claim no) t r ws evs := by
  simp only [Store.step]
  cases hslot : s.claimSlot handler claim with
  | none =>
      refine ⟨s, ⟨.stopped (.error Store.UNKNOWN), []⟩, [], [], ?_, .silent _ (Path.refl s)
        (List.forall_mem_nil _) rfl rfl⟩
      simp only [Store.endClaim, hslot, Option.bind_eq_bind, Option.bind_some]
  | some i =>
      rcases claimSlot_spec ha handler claim hslot with ⟨k, e, h⟩
      have hcall := claimCall_of_slot hslot h
      rcases endClaim_path ha handler claim no h hslot with
        ⟨t, ws, answer, evs, heq, hpath, hcases⟩
      refine ⟨t, ⟨.stopped answer, ws⟩, ws, evs, ?_,
        .dataless _ hpath (fun w hw => Or.inl hw) ?_ rfl rfl⟩
      · simp only [heq, Option.bind_eq_bind, Option.bind_some]
      rcases hcases with ⟨rfl, hcontains, hends, hok⟩ | ⟨_, rfl, _⟩
      · rcases hends with ⟨_, rfl⟩ | hevs
        · exact List.forall_mem_nil _
        · rcases h.held ha hcontains with ⟨o, hheld, hhandler⟩
          refine settle_explained _ rfl hheld hhandler (.endClaim handler claim k hcall) ?_ hevs
          intro hreply hopen
          refine Or.inr (Or.inl ⟨handler, claim, k, rfl, ?_, hcall, rfl⟩)
          rcases hok hreply hopen with rfl | rfl
          · rcases hevs with hevs | hevs <;> cases hevs
          · rfl
      · intro ev hev
        cases answer with
        | error error => cases hev
        | ok u =>
            simp only [finishEvents, List.mem_cons, List.not_mem_nil, or_false] at hev
            rcases hev with rfl | rfl
            · exact ⟨rfl, rfl, rfl⟩
            · exact ⟨Or.inr (Or.inl ⟨handler, claim, k, rfl, rfl, hcall, rfl⟩), rfl, rfl⟩

theorem abortClaim_stepPath (ha : Accounts s) (handler : Nat) (claim : ClaimId) (no : StreamNo)
    (error : CallError) :
    ∃ t r ws evs, s.step (.abortClaim handler claim no error) = some (t, r) ∧
      StepPath s (.abortClaim handler claim no error) t r ws evs := by
  simp only [Store.step]
  cases hslot : s.claimSlot handler claim with
  | none =>
      refine ⟨s, ⟨.stopped (.error Store.UNKNOWN), []⟩, [], [], ?_, .silent _ (Path.refl s)
        (List.forall_mem_nil _) rfl rfl⟩
      simp only [Store.abortClaim, hslot, Option.bind_eq_bind, Option.bind_some]
  | some i =>
      rcases claimSlot_spec ha handler claim hslot with ⟨k, e, h⟩
      have hcall := claimCall_of_slot hslot h
      rcases abortClaim_path ha handler claim no error h hslot with
        ⟨t, ws, answer, evs, heq, hpath, hcases⟩
      refine ⟨t, ⟨.stopped answer, ws⟩, ws, evs, ?_,
        .dataless _ hpath (fun w hw => Or.inl hw) ?_ rfl rfl⟩
      · simp only [heq, Option.bind_eq_bind, Option.bind_some]
      rcases hcases with ⟨rfl, hcontains, hends⟩ | ⟨_, rfl⟩
      · rcases hends with ⟨_, rfl⟩ | hevs
        · exact List.forall_mem_nil _
        · rcases h.held ha hcontains with ⟨o, hheld, hhandler⟩
          refine settle_explained _ rfl hheld hhandler (.abortClaim handler claim error) ?_ hevs
          rintro ⟨reply, hreply⟩
          cases hreply
      · intro ev hev
        unfold abortEvents at hev
        by_cases hreceiver : Side.producer no ≠ .provider
        · rw [if_pos hreceiver] at hev
          simp only [List.mem_cons, List.not_mem_nil, or_false] at hev
          rcases hev with rfl | rfl
          · exact ⟨rfl, rfl, rfl⟩
          · refine ⟨Or.inr ⟨handler, claim, error, k, rfl, ?_, hcall, rfl⟩, rfl, rfl⟩
            cases hp : Side.producer no with
            | caller => rfl
            | provider => exact absurd hp hreceiver
        · rw [if_neg hreceiver] at hev
          by_cases hfinished : (k.stream no).finished = true
          · rw [if_pos hfinished] at hev
            cases hev
          · rw [if_neg hfinished] at hev
            rw [List.mem_singleton.mp hev]
            exact ⟨rfl, rfl, rfl⟩

/-! ### The other operations -/

theorem outcome_spec (ha : Accounts s) (c : Correlation) (o : Outcome)
    (h : s.table.outcome c = some o) :
    ∃ k e, s.At (Table.slot c) k e ∧ k.correlation = c ∧ e.state = .settled o := by
  cases hheld : s.table.held c with
  | none =>
      rw [Table.outcome_of_not_held _ _ hheld] at h
      cases h
  | some i =>
      rcases ha.at_of_held c hheld with ⟨k, e, hat, rfl⟩
      rw [Table.outcome_of_holds (ha.holds hat)] at h
      refine ⟨k, e, (ha.slot_eq hat).symm ▸ hat, rfl, ?_⟩
      cases hs : e.state with
      | settled o' =>
          simp only [hs, Option.some.injEq] at h
          rw [h]
      | free => simp only [hs, reduceCtorEq] at h
      | inFlight f => simp only [hs, reduceCtorEq] at h

theorem ack_total (ha : Accounts s) (c : Correlation) : ∃ answer, s.ack c = some answer := by
  unfold Store.ack
  cases ho : s.table.outcome c with
  | none => exact ⟨_, rfl⟩
  | some o =>
      rcases outcome_spec ha c o ho with ⟨k, e, hat, _⟩
      by_cases hpending : s.forgottenPending c = true
      · exact ⟨none, by simp only [hpending, if_true]⟩
      · have hentry : s.entry c = some k := hat.1
        simp only [hpending, Bool.false_eq_true, if_false, hentry, Option.bind_eq_bind,
          Option.bind_some]
        split <;> exact ⟨_, rfl⟩

theorem reply_total (ha : Accounts s) (c : Correlation) (cap : Nat) :
    ∃ answer, s.reply c cap = some answer := by
  unfold Store.reply
  by_cases hpending : s.forgottenPending c = true
  · exact ⟨_, by rw [if_pos hpending]⟩
  · rw [if_neg hpending]
    cases ho : s.table.outcome c with
    | none => exact ⟨_, rfl⟩
    | some o =>
        cases o with
        | error error => exact ⟨_, rfl⟩
        | ok u =>
            rcases outcome_spec ha c _ ho with ⟨k, e, hat, _⟩
            have hentry : s.entry c = some k := hat.1
            simp only [hentry, Option.bind_eq_bind, Option.bind_some]
            split <;> exact ⟨_, rfl⟩

theorem nextClaim_stepPath (ha : Accounts s) (handler cap : Nat) :
    ∃ t r ws evs, s.step (.nextClaim handler cap) = some (t, r) ∧
      StepPath s (.nextClaim handler cap) t r ws evs := by
  simp only [Store.step]
  rcases nextClaim_spec ha handler cap with heq | ⟨i, k, e, id, hpre, hcases⟩
  · refine ⟨s, ⟨.claimed (.ok none), []⟩, [], [], ?_, .silent _ (Path.refl s)
      (List.forall_mem_nil _) rfl rfl⟩
    simp only [heq, Option.bind_eq_bind, Option.bind_some]
  · have hevs : ∀ answer, ∀ ev ∈ [Event.presented id handler],
        Explains s (.nextClaim handler cap) answer ev ∧ ev.dataless := by
      intro answer ev hev
      rw [List.mem_singleton.mp hev]
      rcases hpre.handler with ⟨state, hstate, _⟩
      exact ⟨⟨⟨cap, rfl⟩, state, hstate⟩, rfl, rfl⟩
    have hpresented : ∀ (taken : Bool) (answer : Except ReadError (Option Claim)),
        s.nextClaim handler cap = some (s.presenting i k id handler taken, answer) →
        ∃ t r ws evs, ((s.nextClaim handler cap).bind fun claimed =>
            some (claimed.1, (⟨.claimed claimed.2, []⟩ : Reply))) = some (t, r) ∧
          StepPath s (.nextClaim handler cap) t r ws evs := by
      intro taken answer heq
      refine ⟨_, ⟨.claimed answer, []⟩, [], _, ?_, .dataless _ (hpre.path taken)
        (List.forall_mem_nil _) (hevs _) rfl rfl⟩
      simp only [heq, Option.bind_some]
    rcases hcases with ⟨_, heq⟩ | ⟨_, heq⟩
    · exact hpresented true _ heq
    · exact hpresented false _ heq

theorem closeHandler_stepPath (ha : Accounts s) (id : Nat) :
    ∃ t r ws evs, s.step (.closeHandler id) = some (t, r) ∧
      StepPath s (.closeHandler id) t r ws evs := by
  simp only [Store.step]
  rcases closeHandler_path ha id with ⟨t, ws, evs, due, heq, hpath, hevs, _⟩
  refine ⟨t, ⟨.closed (s.handlers[id]?.map (·.waiters)), ws⟩, _, _, ?_,
    .dataless _ hpath ?_ ?_ rfl rfl⟩
  · simp only [heq, Option.bind_eq_bind, Option.bind_some]
  · intro w hw
    exact (List.mem_append.mp hw).symm
  · rw [List.forall_mem_cons]
    refine ⟨⟨rfl, rfl, rfl⟩, fun ev hev => ?_⟩
    have hclosing := hevs ev hev
    cases ev with
    | acts side call => exact ⟨congrArg some hclosing.symm, rfl, rfl⟩
    | abandoned call => exact ⟨⟨id, rfl⟩, rfl, rfl⟩
    | orphaned c => exact ⟨⟨id, rfl⟩, rfl, rfl⟩
    | finished claim =>
        rcases hclosing with ⟨o, ho, hhandler⟩
        exact ⟨⟨o, ho, Or.inr (hhandler ▸ rfl)⟩, rfl, rfl⟩
    | returned claim =>
        rcases hclosing with ⟨o, ho, hhandler⟩
        exact ⟨⟨o, ho, hhandler ▸ rfl⟩, rfl, rfl⟩
    | _ => exact hclosing.elim

theorem closeCaller_stepPath (ha : Accounts s) (id : Nat) :
    ∃ t r ws evs, s.step (.closeCaller id) = some (t, r) ∧
      StepPath s (.closeCaller id) t r ws evs := by
  simp only [Store.step]
  rcases closeCaller_path ha id with ⟨t, ws, evs, heq, hpath, hacts, _⟩
  refine ⟨t, ⟨.closed s.callers[id]?, ws⟩, _, _, ?_,
    .dataless _ hpath ?_ (List.forall_mem_cons.mpr ⟨⟨rfl, rfl, rfl⟩, hacts.explained _ rfl⟩)
      rfl rfl⟩
  · simp only [heq, Option.bind_eq_bind, Option.bind_some]
  · intro w hw
    exact (List.mem_append.mp hw).symm

theorem send_stepPath (ha : Accounts s) (caller : Nat) (kind : CallKind) (key : Key)
    (args : Bytes) (seq : UInt64) (trace : Option TraceContext) :
    ∃ t r ws evs, s.step (.send caller kind key args seq trace) = some (t, r) ∧
      StepPath s (.send caller kind key args seq trace) t r ws evs := by
  simp only [Store.step]
  cases hsend : s.send caller kind key args seq trace with
  | error error =>
      exact ⟨_, _, _, _, rfl, .silent _ (Path.refl s) (List.forall_mem_nil _) rfl rfl⟩
  | ok p =>
      have hpath := (send_path ha caller kind key args seq trace p.1 p.2.1 p.2.2 hsend).1
      refine ⟨_, _, _, _, rfl, .dataless _ hpath (fun w hw => Or.inl hw) ?_ rfl rfl⟩
      intro ev hev
      rw [List.mem_singleton.mp hev]
      exact ⟨⟨rfl, kind, key, args, seq, trace, rfl, rfl⟩, rfl, rfl⟩

theorem step_path (hs : Sound s) (op : Op) :
    ∃ t r ws evs, s.step op = some (t, r) ∧ StepPath s op t r ws evs := by
  have ha := hs.accounts
  have hh := hs.handles
  cases op with
  | setLimit key limit =>
      exact ⟨_, _, _, _, rfl, .silent _ (Path.single _ _ _ _ (Move.outside _ _ _ none
        (outside_settings (Function.update s.limits key (some limit)) s.failNextSettle)))
        (List.forall_mem_nil _) rfl rfl⟩
  | openSource =>
      exact ⟨_, _, _, _, rfl, .silent _ (openSource_path hh) (List.forall_mem_nil _) rfl rfl⟩
  | closeSource id =>
      exact ⟨_, _, _, _, rfl, .dataless _ (closeSource_path id) (fun w hw => Or.inr hw)
        (List.forall_mem_nil _) rfl rfl⟩
  | subscribe id iface ords =>
      exact ⟨_, _, _, _, rfl, .silent _ (subscribe_path id iface ords) (List.forall_mem_nil _)
        rfl rfl⟩
  | unsubscribe id iface ords =>
      exact ⟨_, _, _, _, rfl, .silent _ (unsubscribe_path id iface ords) (List.forall_mem_nil _)
        rfl rfl⟩
  | raise iface ord bytes seq trace =>
      simp only [Store.step]
      cases hraise : s.raise iface ord bytes seq trace with
      | error error =>
          exact ⟨_, _, _, _, rfl, .silent _ (Path.refl s) (List.forall_mem_nil _) rfl rfl⟩
      | ok p =>
          exact ⟨_, _, _, _, rfl, .silent _ (raise_path iface ord bytes seq trace p.1 p.2 hraise)
            (fun w hw => hw) rfl rfl⟩
  | nextEvent id cap =>
      simp only [Store.step]
      cases hnext : s.nextEvent id cap with
      | error error =>
          exact ⟨_, _, _, _, rfl, .silent _ (Path.refl s) (List.forall_mem_nil _) rfl rfl⟩
      | ok p =>
          exact ⟨_, _, _, _, rfl, .silent _ (nextEvent_path id cap p.1 p.2 hnext)
            (List.forall_mem_nil _) rfl rfl⟩
  | waitEvent id iface waker =>
      rcases waitEvent_path (s := s) id iface waker with ⟨ws, hpath, hw⟩
      exact ⟨_, _, _, _, rfl, .silent _ hpath hw rfl rfl⟩
  | openCaller =>
      exact ⟨_, _, _, _, rfl, .silent _ (openCaller_path hh) (List.forall_mem_nil _) rfl rfl⟩
  | closeCaller id => exact closeCaller_stepPath ha id
  | send caller kind key args seq trace => exact send_stepPath ha caller kind key args seq trace
  | ack c =>
      rcases ack_total ha c with ⟨answer, heq⟩
      refine ⟨s, ⟨.acked answer, []⟩, [], [], ?_, .silent _ (Path.refl s) (List.forall_mem_nil _)
        rfl rfl⟩
      simp only [Store.step, heq, Option.bind_eq_bind, Option.bind_some]
  | reply c cap =>
      rcases reply_total ha c cap with ⟨answer, heq⟩
      refine ⟨s, ⟨.replied answer, []⟩, [], [], ?_, .silent _ (Path.refl s)
        (List.forall_mem_nil _) rfl rfl⟩
      simp only [Store.step, heq, Option.bind_eq_bind, Option.bind_some]
  | forget c =>
      rcases forget_path ha c with ⟨t, ws, evs, heq, hpath, hacts, _⟩
      refine ⟨t, ⟨.done, ws⟩, ws, evs, ?_, .dataless _ hpath (fun w hw => Or.inl hw)
        (hacts.explained _ rfl) rfl rfl⟩
      simp only [Store.step, heq, Option.bind_eq_bind, Option.bind_some]
  | waitOutcome c waker =>
      rcases waitOutcome_path ha c waker with ⟨ws, hpath, hw⟩
      exact ⟨_, _, _, _, rfl, .silent _ hpath hw rfl rfl⟩
  | waitSlot id waker =>
      rcases waitSlot_path ha id waker with ⟨ws, hpath, hw⟩
      exact ⟨_, _, _, _, rfl, .silent _ hpath hw rfl rfl⟩
  | openHandler =>
      exact ⟨_, _, _, _, rfl, .silent _ (openHandler_path hh) (List.forall_mem_nil _) rfl rfl⟩
  | closeHandler id => exact closeHandler_stepPath ha id
  | serve handler iface ords =>
      rcases serve_path ha handler iface ords with ⟨t, ws, heq, hpath⟩
      refine ⟨t, ⟨.done, ws⟩, ws, [], ?_, .silent _ hpath (fun w hw => hw) rfl rfl⟩
      simp only [Store.step, heq, Option.bind_eq_bind, Option.bind_some]
  | nextClaim handler cap => exact nextClaim_stepPath ha handler cap
  | settle handler claim outcome => exact settle_stepPath ha handler claim outcome
  | failNextSettle =>
      exact ⟨_, _, _, _, rfl, .silent _ (Path.single _ _ _ _ (Move.outside _ _ _ none
        (outside_settings s.limits true))) (List.forall_mem_nil _) rfl rfl⟩
  | waitClaim handler iface waker =>
      rcases waitClaim_path ha handler iface waker with ⟨t, ws, ws', heq, hpath, hw⟩
      refine ⟨t, ⟨.done, ws'⟩, ws, [], ?_, .silent _ hpath hw rfl rfl⟩
      simp only [Store.step, heq, Option.bind_eq_bind, Option.bind_some]
  | pull c no cap => exact pull_stepPath ha c no cap
  | push c no chunk => exact push_stepPath ha c no chunk
  | finish c no => exact finish_stepPath ha c no
  | abort c no error => exact abort_stepPath ha c no error
  | waitStream c no waker =>
      rcases waitStream_path ha hs.deferred c no waker with ⟨ws, hpath, hw⟩
      exact ⟨_, _, _, _, rfl, .silent _ hpath hw rfl rfl⟩
  | pullClaim handler claim no cap => exact pullClaim_stepPath ha handler claim no cap
  | pushClaim handler claim no chunk => exact pushClaim_stepPath ha handler claim no chunk
  | endClaim handler claim no => exact endClaim_stepPath ha handler claim no
  | abortClaim handler claim no error => exact abortClaim_stepPath ha handler claim no error
  | waitClaimStream handler claim no waker =>
      rcases waitClaimStream_path ha handler claim no waker with ⟨t, ws, ws', heq, hpath, hw⟩
      refine ⟨t, ⟨.done, ws'⟩, ws, [], ?_, .silent _ hpath hw rfl rfl⟩
      simp only [Store.step, heq, Option.bind_eq_bind, Option.bind_some]

end Loopback

end Ridl
