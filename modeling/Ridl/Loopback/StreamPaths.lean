import Ridl.Loopback.ClaimPaths

/-!
# The Paths of the Streams

Each stream operation, by slot and side, from a store that accounts for its
slots: what it answers is a function of the stream's state, and what it does
is a path of moves whose events are known from the answer.

A change that the other side can see hands over that side's waker
(`change_path`), wherever it is kept: the caller's in the table, the
provider's in the stream.

## Main definitions

* `StreamState.answer`, `pushAnswer`, `finishAnswer`: What the operations
  answer.

## Theorems

* `change_path`: A change with its hand-over is one move.
* `pull_path`, `push_path`, `finish_path`, `abort_path`: The operations by
  slot and side.
* `claimSlot_spec`: What a provider's claim stands for.
* `waitOutcome_path`, `waitStream_path`, `waitClaimStream_path`: The
  registrations.
-/

namespace Ridl

namespace Loopback

open Library Correlate

variable {s : Store} {i : Nat} {k : CallEntry} {e : Entry}

/-! ### The parts of an operation -/

theorem edit_edit (k k' : CallEntry) (e e' : Entry) :
    (s.edit i k e).edit i k' e' = s.edit i k' e' := by
  simp only [Store.edit, Table.put_put, OrdMap.insert_insert]

theorem at_edit (hat : s.At i k e) (k' : CallEntry) (e' : Entry) :
    (s.edit i k' e').At i k' e' :=
  ⟨OrdMap.getElem?_insert_self _ _ _, Table.getElem?_put_self _ _ _ _ hat.2⟩

theorem name_path (hat : s.At i k e) (no : StreamNo) :
    Path s [] [] (s.setCall i (k.name no)) := by
  rw [← edit_same_table hat]
  exact Path.single _ _ _ _ (Move.edit s i k _ e e _ _ hat (Edit.name k e no) Or.inl Or.inl)

/-- The entry once `side` moved a stream: the provider's moves are marked. -/
def CallEntry.moved (k : CallEntry) (side : Side) : CallEntry :=
  if side = .provider then { k with providerUsedStreams := true } else k

theorem moved_stream (k : CallEntry) (side : Side) (no : StreamNo) :
    (k.moved side).stream no = k.stream no := by
  cases side <;> rfl

theorem moved_sent (k : CallEntry) (side : Side) : (k.moved side).sent = k.sent := by
  cases side <;> rfl

theorem moved_forgotten (k : CallEntry) (side : Side) :
    (k.moved side).forgotten = k.forgotten := by
  cases side <;> rfl

theorem moved_correlation (k : CallEntry) (side : Side) :
    (k.moved side).correlation = k.correlation := by
  cases side <;> rfl

theorem moved_setStream (k : CallEntry) (side : Side) (no : StreamNo) (st : StreamState) :
    (if side = .provider then { k.setStream no st with providerUsedStreams := true }
      else k.setStream no st) = (k.moved side).setStream no st := by
  cases side <;> rfl

theorem moved_path (hat : s.At i k e) (side : Side)
    (hheld : side = .provider → k.correlation ∉ s.pending) :
    Path s [] [] (s.edit i (k.moved side) e) := by
  cases side with
  | caller =>
      rw [show k.moved .caller = k from rfl, edit_same_table hat, Store.setCall,
        OrdMap.insert_same _ _ _ hat.1]
      exact Path.refl s
  | provider =>
      exact Path.single _ _ _ _ (Move.edit s i k _ e e _ _ hat (Edit.use k e) Or.inl
        (fun _ => Or.inr (hheld rfl)))

theorem takeStreamWaker_eq (ha : Accounts s) (hat : s.At i k e) (k' : CallEntry)
    (hk' : k'.correlation = k.correlation) (side : Side) (no : StreamNo) (st : StreamState) :
    (s.setCall i (k'.setStream no st)).takeStreamWaker i no side.other =
      (s.edit i (handOver side k' e no st).1 (handOver side k' e no st).2.1,
        (handOver side k' e no st).2.2) := by
  have hold := ha.holds hat
  rw [← hk'] at hold
  cases side with
  | caller =>
      simp only [Store.takeStreamWaker, Store.setCall, OrdMap.getElem?_insert_self, Side.other,
        CallEntry.getElem?_setStream, if_true, OrdMap.insert_insert, handOver,
        edit_same_table hat]
      simp only [CallEntry.setStream, OrdMap.insert_insert]
  | provider =>
      have hcorr : (k'.setStream no st).correlation = k'.correlation := rfl
      simp only [Store.takeStreamWaker, Store.setCall, OrdMap.getElem?_insert_self, Side.other,
        hcorr, Table.takeStream, hold.held_eq, hat.2, Option.bind_some, Option.map_some, handOver,
        Store.edit]

theorem change_path (ha : Accounts s) (hat : s.At i k e) (k' : CallEntry) (side : Side)
    (no : StreamNo) (evs : List Event) (st : StreamState)
    (hk' : k' = k ∧ evs = [.ended k.sent no] ∨
      k' = k.moved side ∧ (side = .provider → k.correlation ∉ s.pending))
    (hcaller : side = .caller → k.forgotten = false)
    (h : Change k.sent no side (k.stream no) evs st) :
    Path s (((s.setCall i (k'.setStream no st)).takeStreamWaker i no side.other).2.toList)
      (.acts side k.sent :: evs)
      ((s.setCall i (k'.setStream no st)).takeStreamWaker i no side.other).1 := by
  have hmark : Path s [] [] (s.edit i k' e) ∧ k'.correlation = k.correlation ∧
      k'.sent = k.sent ∧ k'.stream no = k.stream no ∧ k'.forgotten = k.forgotten ∧
      (side = .provider → k'.providerUsedStreams = true ∨ evs = [.ended k'.sent no]) := by
    rcases hk' with ⟨rfl, hevs⟩ | ⟨rfl, hheld⟩
    · refine ⟨?_, rfl, rfl, rfl, rfl, fun _ => Or.inr hevs⟩
      rw [edit_same_table hat, Store.setCall, OrdMap.insert_same _ _ _ hat.1]
      exact Path.refl s
    · exact ⟨moved_path hat side hheld, moved_correlation k side, moved_sent k side,
        moved_stream k side no, moved_forgotten k side, fun hside => Or.inl (hside ▸ rfl)⟩
  rcases hmark with ⟨hmark, hcorr, hsent, hstream, hforgotten, hused⟩
  rw [takeStreamWaker_eq ha hat k' hcorr]
  have hmove := Move.edit (s.edit i k' e) i k' _ e _ _ _ (at_edit hat k' e)
    (Edit.change k' e no side evs st (fun hs => hforgotten.trans (hcaller hs)) hused
      (by rw [hsent, hstream]; exact h))
    (fun hf => Or.inl (by cases side <;> exact hf)) (fun hf => Or.inl (by cases side <;> exact hf))
  rw [edit_edit, hsent] at hmove
  simpa only [List.nil_append] using hmark.trans (Path.single _ _ _ _ hmove)

/-- What the provider does to a stream parameter that takes no more may
    complete a deferred forget. -/
theorem tidy_path (ha : Accounts s) (hat : s.At i k e) (no : StreamNo) (evs : List Event)
    (st : StreamState) (hreceiver : Side.producer no ≠ .provider)
    (hheld : k.correlation ∉ s.pending) (h : Tidy k.sent no (k.stream no) evs st) :
    ∃ t ws, (s.setCall i ((k.moved .provider).setStream no st)).releaseIfDrained i =
        some (t, ws) ∧ Path s ws (.acts .provider k.sent :: evs) t := by
  have hside : (Side.producer no).other = .provider := by
    cases hp : Side.producer no with
    | caller => rfl
    | provider => exact absurd hp hreceiver
  have hmark := moved_path hat .provider (fun _ => hheld)
  have hat' := at_edit hat (k.moved .provider) e
  have hmove := Move.edit _ i (k.moved .provider) _ e e _ _ hat'
    (Edit.tidy (k.moved .provider) e no evs st h) Or.inl Or.inl
  rw [edit_edit] at hmove
  have hpath := hmark.trans (Path.single _ _ _ _ hmove)
  rcases releaseIfDrained_path (hpath.accounts ha) (at_edit hat _ e) with ⟨t, ws, heq, hrest⟩
  refine ⟨t, ws, ?_, ?_⟩
  · rw [← edit_same_table hat]
    exact heq
  · have hall := hpath.trans hrest
    rw [hside, moved_sent] at hall
    simpa only [List.nil_append, List.append_nil] using hall

/-! ### The operations by slot and side -/

/-- What a pull of the stream's receiver answers. -/
def StreamState.answer (st : StreamState) (cap : Nat) : Except ReadError Pull :=
  match st.chunks with
  | [] =>
      if st.ended then .ok .done
      else match st.stopped with
        | some p => .ok (.failed p.1)
        | none => .ok .pending
  | chunk :: _ => if cap < chunk.length then .error (.short chunk.length) else .ok (.chunk chunk)

/-- What a pull does, by its answer. -/
def pullEvents (side : Side) (call : Nat) (no : StreamNo) : Except ReadError Pull → List Event
  | .ok (.chunk chunk) => [.acts side call, .pulled call no chunk]
  | .ok .done => if side = .provider then [.acts side call] else []
  | .ok (.failed _) => if side = .provider then [.acts side call] else []
  | _ => []

theorem pull_foreign (side : Side) (no : StreamNo) (cap : Nat) (h : Side.producer no = side) :
    s.pull i side no cap = some (s, [], .error (.contract .unknownInteraction)) := by
  unfold Store.pull
  rw [if_pos h]

theorem pull_path (ha : Accounts s) (hat : s.At i k e) (side : Side) (no : StreamNo) (cap : Nat)
    (hreceiver : Side.producer no ≠ side) (hcaller : side = .caller → k.forgotten = false)
    (hheld : side = .provider → k.correlation ∉ s.pending) :
    ∃ t ws, s.pull i side no cap = some (t, ws, (k.stream no).answer cap) ∧
      Path s ws (pullEvents side k.sent no ((k.stream no).answer cap)) t := by
  unfold Store.pull
  rw [if_neg hreceiver]
  simp only [hat.1, Option.bind_eq_bind, Option.bind_some]
  cases hchunks : (k.stream no).chunks with
  | cons chunk rest =>
      by_cases hcap : cap < chunk.length
      · have hanswer : (k.stream no).answer cap = .error (.short chunk.length) := by
          simp only [StreamState.answer, hchunks, hcap, if_true]
        rw [hanswer]
        exact ⟨_, _, by simp only [hcap, if_true], name_path hat no⟩
      · have hanswer : (k.stream no).answer cap = .ok (.chunk chunk) := by
          simp only [StreamState.answer, hchunks, hcap, if_false]
        rw [hanswer]
        refine ⟨_, _, ?_, change_path ha hat (k.moved side) side no _ _ (Or.inr ⟨rfl, hheld⟩)
          hcaller (Change.pull _ chunk rest hreceiver hchunks)⟩
        simp only [hcap, if_false, moved_setStream]
  | nil =>
      -- A stream that takes no more and has no chunk is at its end.
      have hend : ∀ answer : Pull, (k.stream no).finished = true →
          (k.stream no).answer cap = .ok answer → (answer = .done ∨ ∃ error, answer = .failed error) →
          ∃ t ws, (if side = .provider then
              ((s.setCall i { k.setStream no { k.stream no with drained := true } with
                providerUsedStreams := true }).releaseIfDrained i).bind
                  fun p => some (p.1, p.2, Except.ok answer)
            else some (s.setCall i (k.name no), [], .ok answer)) =
              some (t, ws, (k.stream no).answer cap) ∧
            Path s ws (pullEvents side k.sent no ((k.stream no).answer cap)) t := by
        intro answer hfinished hanswer hkind
        rw [hanswer]
        cases side with
        | caller =>
            refine ⟨_, _, rfl, ?_⟩
            rcases hkind with rfl | ⟨error, rfl⟩ <;> exact name_path hat no
        | provider =>
            rcases tidy_path ha hat no [] _ hreceiver (hheld rfl)
              (Tidy.drain _ hfinished hchunks) with ⟨t, ws, heq, hpath⟩
            refine ⟨t, ws, ?_, ?_⟩
            · rw [if_pos rfl]
              exact congrArg (fun r => Option.bind r fun p => some (p.1, p.2, Except.ok answer)) heq
            · rcases hkind with rfl | ⟨error, rfl⟩ <;> exact hpath
      dsimp only
      by_cases hended : (k.stream no).ended = true
      · have hanswer : (k.stream no).answer cap = .ok .done := by
          simp only [StreamState.answer, hchunks, hended, if_true]
        have hfinished : (k.stream no).finished = true := by
          simp only [StreamState.finished, hended, Bool.true_or]
        have hp := hend .done hfinished hanswer (Or.inl rfl)
        simp only [hchunks] at hp
        rw [if_pos hended]
        exact hp
      · rw [if_neg hended]
        cases hstopped : (k.stream no).stopped with
        | none =>
            have hanswer : (k.stream no).answer cap = .ok .pending := by
              simp only [StreamState.answer, hchunks, hended, hstopped, Bool.false_eq_true,
                if_false]
            rw [hanswer]
            exact ⟨_, _, rfl, name_path hat no⟩
        | some p =>
            have hanswer : (k.stream no).answer cap = .ok (.failed p.1) := by
              simp only [StreamState.answer, hchunks, hended, hstopped, Bool.false_eq_true,
                if_false]
            have hfinished : (k.stream no).finished = true := by
              simp only [StreamState.finished, hstopped, Option.isSome_some, Bool.or_true]
            have hp := hend (.failed p.1) hfinished hanswer (Or.inr ⟨p.1, rfl⟩)
            simp only [hstopped, hchunks] at hp
            exact hp

def pushAnswer (s : Store) (k : CallEntry) (side : Side) (no : StreamNo) (chunk : Bytes) :
    Except PushError Nat :=
  if side = .provider && k.forgotten then .error (.failed INTERRUPTED)
  else match (k.stream no).closed side with
    | some closed => .error closed
    | none =>
        match s.admitPayload k.key k.kind.kind chunk.length with
        | .error cap => .error (.tooLarge cap)
        | .ok () => if !chunk.isEmpty && (k.stream no).full then .ok 0 else .ok chunk.length

/-- What a push does, by its answer: a chunk is accepted when all of it was
    taken. -/
def pushEvents (side : Side) (call : Nat) (no : StreamNo) (chunk : Bytes) :
    Except PushError Nat → List Event
  | .ok n => if n = chunk.length then [.acts side call, .accepted call no chunk] else []
  | .error _ => []

theorem push_foreign (side : Side) (no : StreamNo) (chunk : Bytes)
    (h : Side.producer no ≠ side) :
    s.push i side no chunk = some (s, [], .error (.contract .unknownInteraction)) := by
  unfold Store.push
  rw [if_pos h]

theorem push_path (ha : Accounts s) (hat : s.At i k e) (side : Side) (no : StreamNo)
    (chunk : Bytes) (hproducer : Side.producer no = side)
    (hcaller : side = .caller → k.forgotten = false)
    (hheld : side = .provider → k.correlation ∉ s.pending) :
    ∃ t ws, s.push i side no chunk = some (t, ws, pushAnswer s k side no chunk) ∧
      Path s ws (pushEvents side k.sent no chunk (pushAnswer s k side no chunk)) t := by
  unfold Store.push pushAnswer
  rw [if_neg (not_not_intro hproducer)]
  simp only [hat.1, Option.bind_eq_bind, Option.bind_some]
  by_cases hgone : (side = .provider && k.forgotten) = true
  · simp only [hgone, if_true]
    exact ⟨s, [], rfl, Path.refl s⟩
  simp only [hgone, Bool.false_eq_true, if_false]
  cases hclosed : (k.stream no).closed side with
  | some closed => exact ⟨_, _, rfl, name_path hat no⟩
  | none =>
      cases hadmits : s.admitPayload k.key k.kind.kind chunk.length with
      | error cap => exact ⟨_, _, rfl, name_path hat no⟩
      | ok u =>
          by_cases hfull : (!chunk.isEmpty && (k.stream no).full) = true
          · -- No room: a chunk that was not taken is not empty.
            simp only [hfull, if_true]
            have hlen : 0 ≠ chunk.length := by
              cases chunk with
              | nil => simp only [List.isEmpty_nil, Bool.not_true, Bool.false_and,
                  Bool.false_eq_true] at hfull
              | cons b bs => exact Ne.symm (Nat.succ_ne_zero _)
            rw [pushEvents, if_neg hlen]
            exact ⟨_, _, rfl, name_path hat no⟩
          · have hroom : chunk = [] ∨ (k.stream no).full = false := by
              simp only [Bool.and_eq_true, Bool.not_eq_true', not_and, Bool.not_eq_true] at hfull
              cases chunk with
              | nil => exact Or.inl rfl
              | cons b bs => exact Or.inr (hfull rfl)
            simp only [hfull, Bool.false_eq_true, if_false]
            rw [pushEvents, if_pos rfl]
            refine ⟨_, _, ?_, change_path ha hat (k.moved side) side no _ _ (Or.inr ⟨rfl, hheld⟩)
              hcaller (Change.push _ chunk hproducer hclosed hroom)⟩
            simp only [moved_setStream]

/-- What an end by the stream's producer answers. -/
def finishAnswer (k : CallEntry) (side : Side) (no : StreamNo) : Except PushError Unit :=
  if side = .provider && k.forgotten then .error (.failed INTERRUPTED)
  else match (k.stream no).closed side with
    | some closed => .error closed
    | none => .ok ()

/-- What an end does, by its answer. -/
def finishEvents (side : Side) (call : Nat) (no : StreamNo) : Except PushError Unit → List Event
  | .ok _ => [.acts side call, .ended call no]
  | .error _ => []

theorem finish_foreign (side : Side) (no : StreamNo) (h : Side.producer no ≠ side) :
    s.finish i side no = some (s, [], .error (.contract .unknownInteraction)) := by
  unfold Store.finish
  rw [if_pos h]

theorem finish_path (ha : Accounts s) (hat : s.At i k e) (side : Side) (no : StreamNo)
    (hproducer : Side.producer no = side) (hcaller : side = .caller → k.forgotten = false) :
    ∃ t ws, s.finish i side no = some (t, ws, finishAnswer k side no) ∧
      Path s ws (finishEvents side k.sent no (finishAnswer k side no)) t := by
  unfold Store.finish finishAnswer
  rw [if_neg (not_not_intro hproducer)]
  simp only [hat.1, Option.bind_eq_bind, Option.bind_some]
  by_cases hgone : (side = .provider && k.forgotten) = true
  · simp only [hgone, if_true]
    exact ⟨s, [], rfl, Path.refl s⟩
  simp only [hgone, Bool.false_eq_true, if_false]
  cases hclosed : (k.stream no).closed side with
  | some closed => exact ⟨_, _, rfl, name_path hat no⟩
  | none =>
      exact ⟨_, _, rfl, change_path ha hat k side no _ _ (Or.inl ⟨rfl, rfl⟩) hcaller
        (Change.finish _ hproducer hclosed)⟩

/-- What an abort does: the receiver gives up the unread chunks. -/
def abortEvents (side : Side) (k : CallEntry) (no : StreamNo) : List Event :=
  if Side.producer no ≠ side then [.acts side k.sent, .cleared k.sent no]
  else if (k.stream no).finished then [] else [.acts side k.sent]

def abortAnswer (k : CallEntry) (no : StreamNo) : Except PushError Unit :=
  if (k.stream no).finished then .error .ended else .ok ()

theorem abort_path (ha : Accounts s) (hat : s.At i k e) (side : Side) (no : StreamNo)
    (error : CallError) (hcaller : side = .caller → k.forgotten = false)
    (hheld : side = .provider → k.correlation ∉ s.pending) :
    ∃ t ws, s.abort i side no error = some (t, ws, abortAnswer k no) ∧
      Path s ws (abortEvents side k no) t := by
  have hentry : (if side = .provider then { k with providerUsedStreams := true } else k) =
      k.moved side := rfl
  unfold Store.abort abortAnswer abortEvents
  simp only [hat.1, Option.bind_eq_bind, Option.bind_some, hentry, moved_stream]
  by_cases hfinished : (k.stream no).finished = true
  · simp only [hfinished, if_true]
    by_cases hreceiver : Side.producer no ≠ side
    · simp only [hreceiver, ne_eq, not_false_eq_true, if_true]
      cases side with
      | caller =>
          -- The provider does not see its unread chunks go.
          have hmove := Move.edit s i k _ e e _ _ hat
            (Edit.tidy k e no _ _ (Tidy.clear _ (k.stream no).drained hfinished)) Or.inl Or.inl
          have hside : (Side.producer no).other = .caller := by
            cases hp : Side.producer no with
            | caller => exact absurd hp hreceiver
            | provider => rfl
          rw [hside, edit_same_table hat] at hmove
          exact ⟨_, _, rfl, Path.single _ _ _ _ hmove⟩
      | provider =>
          rcases tidy_path ha hat no _ _ hreceiver (hheld rfl)
            (Tidy.clear _ true hfinished) with ⟨t, ws, heq, hpath⟩
          refine ⟨t, ws, ?_, hpath⟩
          simp only [if_true, heq, Option.bind_some]
    · simp only [hreceiver, if_false]
      refine ⟨_, _, rfl, ?_⟩
      have hmark := moved_path hat side hheld
      have hname := name_path (at_edit hat (k.moved side) e) no
      have hpath := hmark.trans hname
      rw [edit_same_table hat, Store.setCall, Store.setCall, OrdMap.insert_insert] at hpath
      exact hpath
  · simp only [hfinished, Bool.false_eq_true, if_false]
    have hchange := change_path ha hat (k.moved side) side no _ _ (Or.inr ⟨rfl, hheld⟩) hcaller
      (Change.stop (k.stream no) error (if side = .provider then true else (k.stream no).drained)
        (Bool.not_eq_true _ ▸ hfinished))
    have hevents : (Event.acts side k.sent ::
        if Side.producer no ≠ side then [Event.cleared k.sent no] else []) =
        if Side.producer no ≠ side then [.acts side k.sent, .cleared k.sent no]
          else [.acts side k.sent] := by
      split <;> rfl
    rw [hevents] at hchange
    cases side with
    | caller => exact ⟨_, _, rfl, hchange⟩
    | provider =>
        have hat' : (((s.setCall i ((k.moved .provider).setStream no
            { k.stream no with
              stopped := some (error, .provider)
              chunks := if Side.producer no ≠ .provider then [] else (k.stream no).chunks
              drained := true })).takeStreamWaker i no Side.provider.other).1).At i
              (handOver .provider (k.moved .provider) e no
                { k.stream no with
                  stopped := some (error, .provider)
                  chunks := if Side.producer no ≠ .provider then [] else (k.stream no).chunks
                  drained := true }).1
              (handOver .provider (k.moved .provider) e no
                { k.stream no with
                  stopped := some (error, .provider)
                  chunks := if Side.producer no ≠ .provider then [] else (k.stream no).chunks
                  drained := true }).2.1 := by
          rw [takeStreamWaker_eq ha hat _ (moved_correlation k .provider)]
          exact at_edit hat _ _
        rcases releaseIfDrained_path (hchange.accounts ha) hat' with ⟨t, ws, heq, hrest⟩
        have hall := hchange.trans hrest
        rw [List.append_nil] at hall
        refine ⟨t, _, ?_, hall⟩
        simp only [if_true]
        exact congrArg (fun r => Option.bind r fun p => some (p.1, _ ++ p.2, Except.ok ())) heq

/-! ### The provider's operations by claim -/

/-- The call a handler's claim stands for, taken or settled: it does not
    wait. -/
structure Claimed (s : Store) (handler : Nat) (claim : ClaimId) (i : Nat) (k : CallEntry)
    (e : Entry) : Prop where
  at_slot : s.At i k e
  minted : k.claim = some claim.val
  not_waiting : k.correlation ∉ s.pending
  holder : (∃ o, s.claims[claim.val]? = some o ∧ o.handler = handler ∧ o.taken = true) ∨
    s.claims[claim.val]? = none ∧ k.settledBy = some handler

theorem claimSlot_spec (ha : Accounts s) (handler : Nat) (claim : ClaimId)
    (h : s.claimSlot handler claim = some i) : ∃ k e, Claimed s handler claim i k e := by
  unfold Store.claimSlot at h
  cases hfind : s.calls.toList.find? (fun p => p.2.claim = some claim.val) with
  | none => simp only [hfind, Option.bind_eq_bind, Option.bind_none, reduceCtorEq] at h
  | some p =>
      have hp := List.mem_of_find?_eq_some hfind
      rw [Std.ExtTreeMap.mem_toList_iff_getElem?_eq_some] at hp
      have hminted : p.2.claim = some claim.val := by
        simpa only [decide_eq_true_eq] using List.find?_some hfind
      rcases ha.exists_at hp with ⟨e, hat⟩
      simp only [hfind, Option.bind_eq_bind, Option.bind_some] at h
      cases ho : s.claims[claim.val]? with
      | none =>
          simp only [ho] at h
          by_cases hby : p.2.settledBy = some handler
          · rw [if_pos hby, Option.some.injEq] at h
            subst h
            rcases (ha.slotOk hat).settled (by rw [hby]; exact Option.some_ne_none _) with ⟨o, hs⟩
            exact ⟨p.2, e, hat, hminted, ha.not_waiting hat o hs, Or.inr ⟨ho, hby⟩⟩
          · rw [if_neg hby] at h
            cases h
      | some owner =>
          simp only [ho] at h
          by_cases htaken : owner.taken = true
          · simp only [htaken, if_true, Option.some.injEq] at h
            by_cases hhandler : owner.handler = handler
            · rw [if_pos hhandler, Option.some.injEq] at h
              subst h
              refine ⟨p.2, e, hat, hminted, ?_, Or.inl ⟨owner, ho, hhandler, htaken⟩⟩
              rw [(ha.claimed_at hat claim.val owner hminted ho).1]
              exact (ha.balanced.taken claim.val owner ho).mp htaken
            · rw [if_neg hhandler] at h
              cases h
          · simp only [htaken, Bool.false_eq_true, if_false, reduceCtorEq] at h

theorem finish_total (ha : Accounts s) (hat : s.At i k e) (side : Side) (no : StreamNo)
    (hcaller : side = .caller → k.forgotten = false) :
    ∃ t ws answer, s.finish i side no = some (t, ws, answer) ∧
      Path s ws (finishEvents side k.sent no answer) t ∧
      (answer = .ok () → (k.stream no).finished = false) := by
  by_cases hproducer : Side.producer no = side
  · rcases finish_path ha hat side no hproducer hcaller with ⟨t, ws, heq, hpath⟩
    refine ⟨t, ws, _, heq, hpath, fun hok => ?_⟩
    unfold finishAnswer at hok
    split at hok
    · cases hok
    · cases hclosed : (k.stream no).closed side with
      | some closed => simp only [hclosed, reduceCtorEq] at hok
      | none => exact StreamState.finished_of_closed _ side hclosed
  · exact ⟨s, [], _, finish_foreign side no hproducer, Path.refl s, fun h => nomatch h⟩

theorem pull_total (ha : Accounts s) (hat : s.At i k e) (side : Side) (no : StreamNo) (cap : Nat)
    (hcaller : side = .caller → k.forgotten = false)
    (hheld : side = .provider → k.correlation ∉ s.pending) :
    ∃ t ws answer, s.pull i side no cap = some (t, ws, answer) ∧
      Path s ws (pullEvents side k.sent no answer) t ∧
      (Side.producer no ≠ side ∧ answer = (k.stream no).answer cap ∨
        Side.producer no = side ∧ answer = .error (.contract .unknownInteraction)) := by
  by_cases hproducer : Side.producer no = side
  · exact ⟨s, [], _, pull_foreign side no cap hproducer, Path.refl s, Or.inr ⟨hproducer, rfl⟩⟩
  · rcases pull_path ha hat side no cap hproducer hcaller hheld with ⟨t, ws, heq, hpath⟩
    exact ⟨t, ws, _, heq, hpath, Or.inl ⟨hproducer, rfl⟩⟩

theorem push_total (ha : Accounts s) (hat : s.At i k e) (side : Side) (no : StreamNo)
    (chunk : Bytes) (hcaller : side = .caller → k.forgotten = false)
    (hheld : side = .provider → k.correlation ∉ s.pending) :
    ∃ t ws answer, s.push i side no chunk = some (t, ws, answer) ∧
      Path s ws (pushEvents side k.sent no chunk answer) t ∧
      (Side.producer no = side ∧ answer = pushAnswer s k side no chunk ∨
        Side.producer no ≠ side ∧ answer = .error (.contract .unknownInteraction)) := by
  by_cases hproducer : Side.producer no = side
  · rcases push_path ha hat side no chunk hproducer hcaller hheld with ⟨t, ws, heq, hpath⟩
    exact ⟨t, ws, _, heq, hpath, Or.inl ⟨hproducer, rfl⟩⟩
  · exact ⟨s, [], _, push_foreign side no chunk hproducer, Path.refl s, Or.inr ⟨hproducer, rfl⟩⟩

theorem settleEvents_name (k : CallEntry) (id handler : Nat) (outcome : Except CallError Bytes) :
    settleEvents (k.name REPLY_STREAM) id handler outcome = settleEvents k id handler outcome := by
  have hstream : (k.name REPLY_STREAM).stream REPLY_STREAM = k.stream REPLY_STREAM :=
    CallEntry.stream_setStream k REPLY_STREAM _
  have hreleases : Store.releases (k.name REPLY_STREAM) outcome = Store.releases k outcome := rfl
  have hsent : (k.name REPLY_STREAM).sent = k.sent := rfl
  rw [settleEvents, settleEvents, hstream, hreleases, hsent]

/-- A settlement under a handler's claim, made on the reply stream: refused,
    or one settlement of the call the claim stands for. -/
theorem settle_claimed (ha : Accounts s) (handler : Nat) (claim : ClaimId)
    (h : Claimed s handler claim i k e) (hheld : s.claims.contains claim.val = true)
    (outcome : Except CallError Bytes) :
    (∃ t error, s.settle handler claim outcome = some (t, [], .error error) ∧
      Path s [] [] t) ∨
    ∃ t ws evs, s.settle handler claim outcome = some (t, ws, .ok ()) ∧ Path s ws evs t ∧
      (evs = [.finished claim.val] ∨ evs = settleEvents k claim.val handler outcome) := by
  rcases settle_path ha handler claim outcome with
    ⟨t, error, heq, hsame⟩ | ⟨t, ws, evs, k', e', heq, hpath, hsettles⟩
  · refine Or.inl ⟨t, error, heq, ?_⟩
    rcases hsame with rfl | rfl
    · exact Path.refl t
    · exact Path.single _ _ _ _ (Move.outside _ _ _ none (outside_settings s.limits false))
  · refine Or.inr ⟨t, ws, evs, heq, hpath, ?_⟩
    have hk : k' = k := by
      have hat' : s.At (Table.slot k'.correlation) k' e' := by
        rcases hsettles.held with hheld' | hheld' <;> exact hheld'.at_slot
      have hid' : k'.claim = some claim.val := by
        rcases hsettles.held with hheld' | hheld' <;> exact hheld'.minted
      have hslot := ha.balanced.claimInj _ _ _ _ claim.val (Store.line_of_at hat')
        (Store.line_of_at h.at_slot) hid' h.minted
      have hk' := hat'.1
      rw [hslot, h.at_slot.1, Option.some.injEq] at hk'
      exact hk'.symm
    rcases hsettles.events with ⟨_, hevs⟩ | ⟨_, hevs⟩
    · exact Or.inl hevs
    · exact Or.inr (hk ▸ hevs)

theorem Claimed.name (h : Claimed s handler claim i k e) (no : StreamNo) :
    Claimed (s.setCall i (k.name no)) handler claim i (k.name no) e where
  at_slot := ⟨OrdMap.getElem?_insert_self _ _ _, h.at_slot.2⟩
  minted := h.minted
  not_waiting := h.not_waiting
  holder := h.holder

/-- What the provider's end or abort does: on the reply stream of a held claim
    the settlement with `outcome`, when it is not refused. -/
def ClaimEnds (k : CallEntry) (id handler : Nat) (outcome : Except CallError Bytes)
    (answer : Except PushError Unit) (evs : List Event) : Prop :=
  (∃ error, answer = .error error) ∧ evs = [] ∨ evs = [.finished id] ∨
    evs = settleEvents k id handler outcome

theorem settleClosed_path (ha : Accounts s) (handler : Nat) (claim : ClaimId)
    (h : Claimed s handler claim i k e) (hheld : s.claims.contains claim.val = true)
    (closed : PushError) (outcome : Except CallError Bytes) :
    ∃ t ws answer evs,
      (((s.setCall i (k.name REPLY_STREAM)).settle handler claim outcome).bind fun r =>
        match r.2.2 with
        | .error error => some (r.1, r.2.1, Except.error (Store.pushError error))
        | .ok () => some (r.1, r.2.1, Except.error closed)) = some (t, ws, answer) ∧
      Path s ws evs t ∧ ClaimEnds k claim.val handler outcome answer evs := by
  have hname := name_path h.at_slot REPLY_STREAM
  rcases settle_claimed (hname.accounts ha) handler claim (h.name REPLY_STREAM) hheld outcome with
    ⟨t, error, heq, hpath⟩ | ⟨t, ws, evs, heq, hpath, hevs⟩
  · exact ⟨t, [], .error (Store.pushError error), [], by rw [heq, Option.bind_some],
      hname.trans hpath, Or.inl ⟨⟨_, rfl⟩, rfl⟩⟩
  · rw [settleEvents_name] at hevs
    exact ⟨t, ws, .error closed, evs, by rw [heq, Option.bind_some],
      hname.trans hpath, Or.inr hevs⟩

theorem endClaim_path (ha : Accounts s) (handler : Nat) (claim : ClaimId) (no : StreamNo)
    (h : Claimed s handler claim i k e) (hslot : s.claimSlot handler claim = some i) :
    ∃ t ws answer evs, s.endClaim handler claim no = some (t, ws, answer) ∧ Path s ws evs t ∧
      (no = REPLY_STREAM ∧ s.claims.contains claim.val = true ∧
          ClaimEnds k claim.val handler (endOutcome k) answer evs ∧
          ((∃ reply, endOutcome k = .ok reply) → (k.stream no).finished = false →
            evs = [] ∨ answer = .ok ()) ∨
        (no ≠ REPLY_STREAM ∨ s.claims.contains claim.val = false) ∧
          evs = finishEvents .provider k.sent no answer ∧
          (answer = .ok () → (k.stream no).finished = false)) := by
  unfold Store.endClaim
  simp only [hslot]
  by_cases hreply : (decide (no = REPLY_STREAM) && s.claims.contains claim.val) = true
  · rw [if_pos hreply]
    rw [Bool.and_eq_true, decide_eq_true_eq] at hreply
    rcases hreply with ⟨rfl, hheld⟩
    simp only [h.at_slot.1, Option.bind_eq_bind, Option.bind_some]
    by_cases hgone : k.forgotten = true
    · -- The caller refused the reply stream with its forget.
      have houtcome : endOutcome k = .error INTERRUPTED := if_pos hgone
      rw [houtcome]
      simp only [hgone, if_true]
      rcases settle_claimed ha handler claim h hheld (.error INTERRUPTED) with
        ⟨t, error, heq, hpath⟩ | ⟨t, ws, evs, heq, hpath, hevs⟩
      · refine ⟨t, [], .error (Store.pushError error), [], ?_, hpath, Or.inl ⟨trivial, hheld,
          Or.inl ⟨⟨_, rfl⟩, rfl⟩, fun _ _ => Or.inl rfl⟩⟩
        simp only [heq, Option.bind_some]
      · refine ⟨t, ws, .error (.failed INTERRUPTED), evs, ?_, hpath, Or.inl ⟨trivial, hheld,
          Or.inr hevs, fun hok _ => ?_⟩⟩
        · simp only [heq, Option.bind_some]
        · rcases hok with ⟨reply, hreply⟩
          cases hreply
    · simp only [hgone, Bool.false_eq_true, if_false]
      have hname := name_path h.at_slot REPLY_STREAM
      have hclaimed := h.name REPLY_STREAM
      have hau := hname.accounts ha
      -- The refusal of the reply stream is the outcome, when there is one.
      cases hclosed : (k.stream REPLY_STREAM).closed .provider with
      | none =>
          have houtcome : endOutcome k = .ok [] := by
            simp only [endOutcome, hgone, hclosed, Bool.false_eq_true, if_false]
          rw [houtcome]
          rcases settle_claimed hau handler claim hclaimed hheld (.ok []) with
            ⟨t, error, heq, hpath⟩ | ⟨t, ws, evs, heq, hpath, hevs⟩
          · refine ⟨t, [], .error (Store.pushError error), [], ?_, hname.trans hpath, Or.inl
              ⟨trivial, hheld, Or.inl ⟨⟨_, rfl⟩, rfl⟩, fun _ _ => Or.inl rfl⟩⟩
            simp only [heq, Option.bind_some]
          · rw [settleEvents_name] at hevs
            refine ⟨t, ws, .ok (), evs, ?_, hname.trans hpath, Or.inl ⟨trivial, hheld,
              Or.inr hevs, fun _ _ => Or.inr rfl⟩⟩
            simp only [heq, Option.bind_some]
      | some closed =>
          have hopen : (k.stream REPLY_STREAM).finished ≠ false := by
            intro hopen
            rw [StreamState.closed_of_finished _ _ hopen] at hclosed
            cases hclosed
          have houtcome : endOutcome k = _ := if_neg hgone
          rw [hclosed] at houtcome
          rcases settleClosed_path ha handler claim h hheld closed (endOutcome k) with
            ⟨t, ws, answer, evs, heq, hpath, hends⟩
          rw [houtcome] at heq hends ⊢
          exact ⟨t, ws, answer, evs, heq, hpath, Or.inl ⟨trivial, hheld, hends,
            fun _ h => absurd h hopen⟩⟩
  · rw [if_neg hreply]
    rcases finish_total ha h.at_slot .provider no Side.noConfusion with
      ⟨t, ws, answer, heq, hpath, hopen⟩
    refine ⟨t, ws, answer, _, heq, hpath, Or.inr ⟨?_, rfl, hopen⟩⟩
    rw [Bool.and_eq_true, decide_eq_true_eq, not_and_or, Bool.not_eq_true] at hreply
    exact hreply

theorem abortClaim_path (ha : Accounts s) (handler : Nat) (claim : ClaimId) (no : StreamNo)
    (error : CallError) (h : Claimed s handler claim i k e)
    (hslot : s.claimSlot handler claim = some i) :
    ∃ t ws answer evs, s.abortClaim handler claim no error = some (t, ws, answer) ∧
      Path s ws evs t ∧
      (no = REPLY_STREAM ∧ s.claims.contains claim.val = true ∧
          ClaimEnds k claim.val handler (.error error) answer evs ∨
        (no ≠ REPLY_STREAM ∨ s.claims.contains claim.val = false) ∧
          evs = abortEvents .provider k no) := by
  unfold Store.abortClaim
  simp only [hslot]
  by_cases hreply : (decide (no = REPLY_STREAM) && s.claims.contains claim.val) = true
  · rw [if_pos hreply]
    rw [Bool.and_eq_true, decide_eq_true_eq] at hreply
    rcases hreply with ⟨rfl, hheld⟩
    simp only [h.at_slot.1, Option.bind_eq_bind, Option.bind_some]
    have hname := name_path h.at_slot REPLY_STREAM
    have hau := hname.accounts ha
    rcases settle_claimed hau handler claim (h.name REPLY_STREAM) hheld (.error error) with
      ⟨t, refused, heq, hpath⟩ | ⟨t, ws, evs, heq, hpath, hevs⟩
    · refine ⟨t, [], .error (Store.pushError refused), [], ?_, hname.trans hpath,
        Or.inl ⟨trivial, hheld, Or.inl ⟨⟨_, rfl⟩, rfl⟩⟩⟩
      simp only [heq, Option.bind_some]
    · rw [settleEvents_name] at hevs
      refine ⟨t, ws, if (k.stream REPLY_STREAM).finished then .error .ended else .ok (), evs, ?_,
        hname.trans hpath, Or.inl ⟨trivial, hheld, Or.inr hevs⟩⟩
      simp only [heq, Option.bind_some]
  · rw [if_neg hreply]
    rcases abort_path ha h.at_slot .provider no error (fun h => nomatch h)
      (fun _ => h.not_waiting) with ⟨t, ws, heq, hpath⟩
    refine ⟨t, ws, _, _, heq, hpath, Or.inr ⟨?_, rfl⟩⟩
    rw [Bool.and_eq_true, decide_eq_true_eq, not_and_or, Bool.not_eq_true] at hreply
    exact hreply

/-! ### The registrations with a call -/

theorem waitOutcome_path (ha : Accounts s) (c : Correlation) (waker : Waker) :
    ∃ ws, Path s ws [] (s.waitOutcome c waker).1 ∧ ∀ w ∈ ws, w ∈ (s.waitOutcome c waker).2 := by
  unfold Store.waitOutcome
  by_cases hpending : s.forgottenPending c = true
  · rw [if_pos hpending]
    exact ⟨[], Path.refl s, List.forall_mem_nil _⟩
  rw [if_neg hpending]
  unfold Table.wakeOn
  cases hheld : s.table.held c with
  | none => exact ⟨[], Path.refl s, List.forall_mem_nil _⟩
  | some i =>
      rcases ha.at_of_held c hheld with ⟨k, e, hat, rfl⟩
      simp only [Option.bind_some, hat.2, Option.map_some]
      cases hs : e.state with
      | free => exact ⟨[], Path.refl s, List.forall_mem_nil _⟩
      | settled o => exact ⟨[], Path.refl s, List.forall_mem_nil _⟩
      | inFlight f =>
          cases f with
          | true => exact ⟨[], Path.refl s, List.forall_mem_nil _⟩
          | false =>
              have hmark := (ha.slotOk hat).marked false hs
              have hforgotten : k.forgotten = false := by
                simp only [Store.forgottenPending, ha.entry_eq hat, Option.any_some, decide_true,
                  Bool.true_and, Bool.not_eq_true] at hpending
                rw [hpending, Bool.not_false, Bool.and_true] at hmark
                exact hmark.symm
              have hmove := Move.edit s i k k e _ _ _ hat (Edit.waitOutcome k e waker hs hforgotten)
                Or.inl Or.inl
              rw [edit_same_calls hat] at hmove
              simp only [hs] at hmove
              exact ⟨_, Path.single _ _ _ _ hmove, fun w hw => hw⟩

theorem waitStream_path (ha : Accounts s)
    (hdeferred : ∀ (i : Nat) (k : CallEntry) (e : Entry) (o : Outcome), s.At i k e →
      k.forgotten = true → e.state = .settled o → k.pendingForget = true)
    (c : Correlation) (no : StreamNo) (waker : Waker) :
    ∃ ws, Path s ws [] (s.waitStream c no waker).1 ∧
      ∀ w ∈ ws, w ∈ (s.waitStream c no waker).2 := by
  unfold Store.waitStream
  by_cases hpending : s.forgottenPending c = true
  · rw [if_pos hpending]
    exact ⟨[], Path.refl s, List.forall_mem_nil _⟩
  rw [if_neg hpending]
  unfold Table.wakeOnStream
  cases hheld : s.table.held c with
  | none => exact ⟨[], Path.refl s, List.forall_mem_nil _⟩
  | some i =>
      rcases ha.at_of_held c hheld with ⟨k, e, hat, rfl⟩
      simp only [Option.bind_some, hat.2, Option.map_some]
      have hnot : k.pendingForget = false := by
        simpa only [Store.forgottenPending, ha.entry_eq hat, Option.any_some, decide_true,
          Bool.true_and, Bool.not_eq_true] using hpending
      have hstore : k.forgotten = false → ∃ ws, Path s ws []
          { s with table := s.table.put i { e with streams := (e.streams.store no waker).1 } } ∧
          ∀ w ∈ ws, w ∈ (e.streams.store no waker).2.toList := by
        intro hforgotten
        have hmove := Move.edit s i k k e _ _ _ hat (Edit.waitStream k e no waker hforgotten)
          Or.inl Or.inl
        rw [edit_same_calls hat] at hmove
        exact ⟨_, Path.single _ _ _ _ hmove, fun w hw => hw⟩
      cases hs : e.state with
      | free => exact ⟨[], Path.refl s, List.forall_mem_nil _⟩
      | settled o =>
          have hforgotten : k.forgotten = false := by
            by_contra hforgotten
            rw [hdeferred i k e o hat (Bool.not_eq_false _ ▸ hforgotten) hs] at hnot
            cases hnot
          simp only [hs] at hstore
          exact hstore hforgotten
      | inFlight f =>
          cases f with
          | true => exact ⟨[], Path.refl s, List.forall_mem_nil _⟩
          | false =>
              have hmark := (ha.slotOk hat).marked false hs
              rw [hnot, Bool.not_false, Bool.and_true] at hmark
              simp only [hs] at hstore
              exact hstore hmark.symm

theorem waitClaimStream_path (ha : Accounts s) (handler : Nat) (claim : ClaimId) (no : StreamNo)
    (waker : Waker) :
    ∃ t ws ws', s.waitClaimStream handler claim no waker = some (t, ws') ∧ Path s ws [] t ∧
      ∀ w ∈ ws, w ∈ ws' := by
  unfold Store.waitClaimStream
  cases hslot : s.claimSlot handler claim with
  | none => exact ⟨s, [], [waker], rfl, Path.refl s, List.forall_mem_nil _⟩
  | some i =>
      rcases claimSlot_spec ha handler claim hslot with ⟨k, e, h⟩
      have hat := h.at_slot
      simp only [hat.1, Option.bind_eq_bind, Option.bind_some]
      by_cases hforgotten : k.forgotten = true
      · rw [if_pos hforgotten]
        exact ⟨s, [], [waker], rfl, Path.refl s, List.forall_mem_nil _⟩
      rw [if_neg hforgotten]
      by_cases hfinished : (k.stream no).finished = true
      · rw [if_pos hfinished]
        exact ⟨_, [], [waker], rfl, name_path hat no, List.forall_mem_nil _⟩
      · rw [if_neg hfinished]
        have hmove := Move.edit s i k _ e e _ _ hat
          (Edit.waitClaimStream k e no waker (Bool.not_eq_true _ ▸ hforgotten)
            (Bool.not_eq_true _ ▸ hfinished)) Or.inl Or.inl
        rw [edit_same_table hat] at hmove
        exact ⟨_, _, _, rfl, Path.single _ _ _ _ hmove, fun w hw => hw⟩

end Loopback

end Ridl
