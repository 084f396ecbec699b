import Ridl.Loopback.Observe

/-!
# What an Operation Can Do

Every operation of the store is a sequence of a few moves, and every property
of the store is proved by going through the moves once.

A `Change` is what one side does to one stream. An `Edit` is what happens to
one call, in its slot of the table and in its entry. A `Move` is what happens
to the store: one call is edited, sent, presented, settled, given back or
dropped, or only the handles change. A move names the wakers it hands back
and the events it makes, and the events are what the later modules count.

A `Path` is a sequence of moves. `Path.induct` is the one induction: what
every move keeps, every path keeps.

## Theorems

* `Edit.same`: What no edit of a call changes.
* `Path.trans`: Paths follow one another.
-/

namespace Ridl

namespace Loopback

open Library Correlate

/-- A handle, by the waker it keeps: a source's, a handler's or a caller's. -/
inductive HandleCell
  | event (id : Nat)
  | claim (id : Nat)
  | slot (id : Nat)
deriving DecidableEq

/-- What a move did. A call is named by its place in send order, which no
    other call ever has. -/
inductive Event
  /-- The side changed the streams of the call. -/
  | acts (side : Side) (call : Nat)
  | accepted (call : Nat) (no : StreamNo) (chunk : Bytes)
  | pulled (call : Nat) (no : StreamNo) (chunk : Bytes)
  /-- The producer ended the stream, or an `Ok` settlement did. -/
  | ended (call : Nat) (no : StreamNo)
  /-- The receiver gave up the stream's unread chunks. -/
  | cleared (call : Nat) (no : StreamNo)
  /-- The provider gave up the unread chunks of every stream parameter with
      its settlement. -/
  | released (call : Nat)
  /-- The provider is gone, and the unread chunks of every stream parameter
      with it. -/
  | abandoned (call : Nat)
  /-- The caller sent the call under the correlation. -/
  | sent (call caller : Nat) (c : Correlation)
  | presented (claim handler : Nat)
  /-- The claim is over: its call was settled, or is gone. -/
  | finished (claim : Nat)
  /-- The claim is no longer held, and its call waits. -/
  | returned (claim : Nat)
  /-- The handler settled the call. -/
  | answered (call handler : Nat)
  /-- The settled call, whose forget waits, has no provider left. -/
  | orphaned (c : Correlation)
  /-- The handle was dropped. -/
  | closed (handle : HandleCell)
deriving DecidableEq

/-- What `side` does to stream `no` of the call, when the other side is woken
    for it. -/
inductive Change (call : Nat) (no : StreamNo) (side : Side) :
    StreamState → List Event → StreamState → Prop
  | pull (st : StreamState) (chunk : Bytes) (rest : List Bytes)
      (hside : Side.producer no ≠ side) (hchunks : st.chunks = chunk :: rest) :
      Change call no side st [.pulled call no chunk] { st with chunks := rest }
  | push (st : StreamState) (chunk : Bytes) (hside : Side.producer no = side)
      (hopen : st.closed side = none) (hroom : chunk = [] ∨ st.full = false) :
      Change call no side st [.accepted call no chunk] { st with chunks := st.chunks ++ [chunk] }
  | finish (st : StreamState) (hside : Side.producer no = side)
      (hopen : st.closed side = none) :
      Change call no side st [.ended call no] { st with ended := true }
  | stop (st : StreamState) (error : CallError) (drained : Bool) (hopen : st.finished = false) :
      Change call no side st
        (if Side.producer no ≠ side then [.cleared call no] else [])
        { st with
          stopped := some (error, side)
          chunks := if Side.producer no ≠ side then [] else st.chunks
          drained := drained }

/-- What a receiver does to a stream that takes no more, which the producer
    does not see. -/
inductive Tidy (call : Nat) (no : StreamNo) : StreamState → List Event → StreamState → Prop
  | clear (st : StreamState) (drained : Bool) (hclosed : st.finished = true) :
      Tidy call no st [.cleared call no] { st with chunks := [], drained := drained }
  | drain (st : StreamState) (hclosed : st.finished = true) (hempty : st.chunks = []) :
      Tidy call no st [] { st with drained := true }

/-- Every stream finished and no waker of the provider stored. -/
def CallEntry.Quiet (k : CallEntry) : Prop :=
  ∀ (no : StreamNo) (st : StreamState), k.streams[no]? = some st → st.finished = true ∧ st.claimWaker = none

namespace CallEntry

theorem quiet_stream (k : CallEntry) (h : k.Quiet) (hk : k.forgotten = true) (no : StreamNo) :
    (k.stream no).finished = true ∧ (k.stream no).claimWaker = none := by
  rcases stream_cases k no with hs | ⟨_, hs⟩
  · exact h no _ hs
  · rw [hs]
    exact ⟨fresh_finished k no hk, fresh_claimWaker k no⟩

theorem quiet_setStream (k : CallEntry) (no : StreamNo) (st : StreamState) (h : k.Quiet)
    (hf : st.finished = true) (hw : st.claimWaker = none) : (k.setStream no st).Quiet := by
  intro no' st' hst
  rw [getElem?_setStream] at hst
  by_cases hno : no = no'
  · rw [if_pos hno, Option.some.injEq] at hst
    rw [← hst]
    exact ⟨hf, hw⟩
  · rw [if_neg hno] at hst
    exact h no' st' hst

end CallEntry

/-- The change of stream `no` to `st` by `side`, with the other side's waker
    taken. -/
def handOver (side : Side) (k : CallEntry) (e : Entry) (no : StreamNo) (st : StreamState) :
    CallEntry × Entry × Option Waker :=
  match side with
  | .caller => (k.setStream no { st with claimWaker := none }, e, st.claimWaker)
  | .provider =>
      (k.setStream no st, { e with streams := (e.streams.take no).1 }, (e.streams.take no).2)

/-- Every stream stopped by the caller unless it finished, with the
    provider's wakers taken. -/
def CallEntry.interrupted (k : CallEntry) : CallEntry × List Waker :=
  let (streams, woken) := sweep
    (fun _ (stream : StreamState) =>
      ({ stream with
          stopped := if stream.finished then stream.stopped else some (INTERRUPTED, .caller)
          claimWaker := none },
        stream.claimWaker.toList))
    k.streams
  ({ k with streams := streams }, woken)

theorem CallEntry.getElem?_interrupted (k : CallEntry) (no : StreamNo) :
    k.interrupted.1.streams[no]? = k.streams[no]?.map (fun st =>
      { st with
        stopped := if st.finished then st.stopped else some (INTERRUPTED, .caller)
        claimWaker := none }) := by
  simp only [interrupted, getElem?_sweep]

/-- What happens to one call: its entry and its slot of the table. The wakers
    handed back are at least those the edit names. -/
inductive Edit :
    CallEntry → Entry → List Waker → List Event → CallEntry → Entry → Prop
  | name (k : CallEntry) (e : Entry) (no : StreamNo) : Edit k e [] [] (k.name no) e
  | use (k : CallEntry) (e : Entry) :
      Edit k e [] [] { k with providerUsedStreams := true } e
  | change (k : CallEntry) (e : Entry) (no : StreamNo) (side : Side) (evs : List Event)
      (st : StreamState) (hcaller : side = .caller → k.forgotten = false)
      (hused : side = .provider → k.providerUsedStreams = true ∨ evs = [.ended k.sent no])
      (h : Change k.sent no side (k.stream no) evs st) :
      Edit k e (handOver side k e no st).2.2.toList (.acts side k.sent :: evs)
        (handOver side k e no st).1 (handOver side k e no st).2.1
  | tidy (k : CallEntry) (e : Entry) (no : StreamNo) (evs : List Event) (st : StreamState)
      (h : Tidy k.sent no (k.stream no) evs st) :
      Edit k e [] (.acts (Side.producer no).other k.sent :: evs) (k.setStream no st) e
  | interrupt (k : CallEntry) (e : Entry) (hk : k.forgotten = false) :
      Edit k e k.interrupted.2 [.acts .caller k.sent] k.interrupted.1 e
  | mark (k : CallEntry) (e : Entry) (hs : e.state = .inFlight false) (hq : k.Quiet) :
      Edit k e (e.waker.toList ++ e.streams.wakers)
        (if k.forgotten then [] else [.acts .caller k.sent])
        { k with forgotten := true, pendingForget := false }
        { e with state := .inFlight true, waker := none, streams := Cells.NO_STREAMS }
  | deferInFlight (k : CallEntry) (e : Entry) (hk : k.forgotten = false)
      (hs : e.state = .inFlight false) (hq : k.Quiet) :
      Edit k e ((e.waker.filter (fun w => !w.willWake .noop)).toList ++ e.streams.wakers)
        [.acts .caller k.sent]
        { k with forgotten := true, pendingForget := true }
        { e with waker := some .noop, streams := Cells.NO_STREAMS }
  | deferSettled (k : CallEntry) (e : Entry) (o : Outcome) (hk : k.forgotten = false)
      (hs : e.state = .settled o) (hq : k.Quiet) :
      Edit k e (.noop :: e.streams.wakers) [.acts .caller k.sent]
        { k with forgotten := true, pendingForget := true }
        { e with streams := Cells.NO_STREAMS }
  | quiet (k : CallEntry) (e : Entry) :
      Edit k e k.takeClaimWakers.2 [] k.takeClaimWakers.1 e
  | close (k : CallEntry) (e : Entry) (o : Outcome) (hs : e.state = .settled o) :
      Edit k e ((Store.closedEntry k).2 ++ e.streams.wakers)
        ([.acts .provider k.sent, .abandoned k.sent] ++
          if k.pendingForget then [.orphaned k.correlation] else [])
        (Store.closedEntry k).1 { e with streams := Cells.NO_STREAMS }
  | waitOutcome (k : CallEntry) (e : Entry) (w : Waker) (hs : e.state = .inFlight false)
      (hk : k.forgotten = false) :
      Edit k e (store e.waker w).2.toList [] k { e with waker := (store e.waker w).1 }
  | waitStream (k : CallEntry) (e : Entry) (no : StreamNo) (w : Waker) (hk : k.forgotten = false) :
      Edit k e (e.streams.store no w).2.toList []
        k { e with streams := (e.streams.store no w).1 }
  | waitClaimStream (k : CallEntry) (e : Entry) (no : StreamNo) (w : Waker)
      (hk : k.forgotten = false) (hopen : (k.stream no).finished = false) :
      Edit k e (store (k.stream no).claimWaker w).2.toList []
        (k.setStream no { k.stream no with claimWaker := (store (k.stream no).claimWaker w).1 }) e

/-- How a call in flight is settled: by the handler that holds it, or at that
    handler's drop. -/
inductive Verdict (handler : Nat) :
    CallEntry → Outcome → List Waker → List Event → CallEntry → Prop
  | settled (k : CallEntry) (outcome : Except CallError Bytes) :
      Verdict handler k (outcome.map (fun _ => ())) (Store.settledEntry k handler outcome).2
        (.answered k.sent handler ::
          (if outcome.toOption.isSome && !(k.stream REPLY_STREAM).finished then
            [.ended k.sent REPLY_STREAM] else []) ++
          (if Store.releases k outcome then [.released k.sent] else []))
        (Store.settledEntry k handler outcome).1
  | interrupted (k : CallEntry) (hk : k.forgotten = false) :
      Verdict handler k (.error INTERRUPTED) (Store.interruptedEntry k).2 [.abandoned k.sent]
        (Store.interruptedEntry k).1

namespace Store

/-- Slot `i` holds the call with entry `k` and table entry `e`. -/
def At (s : Store) (i : Nat) (k : CallEntry) (e : Entry) : Prop :=
  s.calls[i]? = some k ∧ s.table.slots[i]? = some e

/-- The store with the call in slot `i` edited. -/
def edit (s : Store) (i : Nat) (k : CallEntry) (e : Entry) : Store :=
  { s with table := s.table.put i e, calls := s.calls.insert i k }

/-- The claims without the one of a call, when it has one. -/
def dropClaim (s : Store) (claim : Option Nat) : OrdMap Nat ClaimOwner :=
  match claim with
  | none => s.claims
  | some id => s.claims.erase id

/-- The callers with every `Slot` waker taken. -/
def callersWoken (s : Store) : OrdMap Nat Waiters :=
  (sweep (fun _ (waiters : Waiters) => ((waiters.take .slot).1, (waiters.take .slot).2.toList))
    s.callers).1

/-- The handlers with the `Claim` waker of each that serves `key` taken. -/
def handlersWoken (s : Store) (key : Key) : OrdMap Nat HandlerState :=
  (s.wakeHandlersServing key).1.handlers

/-- A handler holds the call's claim, or settled it. -/
def HeldOrSettled (s : Store) (k : CallEntry) : Prop :=
  (∃ id owner, k.claim = some id ∧ s.claims[id]? = some owner) ∨ k.settledBy.isSome = true

/-- The claim of a call, when a handler holds it. -/
def heldClaim (s : Store) (k : CallEntry) : Option Nat :=
  k.claim.filter (fun id => s.claims.contains id)

def handleWaker (s : Store) : HandleCell → Option Waker
  | .event id => s.sources[id]?.bind (·.waiters.event)
  | .claim id => s.handlers[id]?.bind (·.waiters.claim)
  | .slot id => s.callers[id]?.bind (·.slot)

/-- Every handle's number was given, and no handle waits for what is already
    there: a stored `Event` waker means an empty queue, a stored `Claim` waker
    that no waiting call is served, and a stored `Slot` waker that the table is
    full. -/
structure Handles (s : Store) : Prop where
  sourceLt : ∀ (id : Nat) (state : SourceState), s.sources[id]? = some state →
    id < s.nextSourceId
  callerLt : ∀ (id : Nat) (waiters : Waiters), s.callers[id]? = some waiters →
    id < s.nextCallerId
  handlerLt : ∀ (id : Nat) (state : HandlerState), s.handlers[id]? = some state →
    id < s.nextHandlerId
  event : ∀ (id : Nat) (state : SourceState), s.sources[id]? = some state →
    state.waiters.event ≠ none → state.queue = []
  claim : ∀ (id : Nat) (state : HandlerState), s.handlers[id]? = some state →
    state.waiters.claim ≠ none → ∀ c ∈ s.pending, ∀ k, s.entry c = some k →
      state.serves k.key = false
  slot : ∀ (id : Nat) (waiters : Waiters), s.callers[id]? = some waiters →
    waiters.slot ≠ none → ∀ (i : Nat) (e : Entry), s.table.slots[i]? = some e → e.state ≠ .free

/-- Only the handles, the limits or the injected fault change: no call does,
    the handles stay in order, no handle goes but the one closed, and each
    handle's waker stays or is handed back. -/
structure Outside (s t : Store) (ws : List Waker) (closed : Option HandleCell) : Prop where
  table : t.table = s.table
  calls : t.calls = s.calls
  pending : t.pending = s.pending
  nextSent : t.nextSent = s.nextSent
  claims : t.claims = s.claims
  nextClaimId : t.nextClaimId = s.nextClaimId
  callers : ∀ id, s.callers[id]? ≠ none → t.callers[id]? ≠ none ∨ closed = some (.slot id)
  handlers : ∀ id, s.handlers[id]? ≠ none → t.handlers[id]? ≠ none ∨ closed = some (.claim id)
  handles : s.Handles → t.Handles
  kept : ∀ cell w, s.handleWaker cell = some w → t.handleWaker cell = some w ∨ w ∈ ws

end Store

/-- What happens to the store. -/
inductive Move : Store → List Waker → List Event → Store → Prop
  | outside (s t : Store) (ws : List Waker) (closed : Option HandleCell)
      (h : s.Outside t ws closed) : Move s ws (closed.toList.map .closed) t
  | edit (s : Store) (i : Nat) (k k' : CallEntry) (e e' : Entry) (ws : List Waker)
      (evs : List Event) (hat : s.At i k e) (h : Edit k e ws evs k' e')
      (hheld : k'.forgotten = true → k.forgotten = true ∨ s.HeldOrSettled k)
      (hused : k'.providerUsedStreams = true →
        k.providerUsedStreams = true ∨ k.correlation ∉ s.pending) :
      Move s ws evs (s.edit i k' e')
  | send (s : Store) (i : Nat) (e : Entry) (k : CallEntry) (ws : List Waker)
      (he : s.table.slots[i]? = some e) (hfree : e.state = .free)
      (hk : k.correlation = e.correlation i) (hsent : k.sent = s.nextSent)
      (hnew : k.forgotten = false ∧ k.claim = none ∧ k.settledBy = none ∧ k.streams = ∅ ∧
        k.pendingForget = false ∧ k.parametersReleased = false ∧ k.providerUsedStreams = false)
      (hws : ∀ w, w ∈ (s.wakeHandlersServing k.key).2 → w ∈ ws) :
      Move s ws [.sent k.sent k.caller k.correlation]
        { s with
          table := s.table.put i
            { e with state := .inFlight false, reservation := 0, streams := Cells.NO_STREAMS }
          nextSent := s.nextSent + 1
          calls := s.calls.insert i k
          pending := s.pending ++ [k.correlation]
          handlers := s.handlersWoken k.key }
  /-- A handler is presented a waiting call; its claim id is minted then. -/
  | present (s : Store) (i : Nat) (k : CallEntry) (e : Entry) (id handler : Nat) (taken : Bool)
      (hat : s.At i k e) (hwait : k.correlation ∈ s.pending)
      (hid : k.claim = some id ∨ k.claim = none ∧ id = s.nextClaimId) :
      Move s [] [.presented id handler]
        { s with
          nextClaimId := if k.claim = none then s.nextClaimId + 1 else s.nextClaimId
          calls := s.calls.insert i { k with claim := some id }
          pending := if taken then s.pending.erase k.correlation else s.pending
          claims := s.claims.insert id { call := k.correlation, handler, taken } }
  | record (s : Store) (i : Nat) (k k' : CallEntry) (e : Entry) (o : Outcome) (id : Nat)
      (owner : ClaimOwner) (ws : List Waker) (evs : List Event) (hat : s.At i k e)
      (hs : e.state = .inFlight false) (hid : k.claim = some id)
      (hclaim : s.claims[id]? = some owner) (h : Verdict owner.handler k o ws evs k') :
      Move s (ws ++ e.waker.toList ++ e.streams.wakers)
        (.acts .provider k.sent :: .finished id :: evs)
        { s with
          table := s.table.put i
            { e with state := .settled o, waker := none, streams := Cells.NO_STREAMS }
          calls := s.calls.insert i k'
          pending := s.pending.erase k.correlation
          claims := s.claims.erase id }
  /-- An offered claim goes back, and its call keeps waiting. -/
  | unoffer (s : Store) (i : Nat) (k : CallEntry) (e : Entry) (id : Nat) (owner : ClaimOwner)
      (hat : s.At i k e) (hid : k.claim = some id) (hclaim : s.claims[id]? = some owner)
      (hoffered : owner.taken = false) (hforgotten : k.forgotten = false) :
      Move s [] [.returned id] { s with claims := s.claims.erase id }
  /-- A taken claim goes back, and its call waits again. -/
  | giveBack (s : Store) (i : Nat) (k : CallEntry) (e : Entry) (id : Nat) (owner : ClaimOwner)
      (pending : List Correlation) (ws : List Waker) (hat : s.At i k e)
      (hid : k.claim = some id) (hclaim : s.claims[id]? = some owner)
      (htaken : owner.taken = true) (hunused : k.providerUsedStreams = false)
      (hforgotten : k.forgotten = false)
      (hpending : s.insertBySent k.correlation k.sent s.pending = some pending)
      (hws : ∀ w, w ∈ (s.wakeHandlersServing k.key).2 → w ∈ ws) :
      Move s ws [.returned id]
        { s with
          claims := s.claims.erase id
          pending := pending
          handlers := s.handlersWoken k.key }
  /-- The call in slot `i` goes, with all that is kept for it. -/
  | drop (s : Store) (i : Nat) (k : CallEntry) (e : Entry) (ws : List Waker) (evs : List Event)
      (hat : s.At i k e)
      (hwaker : ∀ w, e.waker = some w → w ∈ ws)
      (hstreams : ∀ w, w ∈ e.streams.wakers → w ∈ ws)
      (hclaims : ∀ (no : StreamNo) (st : StreamState) w, k.streams[no]? = some st → st.claimWaker = some w →
        w ∈ ws)
      (hslots : ∀ (id : Nat) (waiters : Waiters) w, s.callers[id]? = some waiters →
        waiters.slot = some w → w ∈ ws)
      (hevs : evs = (s.heldClaim k).toList.map .finished) :
      Move s ws evs
        { s with
          table := s.table.put i { e.reclaimed with streams := Cells.NO_STREAMS }
          calls := s.calls.erase i
          pending := s.pending.erase k.correlation
          claims := s.dropClaim k.claim
          callers := s.callersWoken }

/-- A sequence of moves. -/
inductive Path : Store → List Waker → List Event → Store → Prop
  | refl (s : Store) : Path s [] [] s
  | snoc (s t u : Store) (ws ws' : List Waker) (evs evs' : List Event)
      (h : Path s ws evs t) (hm : Move t ws' evs' u) : Path s (ws ++ ws') (evs ++ evs') u

namespace Path

theorem single (s t : Store) (ws : List Waker) (evs : List Event) (h : Move s ws evs t) :
    Path s ws evs t := by
  simpa only [List.nil_append] using Path.snoc s s t [] ws [] evs (Path.refl s) h

theorem trans {s t u : Store} {ws ws' : List Waker} {evs evs' : List Event}
    (h : Path s ws evs t) (h' : Path t ws' evs' u) : Path s (ws ++ ws') (evs ++ evs') u := by
  induction h' with
  | refl => simpa only [List.append_nil] using h
  | snoc a b ws₁ ws₂ evs₁ evs₂ _ hm ih =>
      simpa only [List.append_assoc] using Path.snoc _ _ _ _ _ _ _ ih hm

end Path

end Loopback

end Ridl
