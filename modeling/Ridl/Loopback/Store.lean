import Mathlib.Data.Finset.Insert
import Mathlib.Data.Prod.Basic
import Ridl.Library.Map
import Ridl.Runtime.Correlate

/-!
# The Loopback Store

The one store every handle of the in-process runtime shares: the event
sources, the call table with what is kept beside it by slot, the calls waiting
to be presented, the presented claims and the handlers.

A call is in the table from its send until its slot is reclaimed, and its
`CallEntry` is in `calls` for as long. While it waits it is in `pending`; when
a handler is presented it, `claims` names the handler that holds it. A claim
offered with too small a buffer is in both. A taken claim has left `pending`.

An operation hands back the wakers to wake in place of waking them, in the
order it would. An operation that reaches a branch the source calls
unreachable answers `none`.

The signals, the `fixed` values and the checks of the store share nothing with
the calls or the events and are not part of this state.

## Main definitions

* `Store.admitPayload`: Whether a payload is within its member's limit.
-/

namespace Ridl

namespace Loopback

open Library Correlate

/-- The number of slots of the call table. -/
def SLOTS : Nat := 16

/-- The number of non-empty chunks one stream holds. -/
def STREAM_WINDOW : Nat := 4

/-- The outcome a forget records on every stream of the call. -/
def INTERRUPTED : CallError := .transport .interrupted

/-- The caller, which holds the correlation, or the provider, which holds the
    claim. -/
inductive Side
  | caller
  | provider
deriving DecidableEq, Repr

namespace Side

/-- The side that pushes to stream `s`. -/
def producer (s : StreamNo) : Side := if s = REPLY_STREAM then .provider else .caller

def other : Side → Side
  | .caller => .provider
  | .provider => .caller

end Side

/-- One stream of one call. The caller's waker is in the table; the
    provider's is here. -/
structure StreamState where
  /-- The chunks pushed and not yet pulled. -/
  chunks : List Bytes
  /-- `true` once the producer ended the stream. -/
  ended : Bool
  /-- The outcome the stream stopped with and the side that stopped it. -/
  stopped : Option (CallError × Side)
  claimWaker : Option Waker
  /-- `true` once the provider pulled `End` or `Failed`. -/
  drained : Bool
deriving DecidableEq

namespace StreamState

def empty : StreamState :=
  { chunks := [], ended := false, stopped := none, claimWaker := none, drained := false }

/-- Whether the window has no room for another non-empty chunk. -/
def full (st : StreamState) : Bool :=
  STREAM_WINDOW ≤ (st.chunks.filter (fun chunk => !chunk.isEmpty)).length

/-- What an operation of `side` answers when the stream takes no more. -/
def closed (st : StreamState) (side : Side) : Option PushError :=
  match st.stopped with
  | some (error, stopper) => if stopper ≠ side then some (.failed error) else some .ended
  | none => if st.ended then some .ended else none

def finished (st : StreamState) : Bool := st.ended || st.stopped.isSome

/-- A stream parameter the provider is done with: its unread chunks are
    dropped, and it stops unless it already finished. -/
def release (st : StreamState) : StreamState :=
  { st with
    chunks := []
    stopped := if st.finished then st.stopped else some (INTERRUPTED, .provider)
    drained := true }

/-- The reply stream after its call settled: ended or stopped, after the
    chunks already pushed, unless it had finished. -/
def settled (st : StreamState) (outcome : Except CallError Bytes) : StreamState :=
  if st.finished then st
  else match outcome with
    | .ok _ => { st with ended := true }
    | .error error => { st with stopped := some (error, .provider) }

end StreamState

/-- One occurrence in one source's queue. -/
structure QueuedEvent where
  iface : InterfaceNo
  ord : Ordinal
  bytes : Bytes
  envelope : Envelope
  trace : Option TraceContext
deriving DecidableEq

/-- One source's subscriptions, its queue and its waiter. -/
structure SourceState where
  subscribed : Finset Key
  queue : List QueuedEvent
  waiters : Waiters

/-- One handler's served set and its waiter. -/
structure HandlerState where
  served : List Key
  waiters : Waiters
deriving DecidableEq

/-- A handler that served nothing serves every member. -/
def HandlerState.serves (h : HandlerState) (key : Key) : Bool :=
  h.served.isEmpty || h.served.contains key

/-- A presented claim: its call, the handler holding it, and whether the
    handler took it. -/
structure ClaimOwner where
  call : Correlation
  handler : Nat
  taken : Bool
deriving DecidableEq

inductive CallKind
  | command
  | query
deriving DecidableEq, Repr

def CallKind.kind : CallKind → Kind
  | .command => .command
  | .query => .query

/-- What is kept for one sent call, by its slot in the table. -/
structure CallEntry where
  correlation : Correlation
  /-- The caller that sent the call. -/
  caller : Nat
  kind : CallKind
  iface : InterfaceNo
  ord : Ordinal
  args : Bytes
  envelope : Envelope
  trace : Option TraceContext
  /-- The call's place in send order. -/
  sent : Nat
  /-- The bytes of a successful settlement. -/
  reply : Bytes
  /-- `true` once the caller forgot the call while a handler held it. -/
  forgotten : Bool
  /-- The claim id minted when the call was first presented. -/
  claim : Option Nat
  /-- The handler that settled the claim. -/
  settledBy : Option Nat
  streams : OrdMap StreamNo StreamState
  /-- `true` while the caller's forget waits for the provider. -/
  pendingForget : Bool
  /-- `true` once the stream parameters are released. -/
  parametersReleased : Bool
  /-- `true` once the provider moved one of the call's streams. -/
  providerUsedStreams : Bool

namespace CallEntry

def key (k : CallEntry) : Key := (k.iface, k.ord)

/-- The state a stream first named now starts in. -/
def fresh (k : CallEntry) (s : StreamNo) : StreamState :=
  let stream := { StreamState.empty with
    stopped := if k.forgotten then some (INTERRUPTED, .caller) else none }
  if k.parametersReleased && s != REPLY_STREAM then stream.release else stream

/-- Stream `s` of the call, made empty when nothing has named it yet. -/
def stream (k : CallEntry) (s : StreamNo) : StreamState := k.streams[s]?.getD (k.fresh s)

/-- The call with stream `s` in state `st`. -/
def setStream (k : CallEntry) (s : StreamNo) (st : StreamState) : CallEntry :=
  { k with streams := k.streams.insert s st }

/-- Names stream `s`, which gives it an entry. -/
def name (k : CallEntry) (s : StreamNo) : CallEntry := k.setStream s (k.stream s)

/-- Releases the stream parameters, and hands back the provider's waker of
    each. -/
def releaseParameters (k : CallEntry) : CallEntry × List Waker :=
  let (streams, woken) := sweep
    (fun no (stream : StreamState) =>
      if no ≠ REPLY_STREAM then
        ({ stream.release with claimWaker := none }, stream.claimWaker.toList)
      else (stream, []))
    k.streams
  ({ k with parametersReleased := true, streams := streams }, woken)

/-- Whether the provider still has a stream parameter to pull to its end. -/
def undrained (k : CallEntry) : Bool :=
  k.streams.toList.any (fun p => p.1 != REPLY_STREAM && !p.2.drained)

/-- Takes the provider's waker of every stream. -/
def takeClaimWakers (k : CallEntry) : CallEntry × List Waker :=
  let (streams, woken) := sweep
    (fun _ (stream : StreamState) =>
      ({ stream with claimWaker := none }, stream.claimWaker.toList))
    k.streams
  ({ k with streams := streams }, woken)

end CallEntry

namespace StreamState

theorem finished_of_closed (st : StreamState) (side : Side) (h : st.closed side = none) :
    st.finished = false := by
  unfold closed at h
  unfold finished
  cases hs : st.stopped with
  | none =>
      rw [hs] at h
      cases he : st.ended with
      | false => rfl
      | true => simp only [he, if_true, reduceCtorEq] at h
  | some p =>
      rw [hs] at h
      simp only at h
      split at h <;> exact absurd h (by simp only [reduceCtorEq, not_false_eq_true])

theorem closed_of_finished (st : StreamState) (side : Side) (h : st.finished = false) :
    st.closed side = none := by
  simp only [finished, Bool.or_eq_false_iff, Option.isSome_eq_false_iff,
    Option.isNone_iff_eq_none] at h
  simp only [closed, h, Bool.false_eq_true, if_false]

theorem finished_settled (st : StreamState) (outcome : Except CallError Bytes) :
    (st.settled outcome).finished = true := by
  unfold settled
  cases h : st.finished with
  | true => simp only [if_true, h]
  | false =>
      cases outcome with
      | ok => rfl
      | error => simp only [finished, Bool.false_eq_true, if_false, Option.isSome_some, Bool.or_true]

theorem claimWaker_settled (st : StreamState) (outcome : Except CallError Bytes) :
    (st.settled outcome).claimWaker = st.claimWaker := by
  unfold settled
  cases st.finished <;> cases outcome <;> rfl

theorem finished_release (st : StreamState) : st.release.finished = true := by
  unfold release
  cases h : st.finished with
  | true =>
      simp only [if_true]
      simpa only [finished] using h
  | false => simp only [finished, Bool.false_eq_true, if_false, Option.isSome_some, Bool.or_true]

end StreamState

namespace CallEntry

/-- The two entries are of one call: what the send recorded and the claim id
    are the same. -/
structure Same (k k' : CallEntry) : Prop where
  correlation : k'.correlation = k.correlation
  caller : k'.caller = k.caller
  kind : k'.kind = k.kind
  key : k'.key = k.key
  args : k'.args = k.args
  envelope : k'.envelope = k.envelope
  trace : k'.trace = k.trace
  sent : k'.sent = k.sent
  claim : k'.claim = k.claim

theorem getElem?_setStream (k : CallEntry) (no no' : StreamNo) (st : StreamState) :
    (k.setStream no st).streams[no']? = if no = no' then some st else k.streams[no']? := by
  simp only [setStream, OrdMap.getElem?_insert]

theorem stream_of_getElem? (k : CallEntry) (no : StreamNo) (st : StreamState)
    (h : k.streams[no]? = some st) : k.stream no = st := by
  simp only [stream, h, Option.getD_some]

theorem stream_setStream (k : CallEntry) (no : StreamNo) (st : StreamState) :
    (k.setStream no st).stream no = st := by
  rw [stream_of_getElem?]
  rw [getElem?_setStream, if_pos rfl]

theorem stream_cases (k : CallEntry) (no : StreamNo) :
    k.streams[no]? = some (k.stream no) ∨ k.streams[no]? = none ∧ k.stream no = k.fresh no := by
  unfold stream
  cases h : k.streams[no]? with
  | none => exact Or.inr ⟨rfl, rfl⟩
  | some st => exact Or.inl rfl

theorem fresh_claimWaker (k : CallEntry) (no : StreamNo) : (k.fresh no).claimWaker = none := by
  unfold fresh
  cases k.forgotten <;> cases (k.parametersReleased && no != REPLY_STREAM) <;> rfl

theorem fresh_finished (k : CallEntry) (no : StreamNo) (h : k.forgotten = true) :
    (k.fresh no).finished = true := by
  unfold fresh
  rw [h]
  cases (k.parametersReleased && no != REPLY_STREAM) <;> rfl

theorem getElem?_releaseParameters (k : CallEntry) (no : StreamNo) :
    k.releaseParameters.1.streams[no]? = k.streams[no]?.map (fun st =>
      if no ≠ REPLY_STREAM then { st.release with claimWaker := none } else st) := by
  simp only [releaseParameters, getElem?_sweep]
  congr 1
  funext st
  split
  · rfl
  · rfl

theorem stream_releaseParameters_reply (k : CallEntry) :
    k.releaseParameters.1.stream REPLY_STREAM = k.stream REPLY_STREAM := by
  have hget := getElem?_releaseParameters k REPLY_STREAM
  rw [stream, stream, hget]
  cases k.streams[REPLY_STREAM]? with
  | none =>
      simp only [Option.map_none, Option.getD_none, fresh, releaseParameters, bne_self_eq_false,
        Bool.and_false]
  | some st => simp only [ne_eq, not_true_eq_false, if_false, Option.map_some, Option.getD_some]

theorem getElem?_takeClaimWakers (k : CallEntry) (no : StreamNo) :
    k.takeClaimWakers.1.streams[no]? =
      k.streams[no]?.map (fun st => { st with claimWaker := none }) := by
  simp only [takeClaimWakers, getElem?_sweep]

end CallEntry

/-- Everything two handles must agree on. -/
structure Store where
  now : Timestamp
  /-- The limit of each member that was given one. -/
  limits : Key → Option Nat
  sources : OrdMap Nat SourceState
  nextSourceId : Nat
  table : Table SLOTS
  /-- The calls the table holds, by slot. -/
  calls : OrdMap Nat CallEntry
  /-- The calls sent and not yet presented, in send order. -/
  pending : List Correlation
  nextSent : Nat
  callers : OrdMap Nat Waiters
  nextCallerId : Nat
  /-- The calls presented and not yet settled, by claim id. -/
  claims : OrdMap Nat ClaimOwner
  nextClaimId : Nat
  handlers : OrdMap Nat HandlerState
  nextHandlerId : Nat
  failNextSettle : Bool

namespace Store

def new : Store :=
  { now := 0, limits := fun _ => none, sources := ∅, nextSourceId := 0
    table := Table.new none (by decide)
    calls := ∅, pending := [], nextSent := 0, callers := ∅, nextCallerId := 0
    claims := ∅, nextClaimId := 0, handlers := ∅, nextHandlerId := 0
    failNextSettle := false }

def setLimit (s : Store) (key : Key) (limit : Nat) : Store :=
  { s with limits := Function.update s.limits key (some limit) }

/-- The limit of a member whose port is of `kind`. -/
def limit (s : Store) (key : Key) (kind : Kind) : Nat :=
  (s.limits key).getD (defaultCeiling kind)

/-- Refuses a payload longer than the member's limit, with that limit. -/
def admitPayload (s : Store) (key : Key) (kind : Kind) (len : Nat) : Except Nat Unit :=
  if s.limit key kind < len then .error (s.limit key kind) else .ok ()

def entry (s : Store) (c : Correlation) : Option CallEntry := s.calls[Table.slot c]?

def setCall (s : Store) (slot : Nat) (k : CallEntry) : Store :=
  { s with calls := s.calls.insert slot k }

/-- Stores `waker` as the handle's one waker of `what`'s kind, or hands it
    back at once when `ready`. -/
def register (waiters : Waiters) (what : Interest) (waker : Waker) (ready : Bool) :
    Waiters × List Waker :=
  let (stored, displaced) := waiters.register what waker
  if ready then
    let (taken, back) := stored.take what
    (taken, displaced.toList ++ back.toList)
  else (stored, displaced.toList)

end Store

end Loopback

end Ridl
