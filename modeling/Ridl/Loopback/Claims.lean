import Mathlib.Tactic.SplitIfs
import Ridl.Loopback.Calls

/-!
# The Handling Side of the Store

The handlers, the presentation of a waiting call, and its settlement.

A call whose arguments do not fit the handler's buffer is offered rather than
taken: its claim is recorded and it stays among the waiting calls. A claim is
settled once, by the handler that holds it. A dropped handler's taken claims
go back to the waiting calls in their place by send order, unless the handler
moved one of the call's streams, when the call is interrupted, or the caller
forgot the call, when it is withdrawn.

## Main definitions

* `Store.nextClaim`: Presents the next waiting call a handler serves.
* `Store.settle`: Records a claim's outcome.
* `Store.closeHandler`: Removes a dropped handler.
* `Store.serve`, `Store.waitClaim`: What a handler is woken for.
-/

namespace Ridl

namespace Loopback

open Library Correlate

namespace Store

def openHandler (s : Store) : Store × Nat :=
  ({ s with
      nextHandlerId := s.nextHandlerId + 1
      handlers := s.handlers.insert s.nextHandlerId { served := [], waiters := Waiters.new } },
    s.nextHandlerId)

/-- Whether the waiting call `c` is one the handler serves; `none` when it
    has no entry. -/
def servesCall (s : Store) (state : HandlerState) (c : Correlation) : Option Bool :=
  (s.entry c).map (fun entry => state.serves entry.key)

def firstServed (s : Store) (state : HandlerState) :
    List Correlation → Option (Option Correlation)
  | [] => some none
  | c :: rest => do
      if ← s.servesCall state c then some (some c) else s.firstServed state rest

/-- Whether a call is waiting that `nextClaim` would present. -/
def claimWaiting (s : Store) (handler : Nat) : Option Bool :=
  match s.handlers[handler]? with
  | none => some false
  | some state => (s.firstServed state s.pending).map Option.isSome

/-- Adds members to a handler's served set, and wakes its waiter when a call
    it now serves is waiting. -/
def serve (s : Store) (handler : Nat) (iface : InterfaceNo) (ords : List Ordinal) :
    Option (Store × List Waker) :=
  match s.handlers[handler]? with
  | none => some (s, [])
  | some state => do
      let served := ords.foldl
        (fun served ord =>
          if served.contains (iface, ord) then served else served ++ [(iface, ord)])
        state.served
      let (waiters, taken) := state.waiters.take (.claim iface)
      let s := { s with
        handlers := s.handlers.insert handler { served := served, waiters := waiters } }
      match taken with
      | none => some (s, [])
      | some waker =>
          if ← s.claimWaiting handler then some (s, [waker])
          else do
            -- No call it serves is waiting: the waker is put back.
            let state ← s.handlers[handler]?
            let (waiters, _) := state.waiters.register (.claim iface) waker
            some ({ s with
              handlers := s.handlers.insert handler { state with waiters := waiters } }, [])

/-- Stores a handler's `Claim` waker, or wakes it at once when a call it
    serves is waiting. -/
def waitClaim (s : Store) (handler : Nat) (what : Interest) (waker : Waker) :
    Option (Store × List Waker) := do
  let ready ← s.claimWaiting handler
  match s.handlers[handler]? with
  | none => some (s, [waker])
  | some state =>
      let (waiters, woken) := register state.waiters what waker ready
      some ({ s with handlers := s.handlers.insert handler { state with waiters := waiters } },
        woken)

/-- Presents the next waiting call this handler serves: taken when its
    arguments fit `cap`, and offered otherwise. -/
def nextClaim (s : Store) (handler : Nat) (cap : Nat) :
    Option (Store × Except ReadError (Option Claim)) :=
  match s.handlers[handler]? with
  | none => some (s, .ok none)
  | some state => do
      match ← s.firstServed state s.pending with
      | none => some (s, .ok none)
      | some c =>
          let waiting ← s.entry c
          let (s, claimId) := match waiting.claim with
            | some id => (s, id)
            | none =>
                ({ s with nextClaimId := s.nextClaimId + 1 }.setCall (Table.slot c)
                    { waiting with claim := some s.nextClaimId },
                  s.nextClaimId)
          let entry ← s.entry c
          if cap < entry.args.length then
            some ({ s with
                claims := s.claims.insert claimId
                  { call := c, handler := handler, taken := false } },
              .error (.shortClaim ⟨claimId⟩ entry.args.length entry.trace))
          else
            some ({ s with
                pending := s.pending.erase c
                claims := s.claims.insert claimId
                  { call := c, handler := handler, taken := true } },
              .ok (some { id := ⟨claimId⟩, iface := entry.iface, ord := entry.ord
                          envelope := entry.envelope, trace := entry.trace
                          remaining := none, args := entry.args }))

/-- Whether a settlement gives up the stream parameters: a query's does, and
    one that refuses the call with an error. -/
def releases (entry : CallEntry) (outcome : Except CallError Bytes) : Bool :=
  entry.kind = .query || outcome.toOption.isNone

/-- The entry after its settlement: the stream parameters are released when
    the provider is done with them, and the reply stream ends or stops. -/
def settledEntry (entry : CallEntry) (handler : Nat) (outcome : Except CallError Bytes) :
    CallEntry × List Waker :=
  let entry := { entry with
    reply := match outcome with
      | .ok bytes => bytes
      | .error _ => entry.reply
    settledBy := some handler }
  let released := if releases entry outcome then entry.releaseParameters else (entry, [])
  (released.1.setStream REPLY_STREAM ((released.1.stream REPLY_STREAM).settled outcome),
    released.2)

/-- Records the outcome of the call the claim `owner` names. -/
def settleOwner (s : Store) (handler : Nat) (claim : ClaimId) (owner : ClaimOwner)
    (outcome : Except CallError Bytes) : Option (Store × List Waker) :=
  let s := { s with claims := s.claims.erase claim.val }
  -- An offered call is still among the waiting calls.
  let s := if owner.taken then s else { s with pending := s.pending.erase owner.call }
  match s.table.settle owner.call (outcome.map (fun _ => ())) with
  | (table, .recorded waker) => do
      let entry ← s.entry owner.call
      let (entry, released) := settledEntry entry handler outcome
      let (table, streams) := table.takeStreams (Table.slot owner.call)
      let (s, woken) ← ({ s with table := table }.setCall (Table.slot owner.call)
        entry).releaseIfDrained (Table.slot owner.call)
      some (s, released ++ waker.toList ++ streams ++ woken)
  -- The caller forgot the call, so its slot goes with the settlement.
  | (table, .reclaimed) => some ({ s with table := table }.reclaimed owner.call)
  -- A claim names a call in flight.
  | (_, .unknown) => none

/-- Checks the bytes of a successful settlement against their member's
    limit. -/
def admitReply (s : Store) (c : Correlation) (outcome : Except CallError Bytes) :
    Option (Except Nat Unit) :=
  match outcome with
  | .ok reply => do
      let entry ← s.entry c
      some (s.admitPayload entry.key entry.kind.kind reply.length)
  | .error _ => some (.ok ())

def settle (s : Store) (handler : Nat) (claim : ClaimId) (outcome : Except CallError Bytes) :
    Option (Store × List Waker × Except SettleError Unit) :=
  match s.claims[claim.val]? with
  | none => some (s, [], .error .unknownClaim)
  | some owner =>
      -- A claim another handler holds is unknown to this one.
      if owner.handler ≠ handler then some (s, [], .error .unknownClaim)
      else do
        match ← s.admitReply owner.call outcome with
        | .error cap => some (s, [], .error (.tooLarge cap))
        | .ok () =>
            if s.failNextSettle then
              some ({ s with failNextSettle := false }, [], .error (.tooLarge 0))
            else do
              let (s, woken) ← s.settleOwner handler claim owner outcome
              some (s, woken, .ok ())

def failNextSettlement (s : Store) : Store := { s with failNextSettle := true }

/-- The entry of a call whose handler was dropped after it used the streams:
    every unfinished stream stops with `Interrupted`. -/
def interruptedEntry (entry : CallEntry) : CallEntry × List Waker :=
  let (entry, released) := entry.releaseParameters
  let reply := entry.stream REPLY_STREAM
  let stopped := if reply.finished then reply.stopped else some (INTERRUPTED, .provider)
  (entry.setStream REPLY_STREAM { reply with stopped := stopped, claimWaker := none },
    released ++ reply.claimWaker.toList)

/-- Ends a taken call whose handler was dropped after it used the streams:
    the call settles with `Interrupted`. -/
def interruptClaim (s : Store) (c : Correlation) : Option (Store × List Waker) := do
  let entry ← s.entry c
  let (entry, stopped) := interruptedEntry entry
  let s := s.setCall (Table.slot c) entry
  match s.table.settle c (.error INTERRUPTED) with
  | (table, .recorded waker) =>
      let (table, streams) := table.takeStreams (Table.slot c)
      some ({ s with table := table }, stopped ++ waker.toList ++ streams)
  | (table, .reclaimed) =>
      let (s, rest) := { s with table := table }.reclaimed c
      some (s, stopped ++ rest)
  -- A held claim names a call in flight.
  | (_, .unknown) => none

/-- The entry of a settled call whose handler is dropped: no provider is left
    to read its stream parameters, so they are released. -/
def closedEntry (entry : CallEntry) : CallEntry × List Waker :=
  let (entry, released) := { entry with settledBy := none }.releaseParameters
  let (entry, taken) := { entry with pendingForget := false }.takeClaimWakers
  (entry, released ++ taken)

/-- The part of a handler's drop for the call in one slot: the provider's
    wakers of a call it holds or settled are taken, and the parameters of one
    it settled are released. Answers the correlation of a call whose deferred
    forget is due. -/
def closeSlot (s : Store) (handler slot : Nat) :
    Store × List Waker × List Correlation :=
  match s.calls[slot]? with
  | none => (s, [], [])
  | some entry =>
      let holds := (entry.claim.bind (fun claim => s.claims[claim]?)).any
        (fun owner => owner.handler = handler)
      if entry.settledBy = some handler then
        let (closed, taken) := closedEntry entry
        let (table, streams) := s.table.takeStreams slot
        ({ s with table := table }.setCall slot closed, taken ++ streams,
          if entry.pendingForget then [entry.correlation] else [])
      else if holds then
        let (quiet, taken) := entry.takeClaimWakers
        (s.setCall slot quiet, taken, [])
      else (s, [], [])

/-- `closeSlot` for each slot, in order. -/
def closeSlots (handler : Nat) : List Nat → Store → Store × List Waker × List Correlation
  | [], s => (s, [], [])
  | slot :: slots, s =>
      let (s, woken, due) := s.closeSlot handler slot
      let (s, rest, later) := closeSlots handler slots s
      (s, woken ++ rest, due ++ later)

/-- The waiting calls with `c` in its place by send order. -/
def insertBySent (s : Store) (c : Correlation) (sent : Nat) :
    List Correlation → Option (List Correlation)
  | [] => some [c]
  | call :: rest => do
      let entry ← s.entry call
      if entry.sent < sent then do
        let rest ← s.insertBySent c sent rest
        some (call :: rest)
      else some (c :: call :: rest)

/-- The part of a handler's drop for one claim it held. -/
def closeClaim (s : Store) (claim : Nat) : Option (Store × List Waker) := do
  let owner ← s.claims[claim]?
  let s := { s with claims := s.claims.erase claim }
  let entry ← s.entry owner.call
  if entry.forgotten then
    -- A forgotten offered call is still among the waiting calls.
    let s := if owner.taken then s else { s with pending := s.pending.erase owner.call }
    s.withdraw owner.call
  else if !owner.taken then some (s, [])
  else if entry.providerUsedStreams then s.interruptClaim owner.call
  else do
    let pending ← s.insertBySent owner.call entry.sent s.pending
    some ({ s with pending := pending }.wakeHandlersServing entry.key)

/-- Removes a dropped handler, and hands its waiters back to be dropped. -/
def closeHandler (s : Store) (id : Nat) : Option (Store × List Waker × Option Waiters) := do
  let waiters := s.handlers[id]?.map (·.waiters)
  let s := { s with handlers := s.handlers.erase id }
  let (s, taken, due) := closeSlots id s.calls.keys s
  let (s, released) ← forEach forgetInTable due s
  let held := (s.claims.toList.filter (fun p => p.2.handler = id)).map (·.1)
  let (s, returned) ← forEach closeClaim held s
  some (s, taken ++ released ++ returned, waiters)

/-! ### The entries after a settlement and after a handler's drop -/

theorem settledEntry_same (k : CallEntry) (handler : Nat) (outcome : Except CallError Bytes) :
    k.Same (settledEntry k handler outcome).1 := by
  simp only [settledEntry]
  split_ifs <;> exact ⟨rfl, rfl, rfl, rfl, rfl, rfl, rfl, rfl, rfl⟩

theorem settledEntry_settledBy (k : CallEntry) (handler : Nat)
    (outcome : Except CallError Bytes) :
    (settledEntry k handler outcome).1.settledBy = some handler := by
  simp only [settledEntry]
  split_ifs <;> rfl

theorem settledEntry_forgotten (k : CallEntry) (handler : Nat)
    (outcome : Except CallError Bytes) :
    (settledEntry k handler outcome).1.forgotten = k.forgotten := by
  simp only [settledEntry]
  split_ifs <;> rfl

theorem settledEntry_pendingForget (k : CallEntry) (handler : Nat)
    (outcome : Except CallError Bytes) :
    (settledEntry k handler outcome).1.pendingForget = k.pendingForget := by
  simp only [settledEntry]
  split_ifs <;> rfl

theorem settledEntry_released (k : CallEntry) (handler : Nat)
    (outcome : Except CallError Bytes) :
    (settledEntry k handler outcome).1.parametersReleased =
      (k.parametersReleased || releases k outcome) := by
  simp only [settledEntry, releases]
  split_ifs with h <;> simp only [h, Bool.or_true, Bool.or_false] <;> rfl

/-- The streams after a settlement. -/
theorem getElem?_settledEntry (k : CallEntry) (handler : Nat) (outcome : Except CallError Bytes)
    (no : StreamNo) :
    (settledEntry k handler outcome).1.streams[no]? =
      if REPLY_STREAM = no then some ((k.stream REPLY_STREAM).settled outcome)
      else if releases k outcome then
        k.streams[no]?.map (fun st => { st.release with claimWaker := none })
      else k.streams[no]? := by
  simp only [settledEntry]
  by_cases hno : REPLY_STREAM = no
  · subst hno
    simp only [CallEntry.getElem?_setStream, if_true]
    split_ifs
    · rw [CallEntry.stream_releaseParameters_reply]
      rfl
    · rfl
  · simp only [CallEntry.getElem?_setStream, hno, if_false]
    have hrel : releases { k with
        reply := match outcome with
          | .ok bytes => bytes
          | .error _ => k.reply
        settledBy := some handler } outcome = releases k outcome := rfl
    rw [hrel]
    split_ifs
    · rw [CallEntry.getElem?_releaseParameters]
      simp only [ne_eq, Ne.symm hno, not_false_eq_true, if_true]
    · rfl

theorem interruptedEntry_same (k : CallEntry) : k.Same (interruptedEntry k).1 :=
  ⟨rfl, rfl, rfl, rfl, rfl, rfl, rfl, rfl, rfl⟩

theorem getElem?_interruptedEntry (k : CallEntry) (no : StreamNo) :
    (interruptedEntry k).1.streams[no]? =
      if REPLY_STREAM = no then
        some { (k.stream REPLY_STREAM).settled (.error INTERRUPTED) with claimWaker := none }
      else k.streams[no]?.map (fun st => { st.release with claimWaker := none }) := by
  by_cases hno : REPLY_STREAM = no
  · subst hno
    simp only [interruptedEntry, CallEntry.getElem?_setStream, if_true,
      CallEntry.stream_releaseParameters_reply, StreamState.settled]
    split_ifs <;> rfl
  · simp only [interruptedEntry, CallEntry.getElem?_setStream, hno, if_false,
      CallEntry.getElem?_releaseParameters]
    simp only [ne_eq, Ne.symm hno, not_false_eq_true, if_true]

theorem getElem?_closedEntry (k : CallEntry) (no : StreamNo) :
    (closedEntry k).1.streams[no]? = k.streams[no]?.map (fun st =>
      { (if no ≠ REPLY_STREAM then st.release else st) with claimWaker := none }) := by
  simp only [closedEntry, CallEntry.getElem?_takeClaimWakers]
  rw [show ({ ({ k with settledBy := none } : CallEntry).releaseParameters.1 with
      pendingForget := false } : CallEntry).streams[no]? =
      ({ k with settledBy := none } : CallEntry).releaseParameters.1.streams[no]? from rfl,
    CallEntry.getElem?_releaseParameters, Option.map_map]
  congr 1
  funext st
  simp only [Function.comp_apply]
  split_ifs <;> rfl

end Store

end Loopback

end Ridl
