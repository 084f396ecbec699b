import Ridl.Loopback.Store

/-!
# The Calling Side of the Store

The event sources, and the caller's part of a call's life: the send, the read
of its outcome, and the forget, which is the one operation that frees a slot.

What a forget does depends on where the call is. A settled call's slot is
reclaimed at once, unless the provider still has a stream parameter to pull,
when the forget is deferred. A waiting call no handler was offered is
withdrawn. A call a handler holds is marked in the table, and its settlement
reclaims the slot. A dropped caller forgets every call it sent.

## Main definitions

* `Store.raise`, `Store.nextEvent`: The event queues.
* `Store.send`: Takes a slot and queues the call.
* `Store.ack`, `Store.reply`: Reads the outcome of a call.
* `Store.forget`, `Store.closeCaller`: Releases one call, or every call of a
  caller.
* `Store.waitOutcome`, `Store.waitSlot`, `Store.waitEvent`: Registrations.
-/

namespace Ridl

namespace Loopback

open Library Correlate

namespace Store

/-! ### Events -/

def openSource (s : Store) : Store × Nat :=
  ({ s with
      nextSourceId := s.nextSourceId + 1
      sources := s.sources.insert s.nextSourceId
        { subscribed := ∅, queue := [], waiters := Waiters.new } },
    s.nextSourceId)

/-- Removes a dropped source, and hands its waiters back to be dropped. -/
def closeSource (s : Store) (id : Nat) : Store × Option Waiters :=
  ({ s with sources := s.sources.erase id }, s.sources[id]?.map (·.waiters))

def subscribe (s : Store) (id : Nat) (iface : InterfaceNo) (ords : List Ordinal) : Store :=
  match s.sources[id]? with
  | none => s
  | some state =>
      { s with
        sources := s.sources.insert id
          { state with
            subscribed := ords.foldl (fun subscribed ord => insert (iface, ord) subscribed)
              state.subscribed } }

/-- Stops delivery, and drops the occurrences already queued. -/
def unsubscribe (s : Store) (id : Nat) (iface : InterfaceNo) (ords : List Ordinal) : Store :=
  match s.sources[id]? with
  | none => s
  | some state =>
      let subscribed := ords.foldl (fun subscribed ord => subscribed.erase (iface, ord))
        state.subscribed
      { s with
        sources := s.sources.insert id
          { state with
            subscribed := subscribed
            queue := state.queue.filter (fun event => (event.iface, event.ord) ∈ subscribed) } }

/-- Queues the occurrence for every source subscribed to it now, and wakes
    each one's waiter. -/
def raise (s : Store) (iface : InterfaceNo) (ord : Ordinal) (bytes : Bytes) (seq : UInt64)
    (trace : Option TraceContext) : Except RaiseError (Store × List Waker) :=
  match s.admitPayload (iface, ord) .event bytes.length with
  | .error cap => .error (.tooLarge cap)
  | .ok () =>
      let event := { iface, ord, bytes, envelope := { stamp := s.now, seq := seq }, trace }
      let (sources, woken) := sweep
        (fun _ (state : SourceState) =>
          if (iface, ord) ∈ state.subscribed then
            let (waiters, waker) := state.waiters.take (.event iface)
            ({ state with queue := state.queue ++ [event], waiters := waiters }, waker.toList)
          else (state, []))
        s.sources
      .ok ({ s with sources := sources }, woken)

/-- Stores a source's `Event` waker, or wakes it at once when an occurrence
    is queued. -/
def waitEvent (s : Store) (id : Nat) (what : Interest) (waker : Waker) : Store × List Waker :=
  match s.sources[id]? with
  | none => (s, [waker])
  | some state =>
      let (waiters, woken) := register state.waiters what waker (!state.queue.isEmpty)
      ({ s with sources := s.sources.insert id { state with waiters := waiters } }, woken)

/-- Takes the next occurrence of a source when it fits `cap` bytes. -/
def nextEvent (s : Store) (id : Nat) (cap : Nat) :
    Except ReadError (Store × Option RawOccurrence) :=
  match s.sources[id]? with
  | none => .ok (s, none)
  | some state =>
      match state.queue with
      | [] => .ok (s, none)
      | event :: rest =>
          if cap < event.bytes.length then .error (.short event.bytes.length)
          else
            .ok ({ s with sources := s.sources.insert id { state with queue := rest } },
              some { iface := event.iface, ord := event.ord, envelope := event.envelope,
                     trace := event.trace, bytes := event.bytes })

/-! ### The send -/

/-- Takes the `Claim` waker of every handler that serves `key`. -/
def wakeHandlersServing (s : Store) (key : Key) : Store × List Waker :=
  let (handlers, woken) := sweep
    (fun _ (state : HandlerState) =>
      if state.serves key then
        let (waiters, waker) := state.waiters.take (.claim key.1)
        ({ state with waiters := waiters }, waker.toList)
      else (state, []))
    s.handlers
  ({ s with handlers := handlers }, woken)

/-- Takes a slot and queues the call for presentation. -/
def send (s : Store) (caller : Nat) (kind : CallKind) (key : Key) (args : Bytes) (seq : UInt64)
    (trace : Option TraceContext) : Except SendError (Store × List Waker × Correlation) :=
  match s.admitPayload key kind.kind args.length with
  | .error cap => .error (.tooLarge cap)
  | .ok () =>
      -- No budget, so the reservation is not read.
      match s.table.insert 0 with
      | none => .error .busy
      | some (table, c) =>
          let entry :=
            { correlation := c, caller, kind, iface := key.1, ord := key.2, args
              envelope := { stamp := s.now, seq := seq }, trace, sent := s.nextSent
              reply := [], forgotten := false, claim := none, settledBy := none, streams := ∅
              pendingForget := false, parametersReleased := false
              providerUsedStreams := false }
          let queued := { s with
            table := table
            nextSent := s.nextSent + 1
            calls := s.calls.insert (Table.slot c) entry
            pending := s.pending ++ [c] }
          let (woken, wakers) := queued.wakeHandlersServing key
          .ok (woken, wakers, c)

/-! ### The outcome -/

/-- Whether `c` is a call whose forget waits for the provider. -/
def forgottenPending (s : Store) (c : Correlation) : Bool :=
  (s.entry c).any (fun entry => entry.correlation = c && entry.pendingForget)

def waitOutcome (s : Store) (c : Correlation) (waker : Waker) : Store × List Waker :=
  if s.forgottenPending c then (s, [waker])
  else
    let (table, back) := s.table.wakeOn c waker
    ({ s with table := table }, back.toList)

/-- The acknowledgment of a command; `some none` is no answer yet. -/
def ack (s : Store) (c : Correlation) : Option (Option Outcome) :=
  match s.table.outcome c with
  | none => some none
  | some outcome =>
      if s.forgottenPending c then some none
      else do
        let entry ← s.entry c
        -- A query's outcome comes from `reply`.
        if entry.kind ≠ .command then some none else some (some outcome)

/-- The reply of a call, when its bytes fit `cap`. -/
def reply (s : Store) (c : Correlation) (cap : Nat) :
    Option (Except ReadError (Option (Except CallError Bytes))) :=
  if s.forgottenPending c then some (.ok none)
  else
    match s.table.outcome c with
    | none => some (.ok none)
    | some (.error error) => some (.ok (some (.error error)))
    | some (.ok ()) => do
        let entry ← s.entry c
        if cap < entry.reply.length then some (.error (.short entry.reply.length))
        else some (.ok (some (.ok entry.reply)))

/-! ### The forget -/

/-- Whether a handler was offered `c` and has not taken it. -/
def offered (s : Store) (c : Correlation) : Bool :=
  (((s.entry c).bind (·.claim)).bind (fun id => s.claims[id]?)).any (fun owner => !owner.taken)

/-- The slot of the call the caller holds under `c`. -/
def callerSlot (s : Store) (c : Correlation) : Option Nat :=
  ((s.entry c).filter (fun entry => entry.correlation = c && !entry.forgotten)).map
    (fun _ => Table.slot c)

/-- Stops every stream of a call with `Interrupted`, except one already
    finished, and takes the provider's waker of each. -/
def interruptStreams (s : Store) (c : Correlation) : Option (Store × List Waker) :=
  match s.callerSlot c with
  | none => some (s, [])
  | some slot => do
      let entry ← s.calls[slot]?
      let (streams, woken) := sweep
        (fun _ (stream : StreamState) =>
          ({ stream with
              stopped := if stream.finished then stream.stopped
                else some (INTERRUPTED, .caller)
              claimWaker := none },
            stream.claimWaker.toList))
        entry.streams
      some (s.setCall slot { entry with streams := streams }, woken)

/-- Drops what is kept for a reclaimed slot, and takes every waker of its
    streams and every caller's `Slot` waker. -/
def reclaimed (s : Store) (c : Correlation) : Store × List Waker :=
  let slot := Table.slot c
  let (table, streams) := s.table.takeStreams slot
  let claims := match s.calls[slot]? with
    | none => []
    | some entry => entry.streams.toList.flatMap (fun p => p.2.claimWaker.toList)
  let (callers, slots) := sweep
    (fun _ (waiters : Waiters) => ((waiters.take .slot).1, (waiters.take .slot).2.toList))
    s.callers
  ({ s with table := table, calls := s.calls.erase slot, callers := callers },
    streams ++ claims ++ slots)

/-- The table's part of a forget: a settled call's slot is reclaimed, and a
    call in flight is marked. -/
def forgetInTable (s : Store) (c : Correlation) : Option (Store × List Waker) :=
  match s.table.forget c with
  | (table, .reclaimed) => some ({ s with table := table }.reclaimed c)
  | (table, .marked waker) => do
      let (table, streams) := table.takeStreams (Table.slot c)
      let entry ← s.entry c
      some ({ s with table := table }.setCall (Table.slot c) { entry with forgotten := true },
        waker.toList ++ streams)
  | (table, .unknown) => some ({ s with table := table }, [])

/-- Withdraws a call that no handler holds and that is not waiting. -/
def withdraw (s : Store) (c : Correlation) : Option (Store × List Waker) :=
  -- The outcome goes with the slot, so no reader sees it.
  match s.table.settle c (.error (.transport .undelivered)) with
  | (table, .recorded waker) =>
      match table.forget c with
      | (table, .reclaimed) =>
          let (s, woken) := { s with table := table }.reclaimed c
          some (s, waker.toList ++ woken)
      -- The call was settled just above.
      | (_, .marked _) | (_, .unknown) => none
  | (table, .reclaimed) => some ({ s with table := table }.reclaimed c)
  -- A withdrawn call is in flight.
  | (_, .unknown) => none

/-- Defers the forget of a call that a handler holds or settled while the
    provider has a stream parameter to pull. Answers `none` when it does not
    defer. -/
def deferForget (s : Store) (c : Correlation) : Option (Store × List Waker) :=
  match s.entry c with
  | none => none
  | some entry =>
      let held := entry.claim.any (fun claim => s.claims.contains claim) || entry.settledBy.isSome
      if entry.correlation ≠ c || entry.forgotten || !held || !entry.undrained then none
      else
        -- The no-op waker left behind displaces the one stored.
        let (table, waker) := s.table.wakeOn c .noop
        let (table, streams) := table.takeStreams (Table.slot c)
        some ({ s with table := table }.setCall (Table.slot c)
            { entry with forgotten := true, pendingForget := true },
          waker.toList ++ streams)

/-- Completes a deferred forget once every stream parameter is drained. -/
def releaseIfDrained (s : Store) (slot : Nat) : Option (Store × List Waker) :=
  match s.calls[slot]? with
  | none => some (s, [])
  | some entry =>
      if !entry.pendingForget || entry.undrained then some (s, [])
      else (s.setCall slot { entry with pendingForget := false }).forgetInTable entry.correlation

/-- The rest of a forget, once the call's streams are stopped: a waiting call
    no handler was offered is withdrawn. -/
def forgetCall (s : Store) (c : Correlation) : Option (Store × List Waker) :=
  if !s.offered c && s.pending.contains c then
    { s with pending := s.pending.erase c }.withdraw c
  else
    match s.deferForget c with
    | some deferred => some deferred
    | none => s.forgetInTable c

/-- Releases the caller's interest in a correlation. -/
def forget (s : Store) (c : Correlation) : Option (Store × List Waker) :=
  if s.forgottenPending c then some (s, [])
  else do
    let (s, stopped) ← s.interruptStreams c
    let (s, woken) ← s.forgetCall c
    some (s, stopped ++ woken)

/-! ### The callers -/

def openCaller (s : Store) : Store × Nat :=
  ({ s with
      nextCallerId := s.nextCallerId + 1
      callers := s.callers.insert s.nextCallerId Waiters.new },
    s.nextCallerId)

/-- Runs `f` for each element, in order, and gathers what each run wakes. -/
def forEach {α : Type} (f : Store → α → Option (Store × List Waker)) :
    List α → Store → Option (Store × List Waker)
  | [], s => some (s, [])
  | x :: xs, s => do
      let (s, woken) ← f s x
      let (s, rest) ← forEach f xs s
      some (s, woken ++ rest)

/-- Removes a dropped caller, forgets every call it sent, and hands its
    waiters back to be dropped. -/
def closeCaller (s : Store) (id : Nat) : Option (Store × List Waker × Option Waiters) := do
  let waiters := s.callers[id]?
  let closed := { s with callers := s.callers.erase id }
  let sent := (closed.calls.toList.filter (fun p => p.2.caller = id)).map (·.2.correlation)
  let (s, woken) ← forEach forget sent closed
  some (s, woken, waiters)

/-- Stores a caller's `Slot` waker, or wakes it at once when a slot is
    free. -/
def waitSlot (s : Store) (id : Nat) (waker : Waker) : Store × List Waker :=
  match s.callers[id]? with
  | none => (s, [waker])
  | some waiters =>
      let (waiters, woken) := register waiters .slot waker (s.calls.size < SLOTS)
      ({ s with callers := s.callers.insert id waiters }, woken)

end Store

end Loopback

end Ridl
