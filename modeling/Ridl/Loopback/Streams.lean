import Ridl.Loopback.Claims

/-!
# The Streams of a Call

The four stream operations, for the caller by correlation and for the
provider by claim, and the two registrations.

The reply stream is the provider's to push and a stream parameter the
caller's. A stream is named by the first operation on it, and starts in a
state that depends on what already happened to the call. On the reply stream
of a claim still held, the provider's end and abort are the claim's
settlement.

## Main definitions

* `Store.pull`, `Store.push`, `Store.finish`, `Store.abort`: The operations by
  slot and side.
* `Store.endClaim`, `Store.abortClaim`: The provider's end and abort.
* `Store.claimSlot`: The slot of a call a handler holds or settled.
* `Store.waitStream`, `Store.waitClaimStream`: Registrations.
-/

namespace Ridl

namespace Loopback

open Library Correlate

namespace Store

/-- The slot of the call `handler` holds under `claim`, taken or settled. -/
def claimSlot (s : Store) (handler : Nat) (claim : ClaimId) : Option Nat := do
  let (slot, entry) ← s.calls.toList.find? (fun p => p.2.claim = some claim.val)
  let holder := match s.claims[claim.val]? with
    | some owner => if owner.taken then some owner.handler else none
    | none => entry.settledBy
  if holder = some handler then some slot else none

/-- Takes the waker of `side` on stream `no` of the call in `slot`. -/
def takeStreamWaker (s : Store) (slot : Nat) (no : StreamNo) (side : Side) :
    Store × Option Waker :=
  match s.calls[slot]? with
  | none => (s, none)
  | some entry =>
      match side with
      | .caller =>
          let (table, waker) := s.table.takeStream entry.correlation no
          ({ s with table := table }, waker)
      | .provider =>
          match entry.streams[no]? with
          | none => (s, none)
          | some stream =>
              (s.setCall slot (entry.setStream no { stream with claimWaker := none }),
                stream.claimWaker)

/-- Copies the next chunk of a stream for its receiver. -/
def pull (s : Store) (slot : Nat) (side : Side) (no : StreamNo) (cap : Nat) :
    Option (Store × List Waker × Except ReadError Pull) :=
  if Side.producer no = side then some (s, [], .error (.contract .unknownInteraction))
  else do
    let entry ← s.calls[slot]?
    let stream := entry.stream no
    match stream.chunks with
    | [] =>
        let answer := if stream.ended then some Pull.done
          else stream.stopped.map (fun p => Pull.failed p.1)
        match answer with
        | none => some (s.setCall slot (entry.name no), [], .ok .pending)
        | some answer =>
            if side = .provider then do
              let entry := { entry.setStream no { stream with drained := true } with
                providerUsedStreams := true }
              let (s, woken) ← (s.setCall slot entry).releaseIfDrained slot
              some (s, woken, .ok answer)
            else some (s.setCall slot (entry.name no), [], .ok answer)
    | chunk :: rest =>
        if cap < chunk.length then
          some (s.setCall slot (entry.name no), [], .error (.short chunk.length))
        else
          let entry := entry.setStream no { stream with chunks := rest }
          let entry := if side = .provider then { entry with providerUsedStreams := true }
            else entry
          let (s, waker) := (s.setCall slot entry).takeStreamWaker slot no side.other
          some (s, waker.toList, .ok (.chunk chunk))

/-- Offers one chunk to a stream for its producer; the answer is the number
    of bytes taken. -/
def push (s : Store) (slot : Nat) (side : Side) (no : StreamNo) (chunk : Bytes) :
    Option (Store × List Waker × Except PushError Nat) :=
  if Side.producer no ≠ side then some (s, [], .error (.contract .unknownInteraction))
  else do
    let entry ← s.calls[slot]?
    if side = .provider && entry.forgotten then some (s, [], .error (.failed INTERRUPTED))
    else
      let stream := entry.stream no
      let named := s.setCall slot (entry.name no)
      match stream.closed side with
      | some closed => some (named, [], .error closed)
      | none =>
          match s.admitPayload entry.key entry.kind.kind chunk.length with
          | .error cap => some (named, [], .error (.tooLarge cap))
          | .ok () =>
              -- The window bounds the non-empty chunks only.
              if !chunk.isEmpty && stream.full then some (named, [], .ok 0)
              else
                let entry := entry.setStream no { stream with chunks := stream.chunks ++ [chunk] }
                let entry := if side = .provider then { entry with providerUsedStreams := true }
                  else entry
                let (s, waker) := (s.setCall slot entry).takeStreamWaker slot no side.other
                some (s, waker.toList, .ok chunk.length)

def finish (s : Store) (slot : Nat) (side : Side) (no : StreamNo) :
    Option (Store × List Waker × Except PushError Unit) :=
  if Side.producer no ≠ side then some (s, [], .error (.contract .unknownInteraction))
  else do
    let entry ← s.calls[slot]?
    if side = .provider && entry.forgotten then some (s, [], .error (.failed INTERRUPTED))
    else
      let stream := entry.stream no
      match stream.closed side with
      | some closed => some (s.setCall slot (entry.name no), [], .error closed)
      | none =>
          let entry := entry.setStream no { stream with ended := true }
          let (s, waker) := (s.setCall slot entry).takeStreamWaker slot no side.other
          some (s, waker.toList, .ok ())

/-- Stops a stream with `error`, from either side. -/
def abort (s : Store) (slot : Nat) (side : Side) (no : StreamNo) (error : CallError) :
    Option (Store × List Waker × Except PushError Unit) := do
  let entry ← s.calls[slot]?
  let entry := if side = .provider then { entry with providerUsedStreams := true } else entry
  let stream := entry.stream no
  let receiver := Side.producer no ≠ side
  if stream.finished then
    -- The receiver is done with the stream all the same.
    if receiver then
      if side = .provider then do
        let entry := entry.setStream no { stream with chunks := [], drained := true }
        let (s, woken) ← (s.setCall slot entry).releaseIfDrained slot
        some (s, woken, .error .ended)
      else
        some (s.setCall slot (entry.setStream no { stream with chunks := [] }), [],
          .error .ended)
    else some (s.setCall slot (entry.name no), [], .error .ended)
  else do
    let stream := { stream with
      stopped := some (error, side)
      -- A receiver that refuses the stream reads none of what it refused.
      chunks := if receiver then [] else stream.chunks
      drained := if side = .provider then true else stream.drained }
    let (s, waker) := (s.setCall slot (entry.setStream no stream)).takeStreamWaker slot no
      side.other
    if side = .provider then do
      let (s, woken) ← s.releaseIfDrained slot
      some (s, waker.toList ++ woken, .ok ())
    else some (s, waker.toList, .ok ())

/-- The push error of an operation on a call or a claim the store does not
    hold. -/
def UNKNOWN : PushError := .contract .unknownInteraction

/-- The push error a refused settlement answers. -/
def pushError : SettleError → PushError
  | .unknownClaim => UNKNOWN
  | .tooLarge cap => .tooLarge cap
  | .detached => .detached

/-- Ends a stream for the provider: on the reply stream of a claim still held,
    the claim's settlement. -/
def endClaim (s : Store) (handler : Nat) (claim : ClaimId) (no : StreamNo) :
    Option (Store × List Waker × Except PushError Unit) :=
  match s.claimSlot handler claim with
  | none => some (s, [], .error UNKNOWN)
  | some slot =>
      if no = REPLY_STREAM && s.claims.contains claim.val then do
        let entry ← s.calls[slot]?
        let (s, verdict) :=
          if entry.forgotten then (s, some (PushError.failed INTERRUPTED))
          else (s.setCall slot (entry.name no), (entry.stream no).closed .provider)
        -- After the caller refused the reply stream, the claim settles with
        -- that refusal.
        let outcome := match verdict with
          | some (.failed error) => .error error
          | _ => .ok []
        let (s, woken, answer) ← s.settle handler claim outcome
        match answer with
        | .error error => some (s, woken, .error (pushError error))
        | .ok () =>
            match verdict with
            | some error => some (s, woken, .error error)
            | none => some (s, woken, .ok ())
      else s.finish slot .provider no

/-- Stops a stream for the provider: on the reply stream of a claim still
    held, the claim's settlement with `error`. -/
def abortClaim (s : Store) (handler : Nat) (claim : ClaimId) (no : StreamNo)
    (error : CallError) : Option (Store × List Waker × Except PushError Unit) :=
  match s.claimSlot handler claim with
  | none => some (s, [], .error UNKNOWN)
  | some slot =>
      if no = REPLY_STREAM && s.claims.contains claim.val then do
        let entry ← s.calls[slot]?
        let finished := (entry.stream no).finished
        let (s, woken, answer) ← (s.setCall slot (entry.name no)).settle handler claim
          (.error error)
        match answer with
        | .error error => some (s, woken, .error (pushError error))
        | .ok () => some (s, woken, if finished then .error .ended else .ok ())
      else s.abort slot .provider no error

/-- Stores the caller's waker of a stream, with the call in the table. -/
def waitStream (s : Store) (c : Correlation) (no : StreamNo) (waker : Waker) :
    Store × List Waker :=
  if s.forgottenPending c then (s, [waker])
  else
    let (table, back) := s.table.wakeOnStream c no waker
    ({ s with table := table }, back.toList)

/-- Stores the provider's waker of a stream, or wakes it at once when the
    stream will not change again. -/
def waitClaimStream (s : Store) (handler : Nat) (claim : ClaimId) (no : StreamNo)
    (waker : Waker) : Option (Store × List Waker) :=
  match s.claimSlot handler claim with
  | none => some (s, [waker])
  | some slot => do
      let entry ← s.calls[slot]?
      if entry.forgotten then some (s, [waker])
      else
        let stream := entry.stream no
        if stream.finished then some (s.setCall slot (entry.name no), [waker])
        else
          let (stored, displaced) := store stream.claimWaker waker
          some (s.setCall slot (entry.setStream no { stream with claimWaker := stored }),
            displaced.toList)

end Store

end Loopback

end Ridl
