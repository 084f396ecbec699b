import Ridl.Frame.Types
import Ridl.Library.Run

/-!
# The Requests of a Provided Session

A remote provider answers the requests of its consumer. A request is answered
at once when it is refused, and otherwise given to the owner's handler, which
answers when it is done. The last responses are kept, so a request that is
sent again is answered again with the same bytes, and no request is handled
twice.

The handler is called from a microtask and its outcome comes back in another,
so both are steps of their own: any number of frames may arrive, and the
session may close, in between. What the platform and the owner do while a
response is sent is an argument of the step. The clock may throw, the socket
may throw, and either may close the session before it returns.

The encoder is a parameter: what it writes for a response, or nothing when it
throws.

## Main definitions

* `ProvidedCalls.settle`: A response is sent and kept.
* `ProvidedCalls.dispatch`: A request frame.
* `ProvidedCalls.start`, `ProvidedCalls.finish`: The handler's microtasks.
-/

namespace Ridl

namespace Provision

open Library

/-- The handlers outstanding, and the responses kept. -/
def CAPACITY : Nat := 64

/-- Advance a wire counter using unsigned 64-bit arithmetic. -/
def nextSequence (previous : UInt64) : UInt64 := previous + 1

/-- A request frame. -/
structure Request where
  target : Target
  envelope : Envelope
  payload : Bytes
deriving DecidableEq

/-- What the handler is called with. -/
structure ProvidedRequest where
  target : Target
  envelope : Envelope
  correlation : UInt64
  payload : Bytes
deriving DecidableEq

/-- A response frame. -/
structure Response where
  target : Target
  envelope : Envelope
  correlation : UInt64
  outcome : ResponseOutcome
deriving DecidableEq

def Response.frame (r : Response) : Frame :=
  .response r.target r.envelope r.correlation r.outcome

/-- What a call does, in the order it happens. A response's first message and
    its repeats are told apart, and so are a request that is taken for its
    handler and the handler's call. -/
inductive Event
  | taken (seq : UInt64)
  | invoked (request : ProvidedRequest)
  | sent (response : Response) (bytes : Bytes)
  | resent (seq : UInt64) (bytes : Bytes)
  | discarded (frame : Request)
deriving DecidableEq

/-- A request taken for its handler, as its promise holds it. -/
structure Call where
  frame : Request
  limit : Nat
deriving DecidableEq

def Call.seq (c : Call) : UInt64 := c.frame.envelope.seq

def Call.request (c : Call) : ProvidedRequest :=
  ⟨c.frame.target, c.frame.envelope, c.seq, c.frame.payload⟩

/-- What the clock and the socket do while a response is sent. -/
structure World where
  /-- `none` when the clock throws, or its stamp is out of range. -/
  clock : Option Timestamp
  closesInClock : Bool
  sendThrows : Bool
  closesInSend : Bool

/-- What became of a handler. -/
inductive Finish
  | threw
  | returned (outcome : Option ResponseOutcome)

/-- A `Map` in insertion order. -/
abbrev Kept := List (UInt64 × Bytes)

/-- `Map.set`: a key that is there keeps its place. -/
def Kept.set (kept : Kept) (seq : UInt64) (bytes : Bytes) : Kept :=
  if kept.any (fun e => e.1 == seq) then
    kept.map (fun e => if e.1 = seq then (seq, bytes) else e)
  else kept ++ [(seq, bytes)]

/-- The calls of one session. `queued` holds the calls whose handler's microtask
    has not run yet, and `running` those whose handler is not done. -/
structure ProvidedCalls where
  highest : UInt64
  sequence : UInt64
  active : List UInt64
  kept : Kept
  ended : Bool
  queued : List Call
  running : List Call

namespace ProvidedCalls

def new : ProvidedCalls :=
  { highest := 0, sequence := 0, active := [], kept := [], ended := false
    queued := [], running := [] }

/-- The session is over. The promises stay. -/
def clear (s : ProvidedCalls) : ProvidedCalls := { s with ended := true, active := [], kept := [] }

/-- A callee of the session may close it before it returns. -/
def closing (s : ProvidedCalls) (closes : Bool) : ProvidedCalls := if closes then s.clear else s

/-- `Set.delete`. -/
def release (s : ProvidedCalls) (seq : UInt64) : ProvidedCalls :=
  { s with active := s.active.filter (· != seq) }

/-- The request goes without a response. -/
def discarded (s : ProvidedCalls) (frame : Request) : ProvidedCalls × List Event :=
  let s := s.release frame.envelope.seq
  (s, if s.ended then [] else [.discarded frame])

/-- The session's own send: nothing after its end. `none` when the socket
    throws. -/
def sendBytes (s : ProvidedCalls) (w : World) (message : Event) :
    ProvidedCalls × Option (List Event) :=
  if s.ended then (s, some [])
  else (s.closing w.closesInSend, if w.sendThrows then none else some [message])

/-- A response that was sent is kept, and the oldest one dropped for it. -/
def keep (s : ProvidedCalls) (r : Response) (bytes : Bytes) : ProvidedCalls :=
  let kept := s.kept.set r.correlation bytes
  { s with
    highest := if s.highest < r.correlation then r.correlation else s.highest
    sequence := r.envelope.seq
    kept := if kept.length > CAPACITY then kept.tail else kept }

section Machine

variable (encode : Response → Option Bytes)

/-- A request is answered with an outcome. -/
def settle (s : ProvidedCalls) (frame : Request) (outcome : ResponseOutcome) (w : World) :
    ProvidedCalls × List Event :=
  if s.ended then (s, [])
  else
    let s := s.closing w.closesInClock
    match w.clock with
    | none => s.discarded frame
    | some stamp =>
        let s := s.release frame.envelope.seq
        let r : Response :=
          ⟨frame.target, ⟨stamp, nextSequence s.sequence⟩, frame.envelope.seq, outcome⟩
        match encode r with
        | none => s.discarded frame
        | some bytes =>
            match s.sendBytes w (.sent r bytes) with
            | (s, none) => s.discarded frame
            | (s, some events) => (s.keep r bytes, events)

/-- Why a request is answered without its handler, if it is. -/
def refusal (s : ProvidedCalls) (frame : Request) (limit : Nat) (known : Bool) :
    Option ResponseOutcome :=
  if ¬ known then some (.contract .unknownInteraction)
  else if frame.payload.length > limit then some .corrupt
  else if s.active.length ≥ CAPACITY then some .busy
  else none

/-- `Set.add`, and the microtask that calls the handler. -/
def take (s : ProvidedCalls) (c : Call) : ProvidedCalls :=
  { s with
    active := if s.active.contains c.seq then s.active else s.active ++ [c.seq]
    highest := c.seq
    queued := s.queued ++ [c] }

def dispatch (s : ProvidedCalls) (frame : Request) (limit : Nat) (known : Bool) (w : World) :
    ProvidedCalls × List Event :=
  if frame.envelope.seq ≤ s.highest then
    match s.kept.lookup frame.envelope.seq with
    | none => (s, [])
    | some kept =>
        let (s, events) := s.sendBytes w (.resent frame.envelope.seq kept)
        -- A socket that throws here throws out of the dispatch.
        (s, events.getD [])
  else
    match s.refusal frame limit known with
    | some outcome => s.settle encode frame outcome w
    | none => (s.take ⟨frame, limit⟩, [.taken frame.envelope.seq])

/-- The next microtask calls its handler, unless the session is over. -/
def start (s : ProvidedCalls) : Option (ProvidedCalls × List Event) :=
  match s.queued with
  | [] => none
  | c :: rest =>
      if s.ended then some ({ s with queued := rest }, [])
      else some ({ s with queued := rest, running := s.running ++ [c] }, [.invoked c.request])

/-- An outcome only the other kind of call has. -/
def mismatched (kind : Kind) : ResponseOutcome → Bool
  | .accepted => kind ≠ .command
  | .reply _ => kind ≠ .query
  | _ => false

/-- A reply above the member's limit is answered `corrupt`. -/
def bounded (limit : Nat) : ResponseOutcome → ResponseOutcome
  | .reply payload => if payload.length > limit then .corrupt else .reply payload
  | outcome => outcome

/-- A handler is done. -/
def finish (s : ProvidedCalls) (seq : UInt64) (result : Finish) (w : World) :
    Option (ProvidedCalls × List Event) :=
  match s.running.find? (fun c => c.seq == seq) with
  | none => none
  | some c =>
      let s := { s with running := s.running.erase c }
      match result with
      | .threw => some (s.discarded c.frame)
      | .returned outcome =>
          if s.ended then some (s, [])
          else
            match outcome with
            | none => some (s.discarded c.frame)
            | some outcome =>
                if mismatched c.frame.target.kind outcome then some (s.discarded c.frame)
                else some (s.settle encode c.frame (bounded c.limit outcome) w)

end Machine

end ProvidedCalls

/-- One thing that happens to the calls of a session. -/
inductive CallOp
  | dispatch (frame : Request) (limit : Nat) (known : Bool) (w : World)
  | start
  | finish (seq : UInt64) (result : Finish) (w : World)
  | clear

/-- The calls of a session as a machine. A microtask that is not there does not
    run. -/
def providedCalls (encode : Response → Option Bytes) :
    Machine ProvidedCalls CallOp (List Event) where
  init := .new
  step s
    | .dispatch frame limit known w => some (s.dispatch encode frame limit known w)
    | .start => s.start
    | .finish seq result w => s.finish encode seq result w
    | .clear => some (s.clear, [])

abbrev CallStep := Machine.Item ProvidedCalls CallOp (List Event)

end Provision

end Ridl
