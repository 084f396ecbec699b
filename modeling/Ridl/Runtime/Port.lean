import Ridl.Runtime.Contract

/-!
# The Port Types

What the port methods take and answer: the identities a runtime hands out,
the interests a waker is registered under, and the error of each method.

A buffer an operation fills is given by its length, and the operation
answers the bytes it would have written in place of their count, so
`Pull.chunk` carries the chunk and a claim carries its arguments. An error is
kept whole, with the length it asks for or the bound it names.

A waker is the task it wakes. Two wakers wake the same task exactly when they
are equal, which is what `willWake` decides, and the no-op waker is one of
its own that wakes nothing.

## Main definitions

* `Waker`, `Waker.willWake`: A task to wake, and whether two are the same.
* `Pull`, `PushError`, `ReadError`, `SettleError`: What the methods answer.
-/

namespace Ridl

/-- The identity of a sent call, opaque to its caller. -/
structure Correlation where
  val : Nat
deriving DecidableEq, Repr

/-- The identity of a presented claim. -/
structure ClaimId where
  val : Nat
deriving DecidableEq, Repr

/-- A task that can be woken, or the waker that wakes nothing. -/
inductive Waker
  | noop
  | task (data : Nat)
deriving DecidableEq, Repr

namespace Waker

/-- Whether the two wakers wake the same task. -/
def willWake (a b : Waker) : Bool := a = b

theorem willWake_iff (a b : Waker) : a.willWake b = true ↔ a = b := by
  simp only [willWake, decide_eq_true_eq]

end Waker

/-- What a registered waker waits for. -/
inductive Interest
  | outcome (c : Correlation)
  | slot
  | event (iface : InterfaceNo)
  | claim (iface : InterfaceNo)
  | stream (c : Correlation) (s : StreamNo)
  | claimStream (claim : ClaimId) (s : StreamNo)
deriving DecidableEq, Repr

/-- The trace context a call or an occurrence is sent with. -/
structure TraceContext where
  traceId : Bytes
  spanId : Bytes
  flags : UInt8
deriving DecidableEq, Repr

/-- One presented call: its identity, what it is about, and its arguments. -/
structure Claim where
  id : ClaimId
  iface : InterfaceNo
  ord : Ordinal
  envelope : Envelope
  trace : Option TraceContext
  remaining : Option Int64
  args : Bytes
deriving DecidableEq, Repr

/-- One delivered occurrence of an event. -/
structure RawOccurrence where
  iface : InterfaceNo
  ord : Ordinal
  envelope : Envelope
  trace : Option TraceContext
  bytes : Bytes
deriving DecidableEq, Repr

inductive ReadError
  | short (needed : Nat)
  | shortClaim (claim : ClaimId) (needed : Nat) (trace : Option TraceContext)
  | tooFewSamples (needed : Nat)
  | contract (c : Contract)
  | detached
deriving DecidableEq, Repr

/-- What a pull answers; a chunk is the bytes written into the buffer. -/
inductive Pull
  | chunk (bytes : Bytes)
  | done
  | pending
  | failed (error : CallError)
deriving DecidableEq, Repr

inductive PushError
  | tooLarge (cap : Nat)
  | ended
  | failed (error : CallError)
  | contract (c : Contract)
  | detached
deriving DecidableEq, Repr

inductive RaiseError
  | busy
  | tooLarge (cap : Nat)
  | notOwner
  | contract (c : Contract)
  | detached
deriving DecidableEq, Repr

inductive SendError
  | busy
  | tooLarge (cap : Nat)
  | contract (c : Contract)
  | detached
deriving DecidableEq, Repr

inductive SettleError
  | unknownClaim
  | tooLarge (cap : Nat)
  | detached
deriving DecidableEq, Repr

end Ridl
