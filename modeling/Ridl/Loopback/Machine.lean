import Ridl.Library.Run
import Ridl.Loopback.Streams

/-!
# The Loopback as a Machine

Every operation the handles make on the store, what each answers, and the
machine they form. A run of the machine is one order in which the handles'
critical sections took the store's lock, so a statement about every run is a
statement about every interleaving of the callers, the handlers and the
sources.

A correlation, a claim id and a handle's number are plain arguments, so an
operation can name one that is stale or was never issued. A step that reaches
a branch the source calls unreachable has no result, and the run ends there.

## Main definitions

* `Store.step`, `loopback`: The machine.
-/

namespace Ridl

namespace Loopback

open Library Correlate

/-- One operation of a handle on the store. -/
inductive Op
  | setLimit (key : Key) (limit : Nat)
  | openSource
  | closeSource (id : Nat)
  | subscribe (id : Nat) (iface : InterfaceNo) (ords : List Ordinal)
  | unsubscribe (id : Nat) (iface : InterfaceNo) (ords : List Ordinal)
  | raise (iface : InterfaceNo) (ord : Ordinal) (bytes : Bytes) (seq : UInt64)
      (trace : Option TraceContext)
  | nextEvent (id cap : Nat)
  | waitEvent (id : Nat) (iface : InterfaceNo) (waker : Waker)
  | openCaller
  | closeCaller (id : Nat)
  | send (caller : Nat) (kind : CallKind) (key : Key) (args : Bytes) (seq : UInt64)
      (trace : Option TraceContext)
  | ack (c : Correlation)
  | reply (c : Correlation) (cap : Nat)
  | forget (c : Correlation)
  | waitOutcome (c : Correlation) (waker : Waker)
  | waitSlot (id : Nat) (waker : Waker)
  | openHandler
  | closeHandler (id : Nat)
  | serve (handler : Nat) (iface : InterfaceNo) (ords : List Ordinal)
  | nextClaim (handler cap : Nat)
  | settle (handler : Nat) (claim : ClaimId) (outcome : Except CallError Bytes)
  | failNextSettle
  | waitClaim (handler : Nat) (iface : InterfaceNo) (waker : Waker)
  | pull (c : Correlation) (no : StreamNo) (cap : Nat)
  | push (c : Correlation) (no : StreamNo) (chunk : Bytes)
  | finish (c : Correlation) (no : StreamNo)
  | abort (c : Correlation) (no : StreamNo) (error : CallError)
  | waitStream (c : Correlation) (no : StreamNo) (waker : Waker)
  | pullClaim (handler : Nat) (claim : ClaimId) (no : StreamNo) (cap : Nat)
  | pushClaim (handler : Nat) (claim : ClaimId) (no : StreamNo) (chunk : Bytes)
  | endClaim (handler : Nat) (claim : ClaimId) (no : StreamNo)
  | abortClaim (handler : Nat) (claim : ClaimId) (no : StreamNo) (error : CallError)
  | waitClaimStream (handler : Nat) (claim : ClaimId) (no : StreamNo) (waker : Waker)

/-- What an operation answers to the handle. -/
inductive Answer
  | done
  | opened (id : Nat)
  | closed (waiters : Option Waiters)
  | raised (r : Except RaiseError Unit)
  | event (r : Except ReadError (Option RawOccurrence))
  | sent (r : Except SendError Correlation)
  | acked (r : Option Outcome)
  | replied (r : Except ReadError (Option (Except CallError Bytes)))
  | claimed (r : Except ReadError (Option Claim))
  | settled (r : Except SettleError Unit)
  | pulled (r : Except ReadError Pull)
  | pushed (r : Except PushError Nat)
  | stopped (r : Except PushError Unit)

/-- The answer of a step, and the wakers it hands back to be woken. -/
structure Reply where
  answer : Answer
  wake : List Waker

namespace Store

/-- One operation of a handle, made under the store's lock. -/
def step (s : Store) : Op → Option (Store × Reply)
  | .setLimit key limit => some (s.setLimit key limit, ⟨.done, []⟩)
  | .openSource =>
      let (s, id) := s.openSource
      some (s, ⟨.opened id, []⟩)
  | .closeSource id =>
      let (s, waiters) := s.closeSource id
      some (s, ⟨.closed waiters, []⟩)
  | .subscribe id iface ords => some (s.subscribe id iface ords, ⟨.done, []⟩)
  | .unsubscribe id iface ords => some (s.unsubscribe id iface ords, ⟨.done, []⟩)
  | .raise iface ord bytes seq trace =>
      match s.raise iface ord bytes seq trace with
      | .error error => some (s, ⟨.raised (.error error), []⟩)
      | .ok (s, woken) => some (s, ⟨.raised (.ok ()), woken⟩)
  | .nextEvent id cap =>
      match s.nextEvent id cap with
      | .error error => some (s, ⟨.event (.error error), []⟩)
      | .ok (s, event) => some (s, ⟨.event (.ok event), []⟩)
  | .waitEvent id iface waker =>
      let (s, woken) := s.waitEvent id (.event iface) waker
      some (s, ⟨.done, woken⟩)
  | .openCaller =>
      let (s, id) := s.openCaller
      some (s, ⟨.opened id, []⟩)
  | .closeCaller id => do
      let (s, woken, waiters) ← s.closeCaller id
      some (s, ⟨.closed waiters, woken⟩)
  | .send caller kind key args seq trace =>
      match s.send caller kind key args seq trace with
      | .error error => some (s, ⟨.sent (.error error), []⟩)
      | .ok (s, woken, c) => some (s, ⟨.sent (.ok c), woken⟩)
  | .ack c => do
      let answer ← s.ack c
      some (s, ⟨.acked answer, []⟩)
  | .reply c cap => do
      let answer ← s.reply c cap
      some (s, ⟨.replied answer, []⟩)
  | .forget c => do
      let (s, woken) ← s.forget c
      some (s, ⟨.done, woken⟩)
  | .waitOutcome c waker =>
      let (s, woken) := s.waitOutcome c waker
      some (s, ⟨.done, woken⟩)
  | .waitSlot id waker =>
      let (s, woken) := s.waitSlot id waker
      some (s, ⟨.done, woken⟩)
  | .openHandler =>
      let (s, id) := s.openHandler
      some (s, ⟨.opened id, []⟩)
  | .closeHandler id => do
      let (s, woken, waiters) ← s.closeHandler id
      some (s, ⟨.closed waiters, woken⟩)
  | .serve handler iface ords => do
      let (s, woken) ← s.serve handler iface ords
      some (s, ⟨.done, woken⟩)
  | .nextClaim handler cap => do
      let (s, answer) ← s.nextClaim handler cap
      some (s, ⟨.claimed answer, []⟩)
  | .settle handler claim outcome => do
      let (s, woken, answer) ← s.settle handler claim outcome
      some (s, ⟨.settled answer, woken⟩)
  | .failNextSettle => some (s.failNextSettlement, ⟨.done, []⟩)
  | .waitClaim handler iface waker => do
      let (s, woken) ← s.waitClaim handler (.claim iface) waker
      some (s, ⟨.done, woken⟩)
  | .pull c no cap =>
      match s.callerSlot c with
      | none => some (s, ⟨.pulled (.error (.contract .unknownInteraction)), []⟩)
      | some slot => do
          let (s, woken, answer) ← s.pull slot .caller no cap
          some (s, ⟨.pulled answer, woken⟩)
  | .push c no chunk =>
      match s.callerSlot c with
      | none => some (s, ⟨.pushed (.error UNKNOWN), []⟩)
      | some slot => do
          let (s, woken, answer) ← s.push slot .caller no chunk
          some (s, ⟨.pushed answer, woken⟩)
  | .finish c no =>
      match s.callerSlot c with
      | none => some (s, ⟨.stopped (.error UNKNOWN), []⟩)
      | some slot => do
          let (s, woken, answer) ← s.finish slot .caller no
          some (s, ⟨.stopped answer, woken⟩)
  | .abort c no error =>
      match s.callerSlot c with
      | none => some (s, ⟨.stopped (.error UNKNOWN), []⟩)
      | some slot => do
          let (s, woken, answer) ← s.abort slot .caller no error
          some (s, ⟨.stopped answer, woken⟩)
  | .waitStream c no waker =>
      let (s, woken) := s.waitStream c no waker
      some (s, ⟨.done, woken⟩)
  | .pullClaim handler claim no cap =>
      match s.claimSlot handler claim with
      | none => some (s, ⟨.pulled (.error (.contract .unknownInteraction)), []⟩)
      | some slot => do
          let (s, woken, answer) ← s.pull slot .provider no cap
          some (s, ⟨.pulled answer, woken⟩)
  | .pushClaim handler claim no chunk =>
      match s.claimSlot handler claim with
      | none => some (s, ⟨.pushed (.error UNKNOWN), []⟩)
      | some slot => do
          let (s, woken, answer) ← s.push slot .provider no chunk
          some (s, ⟨.pushed answer, woken⟩)
  | .endClaim handler claim no => do
      let (s, woken, answer) ← s.endClaim handler claim no
      some (s, ⟨.stopped answer, woken⟩)
  | .abortClaim handler claim no error => do
      let (s, woken, answer) ← s.abortClaim handler claim no error
      some (s, ⟨.stopped answer, woken⟩)
  | .waitClaimStream handler claim no waker => do
      let (s, woken) ← s.waitClaimStream handler claim no waker
      some (s, ⟨.done, woken⟩)

end Store

/-- The loopback store, driven by its handles. -/
def loopback : Machine Store Op Reply := { init := Store.new, step := Store.step }

/-- One step of a run of the loopback. -/
abbrev Step := Machine.Item Store Op Reply

end Loopback

end Ridl
