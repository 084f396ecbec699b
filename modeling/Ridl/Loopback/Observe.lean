import Ridl.Loopback.Machine

/-!
# What a Step Shows

The vocabulary the results about runs are stated in. A step is read from the
outside: its operation, its answer, and the call the operation was for in the
store before it. A call is named by its place in send order, since its
correlation and its claim id are only how one handle names it.

## Main definitions

* `Store.callerCall`, `Store.claimCall`, `Store.heldCall`: The call an
  operation is for.
* `accepted`, `pulled`: The chunk a step took from a producer or gave to a
  receiver.
-/

namespace Ridl

namespace Loopback

open Library Correlate

/-- The side an operation on a call is made by. -/
def Op.side : Op → Option Side
  | .closeCaller _ | .forget _ | .pull .. | .push .. | .finish .. | .abort .. => some .caller
  | .closeHandler _ | .settle .. | .pullClaim .. | .pushClaim .. | .endClaim ..
  | .abortClaim .. => some .provider
  | _ => none

namespace Store

/-- The call the caller holds under `c`. -/
def callerCall (s : Store) (c : Correlation) : Option CallEntry :=
  (s.callerSlot c).bind (fun i => s.calls[i]?)

/-- The call `handler` holds under `claim`, taken or settled. -/
def claimCall (s : Store) (handler : Nat) (claim : ClaimId) : Option CallEntry :=
  (s.claimSlot handler claim).bind (fun i => s.calls[i]?)

/-- The call of a claim `handler` has not settled. -/
def heldCall (s : Store) (handler : Nat) (claim : ClaimId) : Option CallEntry :=
  ((s.claims[claim.val]?).filter (fun o => o.handler = handler)).bind (fun o => s.entry o.call)

end Store

/-- The chunk a push that was taken whole added to a stream. -/
def accepted (s : Store) (op : Op) (answer : Answer) : Option (Nat × StreamNo × Bytes) :=
  match op, answer with
  | .push c no chunk, .pushed (.ok n) =>
      if n = chunk.length then (s.callerCall c).map (fun k => (k.sent, no, chunk)) else none
  | .pushClaim handler claim no chunk, .pushed (.ok n) =>
      if n = chunk.length then (s.claimCall handler claim).map (fun k => (k.sent, no, chunk))
      else none
  | _, _ => none

def pulled (s : Store) (op : Op) (answer : Answer) : Option (Nat × StreamNo × Bytes) :=
  match op, answer with
  | .pull c no _, .pulled (.ok (.chunk chunk)) =>
      (s.callerCall c).map (fun k => (k.sent, no, chunk))
  | .pullClaim handler claim no _, .pulled (.ok (.chunk chunk)) =>
      (s.claimCall handler claim).map (fun k => (k.sent, no, chunk))
  | _, _ => none

/-- The settlement an end of the reply stream makes: after the caller refused
    the stream it is that refusal. -/
def endOutcome (k : CallEntry) : Except CallError Bytes :=
  if k.forgotten then .error INTERRUPTED
  else match (k.stream REPLY_STREAM).closed .provider with
    | some (.failed error) => .error error
    | _ => .ok []

/-- The operation settles the claim for `handler`: a settlement, or the end or
    abort of the reply stream. -/
inductive Settling (s : Store) : Op → Nat → ClaimId → Except CallError Bytes → Prop
  | settle (handler : Nat) (claim : ClaimId) (outcome : Except CallError Bytes) :
      Settling s (.settle handler claim outcome) handler claim outcome
  | endClaim (handler : Nat) (claim : ClaimId) (k : CallEntry)
      (h : s.claimCall handler claim = some k) :
      Settling s (.endClaim handler claim REPLY_STREAM) handler claim (endOutcome k)
  | abortClaim (handler : Nat) (claim : ClaimId) (error : CallError) :
      Settling s (.abortClaim handler claim REPLY_STREAM error) handler claim (.error error)

/-- The producer ended the stream, or settled the claim with `Ok` when it is
    the reply stream. -/
def Ends (s : Store) (op : Op) (answer : Answer) (call : Nat) (no : StreamNo) : Prop :=
  (∃ c k, op = .finish c no ∧ answer = .stopped (.ok ()) ∧ s.callerCall c = some k ∧
      k.sent = call) ∨
    (∃ handler claim k, op = .endClaim handler claim no ∧ answer = .stopped (.ok ()) ∧
      s.claimCall handler claim = some k ∧ k.sent = call) ∨
    no = REPLY_STREAM ∧ ∃ handler claim reply k, op = .settle handler claim (.ok reply) ∧
      answer = .settled (.ok ()) ∧ s.heldCall handler claim = some k ∧ k.sent = call

/-- The stream's receiver aborted it. -/
def Clears (s : Store) (op : Op) (call : Nat) (no : StreamNo) : Prop :=
  (∃ c error k, op = .abort c no error ∧ Side.producer no = .provider ∧
      s.callerCall c = some k ∧ k.sent = call) ∨
    ∃ handler claim error k, op = .abortClaim handler claim no error ∧
      Side.producer no = .caller ∧ s.claimCall handler claim = some k ∧ k.sent = call

/-- The provider gave up the stream parameters with its settlement: of a
    query, or with an error. -/
def Releases (s : Store) (op : Op) (call : Nat) : Prop :=
  ∃ handler claim outcome k, Settling s op handler claim outcome ∧
    s.heldCall handler claim = some k ∧ k.sent = call ∧ Store.releases k outcome = true

end Loopback

end Ridl
