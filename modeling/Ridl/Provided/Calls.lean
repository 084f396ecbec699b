import Ridl.Library.Run
import Ridl.Server.Backend

/-!
# The Providing Session's Calls

Local claims forwarded to one remote provider. A claim taken from the local
port is pending under the number its request is sent with, and settled by the
response that names that number, by its own deadline, or when the session
ends. A claim that cannot be sent is refused at once, under a number that the
next claim gets if the port takes the refusal.

The local port is a parameter: a state of any type, with what it answers in
each state. What other threads do to it is a step of its own. The claims are
what the port presents, and what it answers to a settlement is its own affair,
so a claim whose settlement it refuses stays pending.

A claim's own answers are events, in the order they happen. A request event
carries the claim it was sent for, which the frame does not.

## Main definitions

* `Calls.settle`: A pending claim is settled.
* `Calls.expire`: Every claim whose time has passed is settled.
* `Calls.tick`, `Calls.response`, `Calls.down`: What a session does with its
  calls.
-/

namespace Ridl

namespace Provided

open Library Server

/-- An instant of the session's monotonic clock, in nanoseconds. -/
abbrev Instant := Nat

/-- What a settlement gives its caller: reply bytes, or an error. -/
abbrev Settlement := Except CallError Bytes

/-- A local port over a state of its own. -/
structure Port (π : Type) where
  now : π → Timestamp
  serve : π → InterfaceNo → Ordinal → Bool × π
  nextClaim : π → Nat → Except ReadError (Option Claim) × π
  settle : π → ClaimId → Settlement → Except SettleError Unit × π

/-- What a session is configured with. `latest` is the platform's last
    instant. -/
structure Config where
  members : MemberTable
  capacity : Nat
  callAbandonAfter : Duration
  maxMessageBytes : Nat
  latest : Instant

/-- A claim that was taken and not settled. -/
structure Pending where
  claim : ClaimId
  target : Target
  /-- `none` past the platform's last instant. -/
  deadline : Option Instant
  stamp : Timestamp
  bound : Option Duration

/-- Something that happened to a claim or a frame, in order. -/
inductive Event
  | took (claim : Claim)
  | short (claim : ClaimId)
  | settled (claim : ClaimId) (outcome : Settlement) (answer : Except SettleError Unit)
  | request (claim : ClaimId) (frame : Frame)
  | send (frame : Frame)
  | note (note : Note)
deriving DecidableEq

/-- The forwarded claims of a session, with the state of its local port. -/
structure Calls (π : Type) where
  pending : OrdMap UInt64 Pending
  next : UInt64
  short : Option ClaimId
  world : π

/-- The error of a call whose time has passed. -/
def lapse : Kind → Transport
  | .command => .undelivered
  | _ => .timeout

/-- The difference of two stamps, saturating at 64 bits. -/
def ageOf (now stamp : Timestamp) : Int :=
  max Int64.minValue.toInt (min Int64.maxValue.toInt (now.toInt - stamp.toInt))

/-- A bound in microseconds, as far as 64 bits go. -/
def boundMicros (max : Duration) : Int := min (max / 1000 : Nat) Int64.maxValue.toInt

def fromMicros (micros : Int) : Duration := micros.toNat * 1000

/-- A claim's deadline or its member's bound has passed. -/
def Pending.due (p : Pending) (now : Instant) (localNow : Timestamp) : Bool :=
  (p.deadline.map (fun deadline => decide (deadline < now))).getD false ||
  (p.bound.map (fun max => decide (boundMicros max < ageOf localNow p.stamp))).getD false

/-- The time a claim has left: the earlier of its member's bound and its own,
    or the session's when it has neither. -/
def timeLeft (cfg : Config) (claim : Claim) (max : Option Duration) (age : Int) : Duration :=
  let bound := max.map (fun max => max - fromMicros age)
  match bound, claim.remaining with
  | some a, some b => min a (fromMicros b.toInt)
  | some a, none => a
  | none, some b => fromMicros b.toInt
  | none, none => cfg.callAbandonAfter

/-- Why a claim is not sent, if it is not. -/
def refusal (cfg : Config) (claim : Claim) (target : Target) (age : Int) : Option CallError :=
  let member := cfg.members.member claim.iface claim.ord
  let max := member.bind Prod.snd
  if (target.kind ≠ .command ∧ target.kind ≠ .query) ∨ member = none ∨
      cfg.members.hasReplyStream claim.iface claim.ord then
    some (.contract .unknownInteraction)
  else if (claim.remaining.map (fun r => decide (r.toInt < 0))).getD false ∨
      (max.map (fun max => decide (boundMicros max < age))).getD false then
    some (.transport (lapse target.kind))
  else if claim.args.length > cfg.members.payloadLimit target ∨
      DATA_LEN + claim.args.length > cfg.maxMessageBytes then
    some (.transport .corrupt)
  else none

/-- The target a claim is forwarded under. -/
def targetOf (cfg : Config) (claim : Claim) : Target :=
  ⟨((cfg.members.member claim.iface claim.ord).map Prod.fst).getD .command, claim.iface, claim.ord⟩

/-- A claim as it is kept until it is settled. -/
def pendingOf (cfg : Config) (claim : Claim) (now : Instant) (localNow : Timestamp) : Pending :=
  let max := (cfg.members.member claim.iface claim.ord).bind Prod.snd
  let left := timeLeft cfg claim max (ageOf localNow claim.envelope.stamp)
  { claim := claim.id, target := targetOf cfg claim
    deadline := if now + left ≤ cfg.latest then some (now + left) else none
    stamp := claim.envelope.stamp, bound := max }

/-- What a response settles its claim with. -/
def responded (cfg : Config) (target : Target) (outcome : ResponseOutcome) : Settlement :=
  match outcome with
  | .accepted => if target.kind = .command then .ok [] else .error (.transport .corrupt)
  | .reply bytes =>
      if target.kind = .query ∧ bytes.length ≤ cfg.members.payloadLimit target then .ok bytes
      else .error (.transport .corrupt)
  | .contract c => .error (.contract c)
  | .busy => .error (.transport .busy)
  | .corrupt => .error (.transport .corrupt)

/-- The port has no use for the claim any more. -/
def released : Except SettleError Unit → Bool
  | .ok () | .error .unknownClaim => true
  | .error _ => false

section Session

variable {π : Type} (port : Port π)

namespace Calls

def new (world : π) : Calls π := { pending := ∅, next := 0, short := none, world := world }

/-- A claim is settled at the port: as `corrupt`, when the outcome is too large
    for it. -/
def settlePort (world : π) (claim : ClaimId) (outcome : Settlement) :
    Except SettleError Unit × π × List Event :=
  let (answer, world) := port.settle world claim outcome
  match answer with
  | .error (.tooLarge cap) =>
      let corrupt : Settlement := .error (.transport .corrupt)
      let (again, world) := port.settle world claim corrupt
      (again, world, [.settled claim outcome (.error (.tooLarge cap)),
        .settled claim corrupt again])
  | answer => (answer, world, [.settled claim outcome answer])

/-- A pending claim is settled; it stays when the port does not release it. -/
def settle (s : Calls π) (seq : UInt64) (outcome : Settlement) : Calls π × List Event :=
  match s.pending[seq]? with
  | none => (s, [])
  | some p =>
      let (answer, world, events) := settlePort port s.world p.claim outcome
      ({ s with
          pending := if released answer then s.pending.erase seq else s.pending
          world := world }, events)

/-- The claims are settled in turn. -/
def settleAll (s : Calls π) : List (UInt64 × Settlement) → Calls π × List Event
  | [] => (s, [])
  | (seq, outcome) :: rest =>
      let (s, events) := s.settle port seq outcome
      let (s, more) := settleAll s rest
      (s, events ++ more)

/-- The claims whose time has passed, with what each is settled as. -/
def dueClaims (s : Calls π) (now : Instant) (localNow : Timestamp) : List (UInt64 × Settlement) :=
  (s.pending.toList.filter (fun e => e.2.due now localNow)).map
    (fun e => (e.1, .error (.transport (lapse e.2.target.kind))))

def expire (s : Calls π) (now : Instant) (localNow : Timestamp) : Calls π × List Event :=
  s.settleAll port (s.dueClaims now localNow)

/-- A claim just taken is sent, or refused. Whether the next may be taken. -/
def forward (cfg : Config) (s : Calls π) (claim : Claim) (now : Instant) (localNow : Timestamp) :
    Calls π × List Event × Bool :=
  let seq := s.next + 1
  let p := pendingOf cfg claim now localNow
  let s := { s with pending := s.pending.insert seq p }
  match refusal cfg claim p.target (ageOf localNow claim.envelope.stamp) with
  | some error =>
      let (s, events) := s.settle port seq (.error error)
      -- a claim that the port would not release keeps its number
      if s.pending.contains seq then ({ s with next := seq }, .took claim :: events, false)
      else (s, .took claim :: events, true)
  | none =>
      ({ s with next := seq },
        [.took claim, .request claim.id
          (.request p.target ⟨claim.envelope.stamp, seq⟩ claim.args)], true)

/-- A claim too long to read is refused. Whether the next may be taken. -/
def refuseShort (s : Calls π) (claim : ClaimId) : Calls π × List Event × Bool :=
  let corrupt : Settlement := .error (.transport .corrupt)
  let (answer, world) := port.settle s.world claim corrupt
  let events := [.short claim, .settled claim corrupt answer]
  match answer with
  | .ok () => ({ s with short := none, world := world }, events, true)
  | .error _ => ({ s with short := some claim, world := world }, events, false)

/-- Claims are taken and forwarded while there is room for one. -/
def takeClaims (cfg : Config) (now : Instant) (localNow : Timestamp) :
    Nat → Calls π → Option (Calls π × List Event × Step)
  | 0, _ => none
  | fuel + 1, s =>
      if s.pending.size < cfg.capacity ∧ s.next.toNat < 2 ^ 64 - 1 then
        let (answer, world) := port.nextClaim s.world CALL_CEILING
        let s := { s with world := world }
        match answer with
        | .ok (some claim) =>
            let (s, events, more) := s.forward port cfg claim now localNow
            if more then
              (takeClaims cfg now localNow fuel s).map (fun r => (r.1, events ++ r.2.1, r.2.2))
            else some (s, events, .cont)
        | .error (.shortClaim claim _ _) =>
            let (s, events, more) := s.refuseShort port claim
            if more then
              (takeClaims cfg now localNow fuel s).map (fun r => (r.1, events ++ r.2.1, r.2.2))
            else some (s, events, .cont)
        | .error .detached => some (s, [], .close GOING_AWAY)
        | _ => some (s, [], .cont)
      else some (s, [], .cont)

def isCall (target : Target) : Bool := target.kind = .command || target.kind = .query

def tick (cfg : Config) (s : Calls π) (now : Instant) (fuel : Nat) :
    Option (Calls π × List Event × Step) :=
  let localNow := port.now s.world
  let (s, events) := s.expire port now localNow
  if !cfg.members.targets.any isCall then some (s, events, .cont)
  else (takeClaims port cfg now localNow fuel s).map (fun r => (r.1, events ++ r.2.1, r.2.2))

/-- A response settles the claim pending under its correlation and target,
    after the claims whose time has passed. -/
def response (cfg : Config) (s : Calls π) (target : Target) (correlation : UInt64)
    (outcome : ResponseOutcome) (now : Instant) : Calls π × List Event :=
  let localNow := port.now s.world
  let (s, events) := s.expire port now localNow
  match s.pending[correlation]? with
  | some p =>
      if p.target = target then
        let (s, more) := s.settle port correlation (responded cfg target outcome)
        (s, events ++ more)
      else (s, events ++ [.note (.unknownCorrelation target correlation)])
  | none => (s, events ++ [.note (.unknownCorrelation target correlation)])

/-- The claims are given `down`, whatever the port answers. -/
def giveDown (world : π) : List ClaimId → π × List Event
  | [] => (world, [])
  | claim :: rest =>
      let down : Settlement := .error (.transport .down)
      let (answer, world) := port.settle world claim down
      let (world, events) := giveDown world rest
      (world, .settled claim down answer :: events)

/-- The session's end: every claim it still owns is given `down`. -/
def down (s : Calls π) : Calls π × List Event :=
  let (world, events) := giveDown port s.world
    (s.pending.toList.map (fun e => e.2.claim) ++ s.short.toList)
  ({ s with pending := ∅, short := none, world := world }, events)

/-- The members of a table are served, until one is refused. -/
def serveAll (world : π) : List Target → Option Target × π
  | [] => (none, world)
  | target :: rest =>
      let (ok, world) := port.serve world target.iface target.ord
      if ok then serveAll world rest else (some target, world)

/-- The offered calls are served; the first one refused, if one is. -/
def start (cfg : Config) (s : Calls π) : Calls π × Option Target :=
  let (refused, world) := serveAll port s.world (cfg.members.targets.filter isCall)
  ({ s with world := world }, refused)

end Calls

end Session

/-- One providing session. A dropped session is called no more. -/
structure Session (π : Type) where
  calls : Calls π
  attached : Bool
  dropped : Bool

inductive ProvidedOp (π : Type)
  /-- A message; `deliver` is what its delivery does to the local ports. -/
  | message (frame : Frame) (now : Instant) (deliver : π → π)
  | garbled (error : DecodeError)
  | tick (now : Instant) (fuel : Nat) (commit : π → π)
  /-- What another thread does to the local ports. -/
  | world (change : π → π)
  | drop

namespace Session

variable {π : Type} (port : Port π)

/-- The signals and events of the table, as the session subscribes them. -/
def subscriptions (cfg : Config) : List Event :=
  (cfg.members.targets.filter (fun t => t.kind = .signal || t.kind = .event)).map
    (fun t => .send (.subscribe t))

/-- What a message that is neither expected nor delivered is recorded as. -/
def unexpected (s : Session π) : Frame → Note
  | .chunk .. | .streamEnd .. | .streamCredit .. => .violation .unknownCode
  | .attached _ => if s.attached then .secondAttach else .messageBeforeAttach
  | _ => if s.attached then .unexpectedDirection else .messageBeforeAttach

def deliver (s : Session π) (change : π → π) : Session π :=
  { s with calls := { s.calls with world := change s.calls.world } }

def onMessage (cfg : Config) (s : Session π) (frame : Frame) (now : Instant) (change : π → π) :
    Session π × List Event × Step :=
  match frame, s.attached with
  | .attached .accepted, false =>
      let (calls, refused) := s.calls.start port cfg
      match refused with
      | some target => ({ s with calls := calls }, [.note (.portRefused target)], .close 1011)
      | none => ({ s with calls := calls, attached := true }, subscriptions cfg, .cont)
  | .attached (.refused _), false => (s, [], .close NORMAL)
  | .response target _ correlation outcome, true =>
      let (calls, events) := s.calls.response port cfg target correlation outcome now
      ({ s with calls := calls }, events, .cont)
  | .answer .., true | .publish .., true | .occurrence .., true => (s.deliver change, [], .cont)
  | frame, _ => (s, [.note (s.unexpected frame)], .close PROTOCOL)

def garbled (s : Session π) : DecodeError → Session π × List Event × Step
  | .violation v => (s, [.note (.violation v)], .close PROTOCOL)
  | .discard d =>
      if s.attached then (s, [.note (.discarded d)], .cont)
      else (s, [.note .messageBeforeAttach], .close PROTOCOL)

/-- A tick commits a group of deliveries that has waited, then forwards. -/
def tick (cfg : Config) (s : Session π) (now : Instant) (fuel : Nat) (commit : π → π) :
    Option (Session π × List Event × Step) :=
  let s := s.deliver commit
  if s.attached then
    (s.calls.tick port cfg now fuel).map (fun r => ({ s with calls := r.1 }, r.2.1, r.2.2))
  else some (s, [], .cont)

def step (cfg : Config) (s : Session π) (op : ProvidedOp π) :
    Option (Session π × List Event × Step) :=
  if s.dropped then none
  else match op with
    | .message frame now change => some (s.onMessage port cfg frame now change)
    | .garbled error => some (s.garbled error)
    | .tick now fuel commit => s.tick port cfg now fuel commit
    | .world change => some (s.deliver change, [], .cont)
    | .drop =>
        let (calls, events) := s.calls.down port
        some ({ s with calls := calls, dropped := true }, events, .cont)

end Session

/-- The session as a machine, over a local port in some first state. -/
def providing {π : Type} (port : Port π) (cfg : Config) (world : π) :
    Machine (Session π) (ProvidedOp π) (List Event × Step) where
  init := { calls := Calls.new world, attached := false, dropped := false }
  step := fun s op => s.step port cfg op

abbrev ProvidedStep (π : Type) := Machine.Item (Session π) (ProvidedOp π) (List Event × Step)

end Provided

end Ridl
