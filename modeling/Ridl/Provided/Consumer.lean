import Ridl.Provided.Calls

/-!
# The Providing Session's Deliveries

Publications and occurrences of a remote provider, delivered to a local
backend. A channel is open when its subscription was accepted, and takes only
numbers above the last one it took. The samples of one remote stamp are
committed together: a commit comes before a sample of another stamp, before a
second sample of a channel, and after one idle interval.

What the backend is given is a list of deliveries, in order. Its member table
does not change, and its clock is read at most once for each frame.

## Main definitions

* `Consumer`: The channels, and the group that waits for its commit.
* `Consumer.channel`: Whether a frame is taken.
* `Consumer.publication`, `Consumer.occurrence`: A frame of the provider.
* `Consumer.begin`, `Consumer.flush`: A group.
-/

namespace Ridl

namespace Provided

open Library Server

/-- One signal or event. -/
structure Channel where
  accepted : Bool
  answered : Bool
  seq : Option UInt64
  good : Option Bytes
deriving DecidableEq

def Channel.default : Channel := { accepted := false, answered := false, seq := none, good := none }

/-- A signal's value with what is said of it. `none` is the initial value. -/
structure Sample where
  value : Option Bytes
  provenance : Provenance
  freshness : Freshness
  envelope : Envelope
deriving DecidableEq

/-- What the consumer is told of a frame it does not deliver. -/
inductive Dropped
  | unknownInteraction (target : Target)
  | notSubscribed (target : Target)
  | duplicateDropped (seq : UInt64)
deriving DecidableEq

/-- What the backend is given, and what is recorded. -/
inductive Delivery
  | sample (target : Target) (sample : Sample)
  | commit (stamp : Timestamp)
  | occurrence (target : Target) (payload : Except Detection Bytes) (envelope : Envelope)
      (gap : Option UInt64)
  | eventGap (target : Target) (count : UInt64)
  | dropped (note : Dropped)
deriving DecidableEq

/-- The key a target's channel is under. -/
def keyOf (target : Target) : Key := (target.iface, target.ord)

structure Consumer where
  channels : OrdMap Key Channel
  /-- The stamp of the group, and the instant of its last sample. -/
  group : Option (Timestamp × Instant)
  groupChannels : List Key
  interval : Duration

/-- A value's age: fresh within its bound, and stale by what is above it. -/
def freshnessOf (max : Option Duration) (now stamp : Timestamp) : Freshness :=
  match max with
  | none => .unbounded
  | some max =>
      let excess := Max.max Int64.minValue.toInt
        (min Int64.maxValue.toInt (ageOf now stamp - boundMicros max))
      if excess > 0 then .stale (Int64.ofInt excess) else .fresh

/-- What a publication makes of the last good value. -/
def received (limit : Nat) (good : Option Bytes) : PublishState → Option Bytes × Provenance
  | .init => (none, .init)
  | .invalidDeclared => (good, .invalid .declared)
  | .live bytes =>
      if bytes.length > limit then (good, .invalid (.detected .corrupt))
      else (some bytes, .live)

/-- The occurrences lost between the last number and the next. -/
def gapOf (last : Option UInt64) (seq : UInt64) : Option UInt64 :=
  last.bind fun last => if seq - last > 1 then some (seq - last - 1) else none

namespace Consumer

def new (interval : Duration) : Consumer :=
  { channels := ∅, group := none, groupChannels := [], interval := interval }

def subscribe (members : MemberTable) (s : Consumer) : Consumer :=
  { s with
    channels := (members.targets.filter fun t => t.kind = .signal || t.kind = .event).foldl
      (fun channels t => channels.insert (keyOf t) Channel.default) s.channels }

def setChannel (s : Consumer) (key : Key) (ch : Channel) : Consumer :=
  { s with channels := s.channels.insert key ch }

/-- The first answer to a subscription counts. -/
def answer (s : Consumer) (target : Target) (outcome : AnswerOutcome) : Consumer :=
  match s.channels[keyOf target]? with
  | none => s
  | some ch =>
      if ch.answered then s
      else
        s.setChannel (keyOf target) { ch with answered := true, accepted := outcome = .accepted }

/-- A frame is taken when its target is a member of the kind, its channel is
    open, and its number is above the last one taken. -/
def channel (members : MemberTable) (s : Consumer) (target : Target) (kind : Kind)
    (seq : UInt64) : Except (List Delivery) (Consumer × Channel) :=
  if target.kind ≠ kind ∨ (members.member target.iface target.ord).map Prod.fst ≠ some kind then
    .error [.dropped (.unknownInteraction target)]
  else
    match s.channels[keyOf target]? with
    | none => .error []
    | some ch =>
        if ¬ ch.accepted then .error [.dropped (.notSubscribed target)]
        else if ch.seq.any (fun last => decide (seq ≤ last)) then
          .error [.dropped (.duplicateDropped seq)]
        else
          let ch := { ch with seq := some seq }
          .ok (s.setChannel (keyOf target) ch, ch)

def flush (s : Consumer) : Consumer × List Delivery :=
  match s.group with
  | none => (s, [])
  | some (stamp, _) => ({ s with group := none, groupChannels := [] }, [.commit stamp])

/-- A sample joins the group, or the group is committed and it begins another. -/
def begin (s : Consumer) (target : Target) (stamp : Timestamp) (now : Instant) :
    Consumer × List Delivery :=
  let (s, commits) :=
    if s.group.any (fun group => group.1 ≠ stamp) ∨ keyOf target ∈ s.groupChannels then s.flush
    else (s, [])
  ({ s with
      groupChannels :=
        if keyOf target ∈ s.groupChannels then s.groupChannels
        else s.groupChannels ++ [keyOf target]
      group := some (stamp, now) }, commits)

/-- A `publish`. -/
def publication (members : MemberTable) (s : Consumer) (target : Target) (envelope : Envelope)
    (state : PublishState) (now : Instant) (clock : Timestamp) : Consumer × List Delivery :=
  match s.channel members target .signal envelope.seq with
  | .error notes => (s, notes)
  | .ok (s, ch) =>
      let (good, provenance) := received (members.payloadLimit target) ch.good state
      let s := s.setChannel (keyOf target) { ch with good := good }
      -- The number is checked before the group, so a dropped frame cannot flush
      -- it or extend its idle deadline.
      let (s, commits) := s.begin target envelope.stamp now
      let max := (members.member target.iface target.ord).bind Prod.snd
      (s, commits ++ [.sample target
        { value := good, provenance := provenance
          freshness := freshnessOf max clock envelope.stamp, envelope := envelope }])

/-- An `occurrence`. -/
def occurrence (members : MemberTable) (s : Consumer) (target : Target) (envelope : Envelope)
    (payload : Bytes) (clock : Timestamp) : Consumer × List Delivery :=
  let last := s.channels[keyOf target]?.bind Channel.seq
  match s.channel members target .event envelope.seq with
  | .error notes => (s, notes)
  | .ok (s, _) =>
      let gap := gapOf last envelope.seq
      let max := (members.member target.iface target.ord).bind Prod.snd
      if max.any (fun max => decide (boundMicros max < ageOf clock envelope.stamp)) then
        -- Its number still counts.
        (s, (gap.map (fun count => Delivery.eventGap target count)).toList)
      else
        let checked := if payload.length > members.payloadLimit target then .error .corrupt
          else .ok payload
        (s, [.occurrence target checked envelope gap])

/-- A group that has waited for an interval is committed. -/
def tick (s : Consumer) (now : Instant) : Consumer × List Delivery :=
  if s.group.any (fun group => decide (s.interval ≤ now - group.2)) then s.flush else (s, [])

end Consumer

/-- One thing a session does with its consumer. -/
inductive ConsumerOp
  | answer (target : Target) (outcome : AnswerOutcome)
  | publication (target : Target) (envelope : Envelope) (state : PublishState) (now : Instant)
      (clock : Timestamp)
  | occurrence (target : Target) (envelope : Envelope) (payload : Bytes) (clock : Timestamp)
  | tick (now : Instant)

def Consumer.step (members : MemberTable) (s : Consumer) : ConsumerOp → Consumer × List Delivery
  | .answer target outcome => (s.answer target outcome, [])
  | .publication target envelope state now clock =>
      s.publication members target envelope state now clock
  | .occurrence target envelope payload clock =>
      s.occurrence members target envelope payload clock
  | .tick now => s.tick now

/-- The deliveries of an attached session as a machine. -/
def consuming (members : MemberTable) (interval : Duration) :
    Machine Consumer ConsumerOp (List Delivery) where
  init := (Consumer.new interval).subscribe members
  step s op := some (s.step members op)

abbrev ConsumerStep := Machine.Item Consumer ConsumerOp (List Delivery)

end Provided

end Ridl
