import Ridl.Library.Run
import Ridl.Server.Backend

/-!
# The Session

One consumer's session over one backend: decoded frames and backend samples
in, frames out. This is the part of it that serves signals and fixed values;
what a call or an event does to the session is `Elsewhere`, which sends no
publication of a signal and changes nothing kept for one but the length of the
read buffer.

A channel's state outlives its subscription, so that its sequence number never
restarts. It is created by the first publication but one: an `init` sample on a
channel with no state is sent without creating any.

## Main definitions

* `session`: The session as a machine.
-/

namespace Ridl

namespace Server

open Library

/-- What a `publish` carried, as the backend gave it. -/
structure Sent where
  seq : UInt64
  provenance : Provenance
  stamp : Timestamp
  bytes : Bytes
deriving DecidableEq

/-- The sample as it is remembered once sent. -/
def Sent.of (sample : Resolved) (bytes : Bytes) : Sent :=
  ⟨sample.envelope.seq, sample.provenance, sample.envelope.stamp, bytes⟩

/-- The next sequence number, unless the counter is at the end of its 64 bits. -/
def succSeq (n : UInt64) : Option UInt64 := if n.toNat + 1 < 2 ^ 64 then some (n + 1) else none

/-- The session's state of one signal channel; it outlives the subscription. -/
structure SignalChannel where
  subscribed : Bool
  /-- The last sequence number assigned; 0 before the first. -/
  counter : UInt64
  /-- The sample last sent. -/
  last : Option Sent
  /-- The size last recorded as too large. -/
  tooLarge : Option Nat
deriving DecidableEq

namespace SignalChannel

def default : SignalChannel := { subscribed := false, counter := 0, last := none, tooLarge := none }

/-- Whether the sample equals the one last sent in every field. -/
def unchanged (ch : SignalChannel) (sample : Resolved) (bytes : Bytes) : Bool :=
  ch.last = some (Sent.of sample bytes)

/-- The number a sample is sent under, with the counter after it: 0 when it is
    `init`; otherwise the next one, or, unless `fresh`, the last one when the
    sample equals the one sent last in every field. -/
def number (ch : SignalChannel) (sample : Resolved) (bytes : Bytes) (fresh : Bool) :
    Option (UInt64 × UInt64) :=
  if sample.provenance = .init then some (0, ch.counter)
  else if !fresh && ch.unchanged sample bytes then some (ch.counter, ch.counter)
  else (succSeq ch.counter).map (fun n => (n, n))

end SignalChannel

/-- One session over one backend. -/
structure Session where
  attached : Bool
  closed : Option Nat
  signals : OrdMap Key SignalChannel
  /-- One mark per interface with a subscribed signal, in scanning mode. -/
  marks : List Watermark
  /-- The length of the scan buffer. -/
  changes : Nat
  /-- The length of the read buffer. -/
  buf : Nat

def FIRST_BUFFER : Nat := 1024

def FIRST_SCAN : Nat := 16

/-- Why the backend did not subscribe an event. -/
inductive SubscribeError
  | contract (c : Contract)
  | detached
deriving DecidableEq

/-- What the backend's ports answer during one call of the session. -/
structure Ports where
  read : Key → Nat → Reading Resolved
  readFixed : Nat → Reading Unit
  now : Timestamp
  scannable : Option ScanView
  subscribe : Except SubscribeError Unit

/-- What a call or an event did to the session. -/
structure Elsewhere where
  effects : List Effect
  step : Step
  grown : Nat → Nat
  quiet : ∀ key, effects.filterMap (Effect.signal key) = []

/-- What a `publish` carries of a sample: an invalidity crosses without its
    cause. -/
def publishState (provenance : Provenance) (bytes : Bytes) : PublishState :=
  match provenance with
  | .init => .init
  | .live => .live bytes
  | .invalid _ => .invalidDeclared

/-- Whether the session version can carry the contract error. -/
def carried (c : Contract) (frameVersion : UInt32) : Bool :=
  match c with
  | .invalidValue v =>
      (ruleTag v.rule).isSome && (v.rule ≠ .utf8 || decide (FRAME_VERSION_3 ≤ frameVersion))
  | _ => true

/-- One `answer`. A rule the frame cannot carry is answered as a broken
    contract, and recorded. -/
def answer (cfg : Serving) (target : Target) : AnswerOutcome → List Effect
  | .contract c =>
      if carried c cfg.frameVersion then [.send (.answer target (.contract c))]
      else [.note (.ruleNotCarried target),
        .send (.answer target (.contract .contractBroken))]
  | .accepted => [.send (.answer target .accepted)]

namespace Session

def new : Session :=
  { attached := false, closed := none, signals := ∅, marks := [], changes := FIRST_SCAN,
    buf := FIRST_BUFFER }

/-- The channel's state, which is the default before it has any. -/
def channel (s : Session) (key : Key) : SignalChannel :=
  (s.signals[key]?).getD SignalChannel.default

def setChannel (s : Session) (key : Key) (ch : SignalChannel) : Session :=
  { s with signals := s.signals.insert key ch }

def subscribed (s : Session) (key : Key) : Bool := (s.channel key).subscribed

/-- Sends a sample as one `publish`, under its channel's number for it. -/
def publishSignal (s : Session) (key : Key) (sample : Resolved) (bytes : Bytes) (fresh : Bool) :
    Option (Session × List Effect) := do
  let stamp := sample.envelope.stamp
  -- a client cannot grow the session by reading what was never published
  if sample.provenance = .init ∧ s.signals.contains key = false then
    some (s, [.send (.publish (signalTarget key) ⟨stamp, 0⟩ .init)])
  else
    let ch := s.channel key
    let (seq, counter) ← ch.number sample bytes fresh
    let ch := { ch with counter := counter, last := some (Sent.of sample bytes) }
    some (s.setChannel key ch, [.send (.publish (signalTarget key) ⟨stamp, seq⟩
      (publishState sample.provenance bytes))])

/-- Reads a signal into the session's buffer. -/
def fetchSignal (cfg : Serving) (s : Session) (ports : Ports) (key : Key) :
    Option (Fetch Resolved × Session) := do
  let (got, buf) ← fetch (ports.read key) (cfg.signalCap key) s.buf
  some (got, { s with buf := buf })

/-- Adds the interface's mark in scanning mode, when it has none. -/
def mark (s : Session) (ports : Ports) (iface : InterfaceNo) : Session × Bool :=
  match ports.scannable with
  | none => (s, false)
  | some view =>
      if s.marks.any (fun m => m.iface = iface) then (s, false)
      else ({ s with marks := s.marks ++ [⟨iface, view.generation 0 0 iface⟩] }, true)

def unmark (s : Session) (iface : InterfaceNo) : Session :=
  { s with marks := s.marks.filter (fun m => m.iface ≠ iface) }

def subscribeSignal (cfg : Serving) (s : Session) (ports : Ports) (key : Key) :
    Option (Session × List Effect × Step) := do
  let target := signalTarget key
  if s.subscribed key then some (s, answer cfg target .accepted, .cont)
  else
    -- marked before the read, so that a commit between the two is scanned
    let (s, marked) := s.mark ports key.1
    let (got, s) ← s.fetchSignal cfg ports key
    match got with
    | .contract c =>
        let s := if marked then s.unmark key.1 else s
        some (s, answer cfg target (.contract c), .cont)
    | .gone => some (s, [], .close GOING_AWAY)
    | .sample sample bytes =>
        let s := s.setChannel key { s.channel key with subscribed := true }
        let (s, sent) ← s.publishSignal key sample bytes false
        some (s, answer cfg target .accepted ++ sent, .cont)
    | .tooLarge needed =>
        let s := s.setChannel key { s.channel key with subscribed := true, tooLarge := some needed }
        some (s, answer cfg target .accepted ++ [.note (.valueTooLarge target needed)], .cont)

def subscribe (cfg : Serving) (s : Session) (ports : Ports) (target : Target) :
    Option (Session × List Effect × Step) :=
  if !cfg.known target then
    some (s, .note (.unknownInteraction target) ::
      answer cfg target (.contract .unknownInteraction), .cont)
  else match target.kind with
    | .signal => s.subscribeSignal cfg ports (target.iface, target.ord)
    | .event =>
        match ports.subscribe with
        | .ok () => some (s, answer cfg target .accepted, .cont)
        | .error (.contract c) => some (s, answer cfg target (.contract c), .cont)
        | .error .detached => some (s, [], .close GOING_AWAY)
    | _ => some (s, answer cfg target (.contract .unknownInteraction), .cont)

/-- Ends a signal's subscription; the channel's state stays. -/
def unsubscribeSignal (s : Session) (key : Key) : Session :=
  let s := match s.signals[key]? with
    | some ch => s.setChannel key { ch with subscribed := false }
    | none => s
  if s.signals.toList.any (fun e => e.1.1 = key.1 && e.2.subscribed) then s else s.unmark key.1

def unsubscribe (cfg : Serving) (s : Session) (target : Target) : Session × List Effect × Step :=
  if !cfg.known target then (s, [.note (.unknownInteraction target)], .cont)
  else match target.kind with
    | .signal => (s.unsubscribeSignal (target.iface, target.ord), [], .cont)
    | .event => (s, [], .cont)
    | _ => (s, [.note (.kindNotAdmitted target)], .cont)

/-- The size of a `block` message with a full block. -/
def BLOCK_MESSAGE : Nat := COMMON + ENVELOPE_BYTES + 8 + BLOCK_BYTES

/-- A payload as the `block` frames of its target. -/
def pushBlocks (target : Target) (envelope : Envelope) (payload : Bytes) : List Effect :=
  (payload.toChunks BLOCK_BYTES).zipIdx.map (fun b =>
    .send (.block target envelope (UInt32.ofNat payload.length) (UInt32.ofNat b.2) b.1))

/-- Answers a `read` of a `fixed` in one `publish`, or in blocks. -/
def readFixed (cfg : Serving) (s : Session) (ports : Ports) (target : Target) :
    Option (Session × List Effect × Step) := do
  let cap := if cfg.messageLimit ≥ BLOCK_MESSAGE then min (cfg.limit target) FIXED_CEILING
    else min cfg.payloadCap (cfg.limit target)
  let (got, buf) ← fetch ports.readFixed cap s.buf
  let s := { s with buf := buf }
  match got with
  | .tooLarge needed =>
      some (s, .note (.valueTooLarge target needed) ::
        answer cfg target (.contract .unknownInteraction), .cont)
  | .contract c => some (s, answer cfg target (.contract c), .cont)
  | .gone => some (s, [], .close GOING_AWAY)
  | .sample () value =>
      let envelope : Envelope := ⟨ports.now, 0⟩
      if value.length ≤ cfg.payloadCap then
        some (s, [.send (.publish target envelope (.live value))], .cont)
      else some (s, pushBlocks target envelope value, .cont)

def readSignal (cfg : Serving) (s : Session) (ports : Ports) (key : Key) :
    Option (Session × List Effect × Step) := do
  let target := signalTarget key
  let (got, s) ← s.fetchSignal cfg ports key
  match got with
  | .sample sample bytes =>
      let (s, sent) ← s.publishSignal key sample bytes false
      some (s, sent, .cont)
  | .tooLarge needed =>
      some (s, .note (.valueTooLarge target needed) ::
        answer cfg target (.contract .unknownInteraction), .cont)
  | .contract c => some (s, answer cfg target (.contract c), .cont)
  | .gone => some (s, [], .close GOING_AWAY)

def read (cfg : Serving) (s : Session) (ports : Ports) (target : Target) :
    Option (Session × List Effect × Step) :=
  if !cfg.known target then
    some (s, .note (.unknownInteraction target) ::
      answer cfg target (.contract .unknownInteraction), .cont)
  else match target.kind with
    | .signal => s.readSignal cfg ports (target.iface, target.ord)
    | .fixed => s.readFixed cfg ports target
    | _ => some (s, answer cfg target (.contract .unknownInteraction), .cont)

/-- One changed or subscribed signal is read, and sent when it is news. -/
def pollKey (cfg : Serving) (s : Session) (ports : Ports) (scanning : Bool) (key : Key) :
    Option (Session × List Effect × Step) := do
  let (got, s) ← s.fetchSignal cfg ports key
  match got with
  | .sample sample bytes =>
      let s := s.setChannel key { s.channel key with tooLarge := none }
      if scanning || !(s.channel key).unchanged sample bytes then
        let (s, sent) ← s.publishSignal key sample bytes scanning
        some (s, sent, .cont)
      else some (s, [], .cont)
  | .tooLarge needed =>
      let ch := s.channel key
      if ch.tooLarge ≠ some needed then
        some (s.setChannel key { ch with tooLarge := some needed },
          [.note (.valueTooLarge (signalTarget key) needed)], .cont)
      else some (s.setChannel key ch, [], .cont)
  | .contract _ => some (s, [], .cont)
  | .gone => some (s, [], .close GOING_AWAY)

def pollKeys (cfg : Serving) (ports : Ports) (scanning : Bool) :
    List Key → Session → Option (Session × List Effect × Step)
  | [], s => some (s, [], .cont)
  | key :: keys, s => do
      let (s, effects, step) ← s.pollKey cfg ports scanning key
      if step ≠ .cont then some (s, effects, step)
      else
        let (s, more, step) ← pollKeys cfg ports scanning keys s
        some (s, effects ++ more, step)

/-- One pass over the signals: those a scan reports, or every subscribed one. -/
def pollSignals (cfg : Serving) (s : Session) (ports : Ports) (fuel : Nat) :
    Option (Session × List Effect × Step) := do
  match ports.scannable with
  | some view =>
      let (keys, marks, changes) ← scanChanges view fuel s.subscribed s.marks s.changes
      pollKeys cfg ports true keys { s with marks := marks, changes := changes }
  | none => pollKeys cfg ports false (s.signals.keys.filter s.subscribed) s

/-- One pass over the backend: the signals, then the events and the calls. -/
def poll (cfg : Serving) (s : Session) (ports : Ports) (fuel : Nat) (rest : Elsewhere) :
    Option (Session × List Effect × Step) := do
  if !s.attached then some (s, [], .cont)
  else
    let (s, effects, step) ← s.pollSignals cfg ports fuel
    if step ≠ .cont then some (s, effects, step)
    else some ({ s with buf := rest.grown s.buf }, effects ++ rest.effects, rest.step)

/-- Checks an `attach` in the order of its refusal reasons. -/
def attach (cfg : Serving) (s : Session) (a : Attach) : Session × List Effect × Step :=
  let refusal : Option Reason :=
    if a.frameVersion ≠ cfg.frameVersion ∨ cfg.frameVersion < FRAME_VERSION then
      some .frameVersionUnsupported
    else if a.name ≠ cfg.name then some .unknownCatalog
    else if (cfg.members.map (fun t => t.accepts a.hash)).getD (decide (a.hash = cfg.hash)) = false then
      some .catalogMismatch
    else if some a.encoding ≠ cfg.encoding then some .encodingUnsupported
    else none
  match refusal with
  | some reason => (s, [.send (.attached (.refused reason))], .close NORMAL)
  | none => ({ s with attached := true }, [.send (.attached .accepted)], .cont)

def streamForm : Frame → Bool
  | .chunk .. | .streamEnd .. | .streamCredit .. => true
  | _ => false

/-- What a decoded message does. -/
def handle (cfg : Serving) (s : Session) (frame : Frame) (ports : Ports) (rest : Elsewhere) :
    Option (Session × List Effect × Step) :=
  if streamForm frame = true ∧ cfg.frameVersion < FRAME_VERSION_3 then
    some (s, [.note (.violation .unknownCode)], .close PROTOCOL)
  else if s.attached = false then
    match frame with
    | .attach a => some (s.attach cfg a)
    | _ => some (s, [.note .messageBeforeAttach], .close PROTOCOL)
  else match frame with
    | .attach _ => some (s, [.note .secondAttach], .close PROTOCOL)
    | .attached _ | .answer .. | .publish .. | .occurrence .. | .response .. | .block .. =>
        some (s, [.note .unexpectedDirection], .close PROTOCOL)
    | .subscribe target => s.subscribe cfg ports target
    | .unsubscribe target => some (s.unsubscribe cfg target)
    | .read target => s.read cfg ports target
    | .request .. | .chunk .. | .streamEnd .. | .streamCredit .. =>
        some ({ s with buf := rest.grown s.buf }, rest.effects, rest.step)

/-- What a message that is no frame does. -/
def garbled (s : Session) : DecodeError → Session × List Effect × Step
  | .violation v => (s, [.note (.violation v)], .close PROTOCOL)
  | .discard _ =>
      if s.attached then (s, [.note .unexpectedDirection], .close PROTOCOL)
      else (s, [.note .messageBeforeAttach], .close PROTOCOL)

/-- Records a close, so that later calls return it. -/
def keepClosed (s : Session) : Step → Session
  | .close code => { s with closed := some code }
  | .cont => s

end Session

inductive SessionOp
  | message (frame : Frame) (ports : Ports) (rest : Elsewhere)
  | garbled (error : DecodeError)
  | tick (ports : Ports) (fuel : Nat) (rest : Elsewhere)

/-- What one call of the session did, before a close is recorded. -/
def Session.call (cfg : Serving) (s : Session) : SessionOp → Option (Session × List Effect × Step)
  | .message frame ports rest => s.handle cfg frame ports rest
  | .garbled error => some (s.garbled error)
  | .tick ports fuel rest => s.poll cfg ports fuel rest

/-- One call of the session. After a close every call returns that close. -/
def Session.step (cfg : Serving) (s : Session) (op : SessionOp) :
    Option (Session × List Effect × Step) := do
  match s.closed with
  | some code => some (s, [], .close code)
  | none =>
      let (s, effects, step) ← s.call cfg op
      some (s.keepClosed step, effects, step)

def session (cfg : Serving) : Machine Session SessionOp (List Effect × Step) where
  init := Session.new
  step := fun s op => s.step cfg op

abbrev SessionStep := Machine.Item Session SessionOp (List Effect × Step)

end Server

end Ridl
