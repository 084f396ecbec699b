import Ridl.Runtime.Contract

/-!
# The Frames of the WebSocket Binding

One frame is one message. A frame is a value here, with its payload as a list
of bytes; only the states that can carry a payload have a field for one, so a
frame with bytes it may not have cannot be built.

The constructor of an `attach` holds its name to 1 to 255 bytes and its
encoding tag to the three of the table, so both are fields of `Attach`.

## Main definitions

* `PublishState`, `ResponseOutcome`, `StreamOutcome`: What a frame reports.
* `ProtocolViolation`, `DecodeError`: Why a message is no frame.
-/

namespace Ridl

/-- The newest frame version without streams. -/
def FRAME_VERSION : UInt32 := 2

/-- The frame version that adds the stream forms. -/
def FRAME_VERSION_3 : UInt32 := 3

/-- The chunks a receiver of a stream grants before any `stream_credit`. -/
def INITIAL_CREDIT : Nat := 4

/-- The bytes of payload in every `block` but the last. -/
def BLOCK_BYTES : Nat := 4096

/-- The size of an encoded envelope. -/
def ENVELOPE_BYTES : Nat := 16

/-- The header fields common to every form but `attach` and `attached`. -/
def COMMON : Nat := 10

def PUBLISH_LEN : Nat := COMMON + ENVELOPE_BYTES + 1

def DATA_LEN : Nat := COMMON + ENVELOPE_BYTES

/-- The `detail` code of a rule, or `none` for one no frame version carries. -/
def ruleTag : Rule → Option UInt8
  | .range => some 1
  | .step => some 2
  | .length => some 3
  | .pattern => some 4
  | .variant => some 5
  | .unique => some 6
  | .utf8 => some 7
  | .unlisted => none

/-- A consumer's request to open a session. -/
structure Attach where
  frameVersion : UInt32
  encoding : UInt8
  hash : CatalogHash
  name : String
  known : 1 ≤ encoding.toNat ∧ encoding.toNat ≤ 3
  named : 1 ≤ name.utf8ByteSize ∧ name.utf8ByteSize ≤ 255
deriving DecidableEq

/-- Why a provider refused an `attach`. -/
inductive Reason
  | unknownCatalog
  | catalogMismatch
  | encodingUnsupported
  | frameVersionUnsupported
  | range
deriving DecidableEq, Repr

inductive AttachOutcome
  | accepted
  | refused (reason : Reason)
deriving DecidableEq, Repr

inductive AnswerOutcome
  | accepted
  | contract (c : Contract)
deriving DecidableEq, Repr

/-- A publication's provenance, with the payload that only `live` carries. -/
inductive PublishState
  | init
  | live (payload : Bytes)
  | invalidDeclared
deriving DecidableEq, Repr

inductive ResponseOutcome
  | accepted
  | reply (payload : Bytes)
  | contract (c : Contract)
  | corrupt
  | busy
deriving DecidableEq, Repr

inductive StreamOutcome
  | ended
  | contract (c : Contract)
  | corrupt
  | busy
  | interrupted
deriving DecidableEq, Repr

/-- One frame. -/
inductive Frame
  | attach (a : Attach)
  | attached (outcome : AttachOutcome)
  | subscribe (target : Target)
  | unsubscribe (target : Target)
  | read (target : Target)
  | answer (target : Target) (outcome : AnswerOutcome)
  | publish (target : Target) (envelope : Envelope) (state : PublishState)
  | occurrence (target : Target) (envelope : Envelope) (payload : Bytes)
  | request (target : Target) (envelope : Envelope) (payload : Bytes)
  | response (target : Target) (envelope : Envelope) (correlation : UInt64)
      (outcome : ResponseOutcome)
  | block (target : Target) (envelope : Envelope) (total index : UInt32) (payload : Bytes)
  | chunk (target : Target) (envelope : Envelope) (correlation : UInt64) (stream : StreamNo)
      (payload : Bytes)
  | streamEnd (target : Target) (envelope : Envelope) (correlation : UInt64) (stream : StreamNo)
      (outcome : StreamOutcome)
  | streamCredit (target : Target) (correlation : UInt64) (stream : StreamNo) (credit : UInt32)
deriving DecidableEq

/-- A message the receiver cannot read: it closes the connection. -/
inductive ProtocolViolation
  | tooShort
  | controlTooLong
  | unknownCode
  | outcomeNotAllowed
  | nonzeroDetail
  | zeroNumber
  | badNameLength
  | badName
  | badBlock
  | badStream
deriving DecidableEq, Repr

/-- A frame the receiver records and drops. -/
inductive Discarded
  | unexpectedPayload
deriving DecidableEq, Repr

inductive DecodeError
  | violation (v : ProtocolViolation)
  | discard (d : Discarded)
deriving DecidableEq, Repr

def signalTarget (key : Key) : Target := ⟨.signal, key.1, key.2⟩

/-- The publication a frame carries for the signal channel, if it does. -/
def Frame.signal (key : Key) : Frame → Option (Envelope × PublishState)
  | .publish target envelope state =>
      if target = signalTarget key then some (envelope, state) else none
  | _ => none

end Ridl
