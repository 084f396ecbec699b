import Ridl.Frame.Types
import Ridl.Library.Bytes

/-!
# Decoding a Message

A message of the WebSocket binding is one frame. The first byte is the form,
and every form but `attach` and `attached` goes on with its target: the kind,
the interface and the ordinal, ten bytes in all with the form. Numbers are
little-endian.

Each form checks its length first, then its target, then its codes, and last
what may follow, so of several defects the first in this order is reported.
A defect is a violation of the protocol, but for a payload where the state
carries none: such a frame is recorded and dropped.

The functions that return a violation return the decoder's error here, as the
`?` of their callers makes it one.

## Main definitions

* `targetAt`, `envelopeAt`: The fields common to the forms.
-/

namespace Ridl

namespace Wire

open Library

/-- The first byte of a message. -/
inductive Form
  | attach
  | attached
  | subscribe
  | answer
  | unsubscribe
  | read
  | publish
  | occurrence
  | request
  | response
  | block
  | chunk
  | streamEnd
  | streamCredit
deriving DecidableEq, Repr

def Form.code : Form → UInt8
  | .attach => 1
  | .attached => 2
  | .subscribe => 3
  | .answer => 4
  | .unsubscribe => 5
  | .read => 6
  | .publish => 7
  | .occurrence => 8
  | .request => 9
  | .response => 10
  | .block => 11
  | .chunk => 12
  | .streamEnd => 13
  | .streamCredit => 14

def formFrom (code : UInt8) : Option Form :=
  match code.toNat with
  | 1 => some .attach
  | 2 => some .attached
  | 3 => some .subscribe
  | 4 => some .answer
  | 5 => some .unsubscribe
  | 6 => some .read
  | 7 => some .publish
  | 8 => some .occurrence
  | 9 => some .request
  | 10 => some .response
  | 11 => some .block
  | 12 => some .chunk
  | 13 => some .streamEnd
  | 14 => some .streamCredit
  | _ => none

def OUT_ACCEPTED : UInt8 := 1
def OUT_REPLY : UInt8 := 2
def OUT_INVALID_VALUE : UInt8 := 3
def OUT_PRECONDITION_FAILED : UInt8 := 4
def OUT_CONTRACT_BROKEN : UInt8 := 5
def OUT_UNKNOWN_INTERACTION : UInt8 := 6
def OUT_CORRUPT : UInt8 := 7
def OUT_BUSY : UInt8 := 8
def OUT_REFUSED : UInt8 := 9
def OUT_END : UInt8 := 10
def OUT_INTERRUPTED : UInt8 := 11

def PROV_INIT : UInt8 := 1
def PROV_LIVE : UInt8 := 2
def PROV_INVALID_DECLARED : UInt8 := 3

def ATTACHED_LEN : Nat := 3
def ANSWER_LEN : Nat := COMMON + 2
def RESPONSE_LEN : Nat := COMMON + ENVELOPE_BYTES + 8 + 2
def BLOCK_LEN : Nat := COMMON + ENVELOPE_BYTES + 8
def CHUNK_LEN : Nat := COMMON + ENVELOPE_BYTES + 8 + 1
def STREAM_END_LEN : Nat := CHUNK_LEN + 2
def STREAM_CREDIT_LEN : Nat := COMMON + 8 + 1 + 4

/-- The bytes of an `attach` before its name: the form, the version, the
    encoding, the hash and the name's length. -/
def ATTACH_FIXED : Nat := 1 + 4 + 1 + 32 + 1

/-- What the decoder answers. -/
abbrev Decoded (α : Type) := Except DecodeError α

def fail {α : Type} (v : ProtocolViolation) : Decoded α := .error (.violation v)

/-- A byte of a message that is known to be long enough. -/
def byteAt (msg : Bytes) (i : Nat) : UInt8 := msg.getD i 0

def u32At (msg : Bytes) (i : Nat) : UInt32 := UInt32.ofNat (ofLE (slice msg i 4))

def u64At (msg : Bytes) (i : Nat) : UInt64 := UInt64.ofNat (ofLE (slice msg i 8))

def kindCode : Kind → UInt8
  | .signal => 1
  | .event => 2
  | .command => 3
  | .query => 4
  | .fixed => 5

def kindFrom (code : UInt8) : Decoded Kind :=
  match code.toNat with
  | 1 => .ok .signal
  | 2 => .ok .event
  | 3 => .ok .command
  | 4 => .ok .query
  | 5 => .ok .fixed
  | _ => fail .unknownCode

def ruleFrom (code : UInt8) : Decoded Rule :=
  match code.toNat with
  | 1 => .ok .range
  | 2 => .ok .step
  | 3 => .ok .length
  | 4 => .ok .pattern
  | 5 => .ok .variant
  | 6 => .ok .unique
  | 7 => .ok .utf8
  | _ => fail .unknownCode

def reasonFrom (code : UInt8) : Decoded Reason :=
  match code.toNat with
  | 1 => .ok .unknownCatalog
  | 2 => .ok .catalogMismatch
  | 3 => .ok .encodingUnsupported
  | 4 => .ok .frameVersionUnsupported
  | 5 => .ok .range
  | _ => fail .unknownCode

/-- A contract error from an outcome code of 3 to 6 and its detail. -/
def contractFrom (outcome detail : UInt8) : Decoded Contract :=
  if outcome = OUT_INVALID_VALUE then do
    let rule ← ruleFrom detail
    return .invalidValue ⟨none, rule⟩
  else if detail ≠ 0 then fail .nonzeroDetail
  else if outcome = OUT_PRECONDITION_FAILED then .ok .preconditionFailed
  else if outcome = OUT_CONTRACT_BROKEN then .ok .contractBroken
  else .ok .unknownInteraction

/-- The codes of a contract error. -/
def isContract (outcome : UInt8) : Bool :=
  decide (OUT_INVALID_VALUE ≤ outcome) && decide (outcome ≤ OUT_UNKNOWN_INTERACTION)

/-- An outcome of `stream_end`. The codes 1, 2 and 9 are in the table, and not
    allowed here. -/
def streamFrom (outcome detail : UInt8) : Decoded StreamOutcome :=
  if isContract outcome then do
    let c ← contractFrom outcome detail
    return .contract c
  else if outcome = OUT_ACCEPTED ∨ outcome = OUT_REPLY ∨ outcome = OUT_REFUSED then
    fail .outcomeNotAllowed
  else if outcome = OUT_CORRUPT ∨ outcome = OUT_BUSY ∨ outcome = OUT_END ∨
      outcome = OUT_INTERRUPTED then
    if detail ≠ 0 then fail .nonzeroDetail
    else if outcome = OUT_CORRUPT then .ok .corrupt
    else if outcome = OUT_BUSY then .ok .busy
    else if outcome = OUT_END then .ok .ended
    else .ok .interrupted
  else fail .unknownCode

/-- Tells a code outside the table from one the form does not allow. -/
def outcomeKnown (outcome : UInt8) : Decoded Unit :=
  if OUT_ACCEPTED ≤ outcome ∧ outcome ≤ OUT_REFUSED then .ok () else fail .unknownCode

/-- The target in the first ten bytes. -/
def targetAt (msg : Bytes) : Decoded Target := do
  let kind ← kindFrom (byteAt msg 1)
  let iface := u32At msg 2
  let ord := u32At msg 6
  if iface = 0 ∨ ord = 0 then fail .zeroNumber else return ⟨kind, iface, ord⟩

/-- The target of a stream frame: a command or a query. -/
def streamTargetAt (msg : Bytes) : Decoded Target := do
  let target ← targetAt msg
  if target.kind = .command ∨ target.kind = .query then return target else fail .badStream

def envelopeAt (msg : Bytes) (i : Nat) : Envelope := ⟨(u64At msg i).toInt64, u64At msg (i + 8)⟩

/-- The payload bytes that a block carries, in 32 bits throughout. -/
def blockLen (total index : UInt32) : Option UInt32 :=
  if total = 0 then none
  else
    -- `div_ceil`
    let block := UInt32.ofNat BLOCK_BYTES
    let count := total / block + if total % block = 0 then 0 else 1
    if index ≥ count then none
    else if index < count - 1 then some block
    else some (total - block * index)

def need (msg : Bytes) (len : Nat) : Decoded Unit :=
  if msg.length < len then fail .tooShort else .ok ()

/-- A message of exactly so many bytes. -/
def control (msg : Bytes) (len : Nat) : Decoded Unit := do
  need msg len
  if msg.length > len then fail .controlTooLong else return ()

/-- Bytes that `str::from_utf8` accepts. -/
abbrev IsUtf8 (bytes : Bytes) : Prop := (ByteArray.mk bytes.toArray).IsValidUTF8

def textOf (bytes : Bytes) (h : IsUtf8 bytes) : String := String.fromUTF8 ⟨bytes.toArray⟩ h

theorem utf8ByteSize_textOf (bytes : Bytes) (h : IsUtf8 bytes) :
    (textOf bytes h).utf8ByteSize = bytes.length :=
  rfl

/-- An `attach`: its length is checked with its name's. -/
def decodeAttach (msg : Bytes) : Decoded Frame :=
  if hshort : msg.length < ATTACH_FIXED then fail .tooShort
  else
    let nameLen := (byteAt msg (ATTACH_FIXED - 1)).toNat
    if hname : nameLen = 0 ∨ msg.length ≠ ATTACH_FIXED + nameLen then fail .badNameLength
    else if hutf8 : IsUtf8 (msg.drop ATTACH_FIXED) then
      if hencoding : 1 ≤ (byteAt msg 5).toNat ∧ (byteAt msg 5).toNat ≤ 3 then
        have hhash : (slice msg 6 32).length = 32 :=
          length_slice msg 6 32 (by unfold ATTACH_FIXED at hshort; omega)
        have hnamed : 1 ≤ (textOf (msg.drop ATTACH_FIXED) hutf8).utf8ByteSize ∧
            (textOf (msg.drop ATTACH_FIXED) hutf8).utf8ByteSize ≤ 255 := by
          have hbyte := (byteAt msg (ATTACH_FIXED - 1)).toNat_lt
          rw [utf8ByteSize_textOf, List.length_drop]
          omega
        .ok (.attach
          { frameVersion := u32At msg 1, encoding := byteAt msg 5
            hash := ⟨slice msg 6 32, hhash⟩, name := textOf (msg.drop ATTACH_FIXED) hutf8
            known := hencoding, named := hnamed })
      else fail .unknownCode
    else fail .badName

def decodeAttached (msg : Bytes) : Decoded Frame := do
  control msg ATTACHED_LEN
  let code := byteAt msg 1
  let detail := byteAt msg 2
  outcomeKnown code
  if code = OUT_ACCEPTED then
    if detail = 0 then return .attached .accepted else fail .nonzeroDetail
  else if code = OUT_REFUSED then
    return .attached (.refused (← reasonFrom detail))
  else fail .outcomeNotAllowed

/-- The forms that are no more than a target. -/
def decodeControl (frame : Target → Frame) (msg : Bytes) : Decoded Frame := do
  control msg COMMON
  let target ← targetAt msg
  return frame target

def decodeAnswer (msg : Bytes) : Decoded Frame := do
  control msg ANSWER_LEN
  let target ← targetAt msg
  let code := byteAt msg 10
  let detail := byteAt msg 11
  outcomeKnown code
  if code = OUT_ACCEPTED then
    if detail = 0 then return .answer target .accepted else fail .nonzeroDetail
  else if isContract code then
    return .answer target (.contract (← contractFrom code detail))
  else fail .outcomeNotAllowed

def decodePublish (msg : Bytes) : Decoded Frame := do
  need msg PUBLISH_LEN
  let target ← targetAt msg
  let envelope := envelopeAt msg COMMON
  let rest := msg.drop PUBLISH_LEN
  let provenance := byteAt msg (PUBLISH_LEN - 1)
  if provenance = PROV_LIVE then return .publish target envelope (.live rest)
  else if provenance = PROV_INIT ∨ provenance = PROV_INVALID_DECLARED then
    if rest ≠ [] then .error (.discard .unexpectedPayload)
    else
      return .publish target envelope
        (if provenance = PROV_INIT then .init else .invalidDeclared)
  else fail .unknownCode

/-- `occurrence` and `request`. -/
def decodeData (frame : Target → Envelope → Bytes → Frame) (msg : Bytes) : Decoded Frame := do
  need msg DATA_LEN
  let target ← targetAt msg
  return frame target (envelopeAt msg COMMON) (msg.drop DATA_LEN)

/-- The outcome of a `response`, with the bytes that only a reply carries. -/
def responseFrom (code detail : UInt8) (rest : Bytes) : Decoded ResponseOutcome :=
  if code = OUT_REFUSED then fail .outcomeNotAllowed
  else if isContract code then do
    let c ← contractFrom code detail
    return .contract c
  else if detail ≠ 0 then fail .nonzeroDetail
  else if code = OUT_ACCEPTED then .ok .accepted
  else if code = OUT_REPLY then .ok (.reply rest)
  else if code = OUT_CORRUPT then .ok .corrupt
  else .ok .busy

def isReply : ResponseOutcome → Bool
  | .reply _ => true
  | _ => false

def decodeResponse (msg : Bytes) : Decoded Frame := do
  need msg RESPONSE_LEN
  let target ← targetAt msg
  let envelope := envelopeAt msg COMMON
  let correlation := u64At msg (COMMON + ENVELOPE_BYTES)
  let code := byteAt msg (RESPONSE_LEN - 2)
  let detail := byteAt msg (RESPONSE_LEN - 1)
  let rest := msg.drop RESPONSE_LEN
  outcomeKnown code
  let outcome ← responseFrom code detail rest
  if ¬ isReply outcome ∧ rest ≠ [] then .error (.discard .unexpectedPayload)
  else return .response target envelope correlation outcome

def decodeBlock (msg : Bytes) : Decoded Frame := do
  need msg BLOCK_LEN
  let target ← targetAt msg
  if target.kind ≠ .fixed then fail .badBlock
  else
    let envelope := envelopeAt msg COMMON
    let total := u32At msg (COMMON + ENVELOPE_BYTES)
    let index := u32At msg (COMMON + ENVELOPE_BYTES + 4)
    let payload := msg.drop BLOCK_LEN
    if (blockLen total index).map UInt32.toNat = some payload.length then
      return .block target envelope total index payload
    else fail .badBlock

def decodeChunk (msg : Bytes) : Decoded Frame := do
  need msg CHUNK_LEN
  let target ← streamTargetAt msg
  return .chunk target (envelopeAt msg COMMON) (u64At msg (COMMON + ENVELOPE_BYTES))
    (byteAt msg (CHUNK_LEN - 1)) (msg.drop CHUNK_LEN)

def decodeStreamEnd (msg : Bytes) : Decoded Frame := do
  need msg STREAM_END_LEN
  let target ← streamTargetAt msg
  let outcome ← streamFrom (byteAt msg (STREAM_END_LEN - 2)) (byteAt msg (STREAM_END_LEN - 1))
  if msg.length > STREAM_END_LEN then fail .badStream
  else
    return .streamEnd target (envelopeAt msg COMMON) (u64At msg (COMMON + ENVELOPE_BYTES))
      (byteAt msg (STREAM_END_LEN - 3)) outcome

def decodeStreamCredit (msg : Bytes) : Decoded Frame := do
  need msg STREAM_CREDIT_LEN
  let target ← streamTargetAt msg
  let credit := u32At msg (STREAM_CREDIT_LEN - 4)
  if credit = 0 then fail .zeroNumber
  else if msg.length > STREAM_CREDIT_LEN then fail .badStream
  else
    return .streamCredit target (u64At msg COMMON) (byteAt msg (STREAM_CREDIT_LEN - 5)) credit

/-- One message, read without the session it is part of. -/
def decode (msg : Bytes) : Decoded Frame :=
  match msg with
  | [] => fail .tooShort
  | form :: _ =>
      match formFrom form with
      | none => fail .unknownCode
      | some .attach => decodeAttach msg
      | some .attached => decodeAttached msg
      | some .subscribe => decodeControl .subscribe msg
      | some .answer => decodeAnswer msg
      | some .unsubscribe => decodeControl .unsubscribe msg
      | some .read => decodeControl .read msg
      | some .publish => decodePublish msg
      | some .occurrence => decodeData .occurrence msg
      | some .request => decodeData .request msg
      | some .response => decodeResponse msg
      | some .block => decodeBlock msg
      | some .chunk => decodeChunk msg
      | some .streamEnd => decodeStreamEnd msg
      | some .streamCredit => decodeStreamCredit msg

end Wire

end Ridl
