import Ridl.Frame.RoundTrip

/-!
# The Codec of the TypeScript Package

The TypeScript package reads and writes the same messages, with its own types.
A number is a double there, and an integer below 2^53 throughout, so it is a
natural number here; a stamp is a signed and a sequence number an unsigned
`bigint`. A kind is its wire code, and a rule or a reason is found by its
position in a table, whose codes start at 1.

A violation is thrown in the middle of the decoder, which is an error here. The
encoder writes into an array of zeros at fixed offsets; a write past its end
throws, which is `none` here, but for a single element, which is dropped.

The violations and the one discard are those of `ProtocolViolation` and
`Discarded`, under the same names.

## Main definitions

* `Ts.decode`: One message.
* `Ts.encode`: One frame.
-/

namespace Ridl

namespace Ts

open Library

/-- The kinds, by their codes. -/
def SIGNAL : Nat := 1
def EVENT : Nat := 2
def COMMAND : Nat := 3
def QUERY : Nat := 4
def FIXED : Nat := 5

structure Target where
  kind : Nat
  iface : Nat
  ord : Nat
deriving DecidableEq, Repr

structure Envelope where
  stamp : Int
  seq : Nat
deriving DecidableEq, Repr

/-- The rules, all of which have a code. -/
inductive Rule
  | range
  | step
  | length
  | pattern
  | variant
  | unique
  | utf8
deriving DecidableEq, Repr

inductive Contract
  | invalidValue (rule : Rule)
  | preconditionFailed
  | contractBroken
  | unknownInteraction
deriving DecidableEq, Repr

inductive AttachOutcome
  | accepted
  | refused (reason : Reason)
deriving DecidableEq, Repr

inductive AnswerOutcome
  | accepted
  | contract (contract : Contract)
deriving DecidableEq, Repr

inductive PublishState
  | init
  | live (payload : Bytes)
  | invalid
deriving DecidableEq, Repr

inductive ResponseOutcome
  | accepted
  | reply (payload : Bytes)
  | contract (contract : Contract)
  | corrupt
  | busy
deriving DecidableEq, Repr

inductive StreamOutcome
  | ended
  | interrupted
  | corrupt
  | busy
  | contract (contract : Contract)
deriving DecidableEq, Repr

inductive Frame
  | attach (frameVersion encoding : Nat) (hash : Bytes) (name : String)
  | attached (outcome : AttachOutcome)
  | subscribe (target : Target)
  | unsubscribe (target : Target)
  | read (target : Target)
  | answer (target : Target) (outcome : AnswerOutcome)
  | publish (target : Target) (envelope : Envelope) (state : PublishState)
  | occurrence (target : Target) (envelope : Envelope) (payload : Bytes)
  | request (target : Target) (envelope : Envelope) (payload : Bytes)
  | response (target : Target) (envelope : Envelope) (correlation : Nat)
      (outcome : ResponseOutcome)
  | block (target : Target) (envelope : Envelope) (total index : Nat) (payload : Bytes)
  | chunk (target : Target) (envelope : Envelope) (correlation stream : Nat) (payload : Bytes)
  | streamEnd (target : Target) (envelope : Envelope) (correlation stream : Nat)
      (outcome : StreamOutcome)
  | streamCredit (target : Target) (correlation stream credit : Nat)
deriving DecidableEq

def FRAME_VERSION_3 : Nat := 3

def BLOCK_BYTES : Nat := 4096

/-- The number of blocks of a payload of at least one byte. -/
def blockCount (total : Nat) : Nat := (total - 1) / BLOCK_BYTES + 1

def FORM_ATTACH : Nat := 1
def FORM_ATTACHED : Nat := 2
def FORM_SUBSCRIBE : Nat := 3
def FORM_ANSWER : Nat := 4
def FORM_UNSUBSCRIBE : Nat := 5
def FORM_READ : Nat := 6
def FORM_PUBLISH : Nat := 7
def FORM_OCCURRENCE : Nat := 8
def FORM_REQUEST : Nat := 9
def FORM_RESPONSE : Nat := 10
def FORM_BLOCK : Nat := 11
def FORM_CHUNK : Nat := 12
def FORM_STREAM_END : Nat := 13
def FORM_STREAM_CREDIT : Nat := 14

def OUT_ACCEPTED : Nat := 1
def OUT_REPLY : Nat := 2
def OUT_INVALID_VALUE : Nat := 3
def OUT_PRECONDITION_FAILED : Nat := 4
def OUT_CONTRACT_BROKEN : Nat := 5
def OUT_UNKNOWN_INTERACTION : Nat := 6
def OUT_CORRUPT : Nat := 7
def OUT_BUSY : Nat := 8
def OUT_REFUSED : Nat := 9
def OUT_END : Nat := 10
def OUT_INTERRUPTED : Nat := 11

def PROV_INIT : Nat := 1
def PROV_LIVE : Nat := 2
def PROV_INVALID : Nat := 3

def COMMON : Nat := 10
def ENVELOPE_BYTES : Nat := 16
def ATTACHED_LEN : Nat := 3
def ANSWER_LEN : Nat := COMMON + 2
def PUBLISH_LEN : Nat := COMMON + ENVELOPE_BYTES + 1
def DATA_LEN : Nat := COMMON + ENVELOPE_BYTES
def RESPONSE_LEN : Nat := COMMON + ENVELOPE_BYTES + 8 + 2
def BLOCK_LEN : Nat := COMMON + ENVELOPE_BYTES + 4 + 4
def CHUNK_LEN : Nat := COMMON + ENVELOPE_BYTES + 8 + 1
def STREAM_END_LEN : Nat := CHUNK_LEN + 2
def STREAM_CREDIT_LEN : Nat := COMMON + 8 + 1 + 4
def ATTACH_FIXED : Nat := 1 + 4 + 1 + 32 + 1

def RULES : List Rule := [.range, .step, .length, .pattern, .variant, .unique, .utf8]

def REASONS : List Reason :=
  [.unknownCatalog, .catalogMismatch, .encodingUnsupported, .frameVersionUnsupported, .range]

/-- The element of a table before an index, `undefined` being `none`: the index
    0 is past the front. -/
def before {α : Type} (table : List α) (index : Nat) : Option α :=
  if index = 0 then none else table[index - 1]?

/-- One more than the position in a table, 0 for what is not in it. -/
def indexOf {α : Type} [BEq α] (table : List α) (a : α) : Nat :=
  match table.idxOf? a with
  | some i => i + 1
  | none => 0

section Decoding

abbrev Decoded (α : Type) := Except DecodeError α

def fail {α : Type} (v : ProtocolViolation) : Decoded α := .error (.violation v)

def discard {α : Type} : Decoded α := .error (.discard .unexpectedPayload)

/-- An element of the message. -/
def byteAt (msg : Bytes) (i : Nat) : Nat := (msg.getD i 0).toNat

def getUint32 (msg : Bytes) (i : Nat) : Nat := ofLE (slice msg i 4)

def getBigUint64 (msg : Bytes) (i : Nat) : Nat := ofLE (slice msg i 8)

/-- The same eight bytes, as a number in two's complement. -/
def getBigInt64 (msg : Bytes) (i : Nat) : Int := (BitVec.ofNat 64 (getBigUint64 msg i)).toInt

def need (msg : Bytes) (len : Nat) : Decoded Unit :=
  if msg.length < len then fail .tooShort else return ()

def control (msg : Bytes) (len : Nat) : Decoded Unit := do
  need msg len
  if msg.length > len then fail .controlTooLong else return ()

def outcomeKnown (code : Nat) : Decoded Unit :=
  if code < OUT_ACCEPTED ∨ code > OUT_REFUSED then fail .unknownCode else return ()

def contractFrom (outcome detail : Nat) : Decoded Contract :=
  if outcome = OUT_INVALID_VALUE then
    match before RULES detail with
    | none => fail .unknownCode
    | some rule => return .invalidValue rule
  else if detail ≠ 0 then fail .nonzeroDetail
  else if outcome = OUT_PRECONDITION_FAILED then return .preconditionFailed
  else if outcome = OUT_CONTRACT_BROKEN then return .contractBroken
  else return .unknownInteraction

def streamFrom (code detail : Nat) : Decoded StreamOutcome :=
  if code ≥ OUT_INVALID_VALUE ∧ code ≤ OUT_UNKNOWN_INTERACTION then do
    return .contract (← contractFrom code detail)
  else if code = OUT_ACCEPTED ∨ code = OUT_REPLY ∨ code = OUT_REFUSED then
    fail .outcomeNotAllowed
  else if code ≠ OUT_CORRUPT ∧ code ≠ OUT_BUSY ∧ code ≠ OUT_END ∧ code ≠ OUT_INTERRUPTED then
    fail .unknownCode
  else if detail ≠ 0 then fail .nonzeroDetail
  else if code = OUT_CORRUPT then return .corrupt
  else if code = OUT_BUSY then return .busy
  else if code = OUT_END then return .ended
  else return .interrupted

def targetAt (msg : Bytes) : Decoded Target :=
  let kind := byteAt msg 1
  if kind < SIGNAL ∨ kind > FIXED then fail .unknownCode
  else
    let iface := getUint32 msg 2
    let ord := getUint32 msg 6
    if iface = 0 ∨ ord = 0 then fail .zeroNumber else return ⟨kind, iface, ord⟩

def streamTargetAt (msg : Bytes) : Decoded Target := do
  let target ← targetAt msg
  if target.kind ≠ COMMAND ∧ target.kind ≠ QUERY then fail .badStream else return target

def envelopeAt (msg : Bytes) (i : Nat) : Envelope := ⟨getBigInt64 msg i, getBigUint64 msg (i + 8)⟩

def decodeBlock (msg : Bytes) : Decoded Frame := do
  need msg BLOCK_LEN
  let target ← targetAt msg
  if target.kind ≠ FIXED then fail .badBlock
  else
    let envelope := envelopeAt msg COMMON
    let total := getUint32 msg (COMMON + ENVELOPE_BYTES)
    let index := getUint32 msg (COMMON + ENVELOPE_BYTES + 4)
    if total < 1 then fail .badBlock
    else
      let count := blockCount total
      if index ≥ count then fail .badBlock
      else
        let expected := if index < count - 1 then BLOCK_BYTES else total - BLOCK_BYTES * index
        if msg.length - BLOCK_LEN ≠ expected then fail .badBlock
        else return .block target envelope total index (msg.drop BLOCK_LEN)

/-- `TextDecoder` with `fatal` and `ignoreBOM` accepts what is UTF-8. -/
def decodeAttach (msg : Bytes) : Decoded Frame := do
  need msg ATTACH_FIXED
  let nameLen := byteAt msg (ATTACH_FIXED - 1)
  if nameLen = 0 ∨ msg.length ≠ ATTACH_FIXED + nameLen then fail .badNameLength
  else if h : Wire.IsUtf8 (msg.drop ATTACH_FIXED) then
    if byteAt msg 5 < 1 ∨ byteAt msg 5 > 3 then fail .unknownCode
    else
      return .attach (getUint32 msg 1) (byteAt msg 5) (slice msg 6 32)
        (Wire.textOf (msg.drop ATTACH_FIXED) h)
  else fail .badName

def decodeAttached (msg : Bytes) : Decoded Frame := do
  control msg ATTACHED_LEN
  outcomeKnown (byteAt msg 1)
  if byteAt msg 1 = OUT_ACCEPTED then
    if byteAt msg 2 ≠ 0 then fail .nonzeroDetail else return .attached .accepted
  else if byteAt msg 1 = OUT_REFUSED then
    match before REASONS (byteAt msg 2) with
    | none => fail .unknownCode
    | some reason => return .attached (.refused reason)
  else fail .outcomeNotAllowed

/-- `subscribe`, `unsubscribe` and `read`. -/
def decodeControl (frame : Target → Frame) (msg : Bytes) : Decoded Frame := do
  control msg COMMON
  let target ← targetAt msg
  return frame target

def decodeAnswer (msg : Bytes) : Decoded Frame := do
  control msg ANSWER_LEN
  let target ← targetAt msg
  let code := byteAt msg 10
  let detail := byteAt msg 11
  outcomeKnown code
  if code = OUT_ACCEPTED then
    if detail ≠ 0 then fail .nonzeroDetail else return .answer target .accepted
  else if code ≥ OUT_INVALID_VALUE ∧ code ≤ OUT_UNKNOWN_INTERACTION then
    return .answer target (.contract (← contractFrom code detail))
  else fail .outcomeNotAllowed

def decodePublish (msg : Bytes) : Decoded Frame := do
  need msg PUBLISH_LEN
  let target ← targetAt msg
  let envelope := envelopeAt msg COMMON
  let rest := msg.drop PUBLISH_LEN
  let provenance := byteAt msg (PUBLISH_LEN - 1)
  if provenance = PROV_INIT then
    if rest.length > 0 then discard else return .publish target envelope .init
  else if provenance = PROV_LIVE then return .publish target envelope (.live rest)
  else if provenance = PROV_INVALID then
    if rest.length > 0 then discard else return .publish target envelope .invalid
  else fail .unknownCode

/-- `occurrence` and `request`. -/
def decodeData (frame : Target → Envelope → Bytes → Frame) (msg : Bytes) : Decoded Frame := do
  need msg DATA_LEN
  let target ← targetAt msg
  return frame target (envelopeAt msg COMMON) (msg.drop DATA_LEN)

def decodeResponse (msg : Bytes) : Decoded Frame := do
  need msg RESPONSE_LEN
  let target ← targetAt msg
  let envelope := envelopeAt msg COMMON
  let correlation := getBigUint64 msg (COMMON + ENVELOPE_BYTES)
  let code := byteAt msg (RESPONSE_LEN - 2)
  let detail := byteAt msg (RESPONSE_LEN - 1)
  let rest := msg.drop RESPONSE_LEN
  outcomeKnown code
  -- Every outcome but a reply goes on to the check of the rest.
  let bare (outcome : ResponseOutcome) : Decoded Frame :=
    if rest.length > 0 then discard else return .response target envelope correlation outcome
  if code = OUT_REFUSED then fail .outcomeNotAllowed
  else if code ≥ OUT_INVALID_VALUE ∧ code ≤ OUT_UNKNOWN_INTERACTION then do
    bare (.contract (← contractFrom code detail))
  else if detail ≠ 0 then fail .nonzeroDetail
  else if code = OUT_ACCEPTED then bare .accepted
  else if code = OUT_REPLY then return .response target envelope correlation (.reply rest)
  else if code = OUT_CORRUPT then bare .corrupt
  else bare .busy

def decodeChunk (msg : Bytes) : Decoded Frame := do
  need msg CHUNK_LEN
  let target ← streamTargetAt msg
  return .chunk target (envelopeAt msg COMMON) (getBigUint64 msg (COMMON + ENVELOPE_BYTES))
    (byteAt msg (CHUNK_LEN - 1)) (msg.drop CHUNK_LEN)

def decodeStreamEnd (msg : Bytes) : Decoded Frame := do
  need msg STREAM_END_LEN
  let target ← streamTargetAt msg
  let outcome ← streamFrom (byteAt msg (STREAM_END_LEN - 2)) (byteAt msg (STREAM_END_LEN - 1))
  if msg.length > STREAM_END_LEN then fail .badStream
  else
    return .streamEnd target (envelopeAt msg COMMON) (getBigUint64 msg (COMMON + ENVELOPE_BYTES))
      (byteAt msg (STREAM_END_LEN - 3)) outcome

def decodeStreamCredit (msg : Bytes) : Decoded Frame := do
  need msg STREAM_CREDIT_LEN
  let target ← streamTargetAt msg
  let credit := getUint32 msg (STREAM_CREDIT_LEN - 4)
  if credit = 0 then fail .zeroNumber
  else if msg.length > STREAM_CREDIT_LEN then fail .badStream
  else
    return .streamCredit target (getBigUint64 msg COMMON) (byteAt msg (STREAM_CREDIT_LEN - 5)) credit

/-- `decode` and `decodeFrame`. -/
def decode (msg : Bytes) : Decoded Frame :=
  if msg.length = 0 then fail .tooShort
  else
    let form := byteAt msg 0
    if form = FORM_ATTACH then decodeAttach msg
    else if form = FORM_ATTACHED then decodeAttached msg
    else if form = FORM_SUBSCRIBE then decodeControl .subscribe msg
    else if form = FORM_UNSUBSCRIBE then decodeControl .unsubscribe msg
    else if form = FORM_READ then decodeControl .read msg
    else if form = FORM_ANSWER then decodeAnswer msg
    else if form = FORM_PUBLISH then decodePublish msg
    else if form = FORM_OCCURRENCE then decodeData .occurrence msg
    else if form = FORM_REQUEST then decodeData .request msg
    else if form = FORM_RESPONSE then decodeResponse msg
    else if form = FORM_BLOCK then decodeBlock msg
    else if form = FORM_CHUNK then decodeChunk msg
    else if form = FORM_STREAM_END then decodeStreamEnd msg
    else if form = FORM_STREAM_CREDIT then decodeStreamCredit msg
    else fail .unknownCode

end Decoding

section Encoding

/-- `out[i] = v`, the element being the low byte: nothing past the end. -/
def put (i v : Nat) (out : Bytes) : Bytes := out.set i (UInt8.ofNat v)

/-- `out.set(bytes, i)`, which throws past the end. -/
def set (i : Nat) (bytes out : Bytes) : Option Bytes :=
  if i + bytes.length ≤ out.length then
    some (out.take i ++ bytes ++ out.drop (i + bytes.length))
  else none

def setUint32 (i v : Nat) (out : Bytes) : Option Bytes := set i (toLE 4 v) out

def setBigUint64 (i v : Nat) (out : Bytes) : Option Bytes := set i (toLE 8 v) out

def setBigInt64 (i : Nat) (v : Int) (out : Bytes) : Option Bytes :=
  set i (toLE 8 (BitVec.ofInt 64 v).toNat) out

/-- The codes of a contract error, or what stands for a rule that the version
    does not carry. -/
def contractCodes (contract : Contract) (frameVersion notCarried : Nat) : Nat × Nat :=
  match contract with
  | .invalidValue rule =>
      let detail := indexOf RULES rule
      if detail = 0 ∨ (rule = .utf8 ∧ frameVersion < FRAME_VERSION_3) then (notCarried, 0)
      else (OUT_INVALID_VALUE, detail)
  | .preconditionFailed => (OUT_PRECONDITION_FAILED, 0)
  | .contractBroken => (OUT_CONTRACT_BROKEN, 0)
  | .unknownInteraction => (OUT_UNKNOWN_INTERACTION, 0)

def streamCodes : StreamOutcome → Nat × Nat
  | .ended => (OUT_END, 0)
  | .interrupted => (OUT_INTERRUPTED, 0)
  | .corrupt => (OUT_CORRUPT, 0)
  | .busy => (OUT_BUSY, 0)
  | .contract contract => contractCodes contract FRAME_VERSION_3 OUT_CORRUPT

def targetBytes (form : Nat) (t : Target) (out : Bytes) : Option Bytes := do
  let out ← setUint32 2 t.iface (put 1 t.kind (put 0 form out))
  setUint32 6 t.ord out

def writeEnvelope (e : Envelope) (out : Bytes) : Option Bytes := do
  let out ← setBigInt64 COMMON e.stamp out
  setBigUint64 (COMMON + 8) e.seq out

def encodedLength (frame : Frame) (nameBytes : Bytes) : Nat :=
  match frame with
  | .attach .. => ATTACH_FIXED + nameBytes.length
  | .attached _ => ATTACHED_LEN
  | .subscribe _ | .unsubscribe _ | .read _ => COMMON
  | .answer _ _ => ANSWER_LEN
  | .publish _ _ (.live payload) => PUBLISH_LEN + payload.length
  | .publish _ _ _ => PUBLISH_LEN
  | .occurrence _ _ payload | .request _ _ payload => DATA_LEN + payload.length
  | .response _ _ _ (.reply payload) => RESPONSE_LEN + payload.length
  | .response _ _ _ _ => RESPONSE_LEN
  | .block _ _ _ _ payload => BLOCK_LEN + payload.length
  | .chunk _ _ _ _ payload => CHUNK_LEN + payload.length
  | .streamEnd .. => STREAM_END_LEN
  | .streamCredit .. => STREAM_CREDIT_LEN

/-- `TextEncoder`, for the one form that has a text. -/
def nameBytes : Frame → Bytes
  | .attach _ _ _ name => Wire.textBytes name
  | _ => []

/-- The writes of a frame into an array of its length. -/
def write (frame : Frame) (frameVersion : Nat) (out : Bytes) : Option Bytes :=
  match frame with
  | .attach version encoding hash name =>
      let name := Wire.textBytes name
      if name.length = 0 ∨ name.length > 255 then none
      else if hash.length ≠ 32 then none
      else do
        let out ← setUint32 1 version (put 0 FORM_ATTACH out)
        let out ← set 6 hash (put 5 encoding out)
        set ATTACH_FIXED name (put 38 name.length out)
  | .attached .accepted => some (put 1 OUT_ACCEPTED (put 0 FORM_ATTACHED out))
  | .attached (.refused reason) =>
      some (put 2 (indexOf REASONS reason) (put 1 OUT_REFUSED (put 0 FORM_ATTACHED out)))
  | .subscribe target => targetBytes FORM_SUBSCRIBE target out
  | .unsubscribe target => targetBytes FORM_UNSUBSCRIBE target out
  | .read target => targetBytes FORM_READ target out
  | .answer target outcome => do
      let out ← targetBytes FORM_ANSWER target out
      let codes :=
        match outcome with
        | .accepted => (OUT_ACCEPTED, 0)
        | .contract contract => contractCodes contract frameVersion OUT_CONTRACT_BROKEN
      return put 11 codes.2 (put 10 codes.1 out)
  | .publish target envelope state => do
      let out ← targetBytes FORM_PUBLISH target out
      let out ← writeEnvelope envelope out
      match state with
      | .live payload => set PUBLISH_LEN payload (put (PUBLISH_LEN - 1) PROV_LIVE out)
      | .init => return put (PUBLISH_LEN - 1) PROV_INIT out
      | .invalid => return put (PUBLISH_LEN - 1) PROV_INVALID out
  | .occurrence target envelope payload => do
      let out ← targetBytes FORM_OCCURRENCE target out
      let out ← writeEnvelope envelope out
      set DATA_LEN payload out
  | .request target envelope payload => do
      let out ← targetBytes FORM_REQUEST target out
      let out ← writeEnvelope envelope out
      set DATA_LEN payload out
  | .response target envelope correlation outcome => do
      let out ← targetBytes FORM_RESPONSE target out
      let out ← writeEnvelope envelope out
      let out ← setBigUint64 (COMMON + ENVELOPE_BYTES) correlation out
      let codes (c : Nat × Nat) (out : Bytes) : Bytes :=
        put (RESPONSE_LEN - 1) c.2 (put (RESPONSE_LEN - 2) c.1 out)
      match outcome with
      | .accepted => return codes (OUT_ACCEPTED, 0) out
      | .reply payload => do
          let out ← set RESPONSE_LEN payload out
          return codes (OUT_REPLY, 0) out
      | .contract contract => return codes (contractCodes contract frameVersion OUT_CORRUPT) out
      | .corrupt => return codes (OUT_CORRUPT, 0) out
      | .busy => return codes (OUT_BUSY, 0) out
  | .block target envelope total index payload => do
      let out ← targetBytes FORM_BLOCK target out
      let out ← writeEnvelope envelope out
      let out ← setUint32 (COMMON + ENVELOPE_BYTES) total out
      let out ← setUint32 (COMMON + ENVELOPE_BYTES + 4) index out
      set BLOCK_LEN payload out
  | .chunk target envelope correlation stream payload => do
      let out ← targetBytes FORM_CHUNK target out
      let out ← writeEnvelope envelope out
      let out ← setBigUint64 (COMMON + ENVELOPE_BYTES) correlation out
      set CHUNK_LEN payload (put (CHUNK_LEN - 1) stream out)
  | .streamEnd target envelope correlation stream outcome => do
      let out ← targetBytes FORM_STREAM_END target out
      let out ← writeEnvelope envelope out
      let out ← setBigUint64 (COMMON + ENVELOPE_BYTES) correlation out
      let codes := streamCodes outcome
      return put (STREAM_END_LEN - 1) codes.2 (put (STREAM_END_LEN - 2) codes.1
        (put (STREAM_END_LEN - 3) stream out))
  | .streamCredit target correlation stream credit => do
      let out ← targetBytes FORM_STREAM_CREDIT target out
      let out ← setBigUint64 COMMON correlation out
      setUint32 (STREAM_CREDIT_LEN - 4) credit (put (STREAM_CREDIT_LEN - 5) stream out)

/-- One frame as one message, `none` where the encoder throws. -/
def encode (frame : Frame) (frameVersion : Nat) : Option Bytes :=
  write frame frameVersion (List.replicate (encodedLength frame (nameBytes frame)) 0)

end Encoding

end Ts

end Ridl
