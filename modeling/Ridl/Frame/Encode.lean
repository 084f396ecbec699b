import Ridl.Frame.Decode

/-!
# Encoding a Frame

A frame is written into a buffer, field by field, by a writer that moves on by
what it writes. A buffer that is too short is refused before anything is
written, with the length it should have.

A writer whose buffer is too short for a field panics, which is `none` here.
Writes one after the other are one write of everything (`Writer.bytes_bytes`),
so a frame is written as `frameBytes` says (`write_eq`).

## Main definitions

* `frameBytes`: What is written.

## Theorems

* `write_eq`: The writes of a frame are one write.
* `encode_of_le`, `encode_of_lt`: What an encoding leaves in the buffer.
-/

namespace Ridl

namespace Wire

open Library

/-- The buffer was too short: the length it needs. -/
structure Short where
  needed : Nat
deriving DecidableEq, Repr

def ruleCode (rule : Rule) : UInt8 := (ruleTag rule).getD 0

def reasonCode : Reason → UInt8
  | .unknownCatalog => 1
  | .catalogMismatch => 2
  | .encodingUnsupported => 3
  | .frameVersionUnsupported => 4
  | .range => 5

/-- The outcome and the detail of a contract error. -/
def contractCodes : Contract → UInt8 × UInt8
  | .invalidValue v => (OUT_INVALID_VALUE, ruleCode v.rule)
  | .preconditionFailed => (OUT_PRECONDITION_FAILED, 0)
  | .contractBroken => (OUT_CONTRACT_BROKEN, 0)
  | .unknownInteraction => (OUT_UNKNOWN_INTERACTION, 0)

def streamCodes : StreamOutcome → UInt8 × UInt8
  | .ended => (OUT_END, 0)
  | .contract c => contractCodes c
  | .corrupt => (OUT_CORRUPT, 0)
  | .busy => (OUT_BUSY, 0)
  | .interrupted => (OUT_INTERRUPTED, 0)

def answerCodes : AnswerOutcome → UInt8 × UInt8
  | .accepted => (OUT_ACCEPTED, 0)
  | .contract c => contractCodes c

def responseCodes : ResponseOutcome → UInt8 × UInt8
  | .accepted => (OUT_ACCEPTED, 0)
  | .reply _ => (OUT_REPLY, 0)
  | .contract c => contractCodes c
  | .corrupt => (OUT_CORRUPT, 0)
  | .busy => (OUT_BUSY, 0)

/-- `u32::to_le_bytes`. -/
def u32Bytes (n : UInt32) : Bytes := toLE 4 n.toNat

/-- `u64::to_le_bytes`. -/
def u64Bytes (n : UInt64) : Bytes := toLE 8 n.toNat

/-- `str::as_bytes`. -/
def textBytes (text : String) : Bytes := text.toByteArray.data.toList

/-- The payload that a state or an outcome carries. -/
def statePayload : PublishState → Bytes
  | .live p => p
  | _ => []

def replyPayload : ResponseOutcome → Bytes
  | .reply p => p
  | _ => []

/-- The number of bytes a frame is written in. -/
def encodedLen : Frame → Nat
  | .attach a => ATTACH_FIXED + a.name.utf8ByteSize
  | .attached _ => ATTACHED_LEN
  | .subscribe _ | .unsubscribe _ | .read _ => COMMON
  | .answer _ _ => ANSWER_LEN
  | .publish _ _ state => PUBLISH_LEN + (statePayload state).length
  | .occurrence _ _ payload | .request _ _ payload => DATA_LEN + payload.length
  | .response _ _ _ outcome => RESPONSE_LEN + (replyPayload outcome).length
  | .block _ _ _ _ payload => BLOCK_LEN + payload.length
  | .chunk _ _ _ _ payload => CHUNK_LEN + payload.length
  | .streamEnd .. => STREAM_END_LEN
  | .streamCredit .. => STREAM_CREDIT_LEN

/-- A cursor over the output buffer. -/
structure Writer where
  out : Bytes
  pos : Nat
deriving DecidableEq

namespace Writer

/-- The bytes overwrite the buffer at the cursor. -/
def bytes (b : Bytes) (w : Writer) : Option Writer :=
  if w.pos + b.length ≤ w.out.length then
    some ⟨w.out.take w.pos ++ b ++ w.out.drop (w.pos + b.length), w.pos + b.length⟩
  else none

def u8 (v : UInt8) (w : Writer) : Option Writer := w.bytes [v]

def target (form : Form) (t : Target) (w : Writer) : Option Writer := do
  let w ← w.u8 form.code
  let w ← w.u8 (kindCode t.kind)
  let w ← w.bytes (u32Bytes t.iface)
  w.bytes (u32Bytes t.ord)

def envelope (e : Envelope) (w : Writer) : Option Writer := do
  let w ← w.bytes (u64Bytes e.stamp.toUInt64)
  w.bytes (u64Bytes e.seq)

/-- An outcome and its detail. -/
def codes (c : UInt8 × UInt8) (w : Writer) : Option Writer := do
  let w ← w.u8 c.1
  w.u8 c.2

end Writer

/-- The fields of a frame, in order. -/
def write (f : Frame) (w : Writer) : Option Writer :=
  match f with
  | .attach a => do
      let w ← w.u8 Form.attach.code
      let w ← w.bytes (u32Bytes a.frameVersion)
      let w ← w.u8 a.encoding
      let w ← w.bytes a.hash.bytes
      let w ← w.u8 (UInt8.ofNat a.name.utf8ByteSize)
      w.bytes (textBytes a.name)
  | .attached outcome => do
      let w ← w.u8 Form.attached.code
      match outcome with
      | .accepted => w.codes (OUT_ACCEPTED, 0)
      | .refused reason => w.codes (OUT_REFUSED, reasonCode reason)
  | .subscribe t => w.target .subscribe t
  | .unsubscribe t => w.target .unsubscribe t
  | .read t => w.target .read t
  | .answer target outcome => do
      let w ← w.target .answer target
      w.codes (answerCodes outcome)
  | .publish target envelope state => do
      let w ← w.target .publish target
      let w ← w.envelope envelope
      match state with
      | .init => w.u8 PROV_INIT
      | .live p => do
          let w ← w.u8 PROV_LIVE
          w.bytes p
      | .invalidDeclared => w.u8 PROV_INVALID_DECLARED
  | .occurrence target envelope payload => do
      let w ← w.target .occurrence target
      let w ← w.envelope envelope
      w.bytes payload
  | .request target envelope payload => do
      let w ← w.target .request target
      let w ← w.envelope envelope
      w.bytes payload
  | .response target envelope correlation outcome => do
      let w ← w.target .response target
      let w ← w.envelope envelope
      let w ← w.bytes (u64Bytes correlation)
      let w ← w.codes (responseCodes outcome)
      match outcome with
      | .reply p => w.bytes p
      | _ => some w
  | .block target envelope total index payload => do
      let w ← w.target .block target
      let w ← w.envelope envelope
      let w ← w.bytes (u32Bytes total)
      let w ← w.bytes (u32Bytes index)
      w.bytes payload
  | .chunk target envelope correlation stream payload => do
      let w ← w.target .chunk target
      let w ← w.envelope envelope
      let w ← w.bytes (u64Bytes correlation)
      let w ← w.u8 stream
      w.bytes payload
  | .streamEnd target envelope correlation stream outcome => do
      let w ← w.target .streamEnd target
      let w ← w.envelope envelope
      let w ← w.bytes (u64Bytes correlation)
      let w ← w.u8 stream
      w.codes (streamCodes outcome)
  | .streamCredit target correlation stream credit => do
      let w ← w.target .streamCredit target
      let w ← w.bytes (u64Bytes correlation)
      let w ← w.u8 stream
      w.bytes (u32Bytes credit)

/-- Writes a frame at the start of a buffer, and answers the bytes written. The
    buffer is handed on. -/
def encode (f : Frame) (out : Bytes) : Option (Except Short Nat × Bytes) :=
  if out.length < encodedLen f then some (.error ⟨encodedLen f⟩, out)
  else (write f ⟨out, 0⟩).map fun w => (.ok w.pos, w.out)

/-- The ten bytes before the fields of a form. -/
def header (form : Form) (t : Target) : Bytes :=
  form.code :: kindCode t.kind :: (u32Bytes t.iface ++ u32Bytes t.ord)

def envelopeBytes (e : Envelope) : Bytes := u64Bytes e.stamp.toUInt64 ++ u64Bytes e.seq

/-- The provenance of a state, and its payload. -/
def stateBytes : PublishState → Bytes
  | .init => [PROV_INIT]
  | .live p => PROV_LIVE :: p
  | .invalidDeclared => [PROV_INVALID_DECLARED]

def pair (c : UInt8 × UInt8) : Bytes := [c.1, c.2]

def frameBytes : Frame → Bytes
  | .attach a => Form.attach.code :: (u32Bytes a.frameVersion ++ (a.encoding :: (a.hash.bytes ++
      (UInt8.ofNat a.name.utf8ByteSize :: textBytes a.name))))
  | .attached .accepted => Form.attached.code :: pair (OUT_ACCEPTED, 0)
  | .attached (.refused reason) => Form.attached.code :: pair (OUT_REFUSED, reasonCode reason)
  | .subscribe t => header .subscribe t
  | .unsubscribe t => header .unsubscribe t
  | .read t => header .read t
  | .answer target outcome => header .answer target ++ pair (answerCodes outcome)
  | .publish target envelope state =>
      header .publish target ++ (envelopeBytes envelope ++ stateBytes state)
  | .occurrence target envelope payload =>
      header .occurrence target ++ (envelopeBytes envelope ++ payload)
  | .request target envelope payload =>
      header .request target ++ (envelopeBytes envelope ++ payload)
  | .response target envelope correlation outcome =>
      header .response target ++ (envelopeBytes envelope ++ (u64Bytes correlation ++
        (pair (responseCodes outcome) ++ replyPayload outcome)))
  | .block target envelope total index payload =>
      header .block target ++ (envelopeBytes envelope ++ (u32Bytes total ++
        (u32Bytes index ++ payload)))
  | .chunk target envelope correlation stream payload =>
      header .chunk target ++ (envelopeBytes envelope ++ (u64Bytes correlation ++
        (stream :: payload)))
  | .streamEnd target envelope correlation stream outcome =>
      header .streamEnd target ++ (envelopeBytes envelope ++ (u64Bytes correlation ++
        (stream :: pair (streamCodes outcome))))
  | .streamCredit target correlation stream credit =>
      header .streamCredit target ++ (u64Bytes correlation ++ (stream :: u32Bytes credit))

namespace Writer

theorem bytes_bytes (a b : Bytes) (w : Writer) :
    ((w.bytes a).bind fun w => w.bytes b) = w.bytes (a ++ b) := by
  unfold bytes
  rw [List.length_append, ← Nat.add_assoc]
  by_cases ha : w.pos + a.length ≤ w.out.length
  · have hout : (w.out.take w.pos ++ a ++ w.out.drop (w.pos + a.length)).length = w.out.length := by
      rw [List.length_append, List.length_append, List.length_take, List.length_drop]
      omega
    have hfront : (w.out.take w.pos ++ a).length = w.pos + a.length := by
      rw [List.length_append, List.length_take]
      omega
    have hdrop : (w.out.take w.pos ++ a ++ w.out.drop (w.pos + a.length)).drop
        (w.pos + a.length + b.length) = w.out.drop (w.pos + a.length + b.length) := by
      rw [← List.drop_drop, List.drop_left' hfront, List.drop_drop]
    rw [if_pos ha, Option.bind_some, hout]
    dsimp only
    rw [List.take_left' hfront, hdrop, List.append_assoc (w.out.take w.pos) a b]
  · rw [if_neg ha, if_neg (by omega)]
    rfl

theorem u8_bytes (v : UInt8) (b : Bytes) (w : Writer) :
    ((w.u8 v).bind fun w => w.bytes b) = w.bytes (v :: b) :=
  bytes_bytes [v] b w

theorem target_bytes (form : Form) (t : Target) (b : Bytes) (w : Writer) :
    ((w.target form t).bind fun w => w.bytes b) = w.bytes (header form t ++ b) := by
  simp only [target, header, Option.bind_eq_bind, bytes_bytes, u8_bytes, List.cons_append,
    List.append_assoc]

theorem envelope_bytes (e : Envelope) (b : Bytes) (w : Writer) :
    ((w.envelope e).bind fun w => w.bytes b) = w.bytes (envelopeBytes e ++ b) := by
  simp only [envelope, envelopeBytes, Option.bind_eq_bind, bytes_bytes, List.append_assoc]

theorem target_eq (form : Form) (t : Target) (w : Writer) :
    w.target form t = w.bytes (header form t) := by
  simp only [target, header, Option.bind_eq_bind, bytes_bytes, u8_bytes]

theorem codes_eq (c : UInt8 × UInt8) (w : Writer) : w.codes c = w.bytes (pair c) :=
  bytes_bytes [c.1] [c.2] w

theorem codes_bytes (c : UInt8 × UInt8) (b : Bytes) (w : Writer) :
    ((w.codes c).bind fun w => w.bytes b) = w.bytes (pair c ++ b) := by
  rw [codes_eq, bytes_bytes]

end Writer

open Writer in
theorem write_eq (f : Frame) (w : Writer) : write f w = w.bytes (frameBytes f) := by
  cases f with
  | attached outcome => cases outcome <;> simp [write, frameBytes, codes_eq, u8_bytes]
  | publish target envelope state =>
      cases state with
      | live p => simp [write, frameBytes, stateBytes, target_bytes, envelope_bytes, u8_bytes]
      | init =>
          simp [write, frameBytes, stateBytes, target_bytes, envelope_bytes, Writer.u8]
      | invalidDeclared =>
          simp [write, frameBytes, stateBytes, target_bytes, envelope_bytes, Writer.u8]
  | response target envelope correlation outcome =>
      cases outcome with
      | reply p =>
          simp [write, frameBytes, replyPayload, target_bytes, envelope_bytes, bytes_bytes,
            codes_bytes]
      | accepted | contract | corrupt | busy =>
          simp [write, frameBytes, replyPayload, target_bytes, envelope_bytes, bytes_bytes,
            codes_eq]
  | attach a => simp [write, frameBytes, bytes_bytes, u8_bytes]
  | subscribe t => exact target_eq .subscribe t w
  | unsubscribe t => exact target_eq .unsubscribe t w
  | read t => exact target_eq .read t w
  | answer t outcome => simp [write, frameBytes, target_bytes, codes_eq]
  | occurrence t e payload => simp [write, frameBytes, target_bytes, envelope_bytes]
  | request t e payload => simp [write, frameBytes, target_bytes, envelope_bytes]
  | block t e total index payload =>
      simp [write, frameBytes, target_bytes, envelope_bytes, bytes_bytes]
  | chunk t e correlation stream payload =>
      simp [write, frameBytes, target_bytes, envelope_bytes, bytes_bytes, u8_bytes]
  | streamEnd t e correlation stream outcome =>
      simp [write, frameBytes, target_bytes, envelope_bytes, bytes_bytes, u8_bytes, codes_eq]
  | streamCredit t correlation stream credit =>
      simp [write, frameBytes, target_bytes, bytes_bytes, u8_bytes]

@[simp] theorem length_u32Bytes (n : UInt32) : (u32Bytes n).length = 4 :=
  length_toLE 4 n.toNat

@[simp] theorem length_u64Bytes (n : UInt64) : (u64Bytes n).length = 8 :=
  length_toLE 8 n.toNat

@[simp] theorem length_textBytes (text : String) :
    (textBytes text).length = text.utf8ByteSize :=
  rfl

@[simp] theorem length_header (form : Form) (t : Target) : (header form t).length = COMMON := by
  simp [header, COMMON]

@[simp] theorem length_envelopeBytes (e : Envelope) :
    (envelopeBytes e).length = ENVELOPE_BYTES := by
  simp [envelopeBytes, ENVELOPE_BYTES]

@[simp] theorem length_pair (c : UInt8 × UInt8) : (pair c).length = 2 :=
  rfl

theorem length_frameBytes (f : Frame) : (frameBytes f).length = encodedLen f := by
  cases f with
  | attach a =>
      simp [frameBytes, encodedLen, ATTACH_FIXED, a.hash.size]
      omega
  | attached outcome => cases outcome <;> rfl
  | publish t e state =>
      cases state <;>
        simp [frameBytes, encodedLen, stateBytes, statePayload, PUBLISH_LEN, COMMON,
          ENVELOPE_BYTES]
      omega
  | _ =>
      simp [frameBytes, encodedLen, ANSWER_LEN, DATA_LEN, RESPONSE_LEN, BLOCK_LEN, CHUNK_LEN,
        STREAM_END_LEN, STREAM_CREDIT_LEN] <;> omega

theorem encode_of_lt {f : Frame} {out : Bytes} (h : out.length < encodedLen f) :
    encode f out = some (.error ⟨encodedLen f⟩, out) := by
  rw [encode, if_pos h]

theorem encode_of_le {f : Frame} {out : Bytes} (h : encodedLen f ≤ out.length) :
    encode f out = some (.ok (encodedLen f), frameBytes f ++ out.drop (encodedLen f)) := by
  have hfits : 0 + (frameBytes f).length ≤ out.length := by
    rw [length_frameBytes]
    omega
  rw [encode, if_neg (by omega), write_eq, Writer.bytes, if_pos hfits, length_frameBytes]
  simp

end Wire

end Ridl
