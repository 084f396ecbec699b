import Ridl.Frame.Decode
import Ridl.Library.Bytes
import Ridl.Library.Incremental

/-!
# The WebSocket Frames of a Client

The parser of the server's side of the WebSocket protocol. It is fed bytes in
any pieces and asked for the next event; a frame whose bytes are not all there
is waited for, and a frame the server closes on is answered by the close code.

The checks of a header run as soon as the bytes they read are there, so the
header is a sequence of reads in the monad of the source's
`Option<Result<_, _>>`: no answer yet, an answer, or a fault. A fault is a
close code, or the underflow of the one subtraction the source makes.

Consumed bytes stay in the buffer, before `pos`, until more bytes are fed.

## Main definitions

* `Parser.step`, `Parser.next`, `Parser.feed`: The parser's operations.

## Theorems

* `header_of_passes`: A header past its first checks.
-/

namespace Ridl

namespace Ws

open Library

/-- A WebSocket close code. -/
structure CloseCode where
  code : UInt16
deriving DecidableEq, Repr

namespace CloseCode

/-- The peer broke the protocol. -/
def PROTOCOL : CloseCode := ⟨1002⟩

/-- The peer sent a text message. -/
def UNSUPPORTED : CloseCode := ⟨1003⟩

/-- The peer sent a message above the size limit. -/
def TOO_BIG : CloseCode := ⟨1009⟩

end CloseCode

/-- One thing a parser read from the client. -/
inductive Event
  | binary (message : Bytes)
  | ping (payload : Bytes)
  | pong
  | close (code : Option UInt16)
deriving DecidableEq, Repr

/-- Why there is no event: the server closes, or the subtraction of the size
    check would panic. -/
inductive Fault
  | close (code : CloseCode)
  | underflow
deriving DecidableEq, Repr

def OP_CONTINUATION : UInt8 := 0x0
def OP_TEXT : UInt8 := 0x1
def OP_BINARY : UInt8 := 0x2
def OP_CLOSE : UInt8 := 0x8
def OP_PING : UInt8 := 0x9
def OP_PONG : UInt8 := 0xA

/-- The largest payload of a control frame. -/
def MAX_CONTROL_PAYLOAD : Nat := 125

/-- `Option<Result<_, _>>`. -/
abbrev Asked (α : Type) : Type := ExceptT Fault Option α

/-- A frame header that was read whole. -/
structure Header where
  fin : Bool
  opcode : UInt8
  mask : Bytes
  payloadLen : Nat
  headerLen : Nat
  nonempty : 0 < headerLen

def Header.total (h : Header) : Nat := h.headerLen + h.payloadLen

/-- Bytes `i` to `i + n`, when they are there. -/
def range? (buf : Bytes) (i n : Nat) : Option Bytes :=
  if i + n ≤ buf.length then some (slice buf i n) else none

/-- The number some bytes stand for, most significant first. -/
def fromBeBytes (b : Bytes) : Nat := ofLE b.reverse

/-- The opcodes of the control frames. -/
def isControl (opcode : UInt8) : Bool :=
  opcode = OP_CLOSE ∨ opcode = OP_PING ∨ opcode = OP_PONG

/-- The close code a frame's opcode earns it. -/
def refusal (message : Option Bytes) (fin : Bool) (opcode len7 : UInt8) : Option CloseCode :=
  if isControl opcode then
    if ¬ fin ∨ MAX_CONTROL_PAYLOAD < len7.toNat then some .PROTOCOL else none
  else if opcode = OP_TEXT ∧ message.isNone then some .UNSUPPORTED
  else if opcode = OP_BINARY ∧ message.isNone then none
  else if opcode = OP_CONTINUATION ∧ message.isSome then none
  else some .PROTOCOL

/-- The payload length and the bytes it takes. A long form of a small number
    is accepted. -/
def lengthField (len7 : UInt8) (buf : Bytes) : Asked (Nat × Nat) :=
  if len7 = 126 then do
    let b ← range? buf 2 2
    return (fromBeBytes b, 2)
  else if len7 = 127 then do
    let b ← range? buf 2 8
    return (fromBeBytes b, 8)
  else
    return (len7.toNat, 0)

/-- The bytes of the message received so far. -/
def openBytes (message : Option Bytes) : Nat := message.elim 0 List.length

/-- The size limit, which counts the frames of one message. -/
def sizeCheck (maxMessageBytes : Nat) (message : Option Bytes) (opcode : UInt8)
    (payloadLen : Nat) : Asked Unit :=
  if isControl opcode then return ()
  else if maxMessageBytes < openBytes message then throw .underflow
  else if maxMessageBytes - openBytes message < payloadLen then throw (.close .TOO_BIG)
  else return ()

/-- The header at the front of the bytes. -/
def header (maxMessageBytes : Nat) (message : Option Bytes) (buf : Bytes) : Asked Header := do
  let b0 ← (buf[0]? : Option UInt8)
  let b1 ← (buf[1]? : Option UInt8)
  let fin : Bool := b0 &&& 0x80 ≠ 0
  let opcode := b0 &&& 0x0F
  let len7 := b1 &&& 0x7F
  if b0 &&& 0x70 ≠ 0 ∨ b1 &&& 0x80 = 0 then throw (.close .PROTOCOL)
  else match refusal message fin opcode len7 with
    | some code => throw (.close code)
    | none => do
      let (payloadLen, lenBytes) ← lengthField len7 buf
      if payloadLen >>> 63 ≠ 0 then throw (.close .PROTOCOL)
      else do
        sizeCheck maxMessageBytes message opcode payloadLen
        let mask ← range? buf (2 + lenBytes) 4
        return ⟨fin, opcode, mask, payloadLen, 2 + lenBytes + 4, by omega⟩

/-- The payload with its mask taken off, or put on. -/
def unmask (mask payload : Bytes) : Bytes :=
  payload.mapIdx fun i byte => byte ^^^ mask.getD (i % 4) 0

/-- The close codes a peer may send. -/
def validCode (code : Nat) : Bool :=
  1000 ≤ code ∧ code ≤ 1003 ∨ 1007 ≤ code ∧ code ≤ 1014 ∨ 3000 ≤ code ∧ code ≤ 4999

/-- The event for a close frame's payload. -/
def closeEvent (payload : Bytes) : Except Fault Event :=
  match payload with
  | [] => .ok (.close none)
  | [_] => .error (.close .PROTOCOL)
  | hi :: lo :: reason =>
    let code := fromBeBytes [hi, lo]
    if validCode code ∧ Wire.IsUtf8 reason then .ok (.close (some (UInt16.ofNat code)))
    else .error (.close .PROTOCOL)

/-- What a whole frame is answered, if anything, and the message open after
    it. -/
def deliver (message : Option Bytes) (h : Header) (payload : Bytes) :
    Option (Except Fault Event) × Option Bytes :=
  if h.opcode = OP_PING then (some (.ok (.ping payload)), message)
  else if h.opcode = OP_PONG then (some (.ok .pong), message)
  else if h.opcode = OP_CLOSE then (some (closeEvent payload), message)
  else if h.opcode = OP_BINARY then
    if h.fin then (some (.ok (.binary payload)), message) else (none, some payload)
  else
    -- A continuation: the header's check found a message open.
    let joined := message.getD [] ++ payload
    if h.fin then (some (.ok (.binary joined)), none) else (none, some joined)

/-- The state of a parser. -/
structure Parser where
  maxMessageBytes : Nat
  buf : Bytes
  pos : Nat
  message : Option Bytes
  finished : Bool
  bound : pos ≤ buf.length

namespace Parser

/-- A parser that closes on a message above `maxMessageBytes`. -/
def new (maxMessageBytes : Nat) : Parser := ⟨maxMessageBytes, [], 0, none, false, Nat.le_refl 0⟩

/-- The bytes not consumed. -/
def unread (p : Parser) : Bytes := p.buf.drop p.pos

/-- Bytes read from the client. -/
def feed (p : Parser) (bytes : Bytes) : Parser :=
  if p.finished then p
  else { p with buf := p.buf.drop p.pos ++ bytes, pos := 0, bound := Nat.zero_le _ }

/-- One turn of the loop of `step`: an answer, or a fragment taken. -/
def turn (p : Parser) : Option (Option (Except Fault Event)) × Parser :=
  match (header p.maxMessageBytes p.message p.unread).run with
  | none => (some none, p)
  | some (.error fault) => (some (some (.error fault)), p)
  | some (.ok h) =>
    if fit : p.pos + h.total ≤ p.buf.length then
      let frame := slice p.buf p.pos h.total
      let payload := unmask h.mask (frame.drop h.headerLen)
      let (answer, message) := deliver p.message h payload
      (answer.map some, { p with pos := p.pos + h.total, message := message, bound := fit })
    else (some none, p)

theorem turn_shorter {p p' : Parser} (h : p.turn = (none, p')) :
    p'.unread.length < p.unread.length := by
  unfold turn at h
  split at h
  · cases h
  · cases h
  · rename_i head _
    by_cases fit : p.pos + head.total ≤ p.buf.length
    · rw [dif_pos fit] at h
      have hp' := (congrArg Prod.snd h).symm
      dsimp only at hp'
      subst hp'
      have hpos := head.nonempty
      simp only [unread, List.length_drop]
      unfold Header.total at *
      omega
    · rw [dif_neg fit] at h
      cases h

/-- Takes fragments until a frame has an answer or is not all there. -/
def step (p : Parser) : Option (Except Fault Event) × Parser :=
  match _h : p.turn with
  | (some answer, p') => (answer, p')
  | (none, p') => step p'
termination_by p.unread.length
decreasing_by exact turn_shorter _h

/-- The parser after it has ended. -/
def finish (p : Parser) : Parser :=
  { p with buf := [], pos := 0, message := none, finished := true, bound := Nat.le_refl 0 }

/-- The answers after which there is no other. -/
def isLast : Except Fault Event → Bool
  | .error _ => true
  | .ok (.close _) => true
  | .ok _ => false

/-- The next event, or `none` when the bytes so far do not hold one. -/
def next (p : Parser) : Option (Except Fault Event) × Parser :=
  if p.finished then (none, p)
  else
    let (result, p') := p.step
    if result.any isLast then (result, p'.finish) else (result, p')

end Parser

/-! ## What a header came to -/

/-- The two bytes every header starts with. -/
structure Lead (buf : Bytes) (b0 b1 : UInt8) : Prop where
  first : buf[0]? = some b0
  second : buf[1]? = some b1

/-- The first two bytes pass the checks made on them. -/
structure Passes (message : Option Bytes) (b0 b1 : UInt8) : Prop where
  unreserved : b0 &&& 0x70 = 0
  masked : b1 &&& 0x80 ≠ 0
  admissible : refusal message (b0 &&& 0x80 ≠ 0 : Bool) (b0 &&& 0x0F) (b1 &&& 0x7F) = none

/-- What the reading of a header came to, check by check. -/
inductive HeaderReads (maxMessageBytes : Nat) (message : Option Bytes) (buf : Bytes)
    (b0 b1 : UInt8) : Except Fault Header → Prop
  | unmasked (h : b0 &&& 0x70 ≠ 0 ∨ b1 &&& 0x80 = 0) :
      HeaderReads maxMessageBytes message buf b0 b1 (.error (.close .PROTOCOL))
  | refused {code : CloseCode}
      (h : refusal message (b0 &&& 0x80 ≠ 0 : Bool) (b0 &&& 0x0F) (b1 &&& 0x7F) = some code) :
      HeaderReads maxMessageBytes message buf b0 b1 (.error (.close code))
  | overlong {n w : Nat} (hpass : Passes message b0 b1)
      (hlen : (lengthField (b1 &&& 0x7F) buf).run = some (.ok (n, w))) (h : n >>> 63 ≠ 0) :
      HeaderReads maxMessageBytes message buf b0 b1 (.error (.close .PROTOCOL))
  | oversized {n w : Nat} {fault : Fault} (hpass : Passes message b0 b1)
      (hlen : (lengthField (b1 &&& 0x7F) buf).run = some (.ok (n, w))) (hn : n >>> 63 = 0)
      (h : (sizeCheck maxMessageBytes message (b0 &&& 0x0F) n).run = some (.error fault)) :
      HeaderReads maxMessageBytes message buf b0 b1 (.error fault)
  | whole {n w : Nat} {mask : Bytes} (hpass : Passes message b0 b1)
      (hlen : (lengthField (b1 &&& 0x7F) buf).run = some (.ok (n, w))) (hn : n >>> 63 = 0)
      (hsize : (sizeCheck maxMessageBytes message (b0 &&& 0x0F) n).run = some (.ok ()))
      (hmask : range? buf (2 + w) 4 = some mask) :
      HeaderReads maxMessageBytes message buf b0 b1
        (.ok ⟨b0 &&& 0x80 ≠ 0, b0 &&& 0x0F, mask, n, 2 + w + 4, by omega⟩)

theorem lift_eq_some {α : Type} {o : Option α} {r : Except Fault α}
    (h : (liftM o : Asked α).run = some r) : ∃ a, o = some a ∧ r = .ok a := by
  cases o with
  | none => cases h
  | some a => exact ⟨a, rfl, (Option.some.inj h).symm⟩

variable {buf : Bytes} {message : Option Bytes}

theorem lengthField_ok {len7 : UInt8} {r : Except Fault (Nat × Nat)}
    (h : (lengthField len7 buf).run = some r) : ∃ n w, r = .ok (n, w) := by
  unfold lengthField at h
  split_ifs at h
  · rcases exceptT_bind_eq_some h with ⟨e, he, rfl⟩ | ⟨b, -, hb⟩
    · rcases lift_eq_some he with ⟨_, _, he⟩
      cases he
    · exact ⟨_, _, (Option.some.inj hb).symm⟩
  · rcases exceptT_bind_eq_some h with ⟨e, he, rfl⟩ | ⟨b, -, hb⟩
    · rcases lift_eq_some he with ⟨_, _, he⟩
      cases he
    · exact ⟨_, _, (Option.some.inj hb).symm⟩
  · exact ⟨_, _, (Option.some.inj h).symm⟩

theorem header_reads {maxMessageBytes : Nat}
    {r : Except Fault Header} (h : (header maxMessageBytes message buf).run = some r) :
    ∃ b0 b1, Lead buf b0 b1 ∧ HeaderReads maxMessageBytes message buf b0 b1 r := by
  unfold header at h
  rcases exceptT_bind_eq_some h with ⟨e, he, -⟩ | ⟨b0, h0, h⟩
  · rcases lift_eq_some he with ⟨_, _, he⟩
    cases he
  rcases exceptT_bind_eq_some h with ⟨e, he, -⟩ | ⟨b1, h1, h⟩
  · rcases lift_eq_some he with ⟨_, _, he⟩
    cases he
  rcases lift_eq_some h0 with ⟨_, h0, e0⟩
  rcases lift_eq_some h1 with ⟨_, h1, e1⟩
  cases e0
  cases e1
  refine ⟨b0, b1, ⟨h0, h1⟩, ?_⟩
  dsimp only at h
  by_cases hbits : b0 &&& 0x70 ≠ 0 ∨ b1 &&& 0x80 = 0
  · rw [if_pos hbits] at h
    cases h
    exact .unmasked hbits
  rw [if_neg hbits] at h
  cases hrefusal : refusal message (b0 &&& 0x80 ≠ 0 : Bool) (b0 &&& 0x0F) (b1 &&& 0x7F) with
  | some code =>
      rw [hrefusal] at h
      cases h
      exact .refused hrefusal
  | none =>
      rw [hrefusal] at h
      have hpass : Passes message b0 b1 :=
        ⟨by_contra fun hb => hbits (.inl hb), fun hb => hbits (.inr hb), hrefusal⟩
      rcases exceptT_bind_eq_some h with ⟨e, he, -⟩ | ⟨⟨n, w⟩, hlen, h⟩
      · rcases lengthField_ok he with ⟨_, _, he⟩
        cases he
      dsimp only at h
      by_cases hn : n >>> 63 ≠ 0
      · rw [if_pos hn] at h
        cases h
        exact .overlong hpass hlen hn
      rw [if_neg hn] at h
      have hn : n >>> 63 = 0 := by_contra hn
      rcases exceptT_bind_eq_some h with ⟨fault, hfault, rfl⟩ | ⟨_, hsize, h⟩
      · exact .oversized hpass hlen hn hfault
      rcases exceptT_bind_eq_some h with ⟨e, he, -⟩ | ⟨mask, hmask, h⟩
      · rcases lift_eq_some he with ⟨_, _, he⟩
        cases he
      rcases lift_eq_some hmask with ⟨_, hmask, e⟩
      cases e
      cases h
      exact .whole hpass hlen hn hsize hmask

theorem lift_run {α : Type} {o : Option α} {a : α} (h : o = some a) :
    (liftM o : Asked α).run = some (.ok a) := by
  rw [h]
  rfl

theorem header_of_passes {b0 b1 : UInt8} {n w : Nat}
    (maxMessageBytes : Nat) (hlead : Lead buf b0 b1) (hpass : Passes message b0 b1)
    (hlen : (lengthField (b1 &&& 0x7F) buf).run = some (.ok (n, w))) (hn : n >>> 63 = 0) :
    (header maxMessageBytes message buf).run =
      (do
        sizeCheck maxMessageBytes message (b0 &&& 0x0F) n
        let mask ← range? buf (2 + w) 4
        return ⟨b0 &&& 0x80 ≠ 0, b0 &&& 0x0F, mask, n, 2 + w + 4, by omega⟩ : Asked Header).run := by
  have hbits : ¬ (b0 &&& 0x70 ≠ 0 ∨ b1 &&& 0x80 = 0) :=
    not_or.mpr ⟨not_not_intro hpass.unreserved, hpass.masked⟩
  unfold header
  rw [exceptT_bind_ok (lift_run hlead.first), exceptT_bind_ok (lift_run hlead.second)]
  dsimp only
  rw [if_neg hbits, hpass.admissible]
  dsimp only
  rw [exceptT_bind_ok hlen]
  dsimp only
  rw [if_neg (not_not_intro hn)]

theorem header_whole {maxMessageBytes : Nat} {mask : Bytes}
    {b0 b1 : UInt8} {n w : Nat} (hlead : Lead buf b0 b1) (hpass : Passes message b0 b1)
    (hlen : (lengthField (b1 &&& 0x7F) buf).run = some (.ok (n, w))) (hn : n >>> 63 = 0)
    (hsize : (sizeCheck maxMessageBytes message (b0 &&& 0x0F) n).run = some (.ok ()))
    (hmask : range? buf (2 + w) 4 = some mask) :
    (header maxMessageBytes message buf).run =
      some (.ok ⟨b0 &&& 0x80 ≠ 0, b0 &&& 0x0F, mask, n, 2 + w + 4, by omega⟩) := by
  rw [header_of_passes maxMessageBytes hlead hpass hlen hn, exceptT_bind_ok hsize,
    exceptT_bind_ok (lift_run hmask)]
  rfl

end Ws

end Ridl
