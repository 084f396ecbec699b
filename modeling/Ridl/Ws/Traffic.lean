import Ridl.Ws.Cuts

/-!
# What a Client Sends

The traffic of a client that keeps to the protocol, as data: messages in
fragments with control frames between them, a message that is not complete yet,
and a close. Each frame has a mask of its own, and each data frame its form of
the length field.

The events such traffic stands for are said of the traffic, not of its frames:
a message is its fragments joined, and comes after the control frames that
stood between them. The reader gives these events.

## Main definitions

* `Traffic.bytes`, `Traffic.events`: Its bytes and its meaning.
* `Traffic.Fits`: Its messages keep to a size limit.

## Theorems

* `frameTurn_frameBytes`: A frame is taken from the front.
* `Message.answers_bytes`: A message gives its event.
* `Traffic.answers_bytes`: Traffic gives its events.
-/

namespace Ridl

namespace Ws

open Library

/-! ## Frames -/

/-- How a frame writes the length of its payload. -/
inductive LengthForm
  | short
  | medium
  | long
deriving DecidableEq, Repr

namespace LengthForm

/-- The lengths a form can hold. -/
def Holds : LengthForm → Nat → Prop
  | short, n => n ≤ 125
  | medium, n => n < 2 ^ 16
  | long, n => n < 2 ^ 63

def len7 : LengthForm → Nat → UInt8
  | short, n => UInt8.ofNat n
  | medium, _ => 126
  | long, _ => 127

/-- The bytes of the length field after the first two of the frame. -/
def field : LengthForm → Nat → Bytes
  | short, _ => []
  | medium, n => (toLE 2 n).reverse
  | long, n => (toLE 8 n).reverse

end LengthForm

/-- A masking key. -/
structure MaskKey where
  key : Bytes
  four : key.length = 4
deriving DecidableEq

def frameBytes (fin : Bool) (opcode : UInt8) (form : LengthForm) (mask : MaskKey)
    (payload : Bytes) : Bytes :=
  ((if fin then 0x80 else 0) ||| opcode) :: (0x80 ||| form.len7 payload.length) ::
    (form.field payload.length ++ mask.key ++ unmask mask.key payload)

/-- The data of one data frame. -/
structure Fragment where
  payload : Bytes
  mask : MaskKey
  form : LengthForm
  holds : form.Holds payload.length

def Fragment.bytes (fin : Bool) (opcode : UInt8) (f : Fragment) : Bytes :=
  frameBytes fin opcode f.form f.mask f.payload

/-! ## Control frames -/

/-- A ping or a pong. -/
structure Control where
  isPing : Bool
  payload : Bytes
  mask : MaskKey
  small : payload.length ≤ MAX_CONTROL_PAYLOAD

namespace Control

def bytes (c : Control) : Bytes :=
  frameBytes true (if c.isPing then OP_PING else OP_PONG) .short c.mask c.payload

def event (c : Control) : Event := if c.isPing then .ping c.payload else .pong

end Control

/-- A close, with a status code and a reason or without. -/
structure Close where
  status : Option (UInt16 × Bytes)
  mask : MaskKey
  allowed : ∀ s ∈ status, validCode s.1.toNat = true ∧ Wire.IsUtf8 s.2 ∧
    2 + s.2.length ≤ MAX_CONTROL_PAYLOAD

namespace Close

def payload (c : Close) : Bytes :=
  c.status.elim [] fun s => (toLE 2 s.1.toNat).reverse ++ s.2

def bytes (c : Close) : Bytes := frameBytes true OP_CLOSE .short c.mask c.payload

def event (c : Close) : Event := .close (c.status.map (·.1))

end Close

/-! ## Messages and traffic -/

/-- A message: its first fragment, and the others with the control frames that
    stand before each. -/
structure Message where
  first : Fragment
  others : List (List Control × Fragment)

namespace Message

def payload (m : Message) : Bytes := m.first.payload ++ m.others.flatMap (·.2.payload)

/-- The events of the control frames inside. -/
def controlEvents (m : Message) : List Event := m.others.flatMap fun o => o.1.map Control.event

/-- The frames after the first. The last one is final when the message is
    complete. -/
def continuations (complete : Bool) : List (List Control × Fragment) → Bytes
  | [] => []
  | (controls, f) :: rest =>
    controls.flatMap Control.bytes ++
      (f.bytes (complete && rest.isEmpty) OP_CONTINUATION ++ continuations complete rest)

def bytes (complete : Bool) (m : Message) : Bytes :=
  m.first.bytes (complete && m.others.isEmpty) OP_BINARY ++ continuations complete m.others

end Message

inductive Item
  | control (c : Control)
  | message (m : Message)

namespace Item

def bytes : Item → Bytes
  | control c => c.bytes
  | message m => m.bytes true

def events : Item → List Event
  | control c => [c.event]
  | message m => m.controlEvents ++ [.binary m.payload]

def Fits (maxMessageBytes : Nat) : Item → Prop
  | control _ => True
  | message m => m.payload.length ≤ maxMessageBytes

end Item

/-- Whole items, then perhaps a message some fragments of which are still to
    come, then perhaps a close. -/
structure Traffic where
  items : List Item
  incomplete : Option (Message × List Control)
  close : Option Close

namespace Traffic

def incompleteBytes (t : Traffic) : Bytes :=
  t.incomplete.elim [] fun m => m.1.bytes false ++ m.2.flatMap Control.bytes

def incompleteEvents (t : Traffic) : List Event :=
  t.incomplete.elim [] fun m => m.1.controlEvents ++ m.2.map Control.event

def bytes (t : Traffic) : Bytes :=
  t.items.flatMap Item.bytes ++ (t.incompleteBytes ++ t.close.elim [] Close.bytes)

def events (t : Traffic) : List Event :=
  t.items.flatMap Item.events ++ (t.incompleteEvents ++ t.close.toList.map Close.event)

def Fits (maxMessageBytes : Nat) (t : Traffic) : Prop :=
  (∀ i ∈ t.items, i.Fits maxMessageBytes) ∧
    ∀ m ∈ t.incomplete, m.1.payload.length ≤ maxMessageBytes

end Traffic

/-! ## One frame -/

theorem length_unmask (mask payload : Bytes) : (unmask mask payload).length = payload.length :=
  List.length_mapIdx

theorem unmask_unmask (mask payload : Bytes) : unmask mask (unmask mask payload) = payload := by
  refine List.ext_getElem (by simp only [length_unmask]) fun i h _ => ?_
  simp only [unmask, List.getElem_mapIdx, UInt8.xor_assoc, UInt8.xor_self, UInt8.xor_zero]

theorem and_seven (n : Nat) (h : n < 128) : (0x80 ||| UInt8.ofNat n) &&& 0x7F = UInt8.ofNat n := by
  have hall : ∀ i : Fin 128, (0x80 ||| UInt8.ofNat i) &&& 0x7F = UInt8.ofNat i := by
    decide +kernel
  exact hall ⟨n, h⟩

theorem and_mask (n : Nat) (h : n < 128) : (0x80 ||| UInt8.ofNat n) &&& 0x80 ≠ 0 := by
  have hall : ∀ i : Fin 128, (0x80 ||| UInt8.ofNat i) &&& 0x80 ≠ 0 := by
    decide +kernel
  exact hall ⟨n, h⟩

namespace LengthForm

theorem exists_len7 {form : LengthForm} {n : Nat} (h : form.Holds n) :
    ∃ k < 128, form.len7 n = UInt8.ofNat k := by
  cases form with
  | short => exact ⟨n, Nat.lt_of_le_of_lt h (by decide), rfl⟩
  | medium => exact ⟨126, by decide, rfl⟩
  | long => exact ⟨127, by decide, rfl⟩

theorem and_len7 {form : LengthForm} {n : Nat} (h : form.Holds n) :
    (0x80 ||| form.len7 n) &&& 0x7F = form.len7 n := by
  rcases exists_len7 h with ⟨k, hk, heq⟩
  rw [heq]
  exact and_seven k hk

theorem lt_of_holds {form : LengthForm} {n : Nat} (h : form.Holds n) : n < 2 ^ 63 := by
  cases form with
  | short => exact Nat.lt_of_le_of_lt h (by decide)
  | medium => exact Nat.lt_trans h (by decide)
  | long => exact h

/-- A length field is read for the length it was written for. -/
theorem lengthField_field {form : LengthForm} {n : Nat} (h : form.Holds n) (b0 b1 : UInt8)
    (rest : Bytes) :
    (lengthField (form.len7 n) (b0 :: b1 :: (form.field n ++ rest))).run =
      some (.ok (n, (form.field n).length)) := by
  have hread : ∀ w, n < 256 ^ w → form.field n = (toLE w n).reverse →
      range? (b0 :: b1 :: (form.field n ++ rest)) 2 w = some (toLE w n).reverse := by
    intro w _ hfield
    rw [hfield, range?, if_pos (by simp [length_toLE]; omega)]
    change some ((List.take w ((toLE w n).reverse ++ rest))) = _
    rw [List.take_left' (by simp)]
  have hvalue : ∀ w, n < 256 ^ w → fromBeBytes (toLE w n).reverse = n := by
    intro w hw
    rw [fromBeBytes, List.reverse_reverse, ofLE_toLE w n hw]
  cases form with
  | short =>
      have hn : n ≤ 125 := h
      have hnat : (UInt8.ofNat n).toNat = n := by
        rw [UInt8.toNat_ofNat']
        exact Nat.mod_eq_of_lt (by omega)
      have h126 : UInt8.ofNat n ≠ 126 := fun heq => by
        have := congrArg UInt8.toNat heq
        rw [hnat] at this
        change n = 126 at this
        omega
      have h127 : UInt8.ofNat n ≠ 127 := fun heq => by
        have := congrArg UInt8.toNat heq
        rw [hnat] at this
        change n = 127 at this
        omega
      rw [lengthField, len7, if_neg h126, if_neg h127, hnat]
      rfl
  | medium =>
      have hw : n < 256 ^ 2 := h
      rw [lengthField, len7, if_pos rfl, exceptT_bind_ok (lift_run (hread 2 hw rfl)),
        hvalue 2 hw]
      simp [field]
  | long =>
      have hw : n < 256 ^ 8 := Nat.lt_trans h (by decide)
      rw [lengthField, len7, if_neg (by decide), if_pos rfl,
        exceptT_bind_ok (lift_run (hread 8 hw rfl)), hvalue 8 hw]
      simp [field]

end LengthForm

/-- The opcodes a client's frames have. -/
def KnownOpcode (opcode : UInt8) : Prop :=
  opcode = OP_CONTINUATION ∨ opcode = OP_BINARY ∨ opcode = OP_CLOSE ∨ opcode = OP_PING ∨
    opcode = OP_PONG

theorem first_byte {opcode : UInt8} (h : KnownOpcode opcode) (fin : Bool) :
    ((if fin then 0x80 else 0) ||| opcode) &&& 0x70 = 0 ∧
      (((if fin then 0x80 else 0) ||| opcode) &&& 0x80 ≠ 0 : Bool) = fin ∧
      ((if fin then 0x80 else 0) ||| opcode) &&& 0x0F = opcode := by
  rcases h with rfl | rfl | rfl | rfl | rfl
  all_goals
    cases fin
    · decide
    · decide

theorem frameTurn_frameBytes {fin : Bool} {opcode : UInt8} {form : LengthForm} {mask : MaskKey}
    {payload rest : Bytes} {maxMessageBytes : Nat} {message message' : Option Bytes}
    {answer : Option (Except Fault Event)} (hknown : KnownOpcode opcode)
    (hholds : form.Holds payload.length)
    (hrefusal : refusal message fin opcode (form.len7 payload.length) = none)
    (hsize : (sizeCheck maxMessageBytes message opcode payload.length).run = some (.ok ()))
    (hdeliver : ∀ h : Header, h.fin = fin → h.opcode = opcode →
      deliver message h payload = (answer, message')) :
    frameTurn (maxMessageBytes, message) (frameBytes fin opcode form mask payload ++ rest) =
      some (answer, if answer.any Parser.isLast then none
        else some ((maxMessageBytes, message'), rest)) := by
  have hlen7 := LengthForm.and_len7 hholds
  have hbits := first_byte hknown fin
  -- The bytes are those of the header, the masked payload and the rest.
  have hbuf : frameBytes fin opcode form mask payload ++ rest =
      (((if fin then 0x80 else 0) ||| opcode) :: (0x80 ||| form.len7 payload.length) ::
        (form.field payload.length ++ mask.key)) ++ (unmask mask.key payload ++ rest) := by
    simp only [frameBytes, List.cons_append, List.append_assoc]
  have hfront : (((if fin then 0x80 else 0) ||| opcode) :: (0x80 ||| form.len7 payload.length) ::
      (form.field payload.length ++ mask.key)).length =
        2 + (form.field payload.length).length + 4 := by
    simp only [List.length_cons, List.length_append, mask.four]
    omega
  have hpass : Passes message ((if fin then 0x80 else 0) ||| opcode)
      (0x80 ||| form.len7 payload.length) := by
    refine ⟨hbits.1, ?_, ?_⟩
    · rcases LengthForm.exists_len7 hholds with ⟨k, hk, heq⟩
      rw [heq]
      exact and_mask k hk
    · rw [hbits.2.1, hbits.2.2, hlen7]
      exact hrefusal
  have hlen : (lengthField ((0x80 ||| form.len7 payload.length) &&& 0x7F)
      (frameBytes fin opcode form mask payload ++ rest)).run =
        some (.ok (payload.length, (form.field payload.length).length)) := by
    rw [hlen7, hbuf]
    simp only [List.cons_append, List.append_assoc]
    exact LengthForm.lengthField_field hholds _ _ _
  have hshift : payload.length >>> 63 = 0 := by
    rw [Nat.shiftRight_eq_div_pow]
    exact Nat.div_eq_of_lt (LengthForm.lt_of_holds hholds)
  have hmask : range? (frameBytes fin opcode form mask payload ++ rest)
      (2 + (form.field payload.length).length) 4 = some mask.key := by
    rw [hbuf, range?, if_pos (by rw [List.length_append, hfront]; omega),
      slice_append_left _ _ _ _ (by rw [hfront])]
    have hsplit : (((if fin then 0x80 else 0) ||| opcode) ::
        (0x80 ||| form.len7 payload.length) :: (form.field payload.length ++ mask.key)) =
          (((if fin then 0x80 else 0) ||| opcode) :: (0x80 ||| form.len7 payload.length) ::
            form.field payload.length) ++ mask.key := rfl
    have hfield : (((if fin then 0x80 else 0) ||| opcode) ::
        (0x80 ||| form.len7 payload.length) :: form.field payload.length).length =
          2 + (form.field payload.length).length := by
      simp only [List.length_cons]
      omega
    rw [hsplit, slice_append_right _ _ _ _ (by rw [hfield]), hfield, Nat.sub_self,
      slice_zero _ _ mask.four.symm]
  have hread := header_whole ⟨by rw [hbuf]; rfl, by rw [hbuf]; rfl⟩ hpass hlen hshift
    (by rw [hbits.2.2]; exact hsize) hmask
  have htotal : 2 + (form.field payload.length).length + 4 + payload.length ≤
      (frameBytes fin opcode form mask payload ++ rest).length := by
    rw [hbuf, List.length_append, hfront, List.length_append, length_unmask]
    omega
  have htake : ((frameBytes fin opcode form mask payload ++ rest).take
      (2 + (form.field payload.length).length + 4 + payload.length)).drop
        (2 + (form.field payload.length).length + 4) = unmask mask.key payload := by
    rw [hbuf, ← hfront, List.take_length_add_append, List.drop_left, ← length_unmask mask.key,
      List.take_left]
  have hdrop : (frameBytes fin opcode form mask payload ++ rest).drop
      (2 + (form.field payload.length).length + 4 + payload.length) = rest := by
    rw [hbuf, ← hfront, ← List.drop_drop, List.drop_left, ← length_unmask mask.key,
      List.drop_left]
  rw [frameTurn_of_header hread htotal]
  dsimp only [Header.total]
  rw [htake, unmask_unmask, hdrop, hdeliver _ hbits.2.1 hbits.2.2]

/-! ## The kinds of frames -/

theorem sizeCheck_of_le {maxMessageBytes n : Nat} {message : Option Bytes} (opcode : UInt8)
    (h : openBytes message + n ≤ maxMessageBytes) :
    (sizeCheck maxMessageBytes message opcode n).run = some (.ok ()) := by
  unfold sizeCheck
  split_ifs
  · rfl
  · omega
  · omega
  · rfl

theorem refusal_control {opcode : UInt8} {n : Nat} (message : Option Bytes)
    (hcontrol : isControl opcode = true) (h : n ≤ MAX_CONTROL_PAYLOAD) :
    refusal message true opcode (LengthForm.short.len7 n) = none := by
  have hlen7 : (LengthForm.short.len7 n).toNat = n := by
    rw [LengthForm.len7, UInt8.toNat_ofNat']
    unfold MAX_CONTROL_PAYLOAD at h
    exact Nat.mod_eq_of_lt (by omega)
  rw [refusal, if_pos hcontrol, if_neg]
  rw [hlen7]
  exact not_or.mpr ⟨fun hfin => hfin rfl, Nat.not_lt.mpr h⟩

theorem answers_event {s s' : Nat × Option Bytes} {l rest : Bytes} {e : Event}
    (h : frameTurn s l = some (some (.ok e), some (s', rest))) :
    clientFrames.answers s l = .ok e :: clientFrames.answers s' rest := by
  refine (clientFrames.answers_of_some h).trans ?_
  rw [Reader.future, List.append_nil]
  rfl

theorem answers_silent {s s' : Nat × Option Bytes} {l rest : Bytes}
    (h : frameTurn s l = some (none, some (s', rest))) :
    clientFrames.answers s l = clientFrames.answers s' rest := by
  refine (clientFrames.answers_of_some h).trans ?_
  rw [Reader.future, List.append_nil]
  rfl

section Kinds

variable (maxMessageBytes : Nat)

namespace Control

theorem answers_bytes (message : Option Bytes) (c : Control) (rest : Bytes) :
    clientFrames.answers (maxMessageBytes, message) (c.bytes ++ rest) =
      .ok c.event :: clientFrames.answers (maxMessageBytes, message) rest := by
  refine answers_event ?_
  unfold bytes event
  by_cases hping : c.isPing = true
  · rw [if_pos hping, if_pos hping]
    refine frameTurn_frameBytes (.inr (.inr (.inr (.inl rfl)))) c.small
      (refusal_control _ rfl c.small) rfl fun h _ hop => ?_
    rw [deliver, if_pos hop]
  · rw [if_neg hping, if_neg hping]
    refine frameTurn_frameBytes (.inr (.inr (.inr (.inr rfl)))) c.small
      (refusal_control _ rfl c.small) rfl fun h _ hop => ?_
    rw [deliver, if_neg (by rw [hop]; decide), if_pos hop]

theorem answers_flatMap (message : Option Bytes) (controls : List Control) (rest : Bytes) :
    clientFrames.answers (maxMessageBytes, message) (controls.flatMap bytes ++ rest) =
      (controls.map event).map .ok ++ clientFrames.answers (maxMessageBytes, message) rest := by
  induction controls with
  | nil => rfl
  | cons c controls ih =>
      rw [List.flatMap_cons, List.append_assoc, answers_bytes, ih]
      rfl

end Control

namespace Fragment

theorem refusal_binary (fin : Bool) (len7 : UInt8) : refusal none fin OP_BINARY len7 = none := rfl

theorem refusal_continuation (message : Bytes) (fin : Bool) (len7 : UInt8) :
    refusal (some message) fin OP_CONTINUATION len7 = none := rfl

theorem answers_first (f : Fragment) (rest : Bytes) (h : f.payload.length ≤ maxMessageBytes) :
    clientFrames.answers (maxMessageBytes, none) (f.bytes false OP_BINARY ++ rest) =
      clientFrames.answers (maxMessageBytes, some f.payload) rest := by
  refine answers_silent (frameTurn_frameBytes (.inr (.inl rfl)) f.holds (refusal_binary _ _)
    (sizeCheck_of_le _ (by simpa [openBytes] using h)) fun head hfin hop => ?_)
  rw [deliver, hop, hfin]
  rfl

theorem answers_whole (f : Fragment) (rest : Bytes) (h : f.payload.length ≤ maxMessageBytes) :
    clientFrames.answers (maxMessageBytes, none) (f.bytes true OP_BINARY ++ rest) =
      .ok (.binary f.payload) :: clientFrames.answers (maxMessageBytes, none) rest := by
  refine answers_event (frameTurn_frameBytes (.inr (.inl rfl)) f.holds (refusal_binary _ _)
    (sizeCheck_of_le _ (by simpa [openBytes] using h)) fun head hfin hop => ?_)
  rw [deliver, hop, hfin]
  rfl

theorem answers_next (f : Fragment) (message rest : Bytes)
    (h : message.length + f.payload.length ≤ maxMessageBytes) :
    clientFrames.answers (maxMessageBytes, some message)
        (f.bytes false OP_CONTINUATION ++ rest) =
      clientFrames.answers (maxMessageBytes, some (message ++ f.payload)) rest := by
  refine answers_silent (frameTurn_frameBytes (.inl rfl) f.holds (refusal_continuation _ _ _)
    (sizeCheck_of_le _ h) fun head hfin hop => ?_)
  rw [deliver, hop, hfin]
  rfl

theorem answers_last (f : Fragment) (message rest : Bytes)
    (h : message.length + f.payload.length ≤ maxMessageBytes) :
    clientFrames.answers (maxMessageBytes, some message)
        (f.bytes true OP_CONTINUATION ++ rest) =
      .ok (.binary (message ++ f.payload)) ::
        clientFrames.answers (maxMessageBytes, none) rest := by
  refine answers_event (frameTurn_frameBytes (.inl rfl) f.holds (refusal_continuation _ _ _)
    (sizeCheck_of_le _ h) fun head hfin hop => ?_)
  rw [deliver, hop, hfin]
  rfl

end Fragment

namespace Message

/-- The fragments still to come, when the last of them is not final. -/
theorem answers_open (others : List (List Control × Fragment)) (message rest : Bytes)
    (h : message.length + (others.flatMap (·.2.payload)).length ≤ maxMessageBytes) :
    clientFrames.answers (maxMessageBytes, some message) (continuations false others ++ rest) =
      (others.flatMap fun o => o.1.map Control.event).map .ok ++
        clientFrames.answers (maxMessageBytes, some (message ++ others.flatMap (·.2.payload)))
          rest := by
  induction others generalizing message with
  | nil =>
      change _ = clientFrames.answers (maxMessageBytes, some (message ++ [])) rest
      rw [List.append_nil]
      rfl
  | cons o others ih =>
      rw [List.flatMap_cons, List.length_append] at h
      rw [continuations, Bool.false_and, List.append_assoc, List.append_assoc,
        Control.answers_flatMap, Fragment.answers_next _ _ _ _ (by omega),
        ih _ (by rw [List.length_append]; omega)]
      simp only [List.flatMap_cons, List.map_append, List.append_assoc]

/-- And when it is. -/
theorem answers_closed (others : List (List Control × Fragment)) (hne : others ≠ [])
    (message rest : Bytes)
    (h : message.length + (others.flatMap (·.2.payload)).length ≤ maxMessageBytes) :
    clientFrames.answers (maxMessageBytes, some message) (continuations true others ++ rest) =
      (others.flatMap fun o => o.1.map Control.event).map .ok ++
        .ok (.binary (message ++ others.flatMap (·.2.payload))) ::
          clientFrames.answers (maxMessageBytes, none) rest := by
  induction others generalizing message with
  | nil => exact absurd rfl hne
  | cons o others ih =>
      rw [List.flatMap_cons, List.length_append] at h
      rw [continuations, Bool.true_and, List.append_assoc, List.append_assoc,
        Control.answers_flatMap]
      cases others with
      | nil =>
          rw [List.isEmpty_nil, Fragment.answers_last _ _ _ _ (by omega)]
          simp [continuations]
      | cons o' others =>
          rw [List.isEmpty_cons, Fragment.answers_next _ _ _ _ (by omega),
            ih (List.cons_ne_nil _ _) _ (by rw [List.length_append]; omega)]
          simp only [List.flatMap_cons, List.map_append, List.append_assoc]

theorem answers_bytes (m : Message) (rest : Bytes) (h : m.payload.length ≤ maxMessageBytes) :
    clientFrames.answers (maxMessageBytes, none) (m.bytes true ++ rest) =
      (m.controlEvents ++ [Event.binary m.payload]).map .ok ++
        clientFrames.answers (maxMessageBytes, none) rest := by
  rw [payload, List.length_append] at h
  rw [bytes, Bool.true_and, List.append_assoc, controlEvents, payload, List.map_append,
    List.append_assoc]
  cases hothers : m.others with
  | nil =>
      rw [List.isEmpty_nil, Fragment.answers_whole _ _ _ (by omega), List.flatMap_nil,
        List.flatMap_nil, List.append_nil]
      rfl
  | cons o others =>
      rw [hothers] at h
      rw [List.isEmpty_cons, Fragment.answers_first _ _ _ (by omega),
        answers_closed _ _ (List.cons_ne_nil _ _) _ _ h]
      rfl

theorem answers_incomplete (m : Message) (rest : Bytes)
    (h : m.payload.length ≤ maxMessageBytes) :
    clientFrames.answers (maxMessageBytes, none) (m.bytes false ++ rest) =
      m.controlEvents.map .ok ++ clientFrames.answers (maxMessageBytes, some m.payload) rest := by
  rw [payload, List.length_append] at h
  rw [bytes, Bool.false_and, List.append_assoc, Fragment.answers_first _ _ _ (by omega),
    answers_open _ _ _ _ h]
  rfl

end Message

namespace Close

theorem length_payload (c : Close) : c.payload.length ≤ MAX_CONTROL_PAYLOAD := by
  unfold payload
  cases hstatus : c.status with
  | none => exact Nat.zero_le _
  | some s =>
      have hallowed := (c.allowed s hstatus).2.2
      simpa using hallowed

theorem closeEvent_payload (c : Close) : closeEvent c.payload = .ok c.event := by
  unfold payload event
  cases hstatus : c.status with
  | none => rfl
  | some s =>
      have hallowed := c.allowed s hstatus
      have hcode : fromBeBytes (toLE 2 s.1.toNat).reverse = s.1.toNat := by
        rw [fromBeBytes, List.reverse_reverse]
        exact ofLE_toLE 2 _ s.1.toNat_lt
      have htwo : (toLE 2 s.1.toNat).reverse =
          [UInt8.ofNat (s.1.toNat / 256 % 256), UInt8.ofNat (s.1.toNat % 256)] := rfl
      rw [htwo] at hcode
      change closeEvent ((toLE 2 s.1.toNat).reverse ++ s.2) = _
      rw [htwo]
      change (if _ then _ else _) = _
      rw [hcode, if_pos ⟨hallowed.1, hallowed.2.1⟩, UInt16.ofNat_toNat]
      rfl

theorem answers_bytes (message : Option Bytes) (c : Close) (rest : Bytes) :
    clientFrames.answers (maxMessageBytes, message) (c.bytes ++ rest) = [.ok c.event] := by
  have hdeliver : ∀ h : Header, h.fin = true → h.opcode = OP_CLOSE →
      deliver message h c.payload = (some (.ok c.event), message) := by
    intro h _ hop
    rw [deliver, if_neg (by rw [hop]; decide), if_neg (by rw [hop]; decide), if_pos hop,
      closeEvent_payload]
  have hholds : LengthForm.short.Holds c.payload.length := c.length_payload
  exact clientFrames.answers_of_some (frameTurn_frameBytes (.inr (.inr (.inl rfl))) hholds
    (refusal_control _ rfl c.length_payload) rfl hdeliver)

end Close

end Kinds

/-! ## Traffic -/

namespace Traffic

theorem answers_items {maxMessageBytes : Nat} {items : List Item}
    (h : ∀ i ∈ items, i.Fits maxMessageBytes) (rest : Bytes) :
    clientFrames.answers (maxMessageBytes, none) (items.flatMap Item.bytes ++ rest) =
      (items.flatMap Item.events).map .ok ++
        clientFrames.answers (maxMessageBytes, none) rest := by
  induction items with
  | nil => rfl
  | cons item items ih =>
      have hitem := h item List.mem_cons_self
      rw [List.flatMap_cons, List.flatMap_cons, List.append_assoc, List.map_append,
        List.append_assoc, ← ih fun i hi => h i (List.mem_cons_of_mem _ hi)]
      cases item with
      | control c => exact c.answers_bytes maxMessageBytes none _
      | message m => exact m.answers_bytes maxMessageBytes _ hitem

theorem answers_nil (s : Nat × Option Bytes) : clientFrames.answers s [] = [] :=
  clientFrames.answers_of_none rfl

theorem answers_close (maxMessageBytes : Nat) (message : Option Bytes) (close : Option Close) :
    clientFrames.answers (maxMessageBytes, message) (close.elim [] Close.bytes) =
      (close.toList.map Close.event).map .ok := by
  cases close with
  | none => exact answers_nil _
  | some c =>
      have hclose := c.answers_bytes maxMessageBytes message []
      rw [List.append_nil] at hclose
      exact hclose

theorem answers_bytes {maxMessageBytes : Nat} {t : Traffic} (h : t.Fits maxMessageBytes) :
    clientFrames.answers (maxMessageBytes, none) t.bytes = t.events.map .ok := by
  rw [bytes, answers_items h.1, events, List.map_append, List.map_append]
  congr 1
  unfold incompleteBytes incompleteEvents
  cases hincomplete : t.incomplete with
  | none => exact answers_close maxMessageBytes none t.close
  | some m =>
      change clientFrames.answers (maxMessageBytes, none)
        ((m.1.bytes false ++ m.2.flatMap Control.bytes) ++ _) =
          List.map .ok (m.1.controlEvents ++ m.2.map Control.event) ++ _
      rw [List.append_assoc, m.1.answers_incomplete maxMessageBytes _ (h.2 m hincomplete),
        Control.answers_flatMap, answers_close, List.map_append, List.append_assoc]

end Traffic

end Ws

end Ridl
