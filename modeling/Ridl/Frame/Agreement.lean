import Ridl.Frame.TypeScript

/-!
# One Format on Both Sides

The two codecs agree on every message and on every frame that both can
represent. A frame of one side is seen on the other field by field: a kind as
its code, a number as its value, and a violated rule without the type that the
message does not carry. A rule of a newer runtime is not in the other side's
list, and a frame with such a rule has no view.

Both decoders run through the same steps, so they agree when their steps do:
the checks of a length and of a target, the codes, and the arithmetic of
blocks, where one side divides 32-bit numbers and the other rounds quotients of
numbers that are exact.

The two encoders write the same fields at the same offsets. One moves a cursor
on, and the other sets a field of an array of zeros, whose front has been
written by then.

## Theorems

* `decode_sees`: The decoders agree.
* `encode_view`: The encoders agree.
* `codecs_define_one_format`: Both.
-/

namespace Ridl

namespace Ts

open Library

section View

def viewTarget (t : Ridl.Target) : Target :=
  ⟨(Wire.kindCode t.kind).toNat, t.iface.toNat, t.ord.toNat⟩

def viewEnvelope (e : Ridl.Envelope) : Envelope := ⟨e.stamp.toInt, e.seq.toNat⟩

def viewRule : Ridl.Rule → Option Rule
  | .range => some .range
  | .step => some .step
  | .length => some .length
  | .pattern => some .pattern
  | .variant => some .variant
  | .unique => some .unique
  | .utf8 => some .utf8
  | .unlisted => none

def viewContract : Ridl.Contract → Option Contract
  | .invalidValue v => (viewRule v.rule).map Contract.invalidValue
  | .preconditionFailed => some .preconditionFailed
  | .contractBroken => some .contractBroken
  | .unknownInteraction => some .unknownInteraction

def viewAttached : Ridl.AttachOutcome → AttachOutcome
  | .accepted => .accepted
  | .refused reason => .refused reason

def viewAnswer : Ridl.AnswerOutcome → Option AnswerOutcome
  | .accepted => some .accepted
  | .contract c => (viewContract c).map AnswerOutcome.contract

def viewState : Ridl.PublishState → PublishState
  | .init => .init
  | .live payload => .live payload
  | .invalidDeclared => .invalid

def viewResponse : Ridl.ResponseOutcome → Option ResponseOutcome
  | .accepted => some .accepted
  | .reply payload => some (.reply payload)
  | .contract c => (viewContract c).map ResponseOutcome.contract
  | .corrupt => some .corrupt
  | .busy => some .busy

def viewStream : Ridl.StreamOutcome → Option StreamOutcome
  | .ended => some .ended
  | .contract c => (viewContract c).map StreamOutcome.contract
  | .corrupt => some .corrupt
  | .busy => some .busy
  | .interrupted => some .interrupted

/-- A frame as the other side represents it, if it can. -/
def view : Ridl.Frame → Option Frame
  | .attach a => some (.attach a.frameVersion.toNat a.encoding.toNat a.hash.bytes a.name)
  | .attached outcome => some (.attached (viewAttached outcome))
  | .subscribe t => some (.subscribe (viewTarget t))
  | .unsubscribe t => some (.unsubscribe (viewTarget t))
  | .read t => some (.read (viewTarget t))
  | .answer t outcome => (viewAnswer outcome).map (Frame.answer (viewTarget t))
  | .publish t e state => some (.publish (viewTarget t) (viewEnvelope e) (viewState state))
  | .occurrence t e payload => some (.occurrence (viewTarget t) (viewEnvelope e) payload)
  | .request t e payload => some (.request (viewTarget t) (viewEnvelope e) payload)
  | .response t e correlation outcome =>
      (viewResponse outcome).map
        (Frame.response (viewTarget t) (viewEnvelope e) correlation.toNat)
  | .block t e total index payload =>
      some (.block (viewTarget t) (viewEnvelope e) total.toNat index.toNat payload)
  | .chunk t e correlation stream payload =>
      some (.chunk (viewTarget t) (viewEnvelope e) correlation.toNat stream.toNat payload)
  | .streamEnd t e correlation stream outcome =>
      (viewStream outcome).map
        (Frame.streamEnd (viewTarget t) (viewEnvelope e) correlation.toNat stream.toNat)
  | .streamCredit t correlation stream credit =>
      some (.streamCredit (viewTarget t) correlation.toNat stream.toNat credit.toNat)

end View

section Decoders

theorem byteAt_eq (m : Bytes) (i : Nat) : byteAt m i = (Wire.byteAt m i).toNat :=
  rfl

theorem ofLE_slice_lt (m : Bytes) (i w : Nat) : ofLE (slice m i w) < 256 ^ w := by
  have hlen : (slice m i w).length ≤ w := List.length_take_le w _
  exact Nat.lt_of_lt_of_le (ofLE_lt _) (Nat.pow_le_pow_right (by decide) hlen)

theorem getUint32_eq (m : Bytes) (i : Nat) : getUint32 m i = (Wire.u32At m i).toNat := by
  rw [Wire.u32At, UInt32.toNat_ofNat']
  exact (Nat.mod_eq_of_lt (ofLE_slice_lt m i 4)).symm

theorem getBigUint64_eq (m : Bytes) (i : Nat) : getBigUint64 m i = (Wire.u64At m i).toNat := by
  rw [Wire.u64At, UInt64.toNat_ofNat']
  exact (Nat.mod_eq_of_lt (ofLE_slice_lt m i 8)).symm

theorem envelopeAt_eq (m : Bytes) (i : Nat) :
    envelopeAt m i = viewEnvelope (Wire.envelopeAt m i) := by
  rw [envelopeAt, getBigUint64_eq m (i + 8)]
  rfl

/-- The kinds are the codes 1 to 5. -/
theorem kindFrom_eq (code : UInt8) :
    Wire.kindFrom code = .error (.violation .unknownCode) ∧
        (code.toNat < SIGNAL ∨ code.toNat > FIXED) ∨
      ∃ kind, Wire.kindFrom code = .ok kind ∧ (Wire.kindCode kind).toNat = code.toNat ∧
        ¬ (code.toNat < SIGNAL ∨ code.toNat > FIXED) := by
  cases hkind : Wire.kindFrom code with
  | ok kind =>
      refine .inr ⟨kind, rfl, ?_⟩
      rw [Wire.code_of_kindFrom hkind]
      refine ⟨rfl, ?_⟩
      cases kind <;> decide
  | error e =>
      have hout : ¬ (1 ≤ code.toNat ∧ code.toNat ≤ 5) := by
        intro h
        have hcases : code.toNat = 1 ∨ code.toNat = 2 ∨ code.toNat = 3 ∨ code.toNat = 4 ∨
            code.toNat = 5 := by omega
        rcases hcases with h | h | h | h | h <;> rw [Wire.kindFrom, h] at hkind <;> cases hkind
      refine .inl ⟨?_, by unfold SIGNAL FIXED; omega⟩
      unfold Wire.kindFrom at hkind
      split at hkind <;> cases hkind
      rfl

theorem before_of_lt {α : Type} {table : List α} {index : Nat}
    (h : table.length < index ∨ index = 0) : before table index = none := by
  unfold before
  by_cases hzero : index = 0
  · rw [if_pos hzero]
  · rw [if_neg hzero]
    exact List.getElem?_eq_none (by omega)

/-- The code of a rule is its position in the table. -/
theorem ruleFrom_eq (code : UInt8) :
    Wire.ruleFrom code = .error (.violation .unknownCode) ∧ before RULES code.toNat = none ∨
      ∃ rule r, Wire.ruleFrom code = .ok rule ∧ before RULES code.toNat = some r ∧
        viewRule rule = some r := by
  cases hrule : Wire.ruleFrom code with
  | ok rule =>
      refine .inr ?_
      rw [(Wire.code_of_ruleFrom hrule).1]
      cases rule with
      | unlisted => exact absurd (Wire.code_of_ruleFrom hrule).2 (by decide)
      | _ => exact ⟨_, _, rfl, rfl, rfl⟩
  | error e =>
      have hout : ¬ (1 ≤ code.toNat ∧ code.toNat ≤ 7) := by
        intro h
        have hcases : code.toNat = 1 ∨ code.toNat = 2 ∨ code.toNat = 3 ∨ code.toNat = 4 ∨
            code.toNat = 5 ∨ code.toNat = 6 ∨ code.toNat = 7 := by omega
        rcases hcases with h | h | h | h | h | h | h <;> rw [Wire.ruleFrom, h] at hrule <;>
          cases hrule
      refine .inl ⟨?_, before_of_lt (by change 7 < _ ∨ _; omega)⟩
      unfold Wire.ruleFrom at hrule
      split at hrule <;> cases hrule
      rfl

theorem reasonFrom_eq (code : UInt8) :
    Wire.reasonFrom code = .error (.violation .unknownCode) ∧
        before REASONS code.toNat = none ∨
      ∃ reason, Wire.reasonFrom code = .ok reason ∧ before REASONS code.toNat = some reason := by
  cases hreason : Wire.reasonFrom code with
  | ok reason =>
      refine .inr ⟨reason, rfl, ?_⟩
      rw [Wire.code_of_reasonFrom hreason]
      cases reason <;> rfl
  | error e =>
      have hout : ¬ (1 ≤ code.toNat ∧ code.toNat ≤ 5) := by
        intro h
        have hcases : code.toNat = 1 ∨ code.toNat = 2 ∨ code.toNat = 3 ∨ code.toNat = 4 ∨
            code.toNat = 5 := by omega
        rcases hcases with h | h | h | h | h <;> rw [Wire.reasonFrom, h] at hreason <;>
          cases hreason
      refine .inl ⟨?_, before_of_lt (by change 5 < _ ∨ _; omega)⟩
      unfold Wire.reasonFrom at hreason
      split at hreason <;> cases hreason
      rfl

theorem code_iff {code n : UInt8} {k : Nat} (h : n.toNat = k) : code.toNat = k ↔ code = n := by
  rw [← h, UInt8.toNat_inj]

theorem number_iff {n k : UInt32} {v : Nat} (h : k.toNat = v) : n.toNat = v ↔ n = k := by
  rw [← h, UInt32.toNat_inj]

theorem isContract_iff (code : UInt8) :
    (code.toNat ≥ OUT_INVALID_VALUE ∧ code.toNat ≤ OUT_UNKNOWN_INTERACTION) ↔
      Wire.isContract code = true := by
  rw [Wire.isContract, Bool.and_eq_true, decide_eq_true_iff, decide_eq_true_iff,
    UInt8.le_iff_toNat_le, UInt8.le_iff_toNat_le]
  rfl

theorem contractFrom_sees (code detail : UInt8) :
    Sees viewContract (Wire.contractFrom code detail)
      (contractFrom code.toNat detail.toNat) := by
  refine .ite (code_iff rfl) (fun _ => ?_) fun _ => .ite (not_congr (code_iff rfl))
    (fun _ => .error _) fun _ => .ite (code_iff rfl) (fun _ => .ok rfl) fun _ =>
      .ite (code_iff rfl) (fun _ => .ok rfl) fun _ => .ok rfl
  rcases ruleFrom_eq detail with ⟨hrule, hbefore⟩ | ⟨rule, r, hrule, hbefore, hview⟩
  · rw [hrule, hbefore]
    exact .error _
  · rw [hrule, hbefore]
    exact .ok (by rw [viewContract, hview]; rfl)

theorem streamFrom_sees (code detail : UInt8) :
    Sees viewStream (Wire.streamFrom code detail) (streamFrom code.toNat detail.toNat) := by
  have hknown : (code.toNat ≠ OUT_CORRUPT ∧ code.toNat ≠ OUT_BUSY ∧ code.toNat ≠ OUT_END ∧
      code.toNat ≠ OUT_INTERRUPTED) ↔ ¬ (code = Wire.OUT_CORRUPT ∨ code = Wire.OUT_BUSY ∨
        code = Wire.OUT_END ∨ code = Wire.OUT_INTERRUPTED) := by
    rw [not_or, not_or, not_or]
    exact and_congr (not_congr (code_iff rfl)) (and_congr (not_congr (code_iff rfl))
      (and_congr (not_congr (code_iff rfl)) (not_congr (code_iff rfl))))
  unfold Wire.streamFrom streamFrom
  refine .ite (isContract_iff code) (fun _ => ?_) fun _ => .ite ?_ (fun _ => .error _) fun _ =>
    .ite_swap hknown (fun _ => ?_) fun _ => .error _
  · exact (contractFrom_sees code detail).bind fun c c' hc =>
      .ok (by rw [viewStream, hc]; rfl)
  · exact or_congr (code_iff rfl) (or_congr (code_iff rfl) (code_iff rfl))
  · exact .ite (not_congr (code_iff rfl)) (fun _ => .error _) fun _ =>
      .ite (code_iff rfl) (fun _ => .ok rfl) fun _ => .ite (code_iff rfl) (fun _ => .ok rfl)
        fun _ => .ite (code_iff rfl) (fun _ => .ok rfl) fun _ => .ok rfl

theorem targetAt_sees (m : Bytes) :
    Sees (fun t => some (viewTarget t)) (Wire.targetAt m) (targetAt m) := by
  unfold Wire.targetAt targetAt
  rcases kindFrom_eq (Wire.byteAt m 1) with ⟨hkind, hcode⟩ | ⟨kind, hkind, hcode, hrange⟩
  · rw [hkind]
    dsimp only
    rw [byteAt_eq, if_pos hcode]
    exact .error _
  · rw [hkind]
    dsimp only
    rw [byteAt_eq, if_neg hrange, ok_bind, getUint32_eq, getUint32_eq]
    refine .ite (or_congr ?_ ?_) (fun _ => .error _) fun _ => .ok (by rw [← hcode]; rfl)
    · exact number_iff rfl
    · exact number_iff rfl

theorem streamed_iff (kind : Kind) :
    ((Wire.kindCode kind).toNat ≠ COMMAND ∧ (Wire.kindCode kind).toNat ≠ QUERY) ↔
      ¬ (kind = .command ∨ kind = .query) := by
  cases kind <;> decide

theorem fixed_iff (kind : Kind) : (Wire.kindCode kind).toNat ≠ FIXED ↔ kind ≠ .fixed := by
  cases kind <;> decide

theorem streamTargetAt_sees (m : Bytes) :
    Sees (fun t => some (viewTarget t)) (Wire.streamTargetAt m) (streamTargetAt m) := by
  refine (targetAt_sees m).bind fun t t' ht => ?_
  cases ht
  exact .ite_swap (streamed_iff t.kind) (fun _ => .ok rfl) fun _ => .error _

theorem need_sees (m : Bytes) (len : Nat) : Sees some (Wire.need m len) (need m len) :=
  .ite Iff.rfl (fun _ => .error _) fun _ => .ok rfl

theorem control_sees (m : Bytes) (len : Nat) : Sees some (Wire.control m len) (control m len) :=
  (need_sees m len).bind fun _ _ _ => .ite Iff.rfl (fun _ => .error _) fun _ => .ok rfl

theorem outcomeKnown_sees (code : UInt8) :
    Sees some (Wire.outcomeKnown code) (outcomeKnown code.toNat) := by
  refine .ite_swap ?_ (fun _ => .ok rfl) fun _ => .error _
  rw [UInt8.le_iff_toNat_le, UInt8.le_iff_toNat_le, not_and_or, Nat.not_le, Nat.not_le]
  rfl

theorem decodeControl_sees {frame : Ridl.Target → Ridl.Frame} {frame' : Target → Frame}
    (h : ∀ t, view (frame t) = some (frame' (viewTarget t))) (m : Bytes) :
    Sees view (Wire.decodeControl frame m) (decodeControl frame' m) := by
  refine (control_sees m COMMON).bind fun _ _ _ => (targetAt_sees m).bind fun t t' ht => ?_
  cases ht
  exact .ok (h t)

theorem decodeData_sees {frame : Ridl.Target → Ridl.Envelope → Bytes → Ridl.Frame}
    {frame' : Target → Envelope → Bytes → Frame}
    (h : ∀ t e p, view (frame t e p) = some (frame' (viewTarget t) (viewEnvelope e) p))
    (m : Bytes) : Sees view (Wire.decodeData frame m) (decodeData frame' m) := by
  refine (need_sees m DATA_LEN).bind fun _ _ _ => (targetAt_sees m).bind fun t t' ht => ?_
  cases ht
  rw [envelopeAt_eq]
  exact .ok (h t _ _)

theorem decodeAnswer_sees (m : Bytes) : Sees view (Wire.decodeAnswer m) (decodeAnswer m) := by
  refine (control_sees m ANSWER_LEN).bind fun _ _ _ => (targetAt_sees m).bind fun t t' ht =>
    (outcomeKnown_sees _).bind fun _ _ _ => .ite (code_iff rfl) (fun _ => ?_) fun _ => ?_
  all_goals cases ht
  · exact .ite_swap (not_congr (code_iff rfl)) (fun _ => .ok rfl) fun _ => .error _
  · refine .ite (isContract_iff _) (fun _ => ?_) fun _ => .error _
    exact (contractFrom_sees _ _).bind fun c c' hc =>
      .ok (by rw [view, viewAnswer, hc]; rfl)

theorem decodeAttached_sees (m : Bytes) :
    Sees view (Wire.decodeAttached m) (decodeAttached m) := by
  refine (control_sees m ATTACHED_LEN).bind fun _ _ _ => (outcomeKnown_sees _).bind fun _ _ _ =>
    .ite (code_iff rfl) (fun _ => ?_) fun _ => .ite (code_iff rfl) (fun _ => ?_) fun _ => .error _
  · exact .ite_swap (not_congr (code_iff rfl)) (fun _ => .ok rfl) fun _ => .error _
  · rcases reasonFrom_eq (Wire.byteAt m 2) with ⟨hreason, hbefore⟩ | ⟨reason, hreason, hbefore⟩
    · rw [hreason, byteAt_eq, hbefore]
      exact .error _
    · rw [hreason, byteAt_eq, hbefore]
      exact .ok rfl

theorem rest_iff (rest : Bytes) : rest.length > 0 ↔ rest ≠ [] :=
  List.length_pos_iff

theorem decodePublish_sees (m : Bytes) :
    Sees view (Wire.decodePublish m) (decodePublish m) := by
  refine (need_sees m PUBLISH_LEN).bind fun _ _ _ => (targetAt_sees m).bind fun t t' ht => ?_
  cases ht
  dsimp only
  rw [envelopeAt_eq]
  have hlive : byteAt m (PUBLISH_LEN - 1) = PROV_LIVE ↔
      Wire.byteAt m (Ridl.PUBLISH_LEN - 1) = Wire.PROV_LIVE := code_iff rfl
  have hinit : byteAt m (PUBLISH_LEN - 1) = PROV_INIT ↔
      Wire.byteAt m (Ridl.PUBLISH_LEN - 1) = Wire.PROV_INIT := code_iff rfl
  have hinvalid : byteAt m (PUBLISH_LEN - 1) = PROV_INVALID ↔
      Wire.byteAt m (Ridl.PUBLISH_LEN - 1) = Wire.PROV_INVALID_DECLARED := code_iff rfl
  simp only [hlive, hinit, hinvalid]
  generalize Wire.byteAt m (Ridl.PUBLISH_LEN - 1) = provenance
  by_cases h1 : provenance = Wire.PROV_INIT
  · rw [h1, if_neg (by decide), if_pos (.inl rfl), if_pos rfl]
    exact .ite (rest_iff _) (fun _ => .error _) fun _ => .ok rfl
  · simp only [h1, false_or]
    exact .ite Iff.rfl (fun _ => .ok rfl) fun _ => .ite Iff.rfl
      (fun _ => .ite (rest_iff _) (fun _ => .error _) fun _ => .ok rfl) fun _ => .error _

theorem bare_sees {outcome : Ridl.ResponseOutcome} {outcome' : ResponseOutcome}
    (hview : viewResponse outcome = some outcome') (hbare : Wire.isReply outcome = false)
    (rest : Bytes) (t : Ridl.Target) (e : Ridl.Envelope) (correlation : UInt64) :
    Sees view
      (if ¬ Wire.isReply outcome = true ∧ rest ≠ [] then .error (.discard .unexpectedPayload)
        else pure (Ridl.Frame.response t e correlation outcome))
      (if rest.length > 0 then discard
        else pure (.response (viewTarget t) (viewEnvelope e) correlation.toNat outcome')) := by
  refine .ite ?_ (fun _ => .error _) fun _ => .ok (by rw [view, hview]; rfl)
  rw [hbare, rest_iff]
  exact ⟨fun h => ⟨Bool.false_ne_true, h⟩, And.right⟩

theorem decodeResponse_sees (m : Bytes) :
    Sees view (Wire.decodeResponse m) (decodeResponse m) := by
  refine (need_sees m RESPONSE_LEN).bind fun _ _ _ => (targetAt_sees m).bind fun t t' ht =>
    (outcomeKnown_sees _).bind fun _ _ _ => ?_
  cases ht
  dsimp only
  rw [envelopeAt_eq, getBigUint64_eq]
  unfold Wire.responseFrom
  rw [ite_bind, ite_bind, ite_bind, ite_bind, ite_bind, ite_bind]
  refine .ite (code_iff rfl) (fun _ => .error _) fun _ => .ite (isContract_iff _) (fun _ => ?_)
    fun _ => .ite (not_congr (code_iff rfl)) (fun _ => .error _) fun _ =>
      .ite (code_iff rfl) (fun _ => bare_sees rfl rfl _ _ _ _) fun _ =>
        .ite (code_iff rfl) (fun _ => .ok rfl) fun _ =>
          .ite (code_iff rfl) (fun _ => bare_sees rfl rfl _ _ _ _) fun _ =>
            bare_sees rfl rfl _ _ _ _
  rw [bind_assoc]
  exact (contractFrom_sees _ _).bind fun c c' hc =>
    bare_sees (by rw [viewResponse, hc]; rfl) rfl _ _ _ _

theorem decodeChunk_sees (m : Bytes) : Sees view (Wire.decodeChunk m) (decodeChunk m) := by
  refine (need_sees m CHUNK_LEN).bind fun _ _ _ => (streamTargetAt_sees m).bind fun t t' ht => ?_
  cases ht
  rw [envelopeAt_eq, getBigUint64_eq]
  exact .ok rfl

theorem decodeStreamEnd_sees (m : Bytes) :
    Sees view (Wire.decodeStreamEnd m) (decodeStreamEnd m) := by
  refine (need_sees m STREAM_END_LEN).bind fun _ _ _ =>
    (streamTargetAt_sees m).bind fun t t' ht => (streamFrom_sees _ _).bind fun o o' ho =>
      .ite Iff.rfl (fun _ => .error _) fun _ => ?_
  cases ht
  rw [envelopeAt_eq, getBigUint64_eq]
  exact .ok (by rw [view, ho]; rfl)

theorem decodeStreamCredit_sees (m : Bytes) :
    Sees view (Wire.decodeStreamCredit m) (decodeStreamCredit m) := by
  refine (need_sees m STREAM_CREDIT_LEN).bind fun _ _ _ =>
    (streamTargetAt_sees m).bind fun t t' ht => ?_
  cases ht
  dsimp only
  rw [getUint32_eq, getBigUint64_eq]
  exact .ite (number_iff rfl) (fun _ => .error _) fun _ =>
    .ite Iff.rfl (fun _ => .error _) fun _ => .ok rfl

theorem decodeAttach_sees (m : Bytes) : Sees view (Wire.decodeAttach m) (decodeAttach m) := by
  unfold Wire.decodeAttach
  by_cases hshort : m.length < Wire.ATTACH_FIXED
  · rw [dif_pos hshort]
    have hneed : need m ATTACH_FIXED = .error (.violation .tooShort) := if_pos hshort
    rw [decodeAttach, hneed]
    exact .error _
  · rw [dif_neg hshort]
    have hneed : need m ATTACH_FIXED = .ok () := if_neg hshort
    rw [decodeAttach, hneed, ok_bind]
    dsimp only
    refine .dite Iff.rfl (fun _ _ => .error _) fun _ _ => .dite Iff.rfl (fun hutf8 _ => ?_)
      fun _ _ => .error _
    refine .dite_swap ?_ (fun _ _ => ?_) fun _ _ => .error _
    · rw [byteAt_eq, not_and_or, Nat.not_le, Nat.not_le]
    · rw [getUint32_eq, byteAt_eq]
      exact .ok rfl

/-- The bytes of a block are counted alike, in 32 bits and in doubles. -/
theorem blockLen_eq (total index : UInt32) :
    Wire.blockLen total index = none ∧
        (total.toNat < 1 ∨ index.toNat ≥ blockCount total.toNat) ∨
      ∃ len, Wire.blockLen total index = some len ∧
        ¬ total.toNat < 1 ∧ ¬ index.toNat ≥ blockCount total.toNat ∧
        len.toNat = if index.toNat < blockCount total.toNat - 1 then BLOCK_BYTES
          else total.toNat - BLOCK_BYTES * index.toNat := by
  unfold Wire.blockLen
  by_cases hzero : total = 0
  · rw [if_pos hzero, hzero]
    exact .inl ⟨rfl, .inl Nat.zero_lt_one⟩
  · rw [if_neg hzero]
    have hpos : ¬ total.toNat < 1 := fun h => hzero (UInt32.toNat_inj.mp (Nat.lt_one_iff.mp h))
    have htotal := total.toNat_lt
    have hcount : (total / UInt32.ofNat Ridl.BLOCK_BYTES +
        if total % UInt32.ofNat Ridl.BLOCK_BYTES = 0 then 0 else 1).toNat =
          blockCount total.toNat := by
      have hmod : total % UInt32.ofNat Ridl.BLOCK_BYTES = 0 ↔ total.toNat % 4096 = 0 :=
        (number_iff rfl).symm
      rw [UInt32.toNat_add, UInt32.toNat_div]
      change (total.toNat / 4096 + _) % 2 ^ 32 = (total.toNat - 1) / 4096 + 1
      by_cases hfull : total % UInt32.ofNat Ridl.BLOCK_BYTES = 0
      · rw [if_pos hfull]
        change (total.toNat / 4096 + 0) % 2 ^ 32 = (total.toNat - 1) / 4096 + 1
        have := hmod.mp hfull
        omega
      · rw [if_neg hfull]
        change (total.toNat / 4096 + 1) % 2 ^ 32 = (total.toNat - 1) / 4096 + 1
        have := mt hmod.mpr hfull
        omega
    dsimp only
    generalize total / UInt32.ofNat Ridl.BLOCK_BYTES +
        (if total % UInt32.ofNat Ridl.BLOCK_BYTES = 0 then 0 else 1) = count at hcount
    rw [← hcount]
    by_cases hindex : index ≥ count
    · rw [if_pos hindex]
      exact .inl ⟨rfl, .inr (UInt32.le_iff_toNat_le.mp hindex)⟩
    · rw [if_neg hindex]
      refine .inr ?_
      have hlt : ¬ index.toNat ≥ count.toNat := mt UInt32.le_iff_toNat_le.mpr hindex
      have hprev : (count - 1).toNat = count.toNat - 1 := by
        refine UInt32.toNat_sub_of_le count 1 (UInt32.le_iff_toNat_le.mpr ?_)
        rw [hcount]
        exact Nat.le_add_left 1 _
      by_cases hlast : index < count - 1
      · have hlast' : index.toNat < count.toNat - 1 := by
          rw [← hprev]
          exact UInt32.lt_iff_toNat_lt.mp hlast
        rw [if_pos hlast, if_pos hlast']
        exact ⟨_, rfl, hpos, hlt, rfl⟩
      · have hlast' : ¬ index.toNat < count.toNat - 1 := by
          rw [← hprev]
          exact mt UInt32.lt_iff_toNat_lt.mpr hlast
        rw [if_neg hlast, if_neg hlast']
        refine ⟨_, rfl, hpos, hlt, ?_⟩
        have hbefore : 4096 * index.toNat < total.toNat := by
          rw [hcount, blockCount, BLOCK_BYTES] at hlt
          omega
        have hmul : (UInt32.ofNat Ridl.BLOCK_BYTES * index).toNat = 4096 * index.toNat := by
          rw [UInt32.toNat_mul]
          change 4096 * index.toNat % 2 ^ 32 = 4096 * index.toNat
          omega
        rw [UInt32.toNat_sub_of_le _ _ (UInt32.le_iff_toNat_le.mpr (by omega)), hmul]
        rfl

theorem decodeBlock_sees (m : Bytes) : Sees view (Wire.decodeBlock m) (decodeBlock m) := by
  refine (need_sees m BLOCK_LEN).bind fun _ _ _ => (targetAt_sees m).bind fun t t' ht => ?_
  cases ht
  dsimp only
  rw [envelopeAt_eq, getUint32_eq, getUint32_eq]
  refine .ite (fixed_iff t.kind) (fun _ => .error _) fun _ => ?_
  -- The two sides name the offsets and the header's length each for itself.
  change Sees view
    (if (Wire.blockLen (Wire.u32At m (COMMON + ENVELOPE_BYTES))
        (Wire.u32At m (COMMON + ENVELOPE_BYTES + 4))).map UInt32.toNat =
          some (m.drop BLOCK_LEN).length then _ else _) _
  generalize htotal : Wire.u32At m (COMMON + ENVELOPE_BYTES) = total
  generalize hindex : Wire.u32At m (COMMON + ENVELOPE_BYTES + 4) = index
  rcases blockLen_eq total index with ⟨hnone, hout⟩ | ⟨len, hlen, hpos, hin, heq⟩
  · rw [hnone, if_neg (by intro h; cases h)]
    by_cases hpos : total.toNat < 1
    · rw [if_pos hpos]
      exact .error _
    · rw [if_neg hpos, if_pos (hout.resolve_left hpos)]
      exact .error _
  · rw [if_neg hpos, if_neg hin, ← heq, hlen]
    refine .ite_swap ?_ (fun _ => .ok (by rw [← htotal, ← hindex]; rfl)) fun _ => .error _
    rw [List.length_drop, Option.map_some, Option.some_inj]
    exact not_congr eq_comm

theorem decode_sees (m : Bytes) : Sees view (Wire.decode m) (decode m) := by
  cases m with
  | nil => exact .error _
  | cons code rest =>
      cases hform : Wire.formFrom code with
      | none =>
          have hne (form : Wire.Form) : code.toNat ≠ form.code.toNat := by
            intro h
            rw [UInt8.toNat_inj.mp h, Wire.formFrom_code] at hform
            cases hform
          have hread : Wire.decode (code :: rest) = .error (.violation .unknownCode) := by
            rw [Wire.decode, hform]
            rfl
          have hread' : decode (code :: rest) = .error (.violation .unknownCode) :=
            (if_neg (Nat.succ_ne_zero _)).trans <| (if_neg (hne .attach)).trans <|
              (if_neg (hne .attached)).trans <| (if_neg (hne .subscribe)).trans <|
              (if_neg (hne .unsubscribe)).trans <| (if_neg (hne .read)).trans <|
              (if_neg (hne .answer)).trans <| (if_neg (hne .publish)).trans <|
              (if_neg (hne .occurrence)).trans <| (if_neg (hne .request)).trans <|
              (if_neg (hne .response)).trans <| (if_neg (hne .block)).trans <|
              (if_neg (hne .chunk)).trans <| (if_neg (hne .streamEnd)).trans <|
              (if_neg (hne .streamCredit)).trans rfl
          rw [hread, hread']
          exact .error _
      | some form =>
          cases Wire.code_of_formFrom hform
          cases form with
          | attach => exact decodeAttach_sees _
          | attached => exact decodeAttached_sees _
          | subscribe => exact decodeControl_sees (fun _ => rfl) _
          | answer => exact decodeAnswer_sees _
          | unsubscribe => exact decodeControl_sees (fun _ => rfl) _
          | read => exact decodeControl_sees (fun _ => rfl) _
          | publish => exact decodePublish_sees _
          | occurrence => exact decodeData_sees (fun _ _ _ => rfl) _
          | request => exact decodeData_sees (fun _ _ _ => rfl) _
          | response => exact decodeResponse_sees _
          | block => exact decodeBlock_sees _
          | chunk => exact decodeChunk_sees _
          | streamEnd => exact decodeStreamEnd_sees _
          | streamCredit => exact decodeStreamCredit_sees _

end Decoders

section Encoders

/-- An array of zeros. -/
def zeros (n : Nat) : Bytes := List.replicate n 0

@[simp] theorem length_zeros (n : Nat) : (zeros n).length = n :=
  List.length_replicate

@[simp] theorem zeros_zero : zeros 0 = [] :=
  rfl

theorem drop_zeros (a n : Nat) : (zeros n).drop a = zeros (n - a) :=
  List.drop_replicate

theorem put_append_right (a b : Bytes) (i v : Nat) (h : a.length ≤ i) :
    put i v (a ++ b) = a ++ put (i - a.length) v b := by
  rw [put, List.set_append_right _ _ h, put]

theorem put_cons_succ (v : UInt8) (b : Bytes) (i w : Nat) :
    put (i + 1) w (v :: b) = v :: put i w b :=
  rfl

theorem put_zeros (v n : Nat) (h : 1 ≤ n) : put 0 v (zeros n) = UInt8.ofNat v :: zeros (n - 1) := by
  cases n with
  | zero => cases h
  | succ n => rfl

theorem set_append_right (a b bytes : Bytes) (i : Nat) (h : a.length ≤ i) :
    set i bytes (a ++ b) = (set (i - a.length) bytes b).map (a ++ ·) := by
  unfold set
  rw [List.length_append]
  by_cases hfits : i + bytes.length ≤ a.length + b.length
  · rw [if_pos hfits, if_pos (by omega), Option.map_some, List.take_append,
      List.take_of_length_le h, List.drop_append, List.drop_eq_nil_of_le (by omega),
      List.nil_append, List.append_assoc, List.append_assoc, List.append_assoc,
      Nat.sub_add_comm h]
  · rw [if_neg hfits, if_neg (by omega)]
    rfl

theorem set_cons_succ (v : UInt8) (b bytes : Bytes) (i : Nat) :
    set (i + 1) bytes (v :: b) = (set i bytes b).map (v :: ·) :=
  set_append_right [v] b bytes (i + 1) (by simp)

theorem set_zeros (bytes : Bytes) (n : Nat) (h : bytes.length ≤ n) :
    set 0 bytes (zeros n) = some (bytes ++ zeros (n - bytes.length)) := by
  rw [set, if_pos (by simpa using h), List.take_zero, List.nil_append, Nat.zero_add, drop_zeros]

theorem setUint32_eq (i : Nat) (v : UInt32) (out : Bytes) :
    setUint32 i v.toNat out = set i (Wire.u32Bytes v) out :=
  rfl

theorem setBigUint64_eq (i : Nat) (v : UInt64) (out : Bytes) :
    setBigUint64 i v.toNat out = set i (Wire.u64Bytes v) out :=
  rfl

theorem setBigInt64_eq (i : Nat) (v : Int64) (out : Bytes) :
    setBigInt64 i v.toInt out = set i (Wire.u64Bytes v.toUInt64) out := by
  have hbits : BitVec.ofInt 64 v.toInt = v.toBitVec := BitVec.ofInt_toInt
  rw [setBigInt64, hbits]
  rfl

theorem targetBytes_zeros (form : Wire.Form) (t : Ridl.Target) (n : Nat) :
    targetBytes form.code.toNat (viewTarget t) (zeros (n + COMMON)) =
      some (Wire.header form t ++ zeros n) := by
  unfold targetBytes COMMON
  simp [viewTarget, put_zeros, put_cons_succ, setUint32_eq, set_cons_succ, set_zeros,
    set_append_right, Wire.header]

theorem writeEnvelope_zeros (form : Wire.Form) (t : Ridl.Target) (e : Ridl.Envelope) (n : Nat) :
    writeEnvelope (viewEnvelope e) (Wire.header form t ++ zeros (n + ENVELOPE_BYTES)) =
      some (Wire.header form t ++ (Wire.envelopeBytes e ++ zeros n)) := by
  unfold writeEnvelope ENVELOPE_BYTES
  simp [viewEnvelope, setBigInt64_eq, setBigUint64_eq, set_zeros, set_append_right,
    Wire.envelopeBytes, Ridl.COMMON, COMMON]

theorem encode_of_length {f : Frame} {n : Nat} (hname : nameBytes f = [])
    (hlen : encodedLength f [] = n) (version : Nat) :
    encode f version = write f version (zeros n) := by
  rw [encode, hname, hlen]
  rfl

theorem encode_header {f : Frame} {version : Nat} (form : Wire.Form) (t : Ridl.Target) (n : Nat)
    {fields : Bytes → Option Bytes} (hname : nameBytes f = [])
    (hlen : encodedLength f [] = n + COMMON)
    (hwrite : ∀ out, write f version out =
      (targetBytes form.code.toNat (viewTarget t) out).bind fields) :
    encode f version = fields (Wire.header form t ++ zeros n) := by
  rw [encode_of_length hname hlen, hwrite, targetBytes_zeros, Option.bind_some]

theorem encode_envelope {f : Frame} {version : Nat} (form : Wire.Form) (t : Ridl.Target)
    (e : Ridl.Envelope) (n : Nat) {fields : Bytes → Option Bytes} (hname : nameBytes f = [])
    (hlen : encodedLength f [] = n + ENVELOPE_BYTES + COMMON)
    (hwrite : ∀ out, write f version out =
      (targetBytes form.code.toNat (viewTarget t) out).bind fun out =>
        (writeEnvelope (viewEnvelope e) out).bind fields) :
    encode f version = fields (Wire.header form t ++ (Wire.envelopeBytes e ++ zeros n)) := by
  rw [encode_header form t (n + ENVELOPE_BYTES) hname hlen hwrite, writeEnvelope_zeros,
    Option.bind_some]

theorem control_eq (form : Wire.Form) (t : Ridl.Target) :
    targetBytes form.code.toNat (viewTarget t) (zeros COMMON) = some (Wire.header form t) := by
  have h := targetBytes_zeros form t 0
  rwa [zeros_zero, List.append_nil, Nat.zero_add] at h

theorem contractCodes_eq {c : Ridl.Contract} {c' : Contract} (h : viewContract c = some c')
    (notCarried : Nat) : contractCodes c' FRAME_VERSION_3 notCarried =
      ((Wire.contractCodes c).1.toNat, (Wire.contractCodes c).2.toNat) := by
  cases c with
  | invalidValue v =>
      rcases v with ⟨_, rule⟩
      cases rule <;> cases h <;> rfl
  | preconditionFailed | contractBroken | unknownInteraction =>
      cases h
      rfl

theorem attached_eq (outcome : Ridl.AttachOutcome) :
    encode (.attached (viewAttached outcome)) FRAME_VERSION_3 =
      some (Wire.frameBytes (.attached outcome)) := by
  cases outcome with
  | accepted => rfl
  | refused reason => cases reason <;> rfl

theorem attach_eq (a : Attach) :
    encode (.attach a.frameVersion.toNat a.encoding.toNat a.hash.bytes a.name) FRAME_VERSION_3 =
      some (Wire.frameBytes (.attach a)) := by
  have hnamed := a.named
  have hname : (Wire.textBytes a.name).length = a.name.utf8ByteSize := Wire.length_textBytes a.name
  have hzeros : List.replicate (encodedLength (.attach a.frameVersion.toNat a.encoding.toNat
      a.hash.bytes a.name) (Wire.textBytes a.name)) 0 = zeros (a.name.utf8ByteSize + 39) := by
    rw [encodedLength, hname, Nat.add_comm]
    rfl
  rw [encode, nameBytes, hzeros, write, if_neg (by omega), if_neg (not_not_intro a.hash.size)]
  simp [put_zeros, put_append_right, put_cons_succ, setUint32_eq, set_append_right, set_cons_succ,
    set_zeros, a.hash.size, ATTACH_FIXED, Wire.frameBytes]
  exact ⟨(set_zeros _ _ hname.le).trans (by rw [hname]; simp), rfl⟩

/-- What an answer's outcome is written as. -/
def answerCodes (outcome : AnswerOutcome) : Nat × Nat :=
  match outcome with
  | .accepted => (OUT_ACCEPTED, 0)
  | .contract contract => contractCodes contract FRAME_VERSION_3 OUT_CONTRACT_BROKEN

theorem answer_eq {t : Ridl.Target} {outcome : Ridl.AnswerOutcome} {outcome' : AnswerOutcome}
    (h : viewAnswer outcome = some outcome') :
    encode (.answer (viewTarget t) outcome') FRAME_VERSION_3 =
      some (Wire.frameBytes (.answer t outcome)) := by
  have hcodes : answerCodes outcome' =
      ((Wire.answerCodes outcome).1.toNat, (Wire.answerCodes outcome).2.toNat) := by
    cases outcome with
    | accepted =>
        cases h
        rfl
    | contract c =>
        rcases Option.map_eq_some_iff.mp h with ⟨c', hc, rfl⟩
        exact contractCodes_eq hc _
  refine (encode_header .answer t 2 rfl rfl fun _ => rfl).trans ?_
  change some (put 11 (answerCodes outcome').2 (put 10 (answerCodes outcome').1
    (Wire.header .answer t ++ zeros 2))) = _
  rw [hcodes]
  simp [put_append_right, put_zeros, put_cons_succ, Wire.frameBytes, Wire.pair, Ridl.COMMON]

theorem publish_eq (t : Ridl.Target) (e : Ridl.Envelope) (state : Ridl.PublishState) :
    encode (.publish (viewTarget t) (viewEnvelope e) (viewState state)) FRAME_VERSION_3 =
      some (Wire.frameBytes (.publish t e state)) := by
  cases state with
  | init | invalidDeclared =>
      refine (encode_envelope .publish t e 1 rfl rfl fun _ => rfl).trans ?_
      simp [put_append_right, PUBLISH_LEN, COMMON, ENVELOPE_BYTES, Ridl.COMMON,
        Ridl.ENVELOPE_BYTES, Wire.frameBytes, viewState]
      rfl
  | live payload =>
      refine (encode_envelope .publish t e (payload.length + 1) rfl
        (by simp [encodedLength, viewState, PUBLISH_LEN]; omega) fun _ => rfl).trans ?_
      simp [put_append_right, put_zeros, set_append_right, set_cons_succ, set_zeros,
        PUBLISH_LEN, COMMON, ENVELOPE_BYTES, Ridl.COMMON, Ridl.ENVELOPE_BYTES, Wire.frameBytes,
        viewState]
      rfl

theorem data_eq {frame : Target → Envelope → Bytes → Frame} (form : Wire.Form) (t : Ridl.Target)
    (e : Ridl.Envelope) (payload : Bytes)
    (hname : ∀ t e payload, nameBytes (frame t e payload) = [])
    (hlen : ∀ t e payload, encodedLength (frame t e payload) [] = DATA_LEN + payload.length)
    (hwrite : ∀ t e payload out, write (frame t e payload) FRAME_VERSION_3 out =
      (targetBytes form.code.toNat t out).bind fun out =>
        (writeEnvelope e out).bind (set DATA_LEN payload)) :
    encode (frame (viewTarget t) (viewEnvelope e) payload) FRAME_VERSION_3 =
      some (Wire.header form t ++ (Wire.envelopeBytes e ++ payload)) := by
  refine (encode_envelope form t e payload.length (hname _ _ _)
    (by rw [hlen, DATA_LEN]; omega) (hwrite _ _ _)).trans ?_
  simp [set_append_right, set_zeros, DATA_LEN, COMMON, ENVELOPE_BYTES, Ridl.COMMON,
    Ridl.ENVELOPE_BYTES]

theorem block_eq (t : Ridl.Target) (e : Ridl.Envelope) (total index : UInt32) (payload : Bytes) :
    encode (.block (viewTarget t) (viewEnvelope e) total.toNat index.toNat payload)
      FRAME_VERSION_3 = some (Wire.frameBytes (.block t e total index payload)) := by
  refine (encode_envelope .block t e (payload.length + 8) rfl
    (by simp [encodedLength, BLOCK_LEN]; omega) fun _ => rfl).trans ?_
  simp [setUint32_eq, set_zeros, set_append_right, BLOCK_LEN, COMMON, ENVELOPE_BYTES, Ridl.COMMON,
    Ridl.ENVELOPE_BYTES, Wire.frameBytes]

theorem chunk_eq (t : Ridl.Target) (e : Ridl.Envelope) (correlation : UInt64)
    (stream : Ridl.StreamNo) (payload : Bytes) :
    encode (.chunk (viewTarget t) (viewEnvelope e) correlation.toNat stream.toNat payload)
      FRAME_VERSION_3 = some (Wire.frameBytes (.chunk t e correlation stream payload)) := by
  refine (encode_envelope .chunk t e (payload.length + 9) rfl
    (by simp [encodedLength, CHUNK_LEN]; omega) fun _ => rfl).trans ?_
  simp [setBigUint64_eq, set_zeros, set_append_right, set_cons_succ, put_append_right, put_zeros,
    CHUNK_LEN, COMMON, ENVELOPE_BYTES, Ridl.COMMON, Ridl.ENVELOPE_BYTES, Wire.frameBytes]

/-- What a response's outcome is written as. -/
def responseCodes (outcome : ResponseOutcome) : Nat × Nat :=
  match outcome with
  | .accepted => (OUT_ACCEPTED, 0)
  | .reply _ => (OUT_REPLY, 0)
  | .contract contract => contractCodes contract FRAME_VERSION_3 OUT_CORRUPT
  | .corrupt => (OUT_CORRUPT, 0)
  | .busy => (OUT_BUSY, 0)

theorem response_eq {t : Ridl.Target} {e : Ridl.Envelope} {correlation : UInt64}
    {outcome : Ridl.ResponseOutcome} {outcome' : ResponseOutcome}
    (h : viewResponse outcome = some outcome') :
    encode (.response (viewTarget t) (viewEnvelope e) correlation.toNat outcome')
      FRAME_VERSION_3 = some (Wire.frameBytes (.response t e correlation outcome)) := by
  have hcodes : responseCodes outcome' =
      ((Wire.responseCodes outcome).1.toNat, (Wire.responseCodes outcome).2.toNat) := by
    cases outcome with
    | contract c =>
        rcases Option.map_eq_some_iff.mp h with ⟨c', hc, rfl⟩
        exact contractCodes_eq hc _
    | accepted | reply | corrupt | busy =>
        cases h
        rfl
  have hbare (hempty : Wire.replyPayload outcome = []) :
      (setBigUint64 26 correlation.toNat (Wire.header .response t ++
        (Wire.envelopeBytes e ++ zeros 10))).bind (fun out =>
          some (put 35 (responseCodes outcome').2 (put 34 (responseCodes outcome').1 out))) =
        some (Wire.frameBytes (.response t e correlation outcome)) := by
    rw [hcodes]
    simp [setBigUint64_eq, set_zeros, set_append_right, put_append_right, put_zeros,
      put_cons_succ, Ridl.COMMON, Ridl.ENVELOPE_BYTES, Wire.frameBytes, Wire.pair, hempty]
  cases outcome with
  | contract c =>
      rcases Option.map_eq_some_iff.mp h with ⟨c', hc, rfl⟩
      exact (encode_envelope .response t e 10 rfl rfl fun _ => rfl).trans (hbare rfl)
  | accepted | corrupt | busy =>
      cases h
      exact (encode_envelope .response t e 10 rfl rfl fun _ => rfl).trans (hbare rfl)
  | reply p =>
      cases h
      refine (encode_envelope .response t e (p.length + 10) rfl
        (by simp [encodedLength, RESPONSE_LEN]; omega) fun _ => rfl).trans ?_
      -- The payload is written before the codes, where there are zeros still.
      have hzeros : zeros (p.length + 2) = 0 :: 0 :: zeros p.length := rfl
      simp [setBigUint64_eq, set_zeros, set_append_right, set_cons_succ, put_append_right, hzeros,
        RESPONSE_LEN, COMMON, ENVELOPE_BYTES, Ridl.COMMON, Ridl.ENVELOPE_BYTES,
        Wire.frameBytes, Wire.pair, Wire.replyPayload]
      rfl

theorem streamCodes_eq {o : Ridl.StreamOutcome} {o' : StreamOutcome} (h : viewStream o = some o') :
    streamCodes o' = ((Wire.streamCodes o).1.toNat, (Wire.streamCodes o).2.toNat) := by
  cases o with
  | contract c =>
      rcases Option.map_eq_some_iff.mp h with ⟨c', hc, rfl⟩
      exact contractCodes_eq hc _
  | ended | corrupt | busy | interrupted =>
      cases h
      rfl

theorem streamEnd_eq {t : Ridl.Target} {e : Ridl.Envelope} {correlation : UInt64}
    {stream : Ridl.StreamNo} {outcome : Ridl.StreamOutcome} {outcome' : StreamOutcome}
    (h : viewStream outcome = some outcome') :
    encode (.streamEnd (viewTarget t) (viewEnvelope e) correlation.toNat stream.toNat outcome')
      FRAME_VERSION_3 = some (Wire.frameBytes (.streamEnd t e correlation stream outcome)) := by
  refine (encode_envelope .streamEnd t e 11 rfl rfl fun _ => rfl).trans ?_
  rw [streamCodes_eq h]
  simp [setBigUint64_eq, set_zeros, set_append_right, put_append_right, put_zeros, put_cons_succ,
    STREAM_END_LEN, CHUNK_LEN, COMMON, ENVELOPE_BYTES, Ridl.COMMON, Ridl.ENVELOPE_BYTES,
    Wire.frameBytes, Wire.pair]

theorem streamCredit_eq (t : Ridl.Target) (correlation : UInt64) (stream : Ridl.StreamNo)
    (credit : UInt32) :
    encode (.streamCredit (viewTarget t) correlation.toNat stream.toNat credit.toNat)
      FRAME_VERSION_3 = some (Wire.frameBytes (.streamCredit t correlation stream credit)) := by
  refine (encode_header .streamCredit t 13 rfl rfl fun _ => rfl).trans ?_
  simp [setBigUint64_eq, setUint32_eq, set_zeros, set_append_right, set_cons_succ,
    put_append_right, put_zeros, STREAM_CREDIT_LEN, COMMON, Ridl.COMMON, Wire.frameBytes]

theorem encode_view {f : Ridl.Frame} {g : Frame} (h : view f = some g) :
    encode g FRAME_VERSION_3 = some (Wire.frameBytes f) := by
  cases f with
  | attach a =>
      cases h
      exact attach_eq a
  | attached outcome =>
      cases h
      exact attached_eq outcome
  | subscribe t =>
      cases h
      exact (encode_of_length rfl rfl _).trans (control_eq .subscribe t)
  | unsubscribe t =>
      cases h
      exact (encode_of_length rfl rfl _).trans (control_eq .unsubscribe t)
  | read t =>
      cases h
      exact (encode_of_length rfl rfl _).trans (control_eq .read t)
  | answer t outcome =>
      rcases Option.map_eq_some_iff.mp h with ⟨o, ho, rfl⟩
      exact answer_eq ho
  | publish t e state =>
      cases h
      exact publish_eq t e state
  | occurrence t e payload =>
      cases h
      exact data_eq .occurrence t e payload (fun _ _ _ => rfl) (fun _ _ _ => rfl) fun _ _ _ _ => rfl
  | request t e payload =>
      cases h
      exact data_eq .request t e payload (fun _ _ _ => rfl) (fun _ _ _ => rfl) fun _ _ _ _ => rfl
  | response t e correlation outcome =>
      rcases Option.map_eq_some_iff.mp h with ⟨o, ho, rfl⟩
      exact response_eq ho
  | block t e total index payload =>
      cases h
      exact block_eq t e total index payload
  | chunk t e correlation stream payload =>
      cases h
      exact chunk_eq t e correlation stream payload
  | streamEnd t e correlation stream outcome =>
      rcases Option.map_eq_some_iff.mp h with ⟨o, ho, rfl⟩
      exact streamEnd_eq ho
  | streamCredit t correlation stream credit =>
      cases h
      exact streamCredit_eq t correlation stream credit

end Encoders

/-- The two codecs define one format. Every message is read as the same frame,
    field by field, or refused for the same reason; and every frame that both
    sides represent is written as the same bytes. -/
theorem codecs_define_one_format :
    (∀ m : Bytes, (decode m).map some = (Wire.decode m).map view) ∧
    ∀ f g, view f = some g → ∃ bytes, encode g FRAME_VERSION_3 = some bytes ∧
      ∀ out : Bytes, bytes.length ≤ out.length →
        Wire.encode f out = some (.ok bytes.length, bytes ++ out.drop bytes.length) := by
  refine ⟨decode_sees, fun f g hview => ⟨Wire.frameBytes f, encode_view hview, fun out hfits => ?_⟩⟩
  rw [Wire.length_frameBytes] at hfits ⊢
  exact Wire.encode_of_le hfits

/-- A subscription on both sides. -/
theorem codecs_define_one_format_subscribe :
    view (.subscribe ⟨.signal, 1, 2⟩) = some (.subscribe ⟨1, 1, 2⟩) ∧
      ∃ bytes, encode (.subscribe ⟨1, 1, 2⟩) FRAME_VERSION_3 = some bytes ∧
        ∀ out : Bytes, bytes.length ≤ out.length →
          Wire.encode (.subscribe ⟨.signal, 1, 2⟩) out =
            some (.ok bytes.length, bytes ++ out.drop bytes.length) :=
  ⟨rfl, codecs_define_one_format.2 _ _ rfl⟩

end Ts

end Ridl
