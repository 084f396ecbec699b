import Ridl.Frame.Encode
import Ridl.Library.Fallible

/-!
# The Round Trip of Frames

What is written is read back, and what is read was written so: the format is
canonical. Both follow one field after the other. A field written behind others
is read at their length (`u32At_append_right` and its like), and a field read
at an offset, before the rest of the message, is the rest from that offset on
(`u32Bytes_drop` and its like).

A rule crosses the wire as its code, so the name of a type does not: a frame is
read back without it.

## Theorems

* `decode_frameBytes`: What is written is read back.
* `frameBytes_of_decode`: What is read was written.
* `frame_codec_round_trip`: Both, through the buffer.
-/

namespace Ridl

namespace Wire

open Library

section Codes

theorem formFrom_code (form : Form) : formFrom form.code = some form := by
  cases form <;> rfl

variable {code : UInt8}

theorem code_of_formFrom {form : Form} (h : formFrom code = some form) :
    code = form.code := by
  unfold formFrom at h
  apply UInt8.toNat_inj.mp
  split at h <;> cases h <;> assumption

theorem kindFrom_code (kind : Kind) : kindFrom (kindCode kind) = .ok kind := by
  cases kind <;> rfl

theorem code_of_kindFrom {kind : Kind} (h : kindFrom code = .ok kind) :
    code = kindCode kind := by
  unfold kindFrom at h
  apply UInt8.toNat_inj.mp
  split at h <;> cases h <;> assumption

theorem code_of_reasonFrom {reason : Reason} (h : reasonFrom code = .ok reason) :
    code = reasonCode reason := by
  unfold reasonFrom at h
  apply UInt8.toNat_inj.mp
  split at h <;> cases h <;> assumption

theorem ruleFrom_code (rule : Rule) (h : (ruleTag rule).isSome) :
    ruleFrom (ruleCode rule) = .ok rule := by
  cases rule with
  | unlisted => cases h
  | _ => rfl

theorem code_of_ruleFrom {rule : Rule} (h : ruleFrom code = .ok rule) :
    code = ruleCode rule ∧ (ruleTag rule).isSome := by
  unfold ruleFrom at h
  rw [← UInt8.toNat_inj]
  split at h <;> cases h <;> exact ⟨by assumption, rfl⟩

end Codes

section Outcomes

/-- A contract error that the wire carries. -/
def Tagged : Contract → Prop
  | .invalidValue v => (ruleTag v.rule).isSome
  | _ => True

/-- A contract error without the name of a type. -/
def Contract.untyped : Contract → Contract
  | .invalidValue v => .invalidValue ⟨none, v.rule⟩
  | c => c

def AnswerOutcome.untyped : AnswerOutcome → AnswerOutcome
  | .contract c => .contract (Contract.untyped c)
  | outcome => outcome

def ResponseOutcome.untyped : ResponseOutcome → ResponseOutcome
  | .contract c => .contract (Contract.untyped c)
  | outcome => outcome

def StreamOutcome.untyped : StreamOutcome → StreamOutcome
  | .contract c => .contract (Contract.untyped c)
  | outcome => outcome

theorem contractFrom_codes (c : Contract) (h : Tagged c) :
    isContract (contractCodes c).1 = true ∧
      contractFrom (contractCodes c).1 (contractCodes c).2 = .ok (Contract.untyped c) := by
  cases c with
  | invalidValue v =>
      refine ⟨rfl, ?_⟩
      have hrule := ruleFrom_code v.rule h
      simp only [contractCodes, contractFrom, hrule, if_pos]
      rfl
  | preconditionFailed | contractBroken | unknownInteraction => exact ⟨rfl, rfl⟩

variable {code : UInt8}

theorem eq_of_isContract (h : isContract code = true) :
    code = OUT_INVALID_VALUE ∨ code = OUT_PRECONDITION_FAILED ∨ code = OUT_CONTRACT_BROKEN ∨
      code = OUT_UNKNOWN_INTERACTION := by
  rw [isContract, Bool.and_eq_true, decide_eq_true_iff, decide_eq_true_iff] at h
  have hlow : 3 ≤ code.toNat := UInt8.le_iff_toNat_le.mp h.1
  have hhigh : code.toNat ≤ 6 := UInt8.le_iff_toNat_le.mp h.2
  have hnat : code.toNat = 3 ∨ code.toNat = 4 ∨ code.toNat = 5 ∨ code.toNat = 6 := by omega
  rcases hnat with h | h | h | h
  · exact .inl (UInt8.toNat_inj.mp h)
  · exact .inr (.inl (UInt8.toNat_inj.mp h))
  · exact .inr (.inr (.inl (UInt8.toNat_inj.mp h)))
  · exact .inr (.inr (.inr (UInt8.toNat_inj.mp h)))

theorem codes_of_contractFrom {detail : UInt8} {c : Contract}
    (hcode : isContract code = true) (h : contractFrom code detail = .ok c) :
    contractCodes c = (code, detail) ∧ Tagged c ∧ Contract.untyped c = c := by
  unfold contractFrom at h
  by_cases hrule : code = OUT_INVALID_VALUE
  · rw [if_pos hrule] at h
    rcases of_bind_eq_ok h with ⟨rule, hfrom, hc⟩
    cases hc
    rcases code_of_ruleFrom hfrom with ⟨hdetail, htag⟩
    exact ⟨by rw [hrule, hdetail]; rfl, htag, rfl⟩
  · rw [if_neg hrule] at h
    by_cases hdetail : detail = 0
    · rw [if_neg (not_not_intro hdetail)] at h
      rcases eq_of_isContract hcode with hc | hc | hc | hc
      · exact absurd hc hrule
      all_goals
        rw [hc] at h
        cases h
        exact ⟨by rw [hc, hdetail]; rfl, trivial, rfl⟩
    · rw [if_pos hdetail] at h
      cases h

/-- The outcome carries a tagged rule, if it carries one. -/
def AnswerOutcome.Tagged : AnswerOutcome → Prop
  | .contract c => Wire.Tagged c
  | _ => True

def ResponseOutcome.Tagged : ResponseOutcome → Prop
  | .contract c => Wire.Tagged c
  | _ => True

def StreamOutcome.Tagged : StreamOutcome → Prop
  | .contract c => Wire.Tagged c
  | _ => True

theorem streamFrom_codes (outcome : StreamOutcome) (h : StreamOutcome.Tagged outcome) :
    streamFrom (streamCodes outcome).1 (streamCodes outcome).2 =
      .ok (StreamOutcome.untyped outcome) := by
  cases outcome with
  | contract c =>
      rcases contractFrom_codes c h with ⟨his, hfrom⟩
      simp only [streamCodes, streamFrom, his, hfrom, if_pos]
      rfl
  | ended | corrupt | busy | interrupted => rfl

theorem codes_of_streamFrom {detail : UInt8} {outcome : StreamOutcome}
    (h : streamFrom code detail = .ok outcome) :
    streamCodes outcome = (code, detail) ∧ StreamOutcome.Tagged outcome ∧
      StreamOutcome.untyped outcome = outcome := by
  unfold streamFrom at h
  by_cases hcontract : isContract code = true
  · rw [if_pos hcontract] at h
    rcases of_bind_eq_ok h with ⟨c, hfrom, hc⟩
    cases hc
    rcases codes_of_contractFrom hcontract hfrom with ⟨hcodes, htag, huntyped⟩
    exact ⟨hcodes, htag, congrArg StreamOutcome.contract huntyped⟩
  · rw [if_neg hcontract] at h
    split_ifs at h with hrefused hknown hdetail hcorrupt hbusy hended
    · cases h
    · cases h
    · cases h
      rw [hcorrupt, not_not.mp hdetail]
      exact ⟨rfl, trivial, rfl⟩
    · cases h
      rw [hbusy, not_not.mp hdetail]
      exact ⟨rfl, trivial, rfl⟩
    · cases h
      rw [hended, not_not.mp hdetail]
      exact ⟨rfl, trivial, rfl⟩
    · cases h
      have hcode : code = OUT_INTERRUPTED := by
        rcases hknown with h | h | h | h
        · exact absurd h hcorrupt
        · exact absurd h hbusy
        · exact absurd h hended
        · exact h
      rw [hcode, not_not.mp hdetail]
      exact ⟨rfl, trivial, rfl⟩
    · cases h

end Outcomes

section Reading

theorem byteAt_append_right (a b : Bytes) (i : Nat) (h : a.length ≤ i) :
    byteAt (a ++ b) i = byteAt b (i - a.length) := by
  simp only [byteAt, List.getD_eq_getElem?_getD, List.getElem?_append_right h]

theorem u32At_append_right (a b : Bytes) (i : Nat) (h : a.length ≤ i) :
    u32At (a ++ b) i = u32At b (i - a.length) := by
  rw [u32At, slice_append_right a b i 4 h, u32At]

theorem u64At_append_right (a b : Bytes) (i : Nat) (h : a.length ≤ i) :
    u64At (a ++ b) i = u64At b (i - a.length) := by
  rw [u64At, slice_append_right a b i 8 h, u64At]

theorem byteAt_cons (v : UInt8) (b : Bytes) : byteAt (v :: b) 0 = v :=
  rfl

theorem byteAt_cons_succ (v : UInt8) (b : Bytes) (i : Nat) :
    byteAt (v :: b) (i + 1) = byteAt b i :=
  rfl

theorem u32At_u32Bytes (n : UInt32) (b : Bytes) : u32At (u32Bytes n ++ b) 0 = n := by
  rw [u32At, slice_append_left _ _ _ _ (by simp), slice_zero _ _ (by simp), u32Bytes,
    ofLE_toLE _ _ n.toNat_lt, UInt32.ofNat_toNat]

theorem u64At_u64Bytes (n : UInt64) (b : Bytes) : u64At (u64Bytes n ++ b) 0 = n := by
  rw [u64At, slice_append_left _ _ _ _ (by simp), slice_zero _ _ (by simp), u64Bytes,
    ofLE_toLE _ _ n.toNat_lt, UInt64.ofNat_toNat]

theorem u32Bytes_drop (m : Bytes) (i : Nat) (h : i + 4 ≤ m.length) :
    u32Bytes (u32At m i) ++ m.drop (i + 4) = m.drop i := by
  have hlen := length_slice m i 4 h
  have hlt := ofLE_lt (slice m i 4)
  rw [hlen] at hlt
  have hnat : (u32At m i).toNat = ofLE (slice m i 4) := by
    rw [u32At, UInt32.toNat_ofNat']
    exact Nat.mod_eq_of_lt hlt
  have hbytes := toLE_ofLE (slice m i 4)
  rw [hlen] at hbytes
  rw [u32Bytes, hnat, hbytes, slice_join_drop]

theorem u64Bytes_drop (m : Bytes) (i : Nat) (h : i + 8 ≤ m.length) :
    u64Bytes (u64At m i) ++ m.drop (i + 8) = m.drop i := by
  have hlen := length_slice m i 8 h
  have hlt := ofLE_lt (slice m i 8)
  rw [hlen] at hlt
  have hnat : (u64At m i).toNat = ofLE (slice m i 8) := by
    rw [u64At, UInt64.toNat_ofNat']
    exact Nat.mod_eq_of_lt hlt
  have hbytes := toLE_ofLE (slice m i 8)
  rw [hlen] at hbytes
  rw [u64Bytes, hnat, hbytes, slice_join_drop]

theorem byteAt_drop (m : Bytes) (i : Nat) (h : i < m.length) :
    byteAt m i :: m.drop (i + 1) = m.drop i := by
  rw [List.drop_eq_getElem_cons h, byteAt, List.getD_eq_getElem?_getD,
    List.getElem?_eq_getElem h, Option.getD_some]

theorem envelopeBytes_drop (m : Bytes) (i : Nat) (h : i + ENVELOPE_BYTES ≤ m.length) :
    envelopeBytes (envelopeAt m i) ++ m.drop (i + ENVELOPE_BYTES) = m.drop i := by
  unfold ENVELOPE_BYTES at h
  rw [envelopeBytes, envelopeAt, UInt64.toUInt64_toInt64, List.append_assoc, ENVELOPE_BYTES,
    ← Nat.add_assoc i 8 8, u64Bytes_drop m (i + 8) (by omega), u64Bytes_drop m i (by omega)]

theorem envelopeAt_append_right (a b : Bytes) (i : Nat) (h : a.length ≤ i) :
    envelopeAt (a ++ b) i = envelopeAt b (i - a.length) := by
  rw [envelopeAt, u64At_append_right a b i h, u64At_append_right a b (i + 8) (by omega),
    envelopeAt, Nat.sub_add_comm h]

theorem envelopeAt_envelopeBytes (e : Envelope) (b : Bytes) :
    envelopeAt (envelopeBytes e ++ b) 0 = e := by
  rw [envelopeAt, envelopeBytes, List.append_assoc, u64At_u64Bytes,
    u64At_append_right _ _ _ (by simp)]
  simp [u64At_u64Bytes]

theorem u32At_self (n : UInt32) : u32At (u32Bytes n) 0 = n := by
  simpa only [List.append_nil] using u32At_u32Bytes n []

theorem drop_append_right (a b : Bytes) (i : Nat) (h : a.length ≤ i) :
    (a ++ b).drop i = b.drop (i - a.length) := by
  rw [List.drop_append, List.drop_eq_nil_of_le h, List.nil_append]

theorem isUtf8_textBytes (text : String) : IsUtf8 (textBytes text) :=
  text.isValidUTF8

end Reading

section Targets

/-- The numbers of a target are not zero. -/
def Numbered (t : Target) : Prop := t.iface ≠ 0 ∧ t.ord ≠ 0

def Streamed (t : Target) : Prop := Numbered t ∧ (t.kind = .command ∨ t.kind = .query)

variable {m : Bytes} {len : Nat}

theorem need_of_le (h : len ≤ m.length) : need m len = .ok () := by
  rw [need, if_neg (by omega)]

theorem le_of_need (h : need m len = .ok ()) : len ≤ m.length := by
  unfold need at h
  split_ifs at h with hlt
  · cases h
  · omega

theorem control_of_eq (h : m.length = len) : control m len = .ok () := by
  rw [control, need_of_le h.ge, ok_bind, if_neg h.not_gt]
  rfl

theorem eq_of_control (h : control m len = .ok ()) : m.length = len := by
  rcases of_bind_eq_ok h with ⟨_, hneed, hmore⟩
  have hle := le_of_need hneed
  split_ifs at hmore with hlt
  · cases hmore
  · omega

theorem targetAt_header (form : Form) (t : Target) (b : Bytes) (h : Numbered t) :
    targetAt (header form t ++ b) = .ok t := by
  have hkind : byteAt (header form t ++ b) 1 = kindCode t.kind := rfl
  have hiface : u32At (header form t ++ b) 2 = t.iface := by
    simp only [header, List.cons_append, List.append_assoc]
    exact u32At_u32Bytes t.iface (u32Bytes t.ord ++ b)
  have hord : u32At (header form t ++ b) 6 = t.ord := by
    have hright := u32At_append_right (form.code :: kindCode t.kind :: u32Bytes t.iface)
      (u32Bytes t.ord ++ b) 6 (by simp)
    simp only [List.length_cons, length_u32Bytes, Nat.sub_self, u32At_u32Bytes] at hright
    simpa only [header, List.cons_append, List.append_assoc] using hright
  rw [targetAt, hkind, kindFrom_code, ok_bind, hiface, hord, if_neg (by rw [not_or]; exact h)]
  rfl

theorem header_of_targetAt {t : Target} {form : Form} (hlen : COMMON ≤ m.length)
    (hform : byteAt m 0 = form.code) (h : targetAt m = .ok t) :
    Numbered t ∧ header form t ++ m.drop COMMON = m := by
  unfold COMMON at hlen
  rcases of_bind_eq_ok h with ⟨kind, hkind, hrest⟩
  dsimp only at hrest
  split_ifs at hrest with hzero
  · cases hrest
  · cases hrest
    refine ⟨not_or.mp hzero, ?_⟩
    calc header form ⟨kind, u32At m 2, u32At m 6⟩ ++ m.drop COMMON
        = byteAt m 0 :: byteAt m 1 ::
            (u32Bytes (u32At m 2) ++ (u32Bytes (u32At m 6) ++ m.drop 10)) := by
          rw [header, hform, code_of_kindFrom hkind, List.cons_append, List.cons_append,
            List.append_assoc]
          rfl
      _ = m.drop 0 := by
          rw [u32Bytes_drop m 6 (by omega), u32Bytes_drop m 2 (by omega),
            byteAt_drop m 1 (by omega), byteAt_drop m 0 (by omega)]
      _ = m := List.drop_zero

theorem streamTargetAt_header (form : Form) (t : Target) (b : Bytes) (h : Streamed t) :
    streamTargetAt (header form t ++ b) = .ok t := by
  rw [streamTargetAt, targetAt_header form t b h.1, ok_bind, if_pos h.2]
  rfl

theorem header_of_streamTargetAt {t : Target} {form : Form}
    (hlen : COMMON ≤ m.length) (hform : byteAt m 0 = form.code)
    (h : streamTargetAt m = .ok t) : Streamed t ∧ header form t ++ m.drop COMMON = m := by
  rcases of_bind_eq_ok h with ⟨target, htarget, hrest⟩
  split_ifs at hrest with hkind
  · cases hrest
    rcases header_of_targetAt hlen hform htarget with ⟨hnumbered, hm⟩
    exact ⟨⟨hnumbered, hkind⟩, hm⟩
  · cases hrest

end Targets

section Forms

variable {m : Bytes} {form : Form} {f : Frame} {code : UInt8}

theorem envelope_of_header {t : Target} (hlen : DATA_LEN ≤ m.length)
    (h : header form t ++ m.drop COMMON = m) :
    header form t ++ (envelopeBytes (envelopeAt m COMMON) ++ m.drop DATA_LEN) = m := by
  rw [DATA_LEN, envelopeBytes_drop m COMMON hlen]
  exact h

theorem decodeControl_header (frame : Target → Frame) (form : Form) (t : Target)
    (h : Numbered t) : decodeControl frame (header form t) = .ok (frame t) := by
  have hcontrol : control (header form t) COMMON = .ok () := control_of_eq (length_header form t)
  have htarget := targetAt_header form t [] h
  rw [List.append_nil] at htarget
  rw [decodeControl, hcontrol, ok_bind, htarget]
  rfl

theorem header_of_decodeControl {frame : Target → Frame}
    (hform : byteAt m 0 = form.code) (h : decodeControl frame m = .ok f) :
    ∃ t, Numbered t ∧ f = frame t ∧ header form t = m := by
  rcases of_bind_eq_ok h with ⟨_, hcontrol, h⟩
  rcases of_bind_eq_ok h with ⟨t, htarget, h⟩
  have hlen := eq_of_control hcontrol
  rcases header_of_targetAt hlen.ge hform htarget with ⟨hnumbered, hm⟩
  rw [List.drop_eq_nil_of_le hlen.le, List.append_nil] at hm
  cases h
  exact ⟨t, hnumbered, rfl, hm⟩

theorem decodeData_header (frame : Target → Envelope → Bytes → Frame) (form : Form) (t : Target)
    (e : Envelope) (p : Bytes) (h : Numbered t) :
    decodeData frame (header form t ++ (envelopeBytes e ++ p)) = .ok (frame t e p) := by
  have hneed : need (header form t ++ (envelopeBytes e ++ p)) DATA_LEN = .ok () :=
    need_of_le (by simp [DATA_LEN])
  rw [decodeData, hneed, ok_bind, targetAt_header form t _ h, ok_bind]
  simp [DATA_LEN, COMMON, ENVELOPE_BYTES, envelopeAt_append_right, envelopeAt_envelopeBytes,
    drop_append_right]
  rfl

theorem header_of_decodeData {frame : Target → Envelope → Bytes → Frame}
    (hform : byteAt m 0 = form.code) (h : decodeData frame m = .ok f) :
    ∃ t e p, Numbered t ∧ f = frame t e p ∧ header form t ++ (envelopeBytes e ++ p) = m := by
  rcases of_bind_eq_ok h with ⟨_, hneed, h⟩
  rcases of_bind_eq_ok h with ⟨t, htarget, h⟩
  have hlen := le_of_need hneed
  have hcommon : COMMON ≤ m.length := le_trans (by decide) hlen
  rcases header_of_targetAt hcommon hform htarget with ⟨hnumbered, hm⟩
  cases h
  exact ⟨t, _, _, hnumbered, rfl, envelope_of_header hlen hm⟩

theorem attach_ext {a b : Attach} (hversion : a.frameVersion = b.frameVersion)
    (hencoding : a.encoding = b.encoding) (hhash : a.hash.bytes = b.hash.bytes)
    (hname : a.name = b.name) : a = b := by
  rcases a with ⟨_, _, ⟨_, _⟩, _, _, _⟩
  rcases b with ⟨_, _, ⟨_, _⟩, _, _, _⟩
  cases hversion
  cases hencoding
  cases hhash
  cases hname
  rfl

theorem textOf_of_eq {b : Bytes} {text : String} (h : IsUtf8 b) (heq : b = textBytes text) :
    textOf b h = text := by
  subst heq
  rfl

theorem decodeAttach_frameBytes (a : Attach) :
    decodeAttach (frameBytes (.attach a)) = .ok (.attach a) := by
  have hnamed := a.named
  have hcode : (UInt8.ofNat a.name.utf8ByteSize).toNat = a.name.utf8ByteSize := by
    rw [UInt8.toNat_ofNat']
    omega
  have hlen : (frameBytes (.attach a)).length = ATTACH_FIXED + a.name.utf8ByteSize :=
    length_frameBytes (.attach a)
  have hversion : u32At (frameBytes (.attach a)) 1 = a.frameVersion :=
    u32At_u32Bytes _ _
  have hencoding : byteAt (frameBytes (.attach a)) 5 = a.encoding := by
    simp [frameBytes, byteAt_cons_succ, byteAt_append_right, byteAt_cons]
  have hhash : slice (frameBytes (.attach a)) 6 32 = a.hash.bytes := by
    have hfront : frameBytes (.attach a) = (Form.attach.code :: (u32Bytes a.frameVersion ++
        [a.encoding])) ++ (a.hash.bytes ++ (UInt8.ofNat a.name.utf8ByteSize ::
          textBytes a.name)) := by
      simp [frameBytes]
    rw [hfront, slice_append_right _ _ _ _ (by simp), slice_append_left _ _ _ _ (by
      simp [a.hash.size]), List.length_cons, List.length_append, length_u32Bytes]
    exact slice_zero _ _ a.hash.size.symm
  have hlast : byteAt (frameBytes (.attach a)) (ATTACH_FIXED - 1) =
      UInt8.ofNat a.name.utf8ByteSize := by
    simp [frameBytes, ATTACH_FIXED, byteAt_cons_succ, byteAt_append_right, byteAt_cons,
      a.hash.size]
  have hdrop : (frameBytes (.attach a)).drop ATTACH_FIXED = textBytes a.name := by
    simp [frameBytes, ATTACH_FIXED, drop_append_right, a.hash.size]
  have hutf8 : IsUtf8 ((frameBytes (.attach a)).drop ATTACH_FIXED) := by
    rw [hdrop]
    exact isUtf8_textBytes a.name
  unfold decodeAttach
  rw [dif_neg (by omega)]
  dsimp only
  rw [dif_neg (by rw [hlast, hcode]; omega), dif_pos hutf8, dif_pos (by
    rw [hencoding]
    exact a.known)]
  exact congrArg (fun a => Except.ok (Frame.attach a))
    (attach_ext hversion hencoding hhash (textOf_of_eq hutf8 hdrop))

theorem bytes_of_decodeAttach (hform : byteAt m 0 = Form.attach.code)
    (h : decodeAttach m = .ok f) : ∃ a, f = .attach a ∧ frameBytes f = m := by
  unfold decodeAttach at h
  dsimp only at h
  split_ifs at h with hshort hname hutf8 hencoding
  · cases h
  · cases h
  · cases h
    refine ⟨_, rfl, ?_⟩
    unfold ATTACH_FIXED at hshort
    have hname : byteAt m 38 = UInt8.ofNat (textOf (m.drop ATTACH_FIXED) hutf8).utf8ByteSize := by
      have hlen : m.length = ATTACH_FIXED + (byteAt m 38).toNat :=
        not_not.mp (not_or.mp hname).2
      have hrest : m.length - ATTACH_FIXED = (byteAt m 38).toNat := by
        rw [hlen]
        exact Nat.add_sub_cancel_left ATTACH_FIXED _
      rw [utf8ByteSize_textOf, List.length_drop, hrest, UInt8.ofNat_toNat]
    have hbytes : textBytes (textOf (m.drop ATTACH_FIXED) hutf8) = m.drop (38 + 1) := rfl
    simp only [frameBytes]
    rw [← hname, hbytes, byteAt_drop m 38 (by omega), slice_join_drop m 6 32,
      byteAt_drop m 5 (by omega), u32Bytes_drop m 1 (by omega), ← hform,
      byteAt_drop m 0 (by omega), List.drop_zero]
  · cases h
  · cases h

theorem decodeAttached_frameBytes (outcome : AttachOutcome) :
    decodeAttached (frameBytes (.attached outcome)) = .ok (.attached outcome) := by
  cases outcome with
  | accepted => rfl
  | refused reason => cases reason <;> rfl

theorem bytes_of_decodeAttached (hform : byteAt m 0 = Form.attached.code)
    (h : decodeAttached m = .ok f) : ∃ outcome, f = .attached outcome ∧ frameBytes f = m := by
  rcases of_bind_eq_ok h with ⟨_, hcontrol, h⟩
  have hlen := eq_of_control hcontrol
  unfold ATTACHED_LEN at hlen
  have hm : m = Form.attached.code :: pair (byteAt m 1, byteAt m 2) := by
    calc m = byteAt m 0 :: byteAt m 1 :: byteAt m 2 :: m.drop 3 := by
          rw [byteAt_drop m 2 (by omega), byteAt_drop m 1 (by omega),
            byteAt_drop m 0 (by omega), List.drop_zero]
      _ = Form.attached.code :: pair (byteAt m 1, byteAt m 2) := by
          rw [hform, List.drop_eq_nil_of_le hlen.le]
          rfl
  rcases of_bind_eq_ok h with ⟨_, _, h⟩
  split_ifs at h with haccepted hdetail hrefused
  · cases h
    refine ⟨_, rfl, ?_⟩
    rw [hm, haccepted, hdetail]
    rfl
  · cases h
  · rcases of_bind_eq_ok h with ⟨reason, hreason, h⟩
    cases h
    refine ⟨_, rfl, ?_⟩
    rw [hm, hrefused, code_of_reasonFrom hreason]
    rfl
  · cases h

theorem pair_of_end {i : Nat} (h : m.length = i + 2) :
    pair (byteAt m i, byteAt m (i + 1)) = m.drop i := by
  rw [← byteAt_drop m i (by omega), ← byteAt_drop m (i + 1) (by omega),
    List.drop_eq_nil_of_le (by omega)]
  rfl

theorem outcomeKnown_contract (h : isContract code = true) :
    outcomeKnown code = .ok () := by
  rcases eq_of_isContract h with h | h | h | h <;> rw [h] <;> rfl

theorem range_of_outcomeKnown (h : outcomeKnown code = .ok ()) :
    1 ≤ code.toNat ∧ code.toNat ≤ 9 := by
  unfold outcomeKnown at h
  split_ifs at h with hrange
  · exact ⟨UInt8.le_iff_toNat_le.mp hrange.1, UInt8.le_iff_toNat_le.mp hrange.2⟩
  · cases h

theorem decodeAnswer_header (t : Target) (outcome : AnswerOutcome) (h : Numbered t)
    (htag : AnswerOutcome.Tagged outcome) :
    decodeAnswer (header .answer t ++ pair (answerCodes outcome)) =
      .ok (.answer t (AnswerOutcome.untyped outcome)) := by
  have hcontrol : control (header .answer t ++ pair (answerCodes outcome)) ANSWER_LEN = .ok () :=
    control_of_eq (by simp [ANSWER_LEN])
  have hcode : byteAt (header .answer t ++ pair (answerCodes outcome)) 10 =
      (answerCodes outcome).1 := by
    simp [byteAt_append_right, COMMON]
    rfl
  have hdetail : byteAt (header .answer t ++ pair (answerCodes outcome)) 11 =
      (answerCodes outcome).2 := by
    simp [byteAt_append_right, COMMON]
    rfl
  rw [decodeAnswer, hcontrol, ok_bind, targetAt_header .answer t _ h, ok_bind]
  dsimp only
  rw [hcode, hdetail]
  cases outcome with
  | accepted => rfl
  | contract c =>
      have heq : answerCodes (.contract c) = contractCodes c := rfl
      rcases contractFrom_codes c htag with ⟨his, hfrom⟩
      rw [← heq] at his hfrom
      have hne : ¬ (answerCodes (.contract c)).1 = OUT_ACCEPTED := by
        intro hone
        rw [hone] at his
        cases his
      rw [outcomeKnown_contract his, ok_bind, if_neg hne, if_pos his, hfrom, ok_bind]
      rfl

theorem header_of_decodeAnswer (hform : byteAt m 0 = Form.answer.code)
    (h : decodeAnswer m = .ok f) : ∃ t outcome, f = .answer t outcome ∧ Numbered t ∧
      AnswerOutcome.Tagged outcome ∧ AnswerOutcome.untyped outcome = outcome ∧
      header .answer t ++ pair (answerCodes outcome) = m := by
  rcases of_bind_eq_ok h with ⟨_, hcontrol, h⟩
  rcases of_bind_eq_ok h with ⟨t, htarget, h⟩
  have hlen : m.length = 10 + 2 := eq_of_control hcontrol
  rcases header_of_targetAt (by rw [hlen]; decide) hform htarget with ⟨hnumbered, hm⟩
  have hpair : header .answer t ++ pair (byteAt m 10, byteAt m 11) = m := by
    rw [pair_of_end hlen]
    exact hm
  rcases of_bind_eq_ok h with ⟨_, _, h⟩
  split_ifs at h with haccepted hdetail hcontract
  · cases h
    refine ⟨t, _, rfl, hnumbered, trivial, rfl, ?_⟩
    rw [haccepted, hdetail] at hpair
    exact hpair
  · cases h
  · rcases of_bind_eq_ok h with ⟨c, hfrom, h⟩
    cases h
    rcases codes_of_contractFrom hcontract hfrom with ⟨hcodes, htag, huntyped⟩
    refine ⟨t, _, rfl, hnumbered, htag, congrArg AnswerOutcome.contract huntyped, ?_⟩
    rw [answerCodes, hcodes]
    exact hpair
  · cases h

theorem decodePublish_header (t : Target) (e : Envelope) (state : PublishState)
    (h : Numbered t) :
    decodePublish (header .publish t ++ (envelopeBytes e ++ stateBytes state)) =
      .ok (.publish t e state) := by
  have hneed : need (header .publish t ++ (envelopeBytes e ++ stateBytes state)) PUBLISH_LEN =
      .ok () := by
    refine need_of_le ?_
    cases state with
    | init | live | invalidDeclared =>
        simp [PUBLISH_LEN, COMMON, ENVELOPE_BYTES, stateBytes]
        try omega
  rw [decodePublish, hneed, ok_bind, targetAt_header .publish t _ h, ok_bind]
  cases state with
  | init | live | invalidDeclared =>
      simp [PUBLISH_LEN, COMMON, ENVELOPE_BYTES, envelopeAt_append_right,
        envelopeAt_envelopeBytes, drop_append_right, byteAt_append_right, stateBytes, byteAt_cons]
      rfl

theorem header_of_decodePublish (hform : byteAt m 0 = Form.publish.code)
    (h : decodePublish m = .ok f) : ∃ t e state, f = .publish t e state ∧ Numbered t ∧
      header .publish t ++ (envelopeBytes e ++ stateBytes state) = m := by
  rcases of_bind_eq_ok h with ⟨_, hneed, h⟩
  rcases of_bind_eq_ok h with ⟨t, htarget, h⟩
  have hlen : 27 ≤ m.length := le_of_need hneed
  rcases header_of_targetAt (le_trans (by decide) hlen) hform htarget with ⟨hnumbered, hm⟩
  have hm := envelope_of_header (le_trans (by decide) hlen) hm
  rw [DATA_LEN, COMMON, ENVELOPE_BYTES, ← byteAt_drop m 26 (by omega)] at hm
  dsimp only at h
  split_ifs at h with hlive hempty hrest hinit
  · cases h
    refine ⟨t, _, _, rfl, hnumbered, ?_⟩
    rw [show byteAt m 26 = PROV_LIVE from hlive] at hm
    exact hm
  · cases h
    refine ⟨t, _, _, rfl, hnumbered, ?_⟩
    rw [show byteAt m 26 = PROV_INIT from hinit,
      show m.drop (26 + 1) = [] from not_not.mp hrest] at hm
    exact hm
  · cases h
    refine ⟨t, _, _, rfl, hnumbered, ?_⟩
    rw [show byteAt m 26 = PROV_INVALID_DECLARED from hempty.resolve_left hinit,
      show m.drop (26 + 1) = [] from not_not.mp hrest] at hm
    exact hm
  · cases h

/-- A reply's payload is what follows its codes, and no other outcome has one. -/
theorem responseFrom_codes (outcome : ResponseOutcome) (h : ResponseOutcome.Tagged outcome) :
    outcomeKnown (responseCodes outcome).1 = .ok () ∧
      responseFrom (responseCodes outcome).1 (responseCodes outcome).2 (replyPayload outcome) =
        .ok (ResponseOutcome.untyped outcome) := by
  cases outcome with
  | contract c =>
      have heq : responseCodes (.contract c) = contractCodes c := rfl
      rcases contractFrom_codes c h with ⟨his, hfrom⟩
      rw [← heq] at his hfrom
      refine ⟨outcomeKnown_contract his, ?_⟩
      have hne : ¬ (responseCodes (.contract c)).1 = OUT_REFUSED := by
        intro hrefused
        rw [hrefused] at his
        cases his
      rw [responseFrom, if_neg hne, if_pos his, hfrom]
      rfl
  | accepted | reply | corrupt | busy => exact ⟨rfl, rfl⟩

theorem codes_of_responseFrom {detail : UInt8} {rest : Bytes} {outcome : ResponseOutcome}
    (hknown : outcomeKnown code = .ok ()) (h : responseFrom code detail rest = .ok outcome)
    (hrest : ¬ (¬ isReply outcome ∧ rest ≠ [])) :
    responseCodes outcome = (code, detail) ∧ replyPayload outcome = rest ∧
      ResponseOutcome.Tagged outcome ∧ ResponseOutcome.untyped outcome = outcome := by
  have hempty (hreply : isReply outcome = false) : rest = [] := by
    by_contra hne
    exact hrest ⟨by rw [hreply]; exact Bool.false_ne_true, hne⟩
  unfold responseFrom at h
  split_ifs at h with hrefused hcontract hdetail haccepted hreply hcorrupt
  · cases h
  · rcases of_bind_eq_ok h with ⟨c, hfrom, hc⟩
    cases hc
    rcases codes_of_contractFrom hcontract hfrom with ⟨hcodes, htag, huntyped⟩
    exact ⟨hcodes, (hempty rfl).symm, htag, congrArg ResponseOutcome.contract huntyped⟩
  · cases h
  · cases h
    rw [haccepted, not_not.mp hdetail]
    exact ⟨rfl, (hempty rfl).symm, trivial, rfl⟩
  · cases h
    rw [hreply, not_not.mp hdetail]
    exact ⟨rfl, rfl, trivial, rfl⟩
  · cases h
    rw [hcorrupt, not_not.mp hdetail]
    exact ⟨rfl, (hempty rfl).symm, trivial, rfl⟩
  · cases h
    have hbusy : code = OUT_BUSY := by
      have hrange := range_of_outcomeKnown hknown
      have hnot : ¬ (3 ≤ code.toNat ∧ code.toNat ≤ 6) := by
        rw [isContract, Bool.and_eq_true, decide_eq_true_iff, decide_eq_true_iff] at hcontract
        exact fun h => hcontract ⟨UInt8.le_iff_toNat_le.mpr h.1, UInt8.le_iff_toNat_le.mpr h.2⟩
      have hne (n : UInt8) (h : ¬ code = n) : code.toNat ≠ n.toNat :=
        fun heq => h (UInt8.toNat_inj.mp heq)
      have h1 : code.toNat ≠ 1 := hne _ haccepted
      have h2 : code.toNat ≠ 2 := hne _ hreply
      have h7 : code.toNat ≠ 7 := hne _ hcorrupt
      have h9 : code.toNat ≠ 9 := hne _ hrefused
      have h8 : code.toNat = 8 := by omega
      exact UInt8.toNat_inj.mp h8
    rw [hbusy, not_not.mp hdetail]
    exact ⟨rfl, (hempty rfl).symm, trivial, rfl⟩

theorem decodeResponse_header (t : Target) (e : Envelope) (correlation : UInt64)
    (outcome : ResponseOutcome) (h : Numbered t) (htag : ResponseOutcome.Tagged outcome) :
    decodeResponse (frameBytes (.response t e correlation outcome)) =
      .ok (.response t e correlation (ResponseOutcome.untyped outcome)) := by
  have hneed : need (frameBytes (.response t e correlation outcome)) RESPONSE_LEN = .ok () :=
    need_of_le (by rw [length_frameBytes]; exact Nat.le_add_right _ _)
  have htarget : targetAt (frameBytes (.response t e correlation outcome)) = .ok t :=
    targetAt_header .response t _ h
  have henvelope : envelopeAt (frameBytes (.response t e correlation outcome)) COMMON = e := by
    simp [frameBytes, envelopeAt_append_right, envelopeAt_envelopeBytes]
  have hcorrelation : u64At (frameBytes (.response t e correlation outcome))
      (COMMON + ENVELOPE_BYTES) = correlation := by
    simp [frameBytes, u64At_append_right, u64At_u64Bytes]
  have hcode : byteAt (frameBytes (.response t e correlation outcome)) (RESPONSE_LEN - 2) =
      (responseCodes outcome).1 := by
    simp [frameBytes, RESPONSE_LEN, COMMON, ENVELOPE_BYTES, byteAt_append_right]
    rfl
  have hdetail : byteAt (frameBytes (.response t e correlation outcome)) (RESPONSE_LEN - 1) =
      (responseCodes outcome).2 := by
    simp [frameBytes, RESPONSE_LEN, COMMON, ENVELOPE_BYTES, byteAt_append_right]
    rfl
  have hrest : (frameBytes (.response t e correlation outcome)).drop RESPONSE_LEN =
      replyPayload outcome := by
    simp [frameBytes, RESPONSE_LEN, COMMON, ENVELOPE_BYTES, drop_append_right]
    rfl
  rcases responseFrom_codes outcome htag with ⟨hknown, hfrom⟩
  rw [decodeResponse, hneed, ok_bind, htarget, ok_bind]
  dsimp only
  rw [henvelope, hcorrelation, hcode, hdetail, hrest, hknown, ok_bind, hfrom, ok_bind, if_neg]
  · rfl
  · cases outcome with
    | reply p => exact fun hno => hno.1 rfl
    | accepted | contract | corrupt | busy => exact fun hno => hno.2 rfl

theorem bytes_of_decodeResponse (hform : byteAt m 0 = Form.response.code)
    (h : decodeResponse m = .ok f) : ∃ t e correlation outcome,
      f = .response t e correlation outcome ∧ Numbered t ∧ ResponseOutcome.Tagged outcome ∧
        ResponseOutcome.untyped outcome = outcome ∧ frameBytes f = m := by
  rcases of_bind_eq_ok h with ⟨_, hneed, h⟩
  rcases of_bind_eq_ok h with ⟨t, htarget, h⟩
  have hlen : 36 ≤ m.length := le_of_need hneed
  rcases header_of_targetAt (le_trans (by decide) hlen) hform htarget with ⟨hnumbered, hm⟩
  have hm := envelope_of_header (le_trans (by decide) hlen) hm
  rw [DATA_LEN, COMMON, ENVELOPE_BYTES, ← u64Bytes_drop m 26 (by omega),
    ← byteAt_drop m 34 (by omega), ← byteAt_drop m 35 (by omega)] at hm
  rcases of_bind_eq_ok h with ⟨_, hknown, h⟩
  rcases of_bind_eq_ok h with ⟨outcome, hfrom, h⟩
  by_cases hrest : ¬ isReply outcome = true ∧ m.drop RESPONSE_LEN ≠ []
  · rw [if_pos hrest] at h
    cases h
  · rw [if_neg hrest] at h
    rcases codes_of_responseFrom hknown hfrom hrest with ⟨hcodes, hpayload, htag, huntyped⟩
    cases h
    refine ⟨t, _, _, outcome, rfl, hnumbered, htag, huntyped, ?_⟩
    rw [frameBytes, hcodes, hpayload]
    exact hm

theorem decodeBlock_frameBytes (t : Target) (e : Envelope) (total index : UInt32) (p : Bytes)
    (h : Numbered t) (hkind : t.kind = .fixed)
    (hlen : (blockLen total index).map UInt32.toNat = some p.length) :
    decodeBlock (frameBytes (.block t e total index p)) = .ok (.block t e total index p) := by
  have hneed : need (frameBytes (.block t e total index p)) BLOCK_LEN = .ok () :=
    need_of_le (by rw [length_frameBytes]; exact Nat.le_add_right _ _)
  have htarget : targetAt (frameBytes (.block t e total index p)) = .ok t :=
    targetAt_header .block t _ h
  have htotal : u32At (frameBytes (.block t e total index p)) (COMMON + ENVELOPE_BYTES) =
      total := by
    simp [frameBytes, u32At_append_right, u32At_u32Bytes]
  have hindex : u32At (frameBytes (.block t e total index p)) (COMMON + ENVELOPE_BYTES + 4) =
      index := by
    simp [frameBytes, COMMON, ENVELOPE_BYTES, u32At_append_right, u32At_u32Bytes]
  have hpayload : (frameBytes (.block t e total index p)).drop BLOCK_LEN = p := by
    simp [frameBytes, BLOCK_LEN, COMMON, ENVELOPE_BYTES, drop_append_right]
  rw [decodeBlock, hneed, ok_bind, htarget, ok_bind, if_neg (not_not_intro hkind)]
  dsimp only
  rw [htotal, hindex, hpayload, if_pos hlen]
  simp [frameBytes, envelopeAt_append_right, envelopeAt_envelopeBytes]
  rfl

theorem bytes_of_decodeBlock (hform : byteAt m 0 = Form.block.code)
    (h : decodeBlock m = .ok f) : ∃ t e total index p,
      f = .block t e total index p ∧ Numbered t ∧ t.kind = .fixed ∧
        (blockLen total index).map UInt32.toNat = some p.length ∧ frameBytes f = m := by
  rcases of_bind_eq_ok h with ⟨_, hneed, h⟩
  rcases of_bind_eq_ok h with ⟨t, htarget, h⟩
  have hlen : 34 ≤ m.length := le_of_need hneed
  rcases header_of_targetAt (le_trans (by decide) hlen) hform htarget with ⟨hnumbered, hm⟩
  have hm := envelope_of_header (le_trans (by decide) hlen) hm
  rw [DATA_LEN, COMMON, ENVELOPE_BYTES, ← u32Bytes_drop m 26 (by omega),
    ← u32Bytes_drop m 30 (by omega)] at hm
  dsimp only at h
  split_ifs at h with hkind hblock
  · cases h
  · cases h
    exact ⟨t, _, _, _, _, rfl, hnumbered, not_not.mp hkind, hblock, hm⟩
  · cases h

theorem decodeChunk_frameBytes (t : Target) (e : Envelope) (correlation : UInt64)
    (stream : StreamNo) (p : Bytes) (h : Streamed t) :
    decodeChunk (frameBytes (.chunk t e correlation stream p)) =
      .ok (.chunk t e correlation stream p) := by
  have hneed : need (frameBytes (.chunk t e correlation stream p)) CHUNK_LEN = .ok () :=
    need_of_le (by rw [length_frameBytes]; exact Nat.le_add_right _ _)
  have htarget : streamTargetAt (frameBytes (.chunk t e correlation stream p)) = .ok t :=
    streamTargetAt_header .chunk t _ h
  rw [decodeChunk, hneed, ok_bind, htarget, ok_bind]
  simp [frameBytes, CHUNK_LEN, COMMON, ENVELOPE_BYTES, envelopeAt_append_right,
    envelopeAt_envelopeBytes, u64At_append_right, u64At_u64Bytes, drop_append_right,
    byteAt_append_right, byteAt_cons]
  rfl

theorem bytes_of_decodeChunk (hform : byteAt m 0 = Form.chunk.code)
    (h : decodeChunk m = .ok f) : ∃ t e correlation stream p,
      f = .chunk t e correlation stream p ∧ Streamed t ∧ frameBytes f = m := by
  rcases of_bind_eq_ok h with ⟨_, hneed, h⟩
  rcases of_bind_eq_ok h with ⟨t, htarget, h⟩
  have hlen : 35 ≤ m.length := le_of_need hneed
  rcases header_of_streamTargetAt (le_trans (by decide) hlen) hform htarget with
    ⟨hstreamed, hm⟩
  have hm := envelope_of_header (le_trans (by decide) hlen) hm
  rw [DATA_LEN, COMMON, ENVELOPE_BYTES, ← u64Bytes_drop m 26 (by omega),
    ← byteAt_drop m 34 (by omega)] at hm
  cases h
  exact ⟨t, _, _, _, _, rfl, hstreamed, hm⟩

theorem decodeStreamEnd_frameBytes (t : Target) (e : Envelope) (correlation : UInt64)
    (stream : StreamNo) (outcome : StreamOutcome) (h : Streamed t)
    (htag : StreamOutcome.Tagged outcome) :
    decodeStreamEnd (frameBytes (.streamEnd t e correlation stream outcome)) =
      .ok (.streamEnd t e correlation stream (StreamOutcome.untyped outcome)) := by
  have hlen : (frameBytes (.streamEnd t e correlation stream outcome)).length = STREAM_END_LEN :=
    length_frameBytes _
  have htarget : streamTargetAt (frameBytes (.streamEnd t e correlation stream outcome)) = .ok t :=
    streamTargetAt_header .streamEnd t _ h
  have hcode : byteAt (frameBytes (.streamEnd t e correlation stream outcome))
      (STREAM_END_LEN - 2) = (streamCodes outcome).1 := by
    simp [frameBytes, STREAM_END_LEN, CHUNK_LEN, COMMON, ENVELOPE_BYTES, byteAt_append_right]
    rfl
  have hdetail : byteAt (frameBytes (.streamEnd t e correlation stream outcome))
      (STREAM_END_LEN - 1) = (streamCodes outcome).2 := by
    simp [frameBytes, STREAM_END_LEN, CHUNK_LEN, COMMON, ENVELOPE_BYTES, byteAt_append_right]
    rfl
  rw [decodeStreamEnd, need_of_le hlen.ge, ok_bind, htarget, ok_bind, hcode, hdetail,
    streamFrom_codes outcome htag, ok_bind, if_neg hlen.not_gt]
  simp [frameBytes, STREAM_END_LEN, CHUNK_LEN, COMMON, ENVELOPE_BYTES, envelopeAt_append_right,
    envelopeAt_envelopeBytes, u64At_append_right, u64At_u64Bytes, byteAt_append_right, byteAt_cons]
  rfl

theorem bytes_of_decodeStreamEnd
    (hform : byteAt m 0 = Form.streamEnd.code) (h : decodeStreamEnd m = .ok f) :
    ∃ t e correlation stream outcome, f = .streamEnd t e correlation stream outcome ∧
      Streamed t ∧ StreamOutcome.Tagged outcome ∧ StreamOutcome.untyped outcome = outcome ∧
        frameBytes f = m := by
  rcases of_bind_eq_ok h with ⟨_, hneed, h⟩
  rcases of_bind_eq_ok h with ⟨t, htarget, h⟩
  rcases of_bind_eq_ok h with ⟨outcome, hfrom, h⟩
  have hlen : 37 ≤ m.length := le_of_need hneed
  rcases header_of_streamTargetAt (le_trans (by decide) hlen) hform htarget with
    ⟨hstreamed, hm⟩
  have hm := envelope_of_header (le_trans (by decide) hlen) hm
  split_ifs at h with hlong
  · cases h
  · have hexact : m.length = 35 + 2 := Nat.le_antisymm (Nat.le_of_not_gt hlong) hlen
    rcases codes_of_streamFrom hfrom with ⟨hcodes, htag, huntyped⟩
    rw [DATA_LEN, COMMON, ENVELOPE_BYTES, ← u64Bytes_drop m 26 (by omega),
      ← byteAt_drop m 34 (by omega), ← pair_of_end hexact] at hm
    cases h
    refine ⟨t, _, _, _, _, rfl, hstreamed, htag, huntyped, ?_⟩
    rw [frameBytes, hcodes]
    exact hm

theorem decodeStreamCredit_frameBytes (t : Target) (correlation : UInt64) (stream : StreamNo)
    (credit : UInt32) (h : Streamed t) (hcredit : credit ≠ 0) :
    decodeStreamCredit (frameBytes (.streamCredit t correlation stream credit)) =
      .ok (.streamCredit t correlation stream credit) := by
  have hlen : (frameBytes (.streamCredit t correlation stream credit)).length =
      STREAM_CREDIT_LEN := length_frameBytes _
  have htarget : streamTargetAt (frameBytes (.streamCredit t correlation stream credit)) = .ok t :=
    streamTargetAt_header .streamCredit t _ h
  have hread : u32At (frameBytes (.streamCredit t correlation stream credit))
      (STREAM_CREDIT_LEN - 4) = credit := by
    have hfront : frameBytes (.streamCredit t correlation stream credit) =
        (header .streamCredit t ++ (u64Bytes correlation ++ [stream])) ++ u32Bytes credit := by
      simp [frameBytes]
    rw [hfront, u32At_append_right _ _ _ (by simp [STREAM_CREDIT_LEN, COMMON])]
    simp [STREAM_CREDIT_LEN, COMMON, u32At_self]
  rw [decodeStreamCredit, need_of_le hlen.ge, ok_bind, htarget, ok_bind]
  dsimp only
  rw [hread, if_neg hcredit, if_neg hlen.not_gt]
  simp [frameBytes, STREAM_CREDIT_LEN, COMMON, u64At_append_right, u64At_u64Bytes,
    byteAt_append_right, byteAt_cons]
  rfl

theorem bytes_of_decodeStreamCredit
    (hform : byteAt m 0 = Form.streamCredit.code) (h : decodeStreamCredit m = .ok f) :
    ∃ t correlation stream credit, f = .streamCredit t correlation stream credit ∧
      Streamed t ∧ credit ≠ 0 ∧ frameBytes f = m := by
  rcases of_bind_eq_ok h with ⟨_, hneed, h⟩
  rcases of_bind_eq_ok h with ⟨t, htarget, h⟩
  have hlen : 23 ≤ m.length := le_of_need hneed
  rcases header_of_streamTargetAt (le_trans (by decide) hlen) hform htarget with
    ⟨hstreamed, hm⟩
  dsimp only at h
  split_ifs at h with hzero hlong
  · cases h
  · cases h
  · have hend : m.drop 23 = [] := List.drop_eq_nil_of_le (Nat.le_of_not_gt hlong)
    have hcredit := u32Bytes_drop m 19 (by omega)
    rw [hend, List.append_nil] at hcredit
    rw [COMMON, ← u64Bytes_drop m 10 (by omega), ← byteAt_drop m 18 (by omega), ← hcredit] at hm
    cases h
    exact ⟨t, _, _, _, rfl, hstreamed, hzero, hm⟩

end Forms

/-- A frame that a decoder may produce, but for the names of types. -/
def Shaped : Frame → Prop
  | .attach _ | .attached _ => True
  | .subscribe t | .unsubscribe t | .read t => Numbered t
  | .answer t outcome => Numbered t ∧ AnswerOutcome.Tagged outcome
  | .publish t _ _ | .occurrence t _ _ | .request t _ _ => Numbered t
  | .response t _ _ outcome => Numbered t ∧ ResponseOutcome.Tagged outcome
  | .block t _ total index payload =>
      Numbered t ∧ t.kind = .fixed ∧
        (blockLen total index).map UInt32.toNat = some payload.length
  | .chunk t _ _ _ _ => Streamed t
  | .streamEnd t _ _ _ outcome => Streamed t ∧ StreamOutcome.Tagged outcome
  | .streamCredit t _ _ credit => Streamed t ∧ credit ≠ 0

/-- A frame whose violations name no type. -/
def untyped : Frame → Frame
  | .answer t outcome => .answer t (AnswerOutcome.untyped outcome)
  | .response t e correlation outcome =>
      .response t e correlation (ResponseOutcome.untyped outcome)
  | .streamEnd t e correlation stream outcome =>
      .streamEnd t e correlation stream (StreamOutcome.untyped outcome)
  | f => f

theorem decode_frameBytes (f : Frame) (h : Shaped f) : decode (frameBytes f) = .ok (untyped f) := by
  cases f with
  | attach a => exact decodeAttach_frameBytes a
  | attached outcome =>
      cases outcome with
      | accepted | refused => exact decodeAttached_frameBytes _
  | subscribe t => exact decodeControl_header .subscribe .subscribe t h
  | unsubscribe t => exact decodeControl_header .unsubscribe .unsubscribe t h
  | read t => exact decodeControl_header .read .read t h
  | answer t outcome => exact decodeAnswer_header t outcome h.1 h.2
  | publish t e state => exact decodePublish_header t e state h
  | occurrence t e p => exact decodeData_header .occurrence .occurrence t e p h
  | request t e p => exact decodeData_header .request .request t e p h
  | response t e correlation outcome =>
      exact decodeResponse_header t e correlation outcome h.1 h.2
  | block t e total index p => exact decodeBlock_frameBytes t e total index p h.1 h.2.1 h.2.2
  | chunk t e correlation stream p => exact decodeChunk_frameBytes t e correlation stream p h
  | streamEnd t e correlation stream outcome =>
      exact decodeStreamEnd_frameBytes t e correlation stream outcome h.1 h.2
  | streamCredit t correlation stream credit =>
      exact decodeStreamCredit_frameBytes t correlation stream credit h.1 h.2

theorem frameBytes_of_decode {m : Bytes} {f : Frame} (h : decode m = .ok f) :
    Shaped f ∧ untyped f = f ∧ frameBytes f = m := by
  unfold decode at h
  cases m with
  | nil => cases h
  | cons code rest =>
      dsimp only at h
      cases hform : formFrom code with
      | none =>
          rw [hform] at h
          cases h
      | some form =>
          rw [hform] at h
          have hcode : byteAt (code :: rest) 0 = form.code := code_of_formFrom hform
          cases form with
          | attach =>
              rcases bytes_of_decodeAttach hcode h with ⟨a, rfl, hm⟩
              exact ⟨trivial, rfl, hm⟩
          | attached =>
              rcases bytes_of_decodeAttached hcode h with ⟨outcome, rfl, hm⟩
              exact ⟨trivial, rfl, hm⟩
          | subscribe =>
              rcases header_of_decodeControl hcode h with ⟨t, hnumbered, rfl, hm⟩
              exact ⟨hnumbered, rfl, hm⟩
          | answer =>
              rcases header_of_decodeAnswer hcode h with ⟨t, o, rfl, hnumbered, htag, huntyped, hm⟩
              exact ⟨⟨hnumbered, htag⟩, congrArg (Frame.answer t) huntyped, hm⟩
          | unsubscribe =>
              rcases header_of_decodeControl hcode h with ⟨t, hnumbered, rfl, hm⟩
              exact ⟨hnumbered, rfl, hm⟩
          | read =>
              rcases header_of_decodeControl hcode h with ⟨t, hnumbered, rfl, hm⟩
              exact ⟨hnumbered, rfl, hm⟩
          | publish =>
              rcases header_of_decodePublish hcode h with ⟨t, e, state, rfl, hnumbered, hm⟩
              exact ⟨hnumbered, rfl, hm⟩
          | occurrence =>
              rcases header_of_decodeData hcode h with ⟨t, e, p, hnumbered, rfl, hm⟩
              exact ⟨hnumbered, rfl, hm⟩
          | request =>
              rcases header_of_decodeData hcode h with ⟨t, e, p, hnumbered, rfl, hm⟩
              exact ⟨hnumbered, rfl, hm⟩
          | response =>
              rcases bytes_of_decodeResponse hcode h with
                ⟨t, e, c, o, rfl, hnumbered, htag, huntyped, hm⟩
              exact ⟨⟨hnumbered, htag⟩, congrArg (Frame.response t e c) huntyped, hm⟩
          | block =>
              rcases bytes_of_decodeBlock hcode h with
                ⟨t, e, total, index, p, rfl, hnumbered, hkind, hlen, hm⟩
              exact ⟨⟨hnumbered, hkind, hlen⟩, rfl, hm⟩
          | chunk =>
              rcases bytes_of_decodeChunk hcode h with ⟨t, e, c, stream, p, rfl, hstreamed, hm⟩
              exact ⟨hstreamed, rfl, hm⟩
          | streamEnd =>
              rcases bytes_of_decodeStreamEnd hcode h with
                ⟨t, e, c, stream, o, rfl, hstreamed, htag, huntyped, hm⟩
              exact ⟨⟨hstreamed, htag⟩, congrArg (Frame.streamEnd t e c stream) huntyped, hm⟩
          | streamCredit =>
              rcases bytes_of_decodeStreamCredit hcode h with
                ⟨t, c, stream, credit, rfl, hstreamed, hcredit, hm⟩
              exact ⟨⟨hstreamed, hcredit⟩, rfl, hm⟩

/-- The codec is a round trip, and canonical. A buffer that a shaped frame fits
    in holds it before what it held, and the frame is read back but for the
    names of types; one that a frame does not fit in is left alone. What a
    message was read as is written as that message, so no two messages are one
    frame. -/
theorem frame_codec_round_trip :
    (∀ f out, Shaped f → encodedLen f ≤ out.length →
      ∃ out', encode f out = some (.ok (encodedLen f), out') ∧ out'.length = out.length ∧
        out'.drop (encodedLen f) = out.drop (encodedLen f) ∧
        decode (out'.take (encodedLen f)) = .ok (untyped f)) ∧
    (∀ f out, out.length < encodedLen f →
      encode f out = some (.error ⟨encodedLen f⟩, out)) ∧
    (∀ m f out, decode m = .ok f → m.length ≤ out.length →
      encode f out = some (.ok m.length, m ++ out.drop m.length)) ∧
    ∀ m m' f, decode m = .ok f → decode m' = .ok f → m = m' := by
  refine ⟨fun f out hshaped hfits => ?_, fun f out hshort => encode_of_lt hshort,
    fun m f out hread hfits => ?_, fun m m' f hm hm' => ?_⟩
  · have hlen := length_frameBytes f
    refine ⟨frameBytes f ++ out.drop (encodedLen f), encode_of_le hfits, ?_, ?_, ?_⟩
    · rw [List.length_append, List.length_drop, hlen]
      omega
    · exact List.drop_left' hlen
    · rw [List.take_left' hlen]
      exact decode_frameBytes f hshaped
  · have hm := (frameBytes_of_decode hread).2.2
    have hlen := length_frameBytes f
    rw [hm] at hlen
    rw [hlen] at hfits
    rw [encode_of_le hfits, hm, ← hlen]
  · exact (frameBytes_of_decode hm).2.2.symm.trans (frameBytes_of_decode hm').2.2

/-- The numbers of a subscription, and the bytes of it. -/
theorem frame_codec_round_trip_subscribe :
    Shaped (.subscribe ⟨.signal, 1, 2⟩) ∧
      decode [3, 1, 1, 0, 0, 0, 2, 0, 0, 0] = .ok (.subscribe ⟨.signal, 1, 2⟩) ∧
      (∃ out', encode (.subscribe ⟨.signal, 1, 2⟩) (List.replicate 11 0) =
        some (.ok 10, out') ∧ out'.drop 10 = [0]) ∧
      encode (.subscribe ⟨.signal, 1, 2⟩) [] = some (.error ⟨10⟩, []) ∧
      encode (.subscribe ⟨.signal, 1, 2⟩) (List.replicate 11 7) =
        some (.ok 10, [3, 1, 1, 0, 0, 0, 2, 0, 0, 0, 7]) := by
  have hshaped : Shaped (.subscribe ⟨.signal, 1, 2⟩) := ⟨by decide, by decide⟩
  have hread : decode [3, 1, 1, 0, 0, 0, 2, 0, 0, 0] = .ok (.subscribe ⟨.signal, 1, 2⟩) := rfl
  have htrip := frame_codec_round_trip
  rcases htrip.1 _ (List.replicate 11 0) hshaped (by decide) with ⟨out', hout, _, hafter, _⟩
  exact ⟨hshaped, hread, ⟨out', hout, hafter⟩, htrip.2.1 _ _ (by decide),
    htrip.2.2.1 _ _ (List.replicate 11 7) hread (by decide)⟩

end Wire

end Ridl
