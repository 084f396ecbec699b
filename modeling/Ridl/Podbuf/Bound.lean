import Ridl.Podbuf.Encode
import Ridl.Podbuf.Heads

/-!
# The Bound of a Payload

The largest buffer a value encodes to: the preamble, the head and the tail, every
field present and every length at its maximum.

The tail is charged a block at a time with the gap its alignment can need, from
the alignment the cursor is known to have. What the charge of each form covers
follows the form; the charges add up over a head.

The charge of an array covers the bytes of its elements. When an element has no
bytes the block has none and is charged nothing, while the writer still moves to
its alignment.

## Main definitions

* `formTail`, `headTail`: The charge of a form and of a head.
* `headBound`, `maxSize`, `tupleMaxSize`: The bound.

## Theorems

* `formTail_charged`: The charge covers every value of the form.
* `max_size_bounds`: A value whose empty blocks need no gap fits the bound.
-/

namespace Ridl

namespace Podbuf

open Library Diff

/-! ### The charge -/

def U64_LIMIT : Nat := 2 ^ 64

def checkedAdd (a b : Nat) : Option Nat := if a + b < U64_LIMIT then some (a + b) else none

def checkedMul (a b : Nat) : Option Nat := if a * b < U64_LIMIT then some (a * b) else none

/-- One contiguous block when the cursor is a multiple of `aligned`: its bytes
    and the worst gap before them, and the alignment after it. -/
def block (aligned align bytes granularity : Nat) : Option (Nat × Nat) :=
  if bytes = 0 then some (0, aligned)
  else (checkedAdd (align - aligned) bytes).map
    (fun bytes => (bytes, Nat.gcd (max align aligned) granularity))

/-- The tails of elements, each charged at the worst alignment. -/
def repeated (count aligned : Nat) (tail : Nat → Option (Nat × Nat)) : Option (Nat × Nat) :=
  if count = 0 then some (0, aligned)
  else do
    let r ← tail 1
    if r.1 = 0 then some (0, aligned)
    else (checkedMul r.1 count).map (fun bytes => (bytes, r.2))

mutual

def headTail : Head → Nat → Option (Nat × Nat)
  | .mk _ fields _, aligned => fieldsTail fields 0 aligned

def fieldsTail : List Placement → Nat → Nat → Option (Nat × Nat)
  | [], bytes, aligned => some (bytes, aligned)
  | .mk _ _ _ _ form _ :: rest, bytes, aligned => do
      let r ← formTail form aligned
      let bytes ← checkedAdd bytes r.1
      fieldsTail rest bytes r.2

def formTail : Form → Nat → Option (Nat × Nat)
  | .inline head _, aligned => headTail head aligned
  | .inlineArray element count, aligned => repeated count aligned (formTail element)
  | .descriptor kind, aligned => descriptorTail kind aligned
  | _, aligned => some (0, aligned)

def descriptorTail : DescriptorKind → Nat → Option (Nat × Nat)
  -- up to four bytes for a scalar value, and one NUL
  | .text _ max, aligned =>
      if max = 0 then block aligned 1 0 1
      else do
        let bytes ← checkedMul max 4
        let bytes ← checkedAdd bytes 1
        block aligned 1 bytes 1
  | .bytes _ max, aligned => block aligned 1 max 1
  | .array element elemSize _ max, aligned =>
      if max > MAX_COUNT ∨ elemSize > MAX_ELEM_SIZE then none
      else do
        let bytes ← checkedMul max elemSize
        let r ← block aligned (alignOf element) bytes elemSize
        let more ← repeated max r.2 (formTail element)
        let bytes ← checkedAdd r.1 more.1
        some (bytes, more.2)
  | .map entry elemSize _ max, aligned =>
      if max > MAX_COUNT ∨ elemSize > MAX_ELEM_SIZE then none
      else do
        let bytes ← checkedMul max elemSize
        let r ← block aligned HEAD_ALIGN bytes elemSize
        let more ← repeated max r.2 (headTail entry)
        let bytes ← checkedAdd r.1 more.1
        some (bytes, more.2)
  | .arm arms, aligned => if arms.isEmpty then some (0, aligned) else armsTail arms aligned 0 0

/-- The largest arm, and the alignment every arm leaves. -/
def armsTail : List ArmHead → Nat → Nat → Nat → Option (Nat × Nat)
  | [], _, worst, after => some (worst, after)
  | .mk _ head :: rest, aligned, worst, after => do
      let r ← block aligned HEAD_ALIGN head.size head.size
      let more ← headTail head r.2
      let bytes ← checkedAdd r.1 more.1
      armsTail rest aligned (max worst bytes) (Nat.gcd after more.2)

end

def headBound (head : Head) : Option Nat := do
  let r ← headTail head HEAD_ALIGN
  let bound ← checkedAdd PREAMBLE_SIZE head.size
  let bound ← checkedAdd bound r.1
  if bound ≤ U32_MAX then some bound else none

/-- The head of a declaration's payload: a named scalar, an enum or an enum set
    is boxed. -/
def payloadHead (packages : Packages) (fuel : Nat) (decl : Decl) : LayoutM Head :=
  match decl.kind with
  | some (.structDef d) => structHead packages fuel [] packages.package decl.name d
  | some (.unionDef d) => unionHead packages fuel [] packages.package decl.name d
  | some (.typeDef _) | some (.enumDef _) | some (.enumSetDef _) => do
      let form ← namedForm packages fuel [] packages.package decl.name
      boxedHead form
  | _ => throw "not a type"

/-- The bound of a head that was laid out. -/
def boundOf (head : LayoutM Head) : Option Nat :=
  match head.run with
  | some (.ok head) => headBound head
  | _ => none

/-- The largest buffer of a declaration's payload. -/
def maxSize (packages : Packages) (fuel : Nat) (decl : Decl) : Option Nat :=
  boundOf (payloadHead packages fuel decl)

/-- The largest buffer of a tuple's payload. -/
def tupleMaxSize (packages : Packages) (fuel : Nat) (fields : List TupleField) : Option Nat :=
  boundOf (tupleHead packages fuel [] packages.package "a tuple" fields)

/-- What is a payload of its own: a declaration, or the induced tuple of an
    interaction. -/
inductive Root
  | declaration (decl : Decl)
  | tuple (fields : List TupleField)

namespace Root

def head (packages : Packages) (fuel : Nat) : Root → LayoutM Head
  | declaration decl => payloadHead packages fuel decl
  | tuple fields => tupleHead packages fuel [] packages.package "a tuple" fields

def maxSize (packages : Packages) (fuel : Nat) : Root → Option Nat
  | declaration decl => Podbuf.maxSize packages fuel decl
  | tuple fields => tupleMaxSize packages fuel fields

end Root

/-! ### What the charge covers -/

variable {a b aligned fuel n : Nat} {packages : Packages} {head : Head}

theorem checkedAdd_eq {c : Nat} (h : checkedAdd a b = some c) : c = a + b := by
  unfold checkedAdd at h
  split at h
  · exact (Option.some.inj h).symm
  · cases h

theorem checkedMul_eq {c : Nat} (h : checkedMul a b = some c) : c = a * b := by
  unfold checkedMul at h
  split at h
  · exact (Option.some.inj h).symm
  · cases h

theorem pos_of_dvd_eight (ha : a ∣ 8) : 0 < a := Nat.pos_of_dvd_of_pos ha (by decide)

theorem comparable (ha : a ∣ 8) (hb : b ∣ 8) : a ∣ b ∨ b ∣ a := by
  have hcases : ∀ n ≤ 8, n ∣ 8 → n = 1 ∨ n = 2 ∨ n = 4 ∨ n = 8 := by decide
  have hle : ∀ {n : Nat}, n ∣ 8 → n ≤ 8 := fun h => Nat.le_of_dvd (by decide) h
  rcases hcases a (hle ha) ha with rfl | rfl | rfl | rfl <;>
    rcases hcases b (hle hb) hb with rfl | rfl | rfl | rfl <;> decide

theorem max_dvd_eight (ha : a ∣ 8) (hb : b ∣ 8) : max a b ∣ 8 := by
  rcases Nat.le_total a b with h | h
  · rwa [Nat.max_eq_right h]
  · rwa [Nat.max_eq_left h]

theorem alignOf_dvd_eight (form : Form) : alignOf form ∣ 8 := by
  rcases alignOf_cases form with h | h | h | h <;> rw [h] <;> decide

/-- The charge of one block. -/
theorem block_charged {align bytes unit after : Nat} (ha : aligned ∣ 8) (halign : align ∣ 8)
    (h : block aligned align bytes unit = some (b, after)) :
    after ∣ 8 ∧ Charged (fun blocks => blocks = [] ∨ ∃ size, size ≤ bytes ∧ unit ∣ size ∧
      blocks = [⟨size, align, pos_of_dvd_eight halign⟩]) aligned b after := by
  have hpos := pos_of_dvd_eight ha
  unfold block at h
  by_cases hbytes : bytes = 0
  · rw [if_pos hbytes, Option.some.injEq, Prod.mk.injEq] at h
    rcases h with ⟨rfl, rfl⟩
    refine ⟨ha, (Charged.empty hpos (pos_of_dvd_eight halign)).orNothing.mono ?_⟩
    rintro blocks (rfl | ⟨size, hsize, _, rfl⟩)
    · exact Or.inl rfl
    · refine Or.inr ?_
      have hzero : size = 0 := by omega
      subst hzero
      rfl
  · rw [if_neg hbytes, Option.map_eq_some_iff] at h
    rcases h with ⟨c, hc, heq⟩
    rw [Prod.mk.injEq] at heq
    rcases heq with ⟨rfl, rfl⟩
    rw [checkedAdd_eq hc]
    exact ⟨Nat.dvd_trans (Nat.gcd_dvd_left _ _) (max_dvd_eight halign ha),
      Charged.block hpos (pos_of_dvd_eight halign) (comparable halign ha)⟩

/-- The charge of the tails of elements. -/
theorem repeated_charged {R : List Block → Prop} {count after : Nat}
    {tail : Nat → Option (Nat × Nat)} (ha : aligned ∣ 8)
    (htail : ∀ b after, tail 1 = some (b, after) → after ∣ 8 ∧ Charged R 1 b after)
    (h : repeated count aligned tail = some (b, after)) :
    after ∣ 8 ∧ Charged (Charged.Several R count) aligned b after := by
  have hpos := pos_of_dvd_eight ha
  unfold repeated at h
  by_cases hcount : count = 0
  · rw [if_pos hcount, Option.some.injEq, Prod.mk.injEq] at h
    rcases h with ⟨rfl, rfl⟩
    subst hcount
    exact ⟨ha, (Charged.nothing hpos).mono (fun blocks hblocks => hblocks.zero)⟩
  rw [if_neg hcount] at h
  rcases Option.bind_eq_some_iff.mp h with ⟨⟨c, r⟩, hc, h⟩
  rcases htail c r hc with ⟨hr, hcharged⟩
  by_cases hzero : c = 0
  · subst hzero
    rw [if_pos rfl, Option.some.injEq, Prod.mk.injEq] at h
    rcases h with ⟨rfl, rfl⟩
    exact ⟨ha, hcharged.several_nothing hpos⟩
  · rw [if_neg hzero, Option.map_eq_some_iff] at h
    rcases h with ⟨d, hd, heq⟩
    rw [Prod.mk.injEq] at heq
    rcases heq with ⟨rfl, rfl⟩
    rw [checkedMul_eq hd]
    exact ⟨hr, hcharged.several hpos (Nat.pos_of_ne_zero hcount)⟩

/-- The blocks of the values of a form. -/
def FormWrites (form : Form) (blocks : List Block) : Prop :=
  ∃ v, FormHolds form v ∧ blocks = formBlocks form v

def HeadWrites (head : Head) (blocks : List Block) : Prop :=
  ∃ v, HeadHolds head v ∧ blocks = headBlocks head v

def ArmWrites (arms : List ArmHead) (blocks : List Block) : Prop :=
  ∃ ordinal arm, ArmHolds arms ordinal arm ∧ blocks = armBlocks arms ordinal arm

/-- What a charge is worth to a field of that form: its values, and the arms of
    a union. -/
def Covers (form : Form) (a b a' : Nat) : Prop :=
  Charged (FormWrites form) a b a' ∧
    ∀ arms, form = .descriptor (.arm arms) → Charged (ArmWrites arms) a b a'

theorem elements_charged {R : List Block → Prop} {max unit align b₁ after₁ b₂ after₂ : Nat}
    {bytes : Nat} (ha : aligned ∣ 8) (halign : align ∣ 8) (hbytes : bytes = max * unit)
    {tail : Nat → Option (Nat × Nat)}
    (htail : ∀ b after, tail 1 = some (b, after) → after ∣ 8 ∧ Charged R 1 b after)
    (hblock : block aligned align bytes unit = some (b₁, after₁))
    (hrepeated : repeated max after₁ tail = some (b₂, after₂)) :
    after₂ ∣ 8 ∧ Charged (fun blocks => blocks = [] ∨ ∃ n more, n ≤ max ∧
      Charged.Several R n more ∧
        blocks = ⟨n * unit, align, pos_of_dvd_eight halign⟩ :: more) aligned (b₁ + b₂) after₂ := by
  rcases block_charged ha halign hblock with ⟨ha₁, hfirst⟩
  rcases repeated_charged ha₁ htail hrepeated with ⟨ha₂, hrest⟩
  refine ⟨ha₂, (hfirst.append hrest).orNothing.mono ?_⟩
  rintro blocks (rfl | ⟨n, more, hn, hmore, rfl⟩)
  · exact Or.inl rfl
  · refine Or.inr ⟨[_], more, Or.inr ⟨n * unit, ?_, Nat.dvd_mul_left unit n, rfl⟩, ?_, rfl⟩
    · rw [hbytes]
      exact Nat.mul_le_mul_right unit hn
    · exact hmore.le hn

/-- The charge of a form covers a field of it. -/
theorem placement_charged {a' : Nat} (p : Placement) (h : Covers p.form a b a') :
    Charged (fun blocks => ∃ v, PlacementHolds p v ∧ blocks = placementBlocks p v) a b a' := by
  rcases p with ⟨source, offset, size, align, form, optional⟩
  -- the form of an arm's descriptor has no value of its own
  have harms : Charged (fun blocks => (blocks = [] ∨ FormWrites form blocks) ∨
      ∃ arms, form = .descriptor (.arm arms) ∧ ArmWrites arms blocks) a b a' := by
    by_cases harm : ∃ arms, form = .descriptor (.arm arms)
    · rcases harm with ⟨arms, harm⟩
      refine h.1.orNothing.or ((h.2 arms harm).mono ?_)
      rintro blocks ⟨arms', harm', hblocks⟩
      rw [harm] at harm'
      cases harm'
      exact hblocks
    · refine h.1.orNothing.mono ?_
      rintro blocks (hblocks | ⟨arms, harm', _⟩)
      · exact hblocks
      · exact absurd ⟨arms, harm'⟩ harm
  refine harms.mono ?_
  rintro blocks ⟨v, hv, rfl⟩
  cases v with
  | fields present =>
      rcases hlookup : present.lookup source with _ | v
      · refine Or.inl (Or.inl ?_)
        cases source with
        | flags index => rfl
        | _ => simp only [placementBlocks, hlookup]
      · cases source with
        | flags index => exact Or.inl (Or.inl rfl)
        | _ =>
            simp only [PlacementHolds, placementBlocks, hlookup] at hv ⊢
            exact Or.inl (Or.inr ⟨v, hv, rfl⟩)
  | union ordinal arm =>
      cases form with
      | int width signed => exact Or.inl (Or.inl rfl)
      | descriptor kind =>
          cases kind with
          | arm arms => exact Or.inr ⟨arms, rfl, ordinal, arm, hv, rfl⟩
          | _ => exact absurd hv id
      | _ => exact absurd hv id
  | _ => exact absurd hv id

theorem covers_nothing {form : Form} (ha : 0 < a) (hform : ∀ v, formBlocks form v = [])
    (harm : ∀ arms, form ≠ .descriptor (.arm arms)) : Covers form a 0 a := by
  refine ⟨(Charged.nothing ha).mono ?_, fun arms h => absurd h (harm arms)⟩
  rintro blocks ⟨v, _, rfl⟩
  exact hform v

theorem covers_bytes {kind : DescriptorKind} {a' most : Nat} (ha : a ∣ 8)
    (harm : ∀ arms, kind ≠ .arm arms)
    (hblocks : ∀ v, DescriptorHolds kind v → descriptorBlocks kind v = [] ∨
      ∃ size, size ≤ most ∧ descriptorBlocks kind v = [⟨size, 1, by decide⟩])
    (h : block a 1 most 1 = some (b, a')) : a' ∣ 8 ∧ Covers (.descriptor kind) a b a' := by
  rcases block_charged ha (by decide) h with ⟨ha', hcharged⟩
  refine ⟨ha', hcharged.mono ?_, fun arms h => absurd (Form.descriptor.inj h) (harm arms)⟩
  rintro blocks ⟨v, hv, rfl⟩
  rcases hblocks v hv with hnone | ⟨size, hsize, hone⟩
  · exact Or.inl hnone
  · exact Or.inr ⟨size, hsize, Nat.one_dvd size, hone⟩

theorem utf8ByteSize_le (s : String) : s.utf8ByteSize ≤ 4 * s.length := by
  have hlist : ∀ cs : List Char, (String.ofList cs).utf8ByteSize ≤ 4 * cs.length := by
    intro cs
    induction cs with
    | nil => exact Nat.le_refl 0
    | cons c cs ih =>
        have hcons : String.ofList (c :: cs) = String.singleton c ++ String.ofList cs := by
          rw [String.singleton_eq_ofList, ← String.ofList_append, List.singleton_append]
        have hc := c.utf8Size_le_four
        rw [hcons, String.utf8ByteSize_append, String.utf8ByteSize_singleton, List.length_cons]
        omega
  have hs := hlist s.toList
  rwa [String.ofList_toList, String.length_toList] at hs

mutual

theorem headTail_charged : ∀ (head : Head) (a b a' : Nat), a ∣ 8 →
    headTail head a = some (b, a') → a' ∣ 8 ∧ Charged (HeadWrites head) a b a'
  | .mk _ fields _, a, b, a', ha, h => by
      rcases fieldsTail_charged fields 0 a b a' ha h with ⟨c, hc, ha', hcharged⟩
      rw [Nat.zero_add] at hc
      subst hc
      exact ⟨ha', hcharged⟩

theorem fieldsTail_charged : ∀ (fields : List Placement) (bytes a bytes' a' : Nat), a ∣ 8 →
    fieldsTail fields bytes a = some (bytes', a') → ∃ b, bytes' = bytes + b ∧ a' ∣ 8 ∧
      Charged (fun blocks => ∃ v, FieldsHold fields v ∧ blocks = fieldsBlocks fields v) a b a'
  | [], bytes, a, bytes', a', ha, h => by
      simp only [fieldsTail, Option.some.injEq, Prod.mk.injEq] at h
      rcases h with ⟨rfl, rfl⟩
      refine ⟨0, rfl, ha, (Charged.nothing (pos_of_dvd_eight ha)).mono ?_⟩
      rintro blocks ⟨v, _, rfl⟩
      rfl
  | .mk source offset size align form optional :: rest, bytes, a, bytes', a', ha, h => by
      rw [fieldsTail] at h
      rcases Option.bind_eq_some_iff.mp h with ⟨⟨b₁, a₁⟩, hform, h⟩
      rcases Option.bind_eq_some_iff.mp h with ⟨sum, hsum, h⟩
      rcases formTail_charged form a b₁ a₁ ha hform with ⟨ha₁, hcovers⟩
      rcases fieldsTail_charged rest sum a₁ bytes' a' ha₁ h with ⟨b₂, rfl, ha', hrest⟩
      refine ⟨b₁ + b₂, by rw [checkedAdd_eq hsum, Nat.add_assoc], ha',
        ((placement_charged (.mk source offset size align form optional) hcovers).append hrest).mono
          ?_⟩
      rintro blocks ⟨v, hv, rfl⟩
      exact ⟨_, _, ⟨v, hv.1, rfl⟩, ⟨v, hv.2, rfl⟩, rfl⟩

theorem formTail_charged : ∀ (form : Form) (a b a' : Nat), a ∣ 8 →
    formTail form a = some (b, a') → a' ∣ 8 ∧ Covers form a b a'
  | .inline head of, a, b, a', ha, h => by
      rcases headTail_charged head a b a' ha h with ⟨ha', hcharged⟩
      refine ⟨ha', hcharged.orNothing.mono ?_, fun arms harm => by cases harm⟩
      rintro blocks ⟨v, hv, rfl⟩
      simp only [formBlocks]
      split
      · exact Or.inl rfl
      · exact Or.inr ⟨v, hv, rfl⟩
  | .inlineArray element count, a, b, a', ha, h => by
      rcases repeated_charged ha
        (fun b₁ a₁ h₁ => (formTail_charged element 1 b₁ a₁ (by decide) h₁).imp id And.left) h with
        ⟨ha', hcharged⟩
      refine ⟨ha', hcharged.orNothing.mono ?_, fun arms harm => by cases harm⟩
      rintro blocks ⟨v, hv, rfl⟩
      rcases hv with ⟨elements, rfl, hlen, helements⟩ | ⟨bs, rfl, _⟩
      · exact Or.inr (Charged.Several.flatMap (Nat.le_of_eq hlen)
          (fun e he => ⟨e, helements e he, rfl⟩))
      · exact Or.inl rfl
  | .descriptor kind, a, b, a', ha, h => descriptorTail_charged kind a b a' ha h
  | .bool, a, b, a', ha, h => by
      cases h
      exact ⟨ha, covers_nothing (pos_of_dvd_eight ha) (fun _ => rfl) (fun _ harm => by cases harm)⟩
  | .int _ _, a, b, a', ha, h => by
      cases h
      exact ⟨ha, covers_nothing (pos_of_dvd_eight ha) (fun _ => rfl) (fun _ harm => by cases harm)⟩
  | .float _, a, b, a', ha, h => by
      cases h
      exact ⟨ha, covers_nothing (pos_of_dvd_eight ha) (fun _ => rfl) (fun _ harm => by cases harm)⟩
  | .enum _ _ _, a, b, a', ha, h => by
      cases h
      exact ⟨ha, covers_nothing (pos_of_dvd_eight ha) (fun _ => rfl) (fun _ harm => by cases harm)⟩
  | .enumSet _ _, a, b, a', ha, h => by
      cases h
      exact ⟨ha, covers_nothing (pos_of_dvd_eight ha) (fun _ => rfl) (fun _ harm => by cases harm)⟩

theorem descriptorTail_charged : ∀ (kind : DescriptorKind) (a b a' : Nat), a ∣ 8 →
    descriptorTail kind a = some (b, a') → a' ∣ 8 ∧ Covers (.descriptor kind) a b a'
  | .text min max, a, b, a', ha, h => by
      rw [descriptorTail] at h
      have hmost : ∃ most, block a 1 most 1 = some (b, a') ∧
          (most = 0 ∧ max = 0 ∨ most = max * 4 + 1) := by
        by_cases hmax : max = 0
        · rw [if_pos hmax] at h
          exact ⟨0, h, Or.inl ⟨rfl, hmax⟩⟩
        · rw [if_neg hmax] at h
          rcases Option.bind_eq_some_iff.mp h with ⟨c, hc, h⟩
          rcases Option.bind_eq_some_iff.mp h with ⟨d, hd, h⟩
          exact ⟨d, h, Or.inr (by rw [checkedAdd_eq hd, checkedMul_eq hc])⟩
      rcases hmost with ⟨most, hblock, hmost⟩
      refine covers_bytes ha (fun _ harm => by cases harm) (fun v hv => ?_) hblock
      rcases hv with ⟨s, rfl, hwithin, _⟩
      simp only [descriptorBlocks]
      by_cases hempty : s.isEmpty = true
      · exact Or.inl (if_pos hempty)
      · refine Or.inr ⟨s.utf8ByteSize + 1, ?_, if_neg hempty⟩
        have hsize := utf8ByteSize_le s
        have hle := hwithin.2
        rcases hmost with ⟨_, rfl⟩ | rfl
        · refine absurd ?_ hempty
          rw [String.isEmpty_iff, ← String.length_eq_zero_iff]
          omega
        · omega
  | .bytes min max, a, b, a', ha, h => by
      refine covers_bytes ha (fun _ harm => by cases harm) (fun v hv => ?_) h
      rcases hv with ⟨bs, rfl, hwithin⟩
      simp only [descriptorBlocks]
      by_cases hempty : bs.isEmpty = true
      · exact Or.inl (if_pos hempty)
      · exact Or.inr ⟨bs.length, hwithin.2, if_neg hempty⟩
  | .array element elemSize min max, a, b, a', ha, h => by
      rw [descriptorTail] at h
      split at h
      · cases h
      rcases Option.bind_eq_some_iff.mp h with ⟨bytes, hbytes, h⟩
      rcases Option.bind_eq_some_iff.mp h with ⟨⟨b₁, a₁⟩, hblock, h⟩
      rcases Option.bind_eq_some_iff.mp h with ⟨⟨b₂, a₂⟩, hmore, h⟩
      rcases Option.bind_eq_some_iff.mp h with ⟨sum, hsum, h⟩
      cases h
      rcases elements_charged ha (alignOf_dvd_eight element) (checkedMul_eq hbytes)
        (fun c r hc => (formTail_charged element 1 c r (by decide) hc).imp id And.left) hblock
        hmore with ⟨ha', hcharged⟩
      rw [checkedAdd_eq hsum]
      refine ⟨ha', hcharged.mono ?_, fun arms harm => by cases harm⟩
      rintro blocks ⟨v, ⟨elements, rfl, hwithin, helements⟩, rfl⟩
      simp only [formBlocks, descriptorBlocks]
      by_cases hempty : elements.isEmpty = true
      · exact Or.inl (if_pos hempty)
      · rw [if_neg hempty]
        exact Or.inr ⟨elements.length, _, hwithin.2, Charged.Several.flatMap (Nat.le_refl _)
          (fun e he => ⟨e, helements e he, rfl⟩), rfl⟩
  | .map entry elemSize min max, a, b, a', ha, h => by
      rw [descriptorTail] at h
      split at h
      · cases h
      rcases Option.bind_eq_some_iff.mp h with ⟨bytes, hbytes, h⟩
      rcases Option.bind_eq_some_iff.mp h with ⟨⟨b₁, a₁⟩, hblock, h⟩
      rcases Option.bind_eq_some_iff.mp h with ⟨⟨b₂, a₂⟩, hmore, h⟩
      rcases Option.bind_eq_some_iff.mp h with ⟨sum, hsum, h⟩
      cases h
      rcases elements_charged ha (Nat.dvd_refl 8) (checkedMul_eq hbytes)
        (fun c r hc => headTail_charged entry 1 c r (by decide) hc) hblock hmore with
        ⟨ha', hcharged⟩
      rw [checkedAdd_eq hsum]
      refine ⟨ha', hcharged.mono ?_, fun arms harm => by cases harm⟩
      rintro blocks ⟨v, ⟨entries, rfl, hwithin, _, hentries⟩, rfl⟩
      simp only [formBlocks, descriptorBlocks]
      by_cases hempty : entries.isEmpty = true
      · exact Or.inl (if_pos hempty)
      · rw [if_neg hempty]
        have hlen : ((sortEntries entries).map entryValue).length = entries.length := by
          rw [List.length_map]
          exact List.length_insertionSort _ _
        have hsorted := forall_mem_sorted (P := HeadHolds entry) hentries
        exact Or.inr ⟨entries.length, _, hwithin.2, Charged.Several.flatMap (Nat.le_of_eq hlen)
          (fun e he => ⟨e, hsorted e he, rfl⟩), rfl⟩
  | .arm arms, a, b, a', ha, h => by
      rw [descriptorTail] at h
      have hnone : ∀ {R : List Block → Prop} {c c' : Nat}, Charged R a c c' →
          Charged (FormWrites (.descriptor (.arm arms))) a c c' := by
        refine fun hR => ⟨hR.pos, hR.skip, ?_⟩
        rintro blocks ⟨v, hv, _⟩
        exact absurd hv id
      cases arms with
      | nil =>
          cases h
          have hnothing := Charged.nothing (pos_of_dvd_eight ha)
          refine ⟨ha, hnone hnothing, fun arms harm => hnothing.mono ?_⟩
          cases harm
          rintro blocks ⟨ordinal, arm, hv, _⟩
          exact absurd hv id
      | cons arm rest =>
          rcases (armsTail_charged (arm :: rest) a 0 0 b a' ha h).2.2 (List.cons_ne_nil _ _) with
            ⟨ha', hcharged⟩
          refine ⟨ha', hnone hcharged, fun arms harm => ?_⟩
          cases harm
          exact hcharged

theorem armsTail_charged : ∀ (arms : List ArmHead) (a worst after b a' : Nat), a ∣ 8 →
    armsTail arms a worst after = some (b, a') → worst ≤ b ∧ a' ∣ after ∧
      (arms ≠ [] → a' ∣ 8 ∧ Charged (ArmWrites arms) a b a')
  | [], a, worst, after, b, a', ha, h => by
      cases h
      exact ⟨Nat.le_refl _, Nat.dvd_refl _, fun hne => absurd rfl hne⟩
  | .mk number head :: rest, a, worst, after, b, a', ha, h => by
      rw [armsTail] at h
      rcases Option.bind_eq_some_iff.mp h with ⟨⟨b₁, a₁⟩, hblock, h⟩
      rcases Option.bind_eq_some_iff.mp h with ⟨⟨b₂, a₂⟩, hhead, h⟩
      rcases Option.bind_eq_some_iff.mp h with ⟨sum, hsum, h⟩
      rcases block_charged ha (Nat.dvd_refl 8) hblock with ⟨ha₁, hfirst⟩
      rcases headTail_charged head a₁ b₂ a₂ ha₁ hhead with ⟨ha₂, htail⟩
      rcases armsTail_charged rest a _ _ b a' ha h with ⟨hworst, hafter, hrest⟩
      rw [checkedAdd_eq hsum] at hworst
      have hdvd : a' ∣ a₂ := Nat.dvd_trans hafter (Nat.gcd_dvd_right _ _)
      have ha' : a' ∣ 8 := Nat.dvd_trans hdvd ha₂
      have hthis := (hfirst.append htail).orNothing.weaken b (by omega)
        (pos_of_dvd_eight ha') hdvd
      refine ⟨by omega, Nat.dvd_trans hafter (Nat.gcd_dvd_left _ _), fun _ => ⟨ha', ?_⟩⟩
      -- the arm is the first one, or one of the rest
      have hfirst : ∀ blocks, (∃ arm, HeadHolds head arm ∧ blocks =
          if head.size = 0 then [] else ⟨head.size, 8, by decide⟩ :: headBlocks head arm) →
          blocks = [] ∨ ∃ b b', (b = [] ∨ ∃ size, size ≤ head.size ∧ head.size ∣ size ∧
            b = [⟨size, 8, pos_of_dvd_eight (Nat.dvd_refl 8)⟩]) ∧ HeadWrites head b' ∧
              blocks = b ++ b' := by
        rintro blocks ⟨arm, harm, rfl⟩
        by_cases hsize : head.size = 0
        · exact Or.inl (if_pos hsize)
        · rw [if_neg hsize]
          exact Or.inr ⟨[_], _, Or.inr ⟨_, Nat.le_refl _, Nat.dvd_refl _, rfl⟩,
            ⟨arm, harm, rfl⟩, rfl⟩
      cases rest with
      | nil =>
          refine hthis.mono ?_
          rintro blocks ⟨ordinal, arm, hv, rfl⟩
          simp only [ArmHolds, armBlocks] at hv ⊢
          by_cases hnumber : number = ordinal
          · rw [if_pos hnumber] at hv ⊢
            exact hfirst _ ⟨arm, hv, rfl⟩
          · rw [if_neg hnumber] at hv
            exact absurd hv id
      | cons next rest =>
          refine (hthis.or (hrest (List.cons_ne_nil _ _)).2).mono ?_
          rintro blocks ⟨ordinal, arm, hv, rfl⟩
          rw [ArmHolds] at hv
          rw [armBlocks]
          by_cases hnumber : number = ordinal
          · rw [if_pos hnumber] at hv ⊢
            exact Or.inl (hfirst _ ⟨arm, hv, rfl⟩)
          · rw [if_neg hnumber] at hv ⊢
            exact Or.inr ⟨ordinal, arm, hv, rfl⟩

end

/-! ### The bound -/

theorem size_dvd_of_payloadHead {decl : Decl}
    (hok : (payloadHead packages fuel decl).run = some (.ok head)) : HEAD_ALIGN ∣ head.size := by
  unfold payloadHead at hok
  have hbox : ∀ form : LayoutM Form, (form >>= boxedHead).run = some (.ok head) →
      HEAD_ALIGN ∣ head.size := by
    intro form hbox
    rcases run_bind_eq_ok hbox with ⟨form, _, hbox⟩
    exact (layOut_laid hbox).size_dvd
  split at hok
  · exact (structHead_lawful hok).size_dvd
  · exact (unionHead_lawful hok).size_dvd
  · exact hbox _ hok
  · exact hbox _ hok
  · exact hbox _ hok
  · exact absurd hok run_throw_ne_ok

theorem headBound_eq (h : headBound head = some n) :
    n ≤ U32_MAX ∧ ∃ tail after, headTail head HEAD_ALIGN = some (tail, after) ∧
      n = PREAMBLE_SIZE + head.size + tail := by
  unfold headBound at h
  rcases Option.bind_eq_some_iff.mp h with ⟨⟨tail, after⟩, htail, h⟩
  rcases Option.bind_eq_some_iff.mp h with ⟨first, hfirst, h⟩
  rcases Option.bind_eq_some_iff.mp h with ⟨bound, hbound, h⟩
  split at h
  · next hle =>
      cases h
      refine ⟨hle, tail, after, htail, ?_⟩
      rw [checkedAdd_eq hbound, checkedAdd_eq hfirst]
  · cases h

/-- A step that stayed within the bound, or that a slice shorter than the bound
    had no room for. -/
def WithinBound (n available : Nat) : Encoded → Prop
  | .ok w => w.len ≤ n
  | .error e => ∃ needed, e = .capacity needed available ∧ available < needed ∧ needed ≤ n

theorem Follows.within {blocks : List Block} {w : Writer} {r : Encoded}
    (h : Follows blocks w r) (hend : endOf w.len blocks ≤ n) : WithinBound n w.out.length r := by
  rcases r with e | w'
  · rcases h with ⟨needed, he, hlt, hle⟩
    exact ⟨needed, he, hlt, Nat.le_trans hle hend⟩
  · exact Nat.le_trans (Nat.le_of_eq h.1) hend

/-- A head is reserved behind the preamble, or there is no room for it. -/
theorem reserveHead_follows (out : List UInt8) {size : Nat} (hdvd : HEAD_ALIGN ∣ size)
    (hsmall : PREAMBLE_SIZE + size ≤ USIZE_MAX) :
    Follows [⟨PREAMBLE_SIZE + size, 1, by decide⟩] (Writer.new out true)
      ((Writer.new out true).reserveHead size) := by
  have hmod : ¬ size % 8 ≠ 0 := not_not.mpr (Nat.mod_eq_zero_of_dvd hdvd)
  have hfour : 4 ≤ PREAMBLE_SIZE + size := Nat.le_trans (by decide) (Nat.le_add_right _ _)
  have hend : endOf 0 [⟨PREAMBLE_SIZE + size, 1, by decide⟩] = PREAMBLE_SIZE + size := by
    show alignUp 0 1 + (PREAMBLE_SIZE + size) = _
    rw [alignUp_one, Nat.zero_add]
  have haligned : ¬ (!(Writer.new out true).aligned) = true := by
    show ¬ (!true) = true
    decide
  unfold Writer.reserveHead
  rw [if_neg haligned, if_neg hmod]
  simp only [Nat.min_eq_left hsmall]
  by_cases hroom : 4 ≤ PREAMBLE_SIZE + size ∧
      PREAMBLE_SIZE + size ≤ (Writer.new out true).out.length
  · rw [dif_pos hroom]
    exact ⟨hend.symm, length_overwrite_blank hroom.1 hroom.2⟩
  · rw [dif_neg hroom]
    exact ⟨_, rfl, Nat.lt_of_not_le (fun h => hroom ⟨hfour, h⟩), Nat.le_of_eq hend.symm⟩

/-- A value whose empty blocks need no gap is encoded within the bound. -/
theorem encodeInto_within (hdvd : HEAD_ALIGN ∣ head.size)
    (hbound : headBound head = some n) (isOpen : String → Bool) (v : Value) (out : List UInt8)
    (hv : HeadHolds head v)
    (hpad : Unpadded (PREAMBLE_SIZE + head.size) (headBlocks head v)) :
    WithinBound n out.length (encodeInto isOpen head v (Writer.new out true)) := by
  rcases headBound_eq hbound with ⟨hmax, tail, after, htail, rfl⟩
  rcases headTail_charged head HEAD_ALIGN tail after (Nat.dvd_refl 8) htail with ⟨_, hcharged⟩
  have haligned : alignUp (PREAMBLE_SIZE + head.size) HEAD_ALIGN ≤ PREAMBLE_SIZE + head.size :=
    alignUp_le (by decide) (Nat.dvd_add (Nat.dvd_refl 8) hdvd) (Nat.le_refl _)
  have hrun := hcharged.run _ ⟨v, hv, rfl⟩ _ _ hpad haligned
  have hend : endOf (PREAMBLE_SIZE + head.size) (headBlocks head v) ≤
      PREAMBLE_SIZE + head.size + tail := Nat.le_trans (le_alignUp _ hcharged.pos) hrun
  have hsmall : U32_MAX ≤ USIZE_MAX := by decide
  have hfirst : endOf 0 [⟨PREAMBLE_SIZE + head.size, 1, by decide⟩] = PREAMBLE_SIZE + head.size := by
    show alignUp 0 1 + (PREAMBLE_SIZE + head.size) = _
    rw [alignUp_one, Nat.zero_add]
  have hfollows := (reserveHead_follows out hdvd (by omega)).bind
    (fun w' hlen _ => writeHead_follows isOpen head v hv PREAMBLE_SIZE w' (by
      rw [hlen, show (Writer.new out true).len = 0 from rfl, hfirst]
      omega))
  refine hfollows.within ?_
  rw [endOf_append, show (Writer.new out true).len = 0 from rfl, hfirst]
  exact hend

theorem Root.size_dvd {root : Root}
    (hok : (root.head packages fuel).run = some (.ok head)) : HEAD_ALIGN ∣ head.size := by
  cases root with
  | declaration decl => exact size_dvd_of_payloadHead hok
  | tuple fields => exact (tupleHead_lawful hok).1.size_dvd

theorem Root.headBound_eq {root : Root} (hok : (root.head packages fuel).run = some (.ok head))
    (hmax : root.maxSize packages fuel = some n) : headBound head = some n := by
  have hbound : boundOf (root.head packages fuel) = some n := by
    cases root with
    | declaration decl => exact hmax
    | tuple fields => exact hmax
  unfold boundOf at hbound
  rwa [hok] at hbound

/-- **A payload is encoded within its bound, or refused for want of room in a
    slice shorter than the bound, when no block without bytes needs a gap before
    it; and the bound is the sum of its parts.** -/
theorem max_size_bounds (packages : Packages) (fuel : Nat) (root : Root) (head : Head) (n : Nat)
    (hok : (root.head packages fuel).run = some (.ok head))
    (hmax : root.maxSize packages fuel = some n) (isOpen : String → Bool) (v : Value)
    (out : List UInt8) (hv : HeadHolds head v)
    (hpad : Unpadded (PREAMBLE_SIZE + head.size) (headBlocks head v)) :
    WithinBound n out.length (encodeInto isOpen head v (Writer.new out true)) ∧ n ≤ U32_MAX ∧
      ∃ tail after, headTail head HEAD_ALIGN = some (tail, after) ∧
        n = PREAMBLE_SIZE + head.size + tail := by
  have hbound := Root.headBound_eq hok hmax
  refine ⟨encodeInto_within (Root.size_dvd hok) hbound isOpen v out hv hpad, ?_⟩
  exact Podbuf.headBound_eq hbound

/-! ### A block without bytes -/

def undocumented : DocEnvelope := ⟨"", [], none, [], [], []⟩

/-- Up to one byte, and then up to one value of a struct with no field. -/
def bytesAndUnits : StructDef where
  members := [
    some (.field ⟨"raw", 1, some (.mk false (some (.inlineScalar
      ⟨some (some (.primitive PRIMITIVE_BYTES)), some ⟨none, none, none, some 0, some 1, none, none⟩,
        none, none, none⟩))), none, none, undocumented⟩),
    some (.field ⟨"units", 2, some (.mk false (some (.array
      (some (.mk false (some (.named "Unit")))) 0 1))), none, none, undocumented⟩)]
  fixedLayout := false

def unitsDecl : Decl := ⟨"Units", 1, 0, undocumented, some (.structDef bytesAndUnits), none, false⟩

def unitsPackages : Packages where
  package := ⟨"p", [⟨"Unit", 1, 0, undocumented, some (.structDef ⟨[], false⟩), none, false⟩,
    unitsDecl], [], [], [], ""⟩
  others := []

/-- One byte and one value. -/
def unitsValue : Value :=
  .fields [(.field "raw" 1, .bytes [7]), (.field "units" 2, .array [.fields []])]

def WrittenIs (n : Nat) : Encoded → Prop
  | .ok w => w.len = n
  | .error _ => False

instance (n : Nat) (r : Encoded) : Decidable (WrittenIs n r) :=
  match r with
  | .ok w => inferInstanceAs (Decidable (w.len = n))
  | .error _ => inferInstanceAs (Decidable False)

theorem WrittenIs.not_within {m available : Nat} {r : Encoded} (h : WrittenIs m r) (hlt : n < m) :
    ¬ WithinBound n available r := by
  rcases r with e | w
  · exact absurd h id
  · intro hwithin
    rw [WithinBound, show w.len = m from h] at hwithin
    omega

/-- The byte ends at the bound, and the block of the units moves the writer on to
    its alignment: a slice of the bound's size has no room. -/
theorem max_size_exceeded : ∃ head,
    (payloadHead unitsPackages 5 unitsDecl).run = some (.ok head) ∧
      Root.maxSize unitsPackages 5 (.declaration unitsDecl) = some 25 ∧ HeadHolds head unitsValue ∧
      WrittenIs 32 (encodeInto (fun _ => false) head unitsValue
        (Writer.new (List.replicate 32 0) true)) ∧
      ¬ WithinBound 25 32 (encodeInto (fun _ => false) head unitsValue
        (Writer.new (List.replicate 32 0) true)) ∧
      encode (fun _ => false) head unitsValue (List.replicate 25 0) true =
        .error (.capacity 32 25) := by
  refine ⟨_, rfl, rfl, ?_, by decide +kernel, WrittenIs.not_within (m := 32) (by decide +kernel)
    (by decide), rfl⟩
  · refine ⟨⟨[7], rfl, by decide, by decide⟩, ⟨[.fields []], rfl, ⟨by decide, by decide⟩, ?_⟩,
      trivial⟩
    exact List.forall_mem_singleton.mpr trivial

/-- With the units alone, the block begins where the tail does. -/
theorem max_size_bounds_units : ∃ head,
    (payloadHead unitsPackages 5 unitsDecl).run = some (.ok head) ∧
      WithinBound 25 32 (encodeInto (fun _ => false) head
        (.fields [(.field "units" 2, .array [.fields []])])
        (Writer.new (List.replicate 32 0) true)) := by
  refine ⟨_, rfl, (max_size_bounds unitsPackages 5 (.declaration unitsDecl) _ 25 rfl rfl
    (fun _ => false) _ (List.replicate 32 0) ?_ ?_).1⟩
  · refine ⟨trivial, ⟨[.fields []], rfl, ⟨by decide, by decide⟩, ?_⟩, trivial⟩
    exact List.forall_mem_singleton.mpr trivial
  · exact ⟨fun _ => by decide, trivial⟩

end Podbuf

end Ridl
