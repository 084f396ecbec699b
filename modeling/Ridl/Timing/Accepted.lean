import Mathlib.Algebra.Order.Ring.Rat
import Ridl.Library.Fallible
import Ridl.Timing.Resolve

/-!
# Accepted Timing

What a timing is that nothing is wrong with. A bound that is written is exactly what
its literal says, a bound that is not is absent or the default's, and the bounds that
are there are above zero and in order. The checks of an annotation look at the bounds
after the default has completed them, so the two ways to a bound need no care of
their own: a bound that is written is not negative and one that is zero is reported,
and a default is above zero when it is read.

## Theorems

* `boundUs_clean`: A bound that is not reported is the one that is written.
* `accepted_timing`: An accepted timing is well formed.
-/

namespace Ridl

namespace Timing

open Contract (ExactValue TextRange IsDuration durationUs TIME_UNITS intText)
open Library (Text)
open Syntax (SyntaxNode SyntaxToken FileId Severity Diagnostic Parser GreenBuilder Green lex timing)

/-! ### What is said of a timing -/

/-- The timing is one that a configuration gives as the default for a kind. -/
def DefaultOf (kind : InteractionKind) (default : TimingSpec) : Prop :=
  match kind with
  | .signal | .event => ∃ text, parseDefaultTiming text = .ok default
  | .command | .query => ∃ text, parseRpcDefaultTiming text = .ok default
  | .fixed => False

/-- The bounds that an annotation writes, by the tokens of its text. -/
def WrittenBounds (annot : Option SyntaxNode) (min max : Option Text) : Prop :=
  match annot with
  | none => min = none ∧ max = none
  | some node => ∃ form : Form, outline node.green.leaves = form.spelling ∧ form.min = min ∧
      form.max = max

/-- What is known of a timing that is accepted, with the bounds that are written. -/
structure TimingSpec.WellFormed (spec : TimingSpec) (kind : InteractionKind)
    (default : TimingSpec) (writtenMin writtenMax : Option Text) : Prop where
  min_pos : ∀ lo ∈ spec.minUs, 0 < lo
  max_pos : ∀ hi ∈ spec.maxUs, 0 < hi
  ordered : ∀ lo ∈ spec.minUs, ∀ hi ∈ spec.maxUs, lo ≤ hi
  strict : spec.mode = .strictPeriodic → kind = .signal ∧ spec.minUs = spec.maxUs
  bounded : kind.isRpc = true → spec.maxUs ≠ none
  min_written : ∀ text ∈ writtenMin, ∃ micros : Nat, Writes text micros ∧
    spec.minUs = some (micros : ExactValue)
  max_written : ∀ text ∈ writtenMax, ∃ micros : Nat, Writes text micros ∧
    spec.maxUs = some (micros : ExactValue)
  min_default : writtenMin = none → spec.minUs = none ∨ spec.minUs = default.minUs
  max_default : writtenMax = none → spec.maxUs = none ∨ spec.maxUs = default.maxUs
  applied : spec.defaultApplied = true ↔
    (writtenMin = none ∧ spec.minUs ≠ none) ∨ (writtenMax = none ∧ spec.maxUs ≠ none)

/-! ### Defaults -/

theorem isPositive_iff (value : ExactValue) : isPositive value = true ↔ 0 < value := by
  rw [isPositive, decide_eq_true_eq, Rat.num_pos]

theorem isZero_iff (value : ExactValue) : isZero value = true ↔ value = 0 := by
  rw [isZero, decide_eq_true_eq, Rat.num_eq_zero]

/-- What a default is that is read. -/
structure ReadDefault (default : TimingSpec) : Prop where
  max : ∃ hi, default.maxUs = some hi ∧ 0 < hi
  min_pos : ∀ lo ∈ default.minUs, 0 < lo
  ordered : ∀ lo ∈ default.minUs, ∀ hi ∈ default.maxUs, lo ≤ hi

theorem parseDefaultRange_spec {text : Text} {requireMin : Bool} {default : TimingSpec}
    (h : parseDefaultRange text requireMin = .ok default) : ReadDefault default := by
  unfold parseDefaultRange at h
  split at h
  · cases h
  split at h
  · cases h
  dsimp only at h
  split at h
  · cases h
  split at h
  · cases h
  rcases Library.of_bind_eq_ok h with ⟨min, -, h⟩
  rcases Library.of_bind_eq_ok h with ⟨max, -, h⟩
  split_ifs at h with hpositive hordered
  cases h
  rw [Bool.or_eq_true, not_or, Bool.not_eq_true', Bool.not_eq_false, isPositive_iff] at hpositive
  refine ⟨⟨max, rfl, hpositive.2⟩, fun lo hlo => ?_, fun lo hlo hi hhi => ?_⟩
  · by_contra hneg
    refine hpositive.1 ((Option.any_eq_true _ _).mpr ⟨lo, hlo, ?_⟩)
    rwa [Bool.not_eq_true', Bool.eq_false_iff, ne_eq, isPositive_iff]
  · rw [← Option.some.inj hhi]
    by_contra hlt
    exact hordered ((Option.any_eq_true _ _).mpr ⟨lo, hlo, decide_eq_true (not_le.mp hlt)⟩)

theorem DefaultOf.read {kind : InteractionKind} {default : TimingSpec}
    (h : DefaultOf kind default) : ReadDefault default := by
  cases kind with
  | signal | event | command | query =>
      rcases h with ⟨text, h⟩
      exact parseDefaultRange_spec h
  | fixed => exact h.elim

theorem builtin_defaultOf :
    (∀ default, builtinDefaultTiming = .ok default →
      DefaultOf .signal default ∧ DefaultOf .event default) ∧
    (∀ default, builtinCommandTiming = .ok default → DefaultOf .command default) ∧
    (∀ default, builtinQueryTiming = .ok default → DefaultOf .query default) :=
  ⟨fun _ h => ⟨⟨_, h⟩, _, h⟩, fun _ h => ⟨_, h⟩, fun _ h => ⟨_, h⟩⟩

example : (builtinDefaultTiming.toOption.isSome && builtinCommandTiming.toOption.isSome &&
    builtinQueryTiming.toOption.isSome) = true := by decide +kernel

/-! ### Bounds that are written -/

def NoErrors (diags : List (Diagnostic DiagCode)) : Prop := ∀ d ∈ diags, d.severity ≠ .error

theorem noErrors_append {front back : List (Diagnostic DiagCode)} :
    NoErrors (front ++ back) ↔ NoErrors front ∧ NoErrors back := List.forall_mem_append

theorem noErrors_error {code : DiagCode} {file : FileId} {range : TextRange} {message : String} :
    ¬ NoErrors [error code file range message] :=
  fun h => h _ (List.mem_singleton_self _) rfl

theorem boundUs_clean {token : Option SyntaxToken} {file : FileId}
    (hspelled : ∀ t ∈ token, IsDuration t.text) (hclean : NoErrors (boundUs token file).2) :
    (boundUs token file).2 = [] ∧
      (token.map SyntaxToken.text = none → (boundUs token file).1 = none) ∧
      ∀ text ∈ token.map SyntaxToken.text, ∃ micros : Nat, Writes text micros ∧
        (boundUs token file).1 = some (micros : ExactValue) := by
  cases token with
  | none => exact ⟨rfl, fun _ => rfl, nofun⟩
  | some t =>
      rcases durationUs_token (hspelled t rfl) with ⟨duration, hread, hwrites⟩
      unfold boundUs at hclean ⊢
      simp only [hread] at hclean ⊢
      by_cases hwhole : duration.whole = true
      · rcases hwrites hwhole with ⟨micros, htext, hvalue⟩
        refine ⟨if_pos hwhole, nofun, fun text ht => ⟨micros, ?_, by rw [hvalue]⟩⟩
        rw [← Option.some.inj ht]
        exact htext
      · rw [if_neg hwhole] at hclean
        exact absurd hclean noErrors_error

/-- A bound without a report that is shown is read back. -/
theorem renderDuration_of_boundUs {token : SyntaxToken} {file : FileId} {value : ExactValue}
    (h : boundUs (some token) file = (some value, [])) :
    durationUs (renderDuration value) = some { us := value, whole := true } ∧
      ∃ (n : Int) (unit : String) (factor : Nat), (unit, factor) ∈ TIME_UNITS ∧
        renderDuration value = intText n ++ unit.toList := by
  unfold boundUs at h
  dsimp only at h
  cases hread : durationUs token.text with
  | none =>
      rw [hread] at h
      cases h
  | some duration =>
      rw [hread] at h
      dsimp only at h
      by_cases hwhole : duration.whole = true
      · rcases durationUs_whole hread hwhole with ⟨n, hn⟩
        have hvalue : value = n := by
          rw [← hn]
          exact (Option.some.inj (congrArg Prod.fst h)).symm
        rcases renderDuration_unit n with ⟨m, unit, factor, hunit, htext, -⟩
        rw [hvalue]
        exact ⟨durationUs_renderDuration n, m, unit, factor, hunit, htext⟩
      · rw [if_neg hwhole] at h
        cases congrArg Prod.snd h

/-! ### Annotations without an error -/

section Annotations

variable {kind : InteractionKind} {default : TimingSpec} {annot : SyntaxNode} {file : FileId}
  {anchor : TextRange}

theorem pos_of_written {writtenText : Option Text} {bound : Option ExactValue} {value : ExactValue}
    (hnone : writtenText = none → bound = none)
    (hsome : ∀ text ∈ writtenText, ∃ micros : Nat, Writes text micros ∧
      bound = some (micros : ExactValue))
    (hvalue : value ∈ bound) (hzero : isZero value ≠ true) : 0 < value := by
  cases writtenText with
  | none =>
      rw [hnone rfl] at hvalue
      cases hvalue
  | some text =>
      rcases hsome text rfl with ⟨micros, -, hbound⟩
      rw [hbound] at hvalue
      have hne : value ≠ 0 := fun h => hzero ((isZero_iff value).mpr h)
      rw [← Option.some.inj hvalue] at hne ⊢
      exact lt_of_le_of_ne (Nat.cast_nonneg micros) hne.symm

/-- A strict period without an error. -/
theorem resolveStrict_wellFormed (default : TimingSpec) {token : SyntaxToken}
    (hspelled : IsDuration token.text)
    (hclean : NoErrors (resolveStrict annot token kind file).2) :
    (resolveStrict annot token kind file).1.WellFormed kind default (some token.text)
      (some token.text) := by
  unfold resolveStrict at hclean ⊢
  dsimp only at hclean ⊢
  rw [noErrors_append, noErrors_append] at hclean
  rcases hclean with ⟨⟨hbound, hzero⟩, hkind⟩
  have hspelled' : ∀ t ∈ some token, IsDuration t.text := fun t ht => Option.some.inj ht ▸ hspelled
  rcases boundUs_clean hspelled' hbound with ⟨-, hnone, hwritten⟩
  have hsignal : kind = .signal := by
    by_contra hne
    rw [if_neg hne] at hkind
    exact noErrors_error hkind
  have hpos : ∀ value ∈ (boundUs (some token) file).1, 0 < value := by
    intro value hmem
    refine pos_of_written hnone hwritten hmem fun hz => ?_
    rw [if_pos ((Option.any_eq_true _ _).mpr ⟨value, hmem, hz⟩)] at hzero
    exact noErrors_error hzero
  exact
    { min_pos := hpos
      max_pos := hpos
      ordered := fun lo hlo hi hhi => le_of_eq (Option.some.inj (Eq.trans (Eq.symm hlo) hhi))
      strict := fun _ => ⟨hsignal, rfl⟩
      bounded := fun hrpc => by rw [hsignal] at hrpc; cases hrpc
      min_written := hwritten
      max_written := hwritten
      min_default := nofun
      max_default := nofun
      applied := ⟨nofun, by rintro (⟨h, -⟩ | ⟨h, -⟩) <;> cases h⟩ }

variable {minText maxText : Text} {node : TextRange}

theorem zeroBound_clean {min max : Option ExactValue}
    (h : NoErrors (zeroBound file node min max minText maxText)) :
    (∀ lo ∈ min, isZero lo ≠ true) ∧ ∀ hi ∈ max, isZero hi ≠ true := by
  unfold zeroBound at h
  dsimp only at h
  split at h
  · exact absurd h noErrors_error
  · rename_i hnone
    rw [List.find?_eq_none] at hnone
    have hmin := hnone (min, minText, "rate floor") List.mem_cons_self
    have hmax := hnone (max, maxText, "staleness bound")
      (List.mem_cons_of_mem _ List.mem_cons_self)
    exact ⟨fun lo hlo hz => hmin ((Option.any_eq_true _ _).mpr ⟨lo, hlo, hz⟩),
      fun hi hhi hz => hmax ((Option.any_eq_true _ _).mpr ⟨hi, hhi, hz⟩)⟩

theorem filledOrder_clean {lo hi : ExactValue}
    (h : NoErrors (filledOrder kind file node lo hi minText maxText true)) : lo ≤ hi := by
  by_contra hlt
  rw [not_le] at hlt
  unfold filledOrder at h
  rw [if_pos hlt] at h
  dsimp only at h
  rw [if_pos ⟨rfl, hlt.le⟩] at h
  exact noErrors_error h

theorem writtenOrder_clean {lo hi : ExactValue}
    (h : NoErrors (writtenOrder kind file node lo hi minText maxText)) : lo ≤ hi := by
  by_contra hlt
  rw [not_le] at hlt
  unfold writtenOrder at h
  rw [if_pos hlt] at h
  exact noErrors_error h

theorem order_clean {min max : Option ExactValue} {filled : Bool}
    (h : NoErrors (match min, max, false with
      | some lo, some hi, false =>
          if filled = true then filledOrder kind file node lo hi minText maxText true
          else writtenOrder kind file node lo hi minText maxText
      | _, _, _ => [])) :
    ∀ lo ∈ min, ∀ hi ∈ max, lo ≤ hi := by
  intro lo hlo hi hhi
  rw [Option.mem_def] at hlo hhi
  rw [hlo, hhi] at h
  dsimp only at h
  split at h
  · exact filledOrder_clean h
  · exact writtenOrder_clean h

theorem resolveRange_wellFormed {range : SyntaxNode} (hdefault : ReadDefault default)
    (hspelledMin : ∀ t ∈ TimingRange.min range, IsDuration t.text)
    (hspelledMax : ∀ t ∈ TimingRange.max range, IsDuration t.text)
    (hwhole : rangeParsedWhole annot range = true)
    (hclean : NoErrors (resolveRange annot range kind default file anchor).2) :
    (resolveRange annot range kind default file anchor).1.WellFormed kind default
      ((TimingRange.min range).map SyntaxToken.text)
      ((TimingRange.max range).map SyntaxToken.text) := by
  unfold resolveRange at hclean ⊢
  dsimp only at hclean ⊢
  rw [noErrors_append, noErrors_append, noErrors_append, noErrors_append] at hclean
  rcases hclean with ⟨⟨⟨⟨hminDiags, hmaxDiags⟩, hzeros⟩, horder⟩, -⟩
  rcases boundUs_clean hspelledMin hminDiags with ⟨hminNil, hminNone, hminSome⟩
  rcases boundUs_clean hspelledMax hmaxDiags with ⟨hmaxNil, hmaxNone, hmaxSome⟩
  rw [hminNil, hmaxNil, hwhole] at horder
  have hordered := order_clean horder
  rcases zeroBound_clean hzeros with ⟨hminZero, hmaxZero⟩
  have hminPos : ∀ lo ∈ (boundUs (TimingRange.min range) file).1, 0 < lo :=
    fun lo hlo => pos_of_written hminNone hminSome hlo (hminZero lo hlo)
  cases happlied : kind.isRpc && (boundUs (TimingRange.max range) file).1.isNone with
  | true =>
      rw [happlied] at hordered hmaxZero
      simp only [if_true] at hordered hmaxZero ⊢
      rw [Bool.and_eq_true, Option.isNone_iff_eq_none] at happlied
      rcases hdefault.max with ⟨hi, hhi, hpos⟩
      have hmaxAbsent : (TimingRange.max range).map SyntaxToken.text = none := by
        by_contra hne
        rcases Option.ne_none_iff_exists'.mp hne with ⟨text, htext⟩
        rcases hmaxSome text htext with ⟨micros, -, hvalue⟩
        rw [happlied.2] at hvalue
        cases hvalue
      exact
        { min_pos := hminPos
          max_pos := fun hi' hhi' => by
            rw [hhi] at hhi'
            rwa [← Option.some.inj hhi']
          ordered := hordered
          strict := nofun
          bounded := fun _ => by rw [hhi]; nofun
          min_written := hminSome
          max_written := fun text htext => by rw [hmaxAbsent] at htext; cases htext
          min_default := fun h => .inl (hminNone h)
          max_default := fun _ => .inr rfl
          applied := ⟨fun _ => .inr ⟨hmaxAbsent, by rw [hhi]; nofun⟩, fun _ => rfl⟩ }
  | false =>
      rw [happlied] at hordered hmaxZero
      simp only [Bool.false_eq_true, if_false] at hordered hmaxZero ⊢
      exact
        { min_pos := hminPos
          max_pos := fun hi hhi => pos_of_written hmaxNone hmaxSome hhi (hmaxZero hi hhi)
          ordered := hordered
          strict := nofun
          bounded := fun hrpc hnone => by
            rw [hrpc, Bool.true_and] at happlied
            rw [Option.isNone_iff_eq_none.mpr hnone] at happlied
            cases happlied
          min_written := hminSome
          max_written := hmaxSome
          min_default := fun h => .inl (hminNone h)
          max_default := fun h => .inl (hmaxNone h)
          applied := ⟨nofun, by
            rintro (⟨h, hne⟩ | ⟨h, hne⟩)
            · exact absurd (hminNone h) hne
            · exact absurd (hmaxNone h) hne⟩ }

end Annotations

/-! ### Accepted timing -/

theorem appliedDefault_wellFormed {kind : InteractionKind} {default : TimingSpec}
    (hdefault : ReadDefault default) :
    (appliedDefault default).WellFormed kind default none none := by
  rcases hdefault.max with ⟨hi, hhi, hpos⟩
  exact
    { min_pos := hdefault.min_pos
      max_pos := fun hi' hhi' => by
        have heq : default.maxUs = some hi' := hhi'
        rw [hhi] at heq
        rwa [← Option.some.inj heq]
      ordered := hdefault.ordered
      strict := nofun
      bounded := fun _ h => by
        have heq : default.maxUs = none := h
        rw [hhi] at heq
        cases heq
      min_written := nofun
      max_written := nofun
      min_default := fun _ => .inr rfl
      max_default := fun _ => .inr rfl
      applied := ⟨fun _ => .inr ⟨rfl, fun h => by
        have heq : default.maxUs = none := h
        rw [hhi] at heq
        cases heq⟩, fun _ => rfl⟩ }

theorem untimed_fst (kind : InteractionKind) (default : TimingSpec) (file : FileId)
    (anchor : TextRange) :
    (untimed kind default file anchor).1 = some (appliedDefault default) := by
  cases kind <;> rfl

theorem resolveTiming_isSome (annot : Option SyntaxNode) {kind : InteractionKind}
    (hkind : kind ≠ .fixed) (default : TimingSpec) (file : FileId) (anchor : TextRange) :
    ∃ spec, (resolveTiming annot kind default file anchor).1 = some spec := by
  unfold resolveTiming
  rw [if_neg hkind]
  split
  · exact ⟨_, untimed_fst kind default file anchor⟩
  · split
    · exact ⟨_, rfl⟩
    · split <;> exact ⟨_, rfl⟩

/-- The texts of the parts are durations where the bounds that are written are. -/
theorem spelled_of_text {token : Option SyntaxToken} {text : Option Text}
    (htext : token.map SyntaxToken.text = text) (h : ∀ t, text = some t → IsDuration t) :
    ∀ t ∈ token, IsDuration t.text := by
  intro t ht
  rw [Option.mem_def] at ht
  rw [ht] at htext
  exact h t.text htext.symm

theorem resolveTiming_wellFormed {annot : Option SyntaxNode} {kind : InteractionKind}
    (hkind : kind ≠ .fixed) {default : TimingSpec} (hdefault : ReadDefault default) {file : FileId}
    {anchor : TextRange} (hannot : ∀ node ∈ annot, Accepted node.green)
    (hclean : NoErrors (resolveTiming annot kind default file anchor).2) :
    ∃ spec min max, (resolveTiming annot kind default file anchor).1 = some spec ∧
      WrittenBounds annot min max ∧ spec.WellFormed kind default min max := by
  unfold resolveTiming at hclean ⊢
  rw [if_neg hkind] at hclean ⊢
  cases annot with
  | none =>
      exact ⟨_, none, none, untimed_fst kind default file anchor, ⟨rfl, rfl⟩,
        appliedDefault_wellFormed hdefault⟩
  | some node =>
      rcases (hannot node rfl).form with ⟨form, hbuilt, hspelled⟩
      have hwritten : WrittenBounds (some node) form.min form.max :=
        ⟨form, hbuilt.outline_leaves, rfl, rfl⟩
      cases form with
      | strict period =>
          rcases hbuilt.strict_parts node.offset with ⟨hrange, hduration⟩
          rcases Option.map_eq_some_iff.mp hduration with ⟨token, htoken, htext⟩
          simp only [hrange, htoken] at hclean ⊢
          refine ⟨_, _, _, rfl, hwritten, ?_⟩
          have hspelled' : IsDuration token.text := htext ▸ hspelled period (.inl rfl)
          have hwell := resolveStrict_wellFormed default hspelled' hclean
          rw [htext] at hwell
          exact hwell
      | range min max =>
          rcases hbuilt.range_parts node.offset with ⟨range, hrange, hmin, hmax, hdots, hclose⟩
          simp only [hrange] at hclean ⊢
          refine ⟨_, _, _, rfl, hwritten, ?_⟩
          have hwhole : rangeParsedWhole node range = true :=
            Bool.and_eq_true_iff.mpr ⟨hdots, hclose⟩
          have hwell := resolveRange_wellFormed hdefault
            (spelled_of_text hmin fun t ht => hspelled t (.inl ht))
            (spelled_of_text hmax fun t ht => hspelled t (.inr ht)) hwhole hclean
          rw [hmin, hmax] at hwell
          exact hwell

/-- What a timing is that is accepted. Each kind but a fixed value is given one. When
    the annotation parsed without an error and nothing else is wrong, its bounds are
    above zero and in order, only a signal has a strict period, a command or a query
    has a maximum, and each bound is the one that is written or, when none is, absent
    or the default's. A bound that is read without a report and shown is read back as
    the same count, in one of the units. -/
theorem accepted_timing (annot : Option SyntaxNode) (kind : InteractionKind)
    (default : TimingSpec) (file : FileId) (anchor : TextRange) :
    (kind ≠ .fixed → ∃ spec, (resolveTiming annot kind default file anchor).1 = some spec) ∧
      (kind ≠ .fixed → DefaultOf kind default → (∀ node ∈ annot, Accepted node.green) →
        NoErrors (resolveTiming annot kind default file anchor).2 →
        ∃ spec min max, (resolveTiming annot kind default file anchor).1 = some spec ∧
          WrittenBounds annot min max ∧ spec.WellFormed kind default min max) ∧
      ∀ (token : SyntaxToken) (value : ExactValue),
        boundUs (some token) file = (some value, []) →
          durationUs (renderDuration value) = some { us := value, whole := true } ∧
            ∃ (n : Int) (unit : String) (factor : Nat), (unit, factor) ∈ TIME_UNITS ∧
              renderDuration value = intText n ++ unit.toList :=
  ⟨fun hkind => resolveTiming_isSome annot hkind default file anchor,
    fun hkind hdefault hannot hclean =>
      resolveTiming_wellFormed hkind hdefault.read hannot hclean,
    fun _ _ h => renderDuration_of_boundUs h⟩

/-- A run of the parser over a closed range. -/
def closedRange : Option (Unit × Parser GreenBuilder) :=
  timing (Parser.new (lex "@[20ms..50ms]".toList .ridl) .ridl)

def closedRangeTree : Option Green := closedRange.bind fun run => run.2.builder.children.getLast?

theorem closedRangeTree_accepted {green : Green} (h : closedRangeTree = some green) :
    Accepted green := by
  rcases Option.bind_eq_some_iff.mp h with ⟨⟨_, next⟩, hrun, hlast⟩
  have hclean : closedRange.all (fun run => run.2.errors = []) = true := by decide +kernel
  rw [hrun] at hclean
  exact ⟨_, .ridl, _, next, ⟨Nat.zero_le _, rfl, by decide +kernel, List.Pairwise.nil,
    fun _ h => absurd h List.not_mem_nil, List.Pairwise.nil⟩, rfl, by decide +kernel,
    ⟨hrun, of_decide_eq_true hclean⟩, hlast⟩

/-- A closed range on a signal is accepted. -/
theorem accepted_timing_closed_range :
    ∃ green default spec min max, Accepted green ∧
      (resolveTiming (some ⟨green, 0⟩) .signal default 0 ⟨0, 0⟩).1 = some spec ∧
      WrittenBounds (some ⟨green, 0⟩) min max ∧ spec.WellFormed .signal default min max := by
  have htree : closedRangeTree.isSome = true := by decide +kernel
  have hdefault : builtinDefaultTiming.toOption.isSome = true := by decide +kernel
  rcases Option.isSome_iff_exists.mp htree with ⟨green, hgreen⟩
  rcases Option.isSome_iff_exists.mp hdefault with ⟨default, hread⟩
  have hall : closedRangeTree.all (fun green => builtinDefaultTiming.toOption.all fun default =>
      (resolveTiming (some ⟨green, 0⟩) .signal default 0 ⟨0, 0⟩).2 = []) = true := by
    decide +kernel
  rw [hgreen, hread] at hall
  have hnone := of_decide_eq_true hall
  have haccepted := closedRangeTree_accepted hgreen
  rcases (accepted_timing (some ⟨green, 0⟩) .signal default 0 ⟨0, 0⟩).2.1 (by decide)
    ⟨_, Library.of_toOption_eq_some hread⟩
    (fun node hnode => Option.some.inj hnode ▸ haccepted)
    (by rw [hnone]; exact fun d hd => absurd hd List.not_mem_nil) with
    ⟨spec, min, max, hspec, hwritten, hwell⟩
  exact ⟨green, default, spec, min, max, haccepted, hspec, hwritten, hwell⟩

end Timing

end Ridl
