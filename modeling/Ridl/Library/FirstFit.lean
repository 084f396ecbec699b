import Mathlib.Algebra.Order.Group.Nat
import Mathlib.Algebra.Order.Ring.Int
import Mathlib.Data.List.Basic
import Mathlib.Tactic.ByContra

/-!
# First Fit

Items of a size and an alignment, placed one after the other, each at the
lowest aligned offset where it overlaps no item placed before it. The search
starts at an offset, rounds it up, and goes on from the end of an item that is
in the way.

It ends because an item that was in the way is never in the way again: the
search goes on at its end, and only forward.

## Theorems

* `firstFit_spec`: The search ends at the lowest offset that fits.
* `place_spec`: Every item of a list, given the items before it.
* `place_end_le`: How far the last item ends.
* `place_append`: An appended item moves no earlier one.
* `place_disjoint`: Placed items do not overlap.
-/

namespace Ridl

namespace Library

/-- The least multiple of `a` at or above `n`. -/
def alignUp (n a : Nat) : Nat := (n + a - 1) / a * a

theorem dvd_alignUp (n a : Nat) : a ∣ alignUp n a := Nat.dvd_mul_left a _

theorem le_alignUp {a : Nat} (n : Nat) (ha : 0 < a) : n ≤ alignUp n a := by
  have hdiv := Nat.div_add_mod (n + a - 1) a
  have hmod := Nat.mod_lt (n + a - 1) ha
  unfold alignUp
  rw [Nat.mul_comm]
  omega

theorem alignUp_le {n a m : Nat} (ha : 0 < a) (hm : a ∣ m) (hle : n ≤ m) : alignUp n a ≤ m := by
  rcases hm with ⟨k, rfl⟩
  unfold alignUp
  rw [Nat.mul_comm a k]
  refine Nat.mul_le_mul_right a (Nat.le_of_lt_succ ((Nat.div_lt_iff_lt_mul ha).mpr ?_))
  rw [Nat.succ_mul, Nat.mul_comm k a]
  omega

theorem alignUp_lt (n : Nat) {a : Nat} (ha : 0 < a) : alignUp n a < n + a := by
  have hle := Nat.div_mul_le_self (n + a - 1) a
  unfold alignUp
  omega

/-- A run of bytes, from its start up to its end. -/
abbrev Span := Nat × Nat

/-- The run overlaps `size` bytes at an offset. -/
def clash (off size : Nat) (s : Span) : Bool := off < s.2 && s.1 < off + size

/-- `size` bytes at the offset overlap none of the runs. -/
def Fits (placed : List Span) (off size : Nat) : Prop := ∀ s ∈ placed, clash off size s = false

/-- The first offset at or above `off` that fits. -/
def firstFit : Nat → List Span → Nat → Nat → Nat → Option Nat
  | 0, _, _, _, _ => none
  | fuel + 1, placed, size, align, off =>
      let off := alignUp off align
      match placed.find? (clash off size) with
      | none => some off
      | some s => firstFit fuel placed size align s.2

theorem countP_end_lt {placed : List Span} {s : Span} (hs : s ∈ placed) {off : Nat}
    (hoff : off < s.2) :
    placed.countP (fun e => decide (s.2 < e.2)) < placed.countP (fun e => decide (off < e.2)) := by
  induction placed with
  | nil => exact absurd hs List.not_mem_nil
  | cons e placed ih =>
      have hmono : placed.countP (fun e => decide (s.2 < e.2)) ≤
          placed.countP (fun e => decide (off < e.2)) := by
        refine List.countP_mono_left (fun x _ hx => ?_)
        exact decide_eq_true (Nat.lt_trans hoff (of_decide_eq_true hx))
      simp only [List.countP_cons, decide_eq_true_eq]
      rcases List.mem_cons.mp hs with rfl | hmem
      · rw [if_neg (Nat.lt_irrefl _), if_pos hoff]
        omega
      · have hlt := ih hmem
        split <;> split <;> omega

theorem firstFit_spec (fuel : Nat) (placed : List Span) (size : Nat) {align : Nat}
    (ha : 0 < align) (off : Nat)
    (hfuel : placed.countP (fun e => decide (off < e.2)) < fuel) :
    ∃ o, firstFit fuel placed size align off = some o ∧ align ∣ o ∧ Fits placed o size ∧
      ∀ o', align ∣ o' → off ≤ o' → Fits placed o' size → o ≤ o' := by
  induction fuel generalizing off with
  | zero => exact absurd hfuel (Nat.not_lt_zero _)
  | succ fuel ih =>
      have hup := le_alignUp off ha
      simp only [firstFit]
      rcases hfind : placed.find? (clash (alignUp off align) size) with _ | s
      · refine ⟨_, rfl, dvd_alignUp off align, fun s hs => ?_, fun o' hdvd hle _ =>
          alignUp_le ha hdvd hle⟩
        exact (Bool.not_eq_true _).mp (List.find?_eq_none.mp hfind s hs)
      · have hs := List.mem_of_find?_eq_some hfind
        have hclash := List.find?_some hfind
        rw [clash, Bool.and_eq_true, decide_eq_true_eq, decide_eq_true_eq] at hclash
        have hoff : off < s.2 := Nat.lt_of_le_of_lt hup hclash.1
        have hless := countP_end_lt hs hoff
        rcases ih s.2 (by omega) with ⟨o, hfirst, hdvd, hfits, hleast⟩
        refine ⟨o, hfirst, hdvd, hfits, fun o' hdvd' hle hfits' => ?_⟩
        -- an aligned offset before the run's end still overlaps the run
        refine hleast o' hdvd' ?_ hfits'
        by_contra hlt
        have hno := hfits' s hs
        have hle' := alignUp_le ha hdvd' hle
        rw [clash, Bool.and_eq_false_iff, decide_eq_false_iff_not, decide_eq_false_iff_not] at hno
        omega

/-- The items, given the runs placed before them. -/
def placeAfter : List Span → List (Nat × Nat) → Option (List Nat)
  | _, [] => some []
  | placed, (size, align) :: rest =>
      (firstFit (placed.length + 1) placed size align 0).bind (fun off =>
        (placeAfter (placed ++ [(off, off + size)]) rest).map (fun offs => off :: offs))

/-- The offset of each `(size, align)`, in order. -/
def place (items : List (Nat × Nat)) : Option (List Nat) := placeAfter [] items

/-- The runs of items at their offsets. -/
def spans (items : List (Nat × Nat)) (offs : List Nat) : List Span :=
  items.zipWith (fun item off => (off, off + item.1)) offs

/-- Each item is at the lowest offset that fits, given the items before it. -/
inductive Lowest : List Span → List (Nat × Nat) → List Nat → Prop
  | nil (placed) : Lowest placed [] []
  | cons (placed size align off rest offs) : align ∣ off → Fits placed off size →
      (∀ o, align ∣ o → Fits placed o size → off ≤ o) →
      Lowest (placed ++ [(off, off + size)]) rest offs →
      Lowest placed ((size, align) :: rest) (off :: offs)

theorem placeAfter_lowest (placed : List Span) (items : List (Nat × Nat))
    (halign : ∀ item ∈ items, 0 < item.2) :
    ∃ offs, placeAfter placed items = some offs ∧ Lowest placed items offs := by
  induction items generalizing placed with
  | nil => exact ⟨[], rfl, .nil placed⟩
  | cons item rest ih =>
      rcases item with ⟨size, align⟩
      have hcount : placed.countP (fun e => decide (0 < e.2)) < placed.length + 1 :=
        Nat.lt_succ_of_le List.countP_le_length
      rcases firstFit_spec _ placed size (halign _ List.mem_cons_self) 0 hcount with
        ⟨off, hfirst, hdvd, hfits, hleast⟩
      rcases ih (placed ++ [(off, off + size)])
        (fun item hitem => halign item (List.mem_cons_of_mem _ hitem)) with ⟨offs, hrest, hlowest⟩
      refine ⟨off :: offs, ?_, .cons placed size align off rest offs hdvd hfits
        (fun o hd hf => hleast o hd (Nat.zero_le o) hf) hlowest⟩
      simp only [placeAfter, hfirst, hrest, Option.bind_some, Option.map_some]

theorem Lowest.length {placed : List Span} {items : List (Nat × Nat)} {offs : List Nat}
    (h : Lowest placed items offs) : offs.length = items.length := by
  induction h with
  | nil => rfl
  | cons placed size align off rest offs _ _ _ _ ih => rw [List.length_cons, List.length_cons, ih]

/-- What is placed at an index is lowest among the runs placed up to there. -/
theorem Lowest.at_index {placed : List Span} {items : List (Nat × Nat)} {offs : List Nat}
    (h : Lowest placed items offs) (i size align off : Nat) (hitem : items[i]? = some (size, align))
    (hoff : offs[i]? = some off) :
    align ∣ off ∧ Fits (placed ++ spans (items.take i) (offs.take i)) off size ∧
      ∀ o, align ∣ o → Fits (placed ++ spans (items.take i) (offs.take i)) o size → off ≤ o := by
  induction h generalizing i with
  | nil => cases hitem
  | cons placed size' align' off' rest offs hdvd hfits hleast _ ih =>
      cases i with
      | zero =>
          simp only [List.getElem?_cons_zero, Option.some.injEq, Prod.mk.injEq] at hitem hoff
          rcases hitem with ⟨rfl, rfl⟩
          subst hoff
          rw [List.take_zero, List.take_zero, spans, List.zipWith_nil_left, List.append_nil]
          exact ⟨hdvd, hfits, hleast⟩
      | succ i =>
          have hrest := ih i hitem hoff
          rw [List.append_assoc] at hrest
          exact hrest

/-- A run placed later does not overlap one placed before it. -/
theorem Lowest.disjoint {placed : List Span} {items : List (Nat × Nat)} {offs : List Nat}
    (h : Lowest placed items offs)
    (hplaced : placed.Pairwise (fun s t => ¬ (t.1 < s.2 ∧ s.1 < t.2))) :
    (placed ++ spans items offs).Pairwise (fun s t => ¬ (t.1 < s.2 ∧ s.1 < t.2)) := by
  induction h with
  | nil => rwa [spans, List.zipWith_nil_left, List.append_nil]
  | cons placed size align off rest offs _ hfits _ _ ih =>
      have hnext : (placed ++ [(off, off + size)]).Pairwise
          (fun s t => ¬ (t.1 < s.2 ∧ s.1 < t.2)) := by
        refine List.pairwise_append.mpr ⟨hplaced, List.pairwise_singleton _ _, ?_⟩
        intro s hs t ht
        rw [List.mem_singleton.mp ht]
        have hno := hfits s hs
        rw [clash, Bool.and_eq_false_iff, decide_eq_false_iff_not, decide_eq_false_iff_not] at hno
        rintro ⟨hstart, hend⟩
        rcases hno with hno | hno
        · exact hno hstart
        · exact hno hend
      have hrest := ih hnext
      rw [List.append_assoc] at hrest
      exact hrest

/-- An item ends no farther past the ends before it than its size and its
    alignment. -/
theorem Lowest.end_le {placed : List Span} {items : List (Nat × Nat)} {offs : List Nat}
    (h : Lowest placed items offs) (halign : ∀ item ∈ items, 0 < item.2) (last : Nat)
    (hlast : ∀ s ∈ placed, s.2 ≤ last) :
    ∀ s ∈ spans items offs, s.2 ≤ last + (items.map (fun item => item.1 + item.2)).sum := by
  induction h generalizing last with
  | nil => exact fun s hs => absurd hs List.not_mem_nil
  | cons placed size align off rest offs _ _ hleast _ ih =>
      have hpos : 0 < align := halign _ List.mem_cons_self
      have hclear : Fits placed (alignUp last align) size := by
        intro s hs
        have hle := hlast s hs
        have hup := le_alignUp last hpos
        rw [clash, Bool.and_eq_false_iff, decide_eq_false_iff_not]
        exact Or.inl (by omega)
      have hoff := hleast _ (dvd_alignUp last align) hclear
      have hlt := alignUp_lt last hpos
      have hrest := ih (fun item hitem => halign item (List.mem_cons_of_mem _ hitem))
        (last + size + align) (by
          intro s hs
          rcases List.mem_append.mp hs with hs | hs
          · have hle := hlast s hs
            omega
          · rw [List.mem_singleton.mp hs]
            show off + size ≤ last + size + align
            omega)
      intro s hs
      rw [List.map_cons, List.sum_cons]
      rcases List.mem_cons.mp hs with rfl | hs
      · show off + size ≤ _
        omega
      · have hle := hrest s hs
        omega

theorem placeAfter_append (placed : List Span) (items more : List (Nat × Nat)) (offs : List Nat)
    (h : placeAfter placed items = some offs) :
    placeAfter placed (items ++ more) =
      (placeAfter (placed ++ spans items offs) more).map (fun offs' => offs ++ offs') := by
  induction items generalizing placed offs with
  | nil =>
      simp only [placeAfter, Option.some.injEq] at h
      rw [← h, spans, List.zipWith_nil_left, List.append_nil, List.nil_append]
      simp
  | cons item rest ih =>
      rcases item with ⟨size, align⟩
      simp only [placeAfter, Option.bind_eq_some_iff, Option.map_eq_some_iff] at h
      rcases h with ⟨off, hfirst, offs', hrest, rfl⟩
      have hmore := ih _ _ hrest
      rw [List.append_assoc] at hmore
      simp only [List.cons_append, placeAfter, hfirst, Option.bind_some, hmore, Option.map_map]
      rfl

theorem place_spec (items : List (Nat × Nat)) (halign : ∀ item ∈ items, 0 < item.2) :
    ∃ offs, place items = some offs ∧ offs.length = items.length ∧
      ∀ i size align off, items[i]? = some (size, align) → offs[i]? = some off →
        align ∣ off ∧ Fits (spans (items.take i) (offs.take i)) off size ∧
          ∀ o, align ∣ o → Fits (spans (items.take i) (offs.take i)) o size → off ≤ o := by
  rcases placeAfter_lowest [] items halign with ⟨offs, hplace, hlowest⟩
  refine ⟨offs, hplace, hlowest.length, fun i size align off hitem hoff => ?_⟩
  have hat := hlowest.at_index i size align off hitem hoff
  rwa [List.nil_append] at hat

theorem place_disjoint (items : List (Nat × Nat)) (offs : List Nat)
    (halign : ∀ item ∈ items, 0 < item.2) (h : place items = some offs) :
    (spans items offs).Pairwise (fun s t => ¬ (t.1 < s.2 ∧ s.1 < t.2)) := by
  rcases placeAfter_lowest [] items halign with ⟨offs', hplace, hlowest⟩
  rw [place, hplace, Option.some.injEq] at h
  subst h
  have hdisjoint := hlowest.disjoint List.Pairwise.nil
  rwa [List.nil_append] at hdisjoint

theorem place_end_le (items : List (Nat × Nat)) (offs : List Nat)
    (halign : ∀ item ∈ items, 0 < item.2) (h : place items = some offs) :
    ∀ s ∈ spans items offs, s.2 ≤ (items.map (fun item => item.1 + item.2)).sum := by
  rcases placeAfter_lowest [] items halign with ⟨offs', hplace, hlowest⟩
  rw [place, hplace, Option.some.injEq] at h
  subst h
  have hend := hlowest.end_le halign 0 (List.forall_mem_nil _)
  rwa [Nat.zero_add] at hend

theorem place_append (items more : List (Nat × Nat)) (offs : List Nat)
    (halign : ∀ item ∈ more, 0 < item.2) (h : place items = some offs) :
    ∃ offs', place (items ++ more) = some (offs ++ offs') := by
  rcases placeAfter_lowest (spans items offs) more halign with ⟨offs', hmore, _⟩
  refine ⟨offs', ?_⟩
  have happend := placeAfter_append [] items more offs h
  rw [List.nil_append, hmore] at happend
  exact happend

end Library

end Ridl
