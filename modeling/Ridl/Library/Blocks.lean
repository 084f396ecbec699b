import Ridl.Library.FirstFit

/-!
# Blocks Behind a Cursor

Blocks written one after the other, each at its alignment, and what a bound has
to charge for them without knowing where the cursor is.

A bound knows the cursor only up to an alignment: rounded up to it, the cursor
is within what was charged so far. A block that is left out takes nothing, so
the alignment it would have left holds of the rounded cursor all the same: what
was charged for the block covers the rounding.

An empty block takes no bytes but does move the cursor to its alignment, which
no charge for its bytes covers.

## Theorems

* `Charged.append`: Charges add up.
* `Charged.several`: What elements of one charge are charged together.
-/

namespace Ridl

namespace Library

theorem alignUp_mono_right {a b : Nat} (n : Nat) (ha : 0 < a) (hb : 0 < b) (h : a ∣ b) :
    alignUp n a ≤ alignUp n b :=
  alignUp_le ha (Nat.dvd_trans h (dvd_alignUp n b)) (le_alignUp n hb)

theorem alignUp_mono_left {n m a : Nat} (ha : 0 < a) (h : n ≤ m) : alignUp n a ≤ alignUp m a :=
  alignUp_le ha (dvd_alignUp m a) (Nat.le_trans h (le_alignUp m ha))

theorem alignUp_one (n : Nat) : alignUp n 1 = n := by
  unfold alignUp
  rw [Nat.div_one, Nat.mul_one, Nat.add_sub_cancel]

/-- A number rounded up to a coarser alignment is at most the difference of the
    two farther. -/
theorem alignUp_le_add {a b : Nat} (n : Nat) (ha : 0 < a) (hb : 0 < b) (h : a ∣ b) :
    alignUp n b ≤ alignUp n a + (b - a) := by
  rcases h with ⟨k, rfl⟩
  rcases dvd_alignUp n a with ⟨q, hq⟩
  rcases dvd_alignUp (alignUp n a) (a * k) with ⟨r, hr⟩
  have hle : alignUp n (a * k) ≤ alignUp (alignUp n a) (a * k) :=
    alignUp_mono_left hb (le_alignUp n ha)
  have hlt := alignUp_lt (alignUp n a) hb
  -- both numbers are multiples of the finer alignment
  have hmul : a * (k * r) < a * (q + k) := by
    rw [← Nat.mul_assoc, ← hr, Nat.mul_add, ← hq]
    exact hlt
  have hsucc : a * (k * r) + a ≤ a * (q + k) := by
    rw [← Nat.mul_succ]
    exact Nat.mul_le_mul_left a (Nat.lt_of_mul_lt_mul_left hmul)
  rw [← Nat.mul_assoc, ← hr, Nat.mul_add, ← hq] at hsucc
  omega

/-- A block: its size and its alignment. -/
structure Block where
  size : Nat
  align : Nat
  pos : 0 < align
deriving DecidableEq

/-- The cursor after a block. -/
def advance (cursor : Nat) (b : Block) : Nat := alignUp cursor b.align + b.size

theorem le_advance (cursor : Nat) (b : Block) : cursor ≤ advance cursor b :=
  Nat.le_trans (le_alignUp cursor b.pos) (Nat.le_add_right _ _)

/-- The cursor after the blocks. -/
def endOf (cursor : Nat) (blocks : List Block) : Nat := blocks.foldl advance cursor

theorem endOf_append (cursor : Nat) (blocks more : List Block) :
    endOf cursor (blocks ++ more) = endOf (endOf cursor blocks) more := List.foldl_append

theorem le_endOf (cursor : Nat) (blocks : List Block) : cursor ≤ endOf cursor blocks := by
  induction blocks generalizing cursor with
  | nil => exact Nat.le_refl cursor
  | cons b rest ih => exact Nat.le_trans (le_advance cursor b) (ih _)

/-- No empty block has a gap before it. -/
def Unpadded : Nat → List Block → Prop
  | _, [] => True
  | cursor, b :: rest => (b.size = 0 → b.align ∣ cursor) ∧ Unpadded (advance cursor b) rest

theorem unpadded_append (cursor : Nat) (blocks more : List Block) :
    Unpadded cursor (blocks ++ more) ↔
      Unpadded cursor blocks ∧ Unpadded (endOf cursor blocks) more := by
  induction blocks generalizing cursor with
  | nil => exact (and_iff_right trivial).symm
  | cons b rest ih =>
      show _ ∧ Unpadded (advance cursor b) (rest ++ more) ↔ (_ ∧ _) ∧ _
      rw [ih, and_assoc]
      rfl

/-- Whatever list of the family is written, the charge covers it: a cursor that
    was within the charge so far when rounded up to `a` is within the charge and
    `bytes` more when rounded up to `a'`. So it is when nothing is written. -/
structure Charged (R : List Block → Prop) (a bytes a' : Nat) : Prop where
  pos : 0 < a'
  skip : ∀ cursor charge, alignUp cursor a ≤ charge → alignUp cursor a' ≤ charge + bytes
  run : ∀ blocks, R blocks → ∀ cursor charge, Unpadded cursor blocks → alignUp cursor a ≤ charge →
    alignUp (endOf cursor blocks) a' ≤ charge + bytes

namespace Charged

variable {R R' : List Block → Prop} {a a' a'' bytes bytes' : Nat}

theorem nothing (ha : 0 < a) : Charged (fun blocks => blocks = []) a 0 a := by
  refine ⟨ha, fun _ _ h => h, fun blocks hblocks cursor charge _ h => ?_⟩
  rw [hblocks]
  exact h

theorem mono (h : Charged R a bytes a') (hR : ∀ blocks, R' blocks → R blocks) :
    Charged R' a bytes a' := ⟨h.pos, h.skip, fun blocks hblocks => h.run blocks (hR blocks hblocks)⟩

theorem append (h : Charged R a bytes a') (h' : Charged R' a' bytes' a'') :
    Charged (fun blocks => ∃ b b', R b ∧ R' b' ∧ blocks = b ++ b') a (bytes + bytes') a'' := by
  refine ⟨h'.pos, fun cursor charge hle => ?_, fun blocks hblocks cursor charge hpad hle => ?_⟩
  · rw [← Nat.add_assoc]
    exact h'.skip cursor _ (h.skip cursor charge hle)
  · rcases hblocks with ⟨b, b', hb, hb', rfl⟩
    rcases (unpadded_append cursor b b').mp hpad with ⟨hpad, hpad'⟩
    rw [endOf_append, ← Nat.add_assoc]
    exact h'.run b' hb' _ _ hpad' (h.run b hb cursor charge hpad hle)

/-- A list that stays within either charge stays within the greater one, with
    the alignment both leave. -/
theorem weaken (h : Charged R a bytes a') (most : Nat) (hbytes : bytes ≤ most) (ha : 0 < a'')
    (hdvd : a'' ∣ a') : Charged R a most a'' := by
  refine ⟨ha, fun cursor charge hle => ?_, fun blocks hblocks cursor charge hpad hle => ?_⟩
  · have hskip := h.skip cursor charge hle
    have hround := alignUp_mono_right cursor ha h.pos hdvd
    omega
  · have hrun := h.run blocks hblocks cursor charge hpad hle
    have hround := alignUp_mono_right (endOf cursor blocks) ha h.pos hdvd
    omega

theorem or (h : Charged R a bytes a') (h' : Charged R' a bytes a') :
    Charged (fun blocks => R blocks ∨ R' blocks) a bytes a' := by
  refine ⟨h.pos, h.skip, fun blocks hblocks => ?_⟩
  rcases hblocks with hblocks | hblocks
  · exact h.run blocks hblocks
  · exact h'.run blocks hblocks

theorem orNothing (h : Charged R a bytes a') :
    Charged (fun blocks => blocks = [] ∨ R blocks) a bytes a' := by
  refine ⟨h.pos, h.skip, fun blocks hblocks cursor charge hpad hle => ?_⟩
  rcases hblocks with rfl | hblocks
  · exact h.skip cursor charge hle
  · exact h.run blocks hblocks cursor charge hpad hle

theorem advance_empty {cursor align : Nat} (halign : 0 < align) (hdvd : align ∣ cursor) :
    advance cursor ⟨0, align, halign⟩ = cursor := by
  refine Nat.le_antisymm ?_ (le_advance cursor _)
  exact alignUp_le halign hdvd (Nat.le_refl cursor)

/-- One block of at most `most` bytes, every size of it a multiple of a unit, or
    no block: the gap is what the alignment is coarser by. -/
theorem block {align most unit : Nat} (ha : 0 < a) (halign : 0 < align)
    (hcmp : align ∣ a ∨ a ∣ align) :
    Charged (fun blocks => blocks = [] ∨ ∃ size, size ≤ most ∧ unit ∣ size ∧
      blocks = [⟨size, align, halign⟩]) a (align - a + most) (Nat.gcd (max align a) unit) := by
  have hmax : 0 < max align a := Nat.lt_of_lt_of_le ha (Nat.le_max_right _ _)
  have hunit : Nat.gcd (max align a) unit ∣ max align a := Nat.gcd_dvd_left _ _
  have hpos : 0 < Nat.gcd (max align a) unit := Nat.gcd_pos_of_pos_left _ hmax
  -- rounding up to the coarser of the two alignments costs the difference
  have hcoarse : ∀ cursor charge, alignUp cursor a ≤ charge →
      alignUp cursor (max align a) ≤ charge + (align - a) := by
    intro cursor charge hle
    rcases hcmp with hdvd | hdvd
    · rw [Nat.max_eq_right (Nat.le_of_dvd ha hdvd)]
      omega
    · have hstep := alignUp_le_add cursor ha halign hdvd
      rw [Nat.max_eq_left (Nat.le_of_dvd halign hdvd)]
      omega
  have hdvd : align ∣ max align a := by
    rcases hcmp with hdvd | hdvd
    · rwa [Nat.max_eq_right (Nat.le_of_dvd ha hdvd)]
    · exact ⟨1, by rw [Nat.mul_one, Nat.max_eq_left (Nat.le_of_dvd halign hdvd)]⟩
  have hskip : ∀ cursor charge, alignUp cursor a ≤ charge →
      alignUp cursor (Nat.gcd (max align a) unit) ≤ charge + (align - a + most) := by
    intro cursor charge hle
    have hround := alignUp_mono_right cursor hpos hmax hunit
    have hgap := hcoarse cursor charge hle
    omega
  refine ⟨hpos, hskip, fun blocks hblocks cursor charge hpad hle => ?_⟩
  rcases hblocks with rfl | ⟨size, hsize, hmul, rfl⟩
  · exact hskip cursor charge hle
  by_cases hzero : size = 0
  · subst hzero
    show alignUp (advance cursor ⟨0, align, halign⟩) _ ≤ _
    rw [advance_empty halign (hpad.1 rfl)]
    exact hskip cursor charge hle
  · have hgap := hcoarse cursor charge hle
    refine Nat.le_trans (alignUp_le hpos
      (Nat.dvd_add (Nat.dvd_trans hunit (dvd_alignUp cursor (max align a)))
        (Nat.dvd_trans (Nat.gcd_dvd_right _ unit) hmul)) ?_)
      (show alignUp cursor (max align a) + size ≤ charge + (align - a + most) by omega)
    show alignUp cursor align + size ≤ _
    exact Nat.add_le_add_right (alignUp_mono_right cursor halign hmax hdvd) size

theorem empty {align : Nat} (ha : 0 < a) (halign : 0 < align) :
    Charged (fun blocks => blocks = [⟨0, align, halign⟩]) a 0 a := by
  refine ⟨ha, fun _ _ h => h, fun blocks hblocks cursor charge hpad hle => ?_⟩
  subst hblocks
  show alignUp (advance cursor ⟨0, align, halign⟩) a ≤ charge + 0
  rw [advance_empty halign (hpad.1 rfl)]
  exact hle

/-- Lists of one family, one after the other, at most so many. -/
inductive Several (R : List Block → Prop) : Nat → List Block → Prop
  | nil (n) : Several R n []
  | cons (n b rest) : R b → Several R n rest → Several R (n + 1) (b ++ rest)

theorem Several.zero {R : List Block → Prop} {blocks : List Block} (h : Several R 0 blocks) :
    blocks = [] := by
  cases h
  rfl

theorem Several.le {R : List Block → Prop} {blocks : List Block} {m n : Nat}
    (h : Several R m blocks) (hle : m ≤ n) : Several R n blocks := by
  induction h generalizing n with
  | nil => exact .nil n
  | cons m b rest hb _ ih =>
      cases n with
      | zero => exact absurd hle (Nat.not_succ_le_zero _)
      | succ n => exact .cons n b rest hb (ih (Nat.le_of_succ_le_succ hle))

theorem Several.flatMap {α : Type} {R : List Block → Prop} {f : α → List Block} {list : List α}
    {n : Nat} (hlen : list.length ≤ n) (h : ∀ x ∈ list, R (f x)) :
    Several R n (list.flatMap f) := by
  induction list generalizing n with
  | nil => exact .nil n
  | cons x rest ih =>
      cases n with
      | zero => exact absurd hlen (Nat.not_succ_le_zero _)
      | succ n =>
          rw [List.flatMap_cons]
          exact .cons n _ _ (h x List.mem_cons_self)
            (ih (Nat.le_of_succ_le_succ hlen) (fun y hy => h y (List.mem_cons_of_mem x hy)))

theorem run_several (h : Charged R 1 bytes a') {n : Nat} {blocks : List Block}
    (hblocks : Several R n blocks) (cursor charge : Nat) (hpad : Unpadded cursor blocks)
    (hle : cursor ≤ charge) :
    (blocks = [] ∨ alignUp (endOf cursor blocks) a' ≤ charge + bytes * n) ∧
      endOf cursor blocks ≤ charge + bytes * n := by
  induction hblocks generalizing cursor charge with
  | nil n => exact ⟨Or.inl rfl, Nat.le_trans hle (Nat.le_add_right _ _)⟩
  | cons n b rest hb hrest ih =>
      rcases (unpadded_append cursor b rest).mp hpad with ⟨hpad, hpad'⟩
      have hfirst := h.run b hb cursor charge hpad (by rwa [alignUp_one])
      have hup := le_alignUp (endOf cursor b) h.pos
      have hnext := ih (endOf cursor b) (charge + bytes) hpad' (Nat.le_trans hup hfirst)
      rw [endOf_append, Nat.mul_succ]
      rcases hnext with ⟨hrounded, hend⟩
      refine ⟨Or.inr ?_, by omega⟩
      rcases hrounded with rfl | hrounded
      · show alignUp (endOf cursor b) a' ≤ _
        omega
      · omega

theorem several (h : Charged R 1 bytes a') (ha : 0 < a) {n : Nat} (hn : 0 < n) :
    Charged (Several R n) a (bytes * n) a' := by
  have hskip : ∀ cursor charge, alignUp cursor a ≤ charge →
      alignUp cursor a' ≤ charge + bytes * n := by
    intro cursor charge hle
    have hup := le_alignUp cursor ha
    have hone := h.skip cursor charge (by rw [alignUp_one]; omega)
    have hmul : bytes * 1 ≤ bytes * n := Nat.mul_le_mul_left bytes hn
    omega
  refine ⟨h.pos, hskip, fun blocks hblocks cursor charge hpad hle => ?_⟩
  have hup := le_alignUp cursor ha
  rcases (h.run_several hblocks cursor charge hpad (by omega)).1 with rfl | hrounded
  · exact hskip cursor charge hle
  · exact hrounded

theorem several_nothing (h : Charged R 1 0 a') (ha : 0 < a) {n : Nat} :
    Charged (Several R n) a 0 a := by
  refine ⟨ha, fun _ _ hle => hle, fun blocks hblocks cursor charge hpad hle => ?_⟩
  have hend := (h.run_several hblocks cursor cursor hpad (Nat.le_refl _)).2
  rw [Nat.zero_mul] at hend
  exact Nat.le_trans (alignUp_mono_left ha hend) hle

end Charged

end Library

end Ridl
