import Mathlib.Algebra.BigOperators.Fin
import Mathlib.Algebra.Order.BigOperators.Group.Finset
import Ridl.Runtime.TableRuns

/-!
# The Byte Budget and the Correlations

What every run of a call table keeps of its byte budget, and when it issues a
correlation again.

The budget is conserved: the bytes still free and the reservations of the
slots that are not free make up the budget the table started with. A slot's
move changes the two by the same amount, and the sum over the slots changes by
what the one slot changes by. So a credit at a reclaim never saturates, and an
insert is refused for the two reasons it has.

A slot's generation counts its reclaims, up to the 48 bits it keeps. Between
two inserts of one slot there is a reclaim, since the first insert leaves the
slot taken and the second finds it free. So a slot that is reclaimed fewer
than `2 ^ 48` times issues no correlation twice.

## Main definitions

* `Table.reserved`: The reservations of the slots that are not free.
* `TableStep.issues`: The insert issued the correlation.

## Theorems

* `reserved_moved`: What the move of one slot does to the sum.
* `generation_of_run`: A generation counts the reclaims of its slot.
* `reclaimed_between`: A slot issued twice was freed in between.
* `conserved`: Conservation and staleness of every run.
-/

namespace Ridl

namespace Correlate

open Library

/-- What a slot's call has debited. -/
def Entry.reserved (e : Entry) : Nat := if e.state = .free then 0 else e.reservation

theorem Entry.reserved_of_ne (e : Entry) (h : e.state ≠ .free) : e.reserved = e.reservation :=
  if_neg h

namespace Table

variable {N : Nat}

/-- The reservations of the slots that are not free. -/
def reserved (t : Table N) : Nat := ∑ i : Fin N, (getElem t.slots i i.isLt).reserved

theorem reserved_new (b : Option Nat) (hN : N ≤ 2 ^ SLOT_BITS) : (new b hN).reserved = 0 := by
  unfold reserved
  refine Finset.sum_eq_zero fun i _ => ?_
  rw [getElem?_new b i (new b hN).slots[i] (Vector.getElem?_eq_getElem i.isLt)]
  rfl

theorem reserved_moved (t : Table N) (i : Nat) (e e' : Entry) (b : Option Nat)
    (h : t.slots[i]? = some e) : (t.moved i e' b).reserved + e.reserved = t.reserved + e'.reserved := by
  have hlt := t.lt_of_getElem? i e h
  have hold : t.slots[(⟨i, hlt⟩ : Fin N)] = e := by
    rw [Vector.getElem?_eq_getElem hlt, Option.some.injEq] at h
    exact h
  have hnew : (t.moved i e' b).slots[(⟨i, hlt⟩ : Fin N)] = e' := by
    have hself := getElem?_moved_self i e e' b h
    rw [Vector.getElem?_eq_getElem hlt, Option.some.injEq] at hself
    exact hself
  have hrest : ∑ j ∈ Finset.univ.erase (⟨i, hlt⟩ : Fin N), (t.moved i e' b).slots[j].reserved =
      ∑ j ∈ Finset.univ.erase (⟨i, hlt⟩ : Fin N), t.slots[j].reserved := by
    refine Finset.sum_congr rfl fun j hj => ?_
    have hne : i ≠ j.val := fun hij => (Finset.mem_erase.mp hj).1 (Fin.ext hij.symm)
    have hother := getElem?_moved_of_ne (t := t) i j e' b hne
    rw [Vector.getElem?_eq_getElem j.isLt, Vector.getElem?_eq_getElem j.isLt,
      Option.some.injEq] at hother
    exact congrArg Entry.reserved hother
  have hleft := Finset.add_sum_erase Finset.univ
    (fun j : Fin N => (t.moved i e' b).slots[j].reserved) (Finset.mem_univ ⟨i, hlt⟩)
  have hright := Finset.add_sum_erase Finset.univ
    (fun j : Fin N => t.slots[j].reserved) (Finset.mem_univ ⟨i, hlt⟩)
  simp only [hnew, hrest] at hleft
  simp only [hold] at hright
  unfold reserved
  omega

theorem reserved_le (t : Table N) (i : Nat) (e : Entry) (h : t.slots[i]? = some e) :
    e.reserved ≤ t.reserved := by
  have hlt := t.lt_of_getElem? i e h
  rw [Vector.getElem?_eq_getElem hlt, Option.some.injEq] at h
  rw [← h]
  exact Finset.single_le_sum (f := fun j : Fin N => t.slots[j].reserved)
    (fun _ _ => Nat.zero_le _) (Finset.mem_univ ⟨i, hlt⟩)

end Table

/-- A move debits what it reserves and credits what it frees. -/
theorem budget_step {i : Nat} {e e' : Entry} {b' : Option Nat} {op : TableOp} {a : TableAnswer}
    (free : Nat) (h : SlotStep i e (some free) op a e' b') (hfit : free + e.reserved < 2 ^ 64) :
    ∃ free', b' = some free' ∧ free' + e'.reserved = free + e.reserved := by
  cases h with
  | issued r hfree hr =>
      have hle := hr free rfl
      refine ⟨free - r.toNat, rfl, ?_⟩
      have hnone : e.reserved = 0 := if_pos hfree
      rw [hnone, Entry.reserved_of_ne _ State.noConfusion]
      show free - r.toNat + r.toNat = free + 0
      omega
  | recorded o hs =>
      refine ⟨free, rfl, ?_⟩
      rw [Entry.reserved_of_ne _ State.noConfusion,
        Entry.reserved_of_ne e (by rw [hs]; exact State.noConfusion)]
  | marked hs =>
      refine ⟨free, rfl, ?_⟩
      rw [Entry.reserved_of_ne _ State.noConfusion,
        Entry.reserved_of_ne e (by rw [hs]; exact State.noConfusion)]
  | ended o hs =>
      rw [Entry.reserved_of_ne e (by rw [hs]; exact State.noConfusion)] at hfit ⊢
      exact ⟨_, rfl, show min (free + e.reservation) (2 ^ 64 - 1) + 0 = _ by omega⟩
  | released o hs =>
      rw [Entry.reserved_of_ne e (by rw [hs]; exact State.noConfusion)] at hfit ⊢
      exact ⟨_, rfl, show min (free + e.reservation) (2 ^ 64 - 1) + 0 = _ by omega⟩
  | stored w hs => exact ⟨free, rfl, rfl⟩
  | streamStored s w hs hlive => exact ⟨free, rfl, rfl⟩
  | streamTaken s hs => exact ⟨free, rfl, rfl⟩
  | streamsTaken => exact ⟨free, rfl, rfl⟩

def TableStep.issues {N : Nat} (x : TableStep N) (c : Correlation) : Prop :=
  x.answer = .inserted (some c)

/-- The operation freed slot `i`. -/
def frees (i : Nat) (op : TableOp) (a : TableAnswer) : Bool :=
  match op with
  | .settle c _ | .forget c => Table.slot c = i && a.reclaims
  | _ => false

/-- How often slot `i` was freed. -/
def reclaims {N : Nat} (i : Nat) (xs : List (TableStep N)) : Nat :=
  xs.countP (fun x => frees i x.op x.answer)

theorem Unmoved.not_frees {op : TableOp} {a : TableAnswer} (h : Unmoved op a) (i : Nat) :
    frees i op a = false := by
  cases h <;> simp only [frees, TableAnswer.reclaims, Bool.and_false]

section Move

variable {i : Nat} {e e' : Entry} {b b' : Option Nat} {op : TableOp} {a : TableAnswer}
  (h : SlotStep i e b op a e' b') (hslot : Table.slot (e.correlation i) = i)

include h hslot

theorem SlotStep.not_frees (j : Nat) (hij : i ≠ j) : frees j op a = false := by
  cases h <;> simp only [frees, hslot, hij, decide_false, Bool.false_and]

/-- A move that frees the slot ends its generation, and any other keeps it. -/
theorem SlotStep.generation :
    if frees i op a then e.state ≠ .free ∧ e' = e.reclaimed
    else e'.generation = e.generation ∧ (e.state ≠ .free → e'.state ≠ .free) := by
  cases h with
  | issued r hfree hr => exact ⟨rfl, fun _ => State.noConfusion⟩
  | recorded o hs =>
      simp only [frees, TableAnswer.reclaims, Bool.and_false, Bool.false_eq_true, if_false,
        true_and]
      exact fun _ => State.noConfusion
  | marked hs =>
      simp only [frees, TableAnswer.reclaims, Bool.and_false, Bool.false_eq_true, if_false,
        true_and]
      exact fun _ => State.noConfusion
  | ended o hs =>
      simp only [frees, TableAnswer.reclaims, hslot, decide_true, Bool.and_true, if_true]
      exact ⟨by rw [hs]; exact State.noConfusion, trivial⟩
  | released o hs =>
      simp only [frees, TableAnswer.reclaims, hslot, decide_true, Bool.and_true, if_true]
      exact ⟨by rw [hs]; exact State.noConfusion, trivial⟩
  | stored w hs => exact ⟨rfl, id⟩
  | streamStored s w hs hlive => exact ⟨rfl, id⟩
  | streamTaken s hs => exact ⟨rfl, id⟩
  | streamsTaken => exact ⟨rfl, id⟩

end Move

theorem Entry.correlation_inj {e f : Entry} (i : Nat) (h : e.correlation i = f.correlation i) :
    e.generation = f.generation := by
  simp only [Entry.correlation, Correlation.mk.injEq, SLOT_BITS] at h
  omega

section Run

variable {N : Nat} {hN : N ≤ 2 ^ SLOT_BITS} {budget : Option UInt64} {s t : Table N}
  {xs : List (TableStep N)}

theorem budget_of_run (B : UInt64)
    (h : (callTable N (some B) hN).IsRun (Table.new (some B.toNat) hN) xs t) :
    ∃ free, t.budget = some free ∧ free + t.reserved = B.toNat := by
  refine h.invariant (fun t => ∃ free, t.budget = some free ∧ free + t.reserved = B.toNat) ?_ ?_
  · exact ⟨B.toNat, rfl, by rw [Table.reserved_new, Nat.add_zero]⟩
  · rintro x hx _ ⟨free, hbudget, hsum⟩
    rcases step_of_run h x hx with ⟨hsame, _⟩ | ⟨i, e, e', b', he, hmove, hmoved⟩
    · exact ⟨free, by rw [hsame, hbudget], by rw [hsame, hsum]⟩
    · have hB := B.toNat_lt
      have hle := x.pre.reserved_le i e he
      rw [hbudget] at hmove
      rcases budget_step free hmove (by omega) with ⟨free', hb', hkept⟩
      have hsum' := x.pre.reserved_moved i e e' b' he
      refine ⟨free', by rw [hmoved, ← hb']; rfl, ?_⟩
      rw [hmoved]
      omega

/-- A step that frees a slot ends its generation, and any other keeps it. -/
theorem generation_step (h : (callTable N budget hN).IsRun s xs t) (x : TableStep N) (hx : x ∈ xs)
    (i : Nat) (e : Entry) (he : x.pre.slots[i]? = some e) :
    ∃ e', x.post.slots[i]? = some e' ∧
      if frees i x.op x.answer then e.state ≠ .free ∧ e' = e.reclaimed
      else e'.generation = e.generation ∧ (e.state ≠ .free → e'.state ≠ .free) := by
  rcases step_of_run h x hx with ⟨hsame, hunmoved⟩ | ⟨j, f, f', b', hf, hmove, hstep⟩
  · rw [hsame, hunmoved.not_frees i]
    exact ⟨e, he, rfl, id⟩
  · have hslot := x.pre.slot_correlation j f (x.pre.lt_of_getElem? j f hf)
    rw [hstep]
    by_cases hij : j = i
    · rw [hij] at hf hmove hslot ⊢
      rcases Option.some.inj (hf.symm.trans he) with rfl
      exact ⟨f', Table.getElem?_moved_self i f f' b' hf, hmove.generation hslot⟩
    · rw [Table.getElem?_moved_of_ne j i f' b' hij, hmove.not_frees hslot i hij]
      exact ⟨e, he, rfl, id⟩

theorem generation_of_run
    (h : (callTable N budget hN).IsRun (Table.new (budget.map UInt64.toNat) hN) xs t)
    (i : Nat) (e : Entry) (he : t.slots[i]? = some e) :
    e.generation = reclaims i xs % 2 ^ GENERATION_BITS := by
  refine h.history (fun xs t => ∀ e, t.slots[i]? = some e →
    e.generation = reclaims i xs % 2 ^ GENERATION_BITS) ?_ ?_ e he
  · intro e he
    rw [getElem?_new _ i e he]
    rfl
  · intro ys x hmem _ _ hprev e he
    have hlt := x.post.lt_of_getElem? i e he
    have hold : x.pre.slots[i]? = some x.pre.slots[i] := Vector.getElem?_eq_getElem hlt
    have hx := hmem x (List.mem_append_right _ (List.mem_singleton_self x))
    rcases generation_step h x hx i _ hold with ⟨e', he', hcase⟩
    rcases Option.some.inj (he.symm.trans he') with rfl
    have hgen := hprev _ hold
    unfold reclaims at hgen ⊢
    rw [List.countP_append, List.countP_singleton]
    by_cases hfrees : frees i x.op x.answer = true
    · rw [if_pos hfrees] at hcase ⊢
      rw [hcase.2]
      show (x.pre.slots[i].generation + 1) % _ = _
      rw [hgen, Nat.mod_add_mod]
    · rw [if_neg hfrees] at hcase ⊢
      rw [hcase.1, hgen, Nat.add_zero]

theorem slot_of_issue (h : (callTable N budget hN).IsRun s xs t) (x : TableStep N) (hx : x ∈ xs)
    (c : Correlation) (hc : x.answer = .inserted (some c)) :
    ∃ e e', x.pre.slots[Table.slot c]? = some e ∧ e.state = .free ∧
      e.correlation (Table.slot c) = c ∧ x.post.slots[Table.slot c]? = some e' ∧
      e'.state ≠ .free := by
  rcases step_of_run h x hx with ⟨_, hunmoved⟩ | ⟨i, e, e', b', he, hmove, hstep⟩
  · rw [hc] at hunmoved
    generalize x.op = op at hunmoved
    exact nomatch hunmoved
  · have hslot := x.pre.slot_correlation i e (x.pre.lt_of_getElem? i e he)
    have hpost := Table.getElem?_moved_self i e e' b' he
    rw [← hstep] at hpost
    rw [hc] at hmove
    generalize x.op = op at hmove
    cases hmove with
    | issued r hfree hr =>
        rw [hslot]
        exact ⟨e, _, he, hfree, rfl, hpost, State.noConfusion⟩

theorem reclaimed_between {m : Table N} (i : Nat) (e f : Entry)
    (h : (callTable N budget hN).IsRun s xs m) (he : s.slots[i]? = some e) (hs : e.state ≠ .free)
    (hf : m.slots[i]? = some f) (hfree : f.state = .free) : 0 < reclaims i xs := by
  have hend : ¬ ∃ e, m.slots[i]? = some e ∧ e.state ≠ .free := by
    rintro ⟨e, he, hs⟩
    rcases Option.some.inj (hf.symm.trans he) with rfl
    exact hs hfree
  rcases h.changes (fun m => ∃ e, m.slots[i]? = some e ∧ e.state ≠ .free) ⟨e, he, hs⟩ hend with
    ⟨front, x, back, rfl, ⟨g, hg, hgs⟩, hnot, _⟩
  have hx : x ∈ front ++ x :: back := List.mem_append_right _ (List.mem_cons_self)
  rcases generation_step h x hx i g hg with ⟨g', hg', hcase⟩
  by_cases hfrees : frees i x.op x.answer = true
  · exact List.countP_pos_iff.mpr ⟨x, hx, hfrees⟩
  · rw [if_neg hfrees] at hcase
    exact absurd ⟨g', hg', hcase.2 hgs⟩ hnot

theorem insert_refused_iff (t : Table N) (free r : Nat) (hbudget : t.budget = some free) :
    t.insert r = none ↔ t.Full ∨ free < r := by
  rcases t.insert_cases r with ⟨hnone, hwhy⟩ | ⟨i, e, he, hfree, hr, hsome⟩
  · refine ⟨fun _ => ?_, fun _ => hnone⟩
    rcases hwhy with hfull | ⟨free', hbudget', hlt⟩
    · exact Or.inl hfull
    · rw [hbudget, Option.some.injEq] at hbudget'
      exact Or.inr (hbudget' ▸ hlt)
  · rw [hsome]
    refine ⟨fun h => absurd h (Option.some_ne_none _), ?_⟩
    rintro (hfull | hlt)
    · exact absurd hfree (hfull i e he)
    · exact absurd (hr free hbudget) (by omega)

theorem held_eq_none (t : Table N) (c : Correlation) (h : ¬ ∃ i e, t.Holds i c e) :
    t.held c = none := by
  cases hheld : t.held c with
  | none => rfl
  | some i =>
      rcases t.held_eq_some c i hheld with ⟨e, hholds⟩
      exact absurd ⟨i, e, hholds⟩ h

end Run

/-- In every run of a table with a budget the free bytes and the reservations
    make up the budget, so that no credit saturates and an insert is refused
    only for want of a slot or of budget; a slot freed fewer than `2 ^ 48` times
    issues no correlation twice; and nothing is done under a correlation that
    is not held. -/
theorem conserved {N : Nat} (hN : N ≤ 2 ^ SLOT_BITS) (B : UInt64) (xs : List (TableStep N))
    (t : Table N) (h : (callTable N (some B) hN).IsRun (Table.new (some B.toNat) hN) xs t) :
    (∃ free, t.budget = some free ∧ free + t.reserved = B.toNat ∧
      (∀ (i : Nat) (e : Entry), t.slots[i]? = some e → e.state ≠ .free →
        free + e.reservation < 2 ^ 64) ∧
      ∀ r, t.insert r = none ↔ t.Full ∨ free < r) ∧
    (∀ front x mid y back, xs = front ++ x :: (mid ++ y :: back) →
      ∀ c, TableStep.issues x c → reclaims (Table.slot c) xs < 2 ^ GENERATION_BITS →
        ¬ TableStep.issues y c) ∧
    ∀ c, (¬ ∃ i e, t.Holds i c e) →
      (∀ o, t.settle c o = (t, .unknown)) ∧ t.outcome c = none ∧ t.forget c = (t, .unknown) ∧
      (∀ w, t.wakeOn c w = (t, some w)) ∧ (∀ s w, t.wakeOnStream c s w = (t, some w)) ∧
      ∀ s, t.takeStream c s = (t, none) := by
  refine ⟨?_, ?_, fun c hc => ?_⟩
  · rcases budget_of_run B h with ⟨free, hbudget, hsum⟩
    refine ⟨free, hbudget, hsum, fun i e he hs => ?_, fun r => insert_refused_iff t free r hbudget⟩
    have hB := B.toNat_lt
    have hle := t.reserved_le i e he
    rw [Entry.reserved_of_ne e hs] at hle
    omega
  · rintro front x mid y back rfl c hissue hfew hagain
    rcases (Machine.isRun_append _ _ _ _).mp h with ⟨m, hfront, hpre, hxstep, hrest⟩
    rcases (Machine.isRun_append _ _ _ _).mp hrest with ⟨n, hmid, hpre', hystep, hback⟩
    subst hpre hpre'
    have hx : (callTable N (some B) hN).IsRun x.pre [x] x.post := ⟨rfl, hxstep, rfl⟩
    have hy : (callTable N (some B) hN).IsRun y.pre [y] y.post := ⟨rfl, hystep, rfl⟩
    have hupto := (Machine.isRun_append _ _ _ _).mpr
      ⟨_, hfront, (Machine.isRun_append _ _ _ _).mpr ⟨_, hx, hmid⟩⟩
    rcases slot_of_issue hx x (List.mem_singleton_self x) c hissue with
      ⟨e, e', he, _, hec, he', hlive⟩
    rcases slot_of_issue hy y (List.mem_singleton_self y) c hagain with ⟨f, _, hf, hfree, hfc, _⟩
    have hfreed := reclaimed_between (Table.slot c) e' f hmid he' hlive hf hfree
    have hgen := generation_of_run hfront (Table.slot c) e he
    have hgen' := generation_of_run hupto (Table.slot c) f hf
    have hsame := Entry.correlation_inj (Table.slot c) (hec.trans hfc.symm)
    simp only [reclaims, List.countP_append, List.countP_cons, List.countP_nil, Nat.zero_add]
      at hfreed hgen hgen' hfew
    rw [Nat.mod_eq_of_lt (by omega)] at hgen
    rw [Nat.mod_eq_of_lt (by omega)] at hgen'
    omega
  · have hheld := held_eq_none t c hc
    exact ⟨fun o => Table.settle_of_not_held c hheld o, t.outcome_of_not_held c hheld,
      t.forget_of_not_held c hheld, fun w => Table.wakeOn_of_not_held c hheld w,
      fun s w => Table.wakeOnStream_of_not_held c hheld s w,
      fun s => Table.takeStream_of_not_held c hheld s⟩

/-- A call of four bytes is settled and forgotten, and its slot taken by one of
    six: the budget of ten has four bytes left. -/
theorem conserved_reuse :
    ∃ xs t, (callTable 1 (some 10) (by decide)).IsRun (Table.new (some 10) (by decide)) xs t ∧
      xs.map Machine.Item.op = [.insert 4, .settle ⟨0⟩ (.ok ()), .forget ⟨0⟩, .insert 6] ∧
      t.budget = some 4 ∧ t.reserved = 6 ∧ t.insert 5 = none := by
  have hrun := Machine.isRun_exec (M := callTable 1 (some 10) (by decide))
    (Table.new (some 10) (by decide)) _ [.insert 4, .settle ⟨0⟩ (.ok ()), .forget ⟨0⟩, .insert 6]
    _ rfl
  refine ⟨_, _, hrun, rfl, rfl, ?_, ?_⟩
  all_goals
    rcases (conserved _ 10 _ _ hrun).1 with ⟨free, hbudget, hsum, _, hrefused⟩
    rcases Option.some.inj hbudget with rfl
  · exact Nat.add_left_cancel hsum
  · exact (hrefused 5).mpr (Or.inr (by decide))

end Correlate

end Ridl
