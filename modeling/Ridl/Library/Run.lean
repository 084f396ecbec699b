import Mathlib.Data.List.Induction

/-!
# Runs of a Machine

A machine is a state and a step function. A step takes an operation and
answers something; a step that answers `none` is one the program does not
survive. A run is the list of the steps taken, each with the state before it
and after it, so that a statement about a whole history can name the
operations, the answers and the states in between.

Two rules carry everything proved about runs. `Machine.IsRun.invariant` is
the invariant rule: what every step of the run keeps, the run keeps.
`Machine.IsRun.history` is the same for a property of the history, which
grows by one step at its end. A run splits at any of its steps
(`Machine.isRun_append`), which is how a claim about two moments of one run
is proved: `Machine.IsRun.changes` finds the step between them that ended a
property.

## Main definitions

* `Machine.Item`: One step of a run.
* `Machine.IsRun`: The steps follow one another from one state to another.
* `Machine.exec`: The run of a list of operations.

## Theorems

* `Machine.isRun_append`: A run splits where its list does.
* `Machine.IsRun.invariant`: What every step keeps, the run keeps.
* `Machine.IsRun.history`: What every extension keeps, the history has.
* `Machine.IsRun.changes`: A property that ended was ended by a step.
-/

namespace Ridl

namespace Library

/-- A start state and a step function; `none` is a step not survived. -/
structure Machine (σ op ans : Type) where
  init : σ
  step : σ → op → Option (σ × ans)

namespace Machine

/-- One step of a run: the operation, what it answered, and the states
    before and after it. -/
structure Item (σ op ans : Type) where
  pre : σ
  op : op
  answer : ans
  post : σ

variable {σ op ans : Type}

/-- The items are the steps of `M` from the first state to the last. -/
def IsRun (M : Machine σ op ans) : σ → List (Item σ op ans) → σ → Prop
  | s, [], t => s = t
  | s, x :: xs, t =>
      x.pre = s ∧ M.step x.pre x.op = some (x.post, x.answer) ∧ IsRun M x.post xs t

/-- The run of the operations from a state, unless the machine stops. -/
def exec (M : Machine σ op ans) : σ → List op → Option (List (Item σ op ans) × σ)
  | s, [] => some ([], s)
  | s, o :: os => do
      let (t, a) ← M.step s o
      let (xs, u) ← M.exec t os
      some (⟨s, o, a, t⟩ :: xs, u)

variable {M : Machine σ op ans}

theorem isRun_exec (s t : σ) (os : List op) (xs : List (Item σ op ans))
    (h : M.exec s os = some (xs, t)) : IsRun M s xs t := by
  induction os generalizing s xs with
  | nil =>
      simp only [exec, Option.some.injEq, Prod.mk.injEq] at h
      rw [← h.1]
      exact h.2
  | cons o os ih =>
      simp only [exec, Option.bind_eq_bind, Option.bind_eq_some_iff, Option.some.injEq,
        Prod.mk.injEq] at h
      rcases h with ⟨⟨m, a⟩, hstep, ⟨ys, u⟩, hrest, hxs, rfl⟩
      rw [← hxs]
      exact ⟨rfl, hstep, ih m ys hrest⟩

theorem isRun_append (s t : σ) (xs ys : List (Item σ op ans)) :
    IsRun M s (xs ++ ys) t ↔ ∃ m, IsRun M s xs m ∧ IsRun M m ys t := by
  induction xs generalizing s with
  | nil => simp only [List.nil_append, IsRun, exists_eq_left']
  | cons x xs ih =>
      simp only [List.cons_append, IsRun, ih]
      constructor
      · rintro ⟨hpre, hstep, m, hx, hy⟩
        exact ⟨m, ⟨hpre, hstep, hx⟩, hy⟩
      · rintro ⟨m, ⟨hpre, hstep, hx⟩, hy⟩
        exact ⟨hpre, hstep, m, hx, hy⟩

theorem isRun_singleton (s t : σ) (x : Item σ op ans) :
    IsRun M s [x] t ↔
      x.pre = s ∧ M.step x.pre x.op = some (x.post, x.answer) ∧ x.post = t := by
  simp only [IsRun]

variable {s t : σ} {xs : List (Item σ op ans)}

theorem IsRun.step_of_mem (h : IsRun M s xs t)
    (x : Item σ op ans) (hx : x ∈ xs) : M.step x.pre x.op = some (x.post, x.answer) := by
  induction xs generalizing s with
  | nil => exact absurd hx (List.not_mem_nil)
  | cons y ys ih =>
      rcases h with ⟨_, hstep, hrest⟩
      rcases List.mem_cons.mp hx with hxy | hmem
      · rw [hxy]
        exact hstep
      · exact ih hrest hmem

theorem IsRun.invariant (h : IsRun M s xs t) (P : σ → Prop) (hs : P s)
    (hstep : ∀ x ∈ xs, M.step x.pre x.op = some (x.post, x.answer) → P x.pre → P x.post) :
    P t := by
  induction xs generalizing s with
  | nil => exact h ▸ hs
  | cons x xs ih =>
      rcases h with ⟨hpre, hx, hrest⟩
      have hpost : P x.post :=
        hstep x (List.mem_cons_self) hx (hpre ▸ hs)
      exact ih hrest hpost (fun y hy => hstep y (List.mem_cons_of_mem x hy))

theorem IsRun.invariant_mem (h : IsRun M s xs t) (P : σ → Prop) (hs : P s)
    (hstep : ∀ x ∈ xs, M.step x.pre x.op = some (x.post, x.answer) → P x.pre → P x.post)
    (x : Item σ op ans) (hx : x ∈ xs) : P x.pre ∧ P x.post := by
  obtain ⟨front, back, hsplit⟩ := List.append_of_mem hx
  subst hsplit
  obtain ⟨m, hfront, hback⟩ := (isRun_append s t front (x :: back)).mp h
  have hm : P m := hfront.invariant P hs
    (fun y hy => hstep y (List.mem_append_left _ hy))
  rcases hback with ⟨hpre, hxstep, _⟩
  have hpre' : P x.pre := hpre ▸ hm
  exact ⟨hpre', hstep x (List.mem_append_right _ (List.mem_cons_self)) hxstep hpre'⟩

theorem IsRun.history (h : IsRun M s xs t) (P : List (Item σ op ans) → σ → Prop) (hs : P [] s)
    (hstep : ∀ ys x, (∀ y ∈ ys ++ [x], y ∈ xs) → IsRun M s ys x.pre →
      M.step x.pre x.op = some (x.post, x.answer) → P ys x.pre → P (ys ++ [x]) x.post) :
    P xs t := by
  induction xs using List.reverseRecOn generalizing t with
  | nil => exact h ▸ hs
  | append_singleton ys x ih =>
      obtain ⟨m, hys, hx⟩ := (isRun_append s t ys [x]).mp h
      obtain ⟨hpre, hxstep, hpost⟩ := (isRun_singleton m t x).mp hx
      have hprev : P ys x.pre := by
        rw [hpre]
        refine ih hys ?_
        intro zs y hmem
        exact hstep zs y (fun z hz => List.mem_append_left _ (hmem z hz))
      rw [← hpost]
      exact hstep ys x (fun y hy => hy) (hpre ▸ hys) hxstep hprev

theorem IsRun.changes (h : IsRun M s xs t) (P : σ → Prop) (hs : P s) (ht : ¬ P t) :
    ∃ front x back, xs = front ++ x :: back ∧ P x.pre ∧ ¬ P x.post ∧
      ∀ y ∈ front, P y.pre ∧ P y.post := by
  induction xs generalizing s with
  | nil => exact absurd (h ▸ hs) ht
  | cons x xs ih =>
      rcases h with ⟨hpre, hxstep, hrest⟩
      have hpre' : P x.pre := hpre ▸ hs
      by_cases hpost : P x.post
      · obtain ⟨front, y, back, hsplit, hy, hy', hall⟩ := ih hrest hpost
        refine ⟨x :: front, y, back, by rw [hsplit, List.cons_append], hy, hy', ?_⟩
        intro z hz
        rcases List.mem_cons.mp hz with hzx | hmem
        · rw [hzx]
          exact ⟨hpre', hpost⟩
        · exact hall z hmem
      · exact ⟨[], x, xs, rfl, hpre', hpost, fun y hy => absurd hy (List.not_mem_nil)⟩

end Machine

end Library

end Ridl
