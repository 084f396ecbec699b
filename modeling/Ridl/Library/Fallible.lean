import Mathlib.Data.Option.Basic

/-!
# Fallible Computations

What is known of the steps of a computation that answered, and of two
computations that run side by side.

Two computations agree through a partial view of answers when they fail with
the same error, or answer and the answer of the one is the view of the other's.
Agreement is kept by each step, so it is proved along the two texts.

## Theorems

* `of_bind_eq_ok`: Each step answered.
* `ok_bind`: An answer is handed on.
* `of_mapError_eq_ok`: So did a step whose error is rewritten.
* `of_toOption_eq_some`: And one whose error is dropped.
* `Sees.bind`, `Sees.ite`: Agreement of sequences and of branches.
-/

namespace Ridl

namespace Library

theorem of_bind_eq_ok {ε α β : Type} {x : Except ε α} {f : α → Except ε β} {r : β}
    (h : x >>= f = .ok r) : ∃ a, x = .ok a ∧ f a = .ok r := by
  cases x with
  | error e => cases h
  | ok a => exact ⟨a, rfl, h⟩

theorem ok_bind {ε α β : Type} (a : α) (f : α → Except ε β) : (Except.ok a >>= f) = f a := rfl

theorem of_mapError_eq_ok {ε ε' α : Type} {x : Except ε α} {f : ε → ε'} {a : α}
    (h : x.mapError f = .ok a) : x = .ok a := by
  cases x with
  | error e => cases h
  | ok b => exact congrArg Except.ok (Except.ok.inj h)

theorem of_toOption_eq_some {ε α : Type} {x : Except ε α} {a : α} (h : x.toOption = some a) :
    x = .ok a := by
  cases x with
  | error e => cases h
  | ok b => exact congrArg Except.ok (Option.some.inj h)

theorem ite_bind {ε α β : Type} (p : Prop) [Decidable p] (x x' : Except ε α)
    (f : α → Except ε β) : (if p then x else x') >>= f = if p then x >>= f else x' >>= f := by
  by_cases hp : p
  · rw [if_pos hp, if_pos hp]
  · rw [if_neg hp, if_neg hp]

/-- The second computation is the first, through a view of its answer. -/
def Sees {ε α β : Type} (view : α → Option β) (x : Except ε α) (y : Except ε β) : Prop :=
  y.map some = x.map view

namespace Sees

variable {ε α β γ δ : Type} {view : α → Option β}

theorem ok {a : α} {b : β} (h : view a = some b) :
    Sees view (.ok a : Except ε α) (.ok b) :=
  congrArg Except.ok h.symm

theorem error (e : ε) : Sees view (.error e : Except ε α) (.error e) :=
  rfl

theorem bind {x : Except ε α} {y : Except ε β} (h : Sees view x y) {after : γ → Option δ}
    {f : α → Except ε γ} {g : β → Except ε δ}
    (hafter : ∀ a b, view a = some b → Sees after (f a) (g b)) :
    Sees after (x >>= f) (y >>= g) := by
  cases x with
  | error e =>
      cases y with
      | error e' =>
          cases h
          exact error e
      | ok b => cases h
  | ok a =>
      cases y with
      | error e' => cases h
      | ok b => exact hafter a b (Except.ok.inj h).symm

theorem dite {p q : Prop} [Decidable p] [Decidable q] (hpq : q ↔ p) {x : p → Except ε α}
    {x' : ¬ p → Except ε α} {y : q → Except ε β} {y' : ¬ q → Except ε β}
    (h : ∀ hp hq, Sees view (x hp) (y hq)) (h' : ∀ hp hq, Sees view (x' hp) (y' hq)) :
    Sees view (if hp : p then x hp else x' hp) (if hq : q then y hq else y' hq) := by
  by_cases hp : p
  · rw [dif_pos hp, dif_pos (hpq.mpr hp)]
    exact h hp _
  · rw [dif_neg hp, dif_neg (mt hpq.mp hp)]
    exact h' hp _

theorem dite_swap {p q : Prop} [Decidable p] [Decidable q] (hpq : q ↔ ¬ p)
    {x : p → Except ε α} {x' : ¬ p → Except ε α} {y : ¬ q → Except ε β} {y' : q → Except ε β}
    (h : ∀ hp hq, Sees view (x hp) (y hq)) (h' : ∀ hp hq, Sees view (x' hp) (y' hq)) :
    Sees view (if hp : p then x hp else x' hp) (if hq : q then y' hq else y hq) := by
  by_cases hp : p
  · rw [dif_pos hp, dif_neg fun hq => hpq.mp hq hp]
    exact h hp _
  · rw [dif_neg hp, dif_pos (hpq.mpr hp)]
    exact h' hp _

theorem ite {p q : Prop} [Decidable p] [Decidable q] (hpq : q ↔ p) {x x' : Except ε α}
    {y y' : Except ε β} (h : p → Sees view x y) (h' : ¬ p → Sees view x' y') :
    Sees view (if p then x else x') (if q then y else y') :=
  dite hpq (fun hp _ => h hp) fun hp _ => h' hp

theorem ite_swap {p q : Prop} [Decidable p] [Decidable q] (hpq : q ↔ ¬ p) {x x' : Except ε α}
    {y y' : Except ε β} (h : p → Sees view x y) (h' : ¬ p → Sees view x' y') :
    Sees view (if p then x else x') (if q then y' else y) :=
  dite_swap hpq (fun hp _ => h hp) fun hp _ => h' hp

theorem eq_error {e : ε} {y : Except ε β} (h : Sees view (.error e) y) : y = .error e := by
  cases y with
  | error e' =>
      cases h
      rfl
  | ok b => cases h

theorem exists_ok {a : α} {y : Except ε β} (h : Sees view (.ok a) y) :
    ∃ b, y = .ok b ∧ view a = some b := by
  cases y with
  | error e => cases h
  | ok b => exact ⟨b, rfl, (Except.ok.inj h).symm⟩

end Sees

end Library

end Ridl
