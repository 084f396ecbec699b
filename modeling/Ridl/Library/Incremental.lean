import Mathlib.Data.List.Basic

/-!
# Incremental Readers

A reader of a stream that arrives in pieces. One turn of it looks at the input
not read yet and takes a unit from its front, or finds that the unit is not
there whole. The law that makes it incremental is that what a turn found it
finds again when more input stands behind (`Reader.turn_append`).

The answers a reader gives to a whole stream are then a property of the stream.
An implementation keeps the unread input, is fed pieces and is asked for one
answer at a time; it is tied to the reader by what it still would answer if
some more input came (`Polled`). Whatever the pieces and however often it is
asked, it gives the answers of the stream in their order.

A turn is put together of checks that each look at the front of the input.
`Steady` says of one check that it keeps its finding, and is kept by sequences
and by branches.

## Main definitions

* `Reader.answers`: All answers to some input.
* `Polled.run`, `Polled.drain`: Feeding by a schedule, and asking to the end.

## Theorems

* `Steady.bind`: A sequence of steady checks.
* `Reader.answers_turn`: A turn's answer comes before those of the rest.
* `Polled.future_run`: What a run gave and will give.
* `Polled.run_drain`: The schedule does not matter.
-/

namespace Ridl

namespace Library

/-! ## Checks on the front of the input -/

section Checks

variable {ε α γ β : Type}

variable {x : ExceptT ε Option α} {f : α → ExceptT ε Option γ}

theorem exceptT_bind_eq_some {r : Except ε γ} (h : (x >>= f).run = some r) :
    (∃ e, x.run = some (.error e) ∧ r = .error e) ∨
      ∃ a, x.run = some (.ok a) ∧ (f a).run = some r := by
  cases x with
  | none => cases h
  | some x =>
      cases x with
      | error e => exact .inl ⟨e, rfl, (Option.some.inj h).symm⟩
      | ok a => exact .inr ⟨a, rfl, h⟩

theorem exceptT_bind_ok {a : α} (h : x.run = some (.ok a)) : (x >>= f).run = (f a).run := by
  cases x with
  | none => cases h
  | some x =>
      cases h
      rfl

theorem exceptT_bind_error {e : ε}
    (h : x.run = some (.error e)) : (x >>= f).run = some (.error e) := by
  cases x with
  | none => cases h
  | some x =>
      cases h
      rfl

/-- What the check answered it answers when more input stands behind. -/
def Steady (f : List β → ExceptT ε Option α) : Prop :=
  ∀ l more r, (f l).run = some r → (f (l ++ more)).run = some r

namespace Steady

theorem const (x : ExceptT ε Option α) : Steady fun _ : List β => x :=
  fun _ _ _ h => h

theorem lift {g : List β → Option α} (h : ∀ l more a, g l = some a → g (l ++ more) = some a) :
    Steady fun l => (liftM (g l) : ExceptT ε Option α) := by
  intro l more r hr
  cases hg : g l with
  | none =>
      simp only [hg] at hr
      cases hr
  | some a =>
      simp only [hg] at hr
      simp only [h l more a hg]
      exact hr

theorem bind {f : List β → ExceptT ε Option α} {g : α → List β → ExceptT ε Option γ}
    (hf : Steady f) (hg : ∀ a, Steady (g a)) : Steady fun l => f l >>= fun a => g a l := by
  intro l more r hr
  rcases exceptT_bind_eq_some hr with ⟨e, he, rfl⟩ | ⟨a, ha, hr⟩
  · have hmore := hf l more _ he
    change Option.bind (f (l ++ more)).run _ = _
    rw [hmore]
    rfl
  · have hmore := hf l more _ ha
    change Option.bind (f (l ++ more)).run _ = _
    rw [hmore]
    exact hg a l more r hr

theorem ite {p : Prop} [Decidable p] {f g : List β → ExceptT ε Option α} (hf : Steady f)
    (hg : Steady g) : Steady fun l => if p then f l else g l := by
  by_cases hp : p
  · simpa only [if_pos hp] using hf
  · simpa only [if_neg hp] using hg

end Steady

end Checks

/-! ## Readers -/

/-- A reader takes one unit at a time from the front of its input. A turn
    answers nothing, not even silence, while the unit is not there whole; else
    it may give an answer, and may end the reading. -/
structure Reader (σ β ρ : Type) where
  turn : σ → List β → Option (Option ρ × Option (σ × List β))
  turn_append : ∀ {s l answer after} (more : List β), turn s l = some (answer, after) →
    turn s (l ++ more) = some (answer, after.map fun t => (t.1, t.2 ++ more))
  turn_shorter : ∀ {s l answer s' rest}, turn s l = some (answer, some (s', rest)) →
    rest.length < l.length

namespace Reader

variable {σ β ρ : Type} (R : Reader σ β ρ)

/-- The answers to the input, in order. -/
def answers (s : σ) (l : List β) : List ρ :=
  match _h : R.turn s l with
  | none => []
  | some (answer, none) => answer.toList
  | some (answer, some (s', rest)) => answer.toList ++ answers s' rest
termination_by l.length
decreasing_by exact R.turn_shorter _h

/-- The answers yet to come if `more` is what is fed. A reader that has ended
    has none. -/
def future (position : Option (σ × List β)) (more : List β) : List ρ :=
  match position with
  | none => []
  | some (s, l) => R.answers s (l ++ more)

variable {s : σ} {l : List β}

theorem answers_of_none (h : R.turn s l = none) : R.answers s l = [] := by
  unfold answers
  split
  · rfl
  · rename_i h'
    rw [h] at h'
    cases h'
  · rename_i h'
    rw [h] at h'
    cases h'

theorem answers_of_some {answer : Option ρ} {after : Option (σ × List β)}
    (h : R.turn s l = some (answer, after)) :
    R.answers s l = answer.toList ++ R.future after [] := by
  conv => lhs; unfold answers
  split
  · rename_i h'
    rw [h] at h'
    cases h'
  · rename_i h'
    rw [h] at h'
    cases h'
    rw [future, List.append_nil]
  · rename_i h'
    rw [h] at h'
    cases h'
    rw [future, List.append_nil]

theorem future_append (position : Option (σ × List β)) (first more : List β) :
    R.future (position.map fun t => (t.1, t.2 ++ first)) more =
      R.future position (first ++ more) := by
  cases position with
  | none => rfl
  | some t => simp only [Option.map_some, future, List.append_assoc]

theorem answers_turn {answer : Option ρ} {after : Option (σ × List β)}
    (h : R.turn s l = some (answer, after)) (more : List β) :
    R.answers s (l ++ more) = answer.toList ++ R.future after more := by
  rw [R.answers_of_some (R.turn_append more h), R.future_append, List.append_nil]

end Reader

/-! ## Implementations -/

/-- An implementation of a reader. `view` is where it stands: the reader's
    state and the unread input, or `none` once it has ended. -/
structure Polled {σ β ρ : Type} (R : Reader σ β ρ) (π : Type) where
  feed : π → List β → π
  next : π → Option ρ × π
  view : π → Option (σ × List β)
  view_feed : ∀ p input, view (feed p input) = (view p).map fun t => (t.1, t.2 ++ input)
  future_next : ∀ p more,
    R.future (view p) more = (next p).1.toList ++ R.future (view (next p).2) more
  next_none : ∀ p, (next p).1 = none → R.future (view p) [] = []

namespace Polled

variable {σ β ρ π : Type} {R : Reader σ β ρ} (P : Polled R π)

/-- Asking `n` times; the answers there were. -/
def calls : Nat → π → List ρ × π
  | 0, p => ([], p)
  | n + 1, p =>
    let (answer, p) := P.next p
    let (answers, p) := calls n p
    (answer.toList ++ answers, p)

/-- Feeding pieces, each followed by some number of questions. -/
def run : List (List β × Nat) → π → List ρ × π
  | [], p => ([], p)
  | (input, n) :: rest, p =>
    let (answers, p) := P.calls n (P.feed p input)
    let (others, p) := run rest p
    (answers ++ others, p)

/-- The pieces of a schedule, joined. -/
def stream (schedule : List (List β × Nat)) : List β := schedule.flatMap (·.1)

theorem future_calls (n : Nat) (p : π) (more : List β) :
    R.future (P.view p) more =
      (P.calls n p).1 ++ R.future (P.view (P.calls n p).2) more := by
  induction n generalizing p with
  | zero => rfl
  | succ n ih =>
      rw [P.future_next p more, ih (P.next p).2]
      simp only [calls, List.append_assoc]

theorem future_run (schedule : List (List β × Nat)) (p : π) (more : List β) :
    R.future (P.view p) (stream schedule ++ more) =
      (P.run schedule p).1 ++ R.future (P.view (P.run schedule p).2) more := by
  induction schedule generalizing p with
  | nil => rfl
  | cons piece rest ih =>
      have hfeed : R.future (P.view p) (stream (piece :: rest) ++ more) =
          R.future (P.view (P.feed p piece.1)) (stream rest ++ more) := by
        rw [P.view_feed, R.future_append]
        simp only [stream, List.flatMap_cons, List.append_assoc]
      rw [hfeed, P.future_calls piece.2, ih]
      simp only [run, List.append_assoc]

theorem length_future_next {p : π} {answer : ρ} (h : (P.next p).1 = some answer) :
    (R.future (P.view (P.next p).2) []).length < (R.future (P.view p) []).length := by
  rw [P.future_next p [], h]
  simp

/-- Asking until there is no answer. -/
def drain (p : π) : List ρ :=
  match _h : (P.next p).1 with
  | none => []
  | some answer => answer :: drain (P.next p).2
termination_by (R.future (P.view p) []).length
decreasing_by exact P.length_future_next _h

theorem drain_eq_future (p : π) : P.drain p = R.future (P.view p) [] := by
  induction hn : (R.future (P.view p) []).length using Nat.strongRecOn generalizing p with
  | ind n ih =>
      unfold drain
      split
      · rename_i hnone
        exact (P.next_none p hnone).symm
      · rename_i answer hsome
        rw [ih _ (hn ▸ P.length_future_next hsome) _ rfl, P.future_next p [], hsome]
        rfl

/-- **The schedule does not matter.** What is given on the way, and then until
    there is no answer, is what is given to the whole stream fed at once. -/
theorem run_drain (schedule : List (List β × Nat)) (p : π) :
    (P.run schedule p).1 ++ P.drain (P.run schedule p).2 =
      P.drain (P.feed p (stream schedule)) := by
  rw [drain_eq_future, drain_eq_future, ← P.future_run schedule p [], P.view_feed,
    R.future_append]

end Polled

end Library

end Ridl
