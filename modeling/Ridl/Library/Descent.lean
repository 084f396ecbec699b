import Mathlib.Data.List.Basic

/-!
# Programs that Read a List

Programs over a state that may fail, and that read a list from its front to its
end: a parser by recursive descent over its tokens. A `Discipline` says what
every run of such programs keeps: an invariant of the state, a relation between
the states before and after, and that what is ahead gets shorter at its front
only.

`Runs` is total correctness under a discipline: the program returns, and where
its result and what was ahead say so, it has consumed something. Two facts make
it compose. A program that has not consumed anything has left what is ahead as
it was, so what is known of it still holds for the next program. And a loop each
of whose iterations consumes something, but for the last, needs no more
iterations than there is ahead.

## Theorems

* `Runs.either`: What one of two programs consumes.
* `Runs.bind`: What the second program consumes, after a first that may consume nothing.
* `Runs.first`: What the first program consumes.
* `Runs.read`: A program that only looks at what is ahead.
* `Runs.iterate`: A loop whose iterations consume.
-/

namespace Ridl

namespace Library

namespace Descent

variable {S τ α β : Type}

/-- What every run of a family of programs keeps. -/
structure Discipline (S τ : Type) where
  inv : S → Prop
  step : S → S → Prop
  ahead : S → List τ
  refl : ∀ s, step s s
  trans : ∀ {s t u}, step s t → step t u → step s u
  suffix : ∀ {s t}, step s t → ahead t <:+ ahead s

/-- A property of states that each step keeps. -/
structure Frame (D : Discipline S τ) where
  holds : S → Prop
  stable : ∀ {s t}, D.step s t → holds s → holds t

/-- From every state where the invariant and the frame hold and with what is ahead as `look` says,
    the program returns. It has consumed something if `eats` says so of its result and of what was
    ahead. -/
def Runs {D : Discipline S τ} (F : Frame D) (look : List τ → Prop) (eats : α → List τ → Prop)
    (m : StateT S Option α) : Prop :=
  ∀ s, D.inv s → F.holds s → look (D.ahead s) →
    ∃ a t, m s = some (a, t) ∧ D.inv t ∧ D.step s t ∧
      (eats a (D.ahead s) → (D.ahead t).length < (D.ahead s).length)

/-- Nothing is said of what is ahead. -/
def Any : List τ → Prop := fun _ => True

/-- Nothing is said of what is consumed. -/
def Plain : α → List τ → Prop := fun _ _ => False

/-- Something is consumed if anything is ahead. -/
def IfAny : α → List τ → Prop := fun _ list => list ≠ []

/-- Something is consumed by an iteration after which the loop goes on. -/
def IfYield : ForInStep β → List τ → Prop := fun r _ => ∃ b, r = .yield b

/-- A loop with at most so many iterations. -/
def iterate (body : β → StateT S Option (ForInStep β)) : Nat → β → StateT S Option β
  | 0, _ => failure
  | fuel + 1, b => do
      match ← body b with
      | .done b => return b
      | .yield b => iterate body fuel b

/-- The same work a number of times. -/
def times : Nat → StateT S Option Unit → StateT S Option Unit
  | 0, _ => return ()
  | n + 1, body => do
      body
      times n body

theorem bind_eq_some {m : StateT S Option α} {f : α → StateT S Option β} {s u : S} {b : β}
    (h : (m >>= f) s = some (b, u)) : ∃ a t, m s = some (a, t) ∧ f a t = some (b, u) := by
  rcases Option.bind_eq_some_iff.1 h with ⟨⟨a, t⟩, hm, hf⟩
  exact ⟨a, t, hm, hf⟩

theorem iterate_exit {body : β → StateT S Option (ForInStep β)} {fuel : Nat} {b b' : β} {s t : S}
    (h : iterate body fuel b s = some (b', t)) :
    ∃ b'' s', body b'' s' = some (ForInStep.done b', t) := by
  induction fuel generalizing b s with
  | zero => cases h
  | succ fuel ih =>
      rcases bind_eq_some h with ⟨r, u, hbody, hrest⟩
      cases r with
      | done b'' =>
          cases hrest
          exact ⟨b, s, hbody⟩
      | yield b'' => exact ih hrest

namespace Runs

variable {D : Discipline S τ} {F : Frame D} {look : List τ → Prop} {eats : α → List τ → Prop}

theorem mono {G : Frame D} {look' : List τ → Prop} {eats' : α → List τ → Prop}
    {m : StateT S Option α} (h : Runs F look eats m) (hframe : ∀ s, G.holds s → F.holds s)
    (hlook : ∀ list, look' list → look list)
    (heats : ∀ a list, look' list → eats' a list → eats a list) : Runs G look' eats' m := by
  intro s hinv hG hlook'
  rcases h s hinv (hframe s hG) (hlook _ hlook') with ⟨a, t, hm, ht, hstep, hconsumed⟩
  exact ⟨a, t, hm, ht, hstep, fun h => hconsumed (heats a _ hlook' h)⟩

theorem looking {look' : List τ → Prop} {m : StateT S Option α} (h : Runs F look eats m)
    (hlook : ∀ list, look' list → look list) : Runs F look' eats m :=
  h.mono (fun _ => id) hlook fun _ _ _ => id

theorem plain {m : StateT S Option α} (h : Runs F look eats m) : Runs F look Plain m :=
  h.mono (fun _ => id) (fun _ => id) fun _ _ _ => False.elim

theorem pure {a : α} (h : ∀ list, look list → ¬ eats a list) :
    Runs F look eats (pure a : StateT S Option α) :=
  fun s hinv _ hlook => ⟨a, s, rfl, hinv, D.refl s, fun heats => absurd heats (h _ hlook)⟩

theorem either {eats' : β → List τ → Prop} {m : StateT S Option α} {f : α → StateT S Option β}
    (hm : Runs F look eats m)
    (hf : ∀ a, Runs F Any (fun b list => eats' b list ∧ ¬ eats a list) (f a)) :
    Runs F look eats' (m >>= f) := by
  intro s hinv hF hlook
  rcases hm s hinv hF hlook with ⟨a, t, hrun, ht, hstep, hconsumed⟩
  rcases hf a t ht (F.stable hstep hF) trivial with ⟨b, u, hrun', hu, hstep', hconsumed'⟩
  refine ⟨b, u, ?_, hu, D.trans hstep hstep', fun heats => ?_⟩
  · change (m s).bind _ = _
    rw [hrun]
    exact hrun'
  · have hsuffix := D.suffix hstep
    have hlength := (D.suffix hstep').length_le
    rcases Nat.lt_or_ge (D.ahead t).length (D.ahead s).length with hlt | hge
    · omega
    · have hsame := hsuffix.eq_of_length (Nat.le_antisymm hsuffix.length_le hge)
      rw [hsame] at hconsumed hconsumed'
      exact hconsumed' ⟨heats, fun h => absurd (hconsumed h) (Nat.lt_irrefl _)⟩

theorem bind {eats' : β → List τ → Prop} {m : StateT S Option α} {f : α → StateT S Option β}
    (hm : Runs F look Plain m) (hf : ∀ a, Runs F Any eats' (f a)) :
    Runs F look eats' (m >>= f) :=
  hm.either fun a => (hf a).mono (fun _ => id) (fun _ => id) fun _ _ _ h => h.1

theorem first {eats' : β → List τ → Prop} {m : StateT S Option α} {f : α → StateT S Option β}
    (hm : Runs F look eats m) (hf : ∀ a, Runs F Any Plain (f a))
    (heats : ∀ a b list, look list → eats' b list → eats a list) :
    Runs F look eats' (m >>= f) := by
  intro s hinv hF hlook
  rcases hm s hinv hF hlook with ⟨a, t, hrun, ht, hstep, hconsumed⟩
  rcases hf a t ht (F.stable hstep hF) trivial with ⟨b, u, hrun', hu, hstep', -⟩
  refine ⟨b, u, ?_, hu, D.trans hstep hstep', fun h => ?_⟩
  · change (m s).bind _ = _
    rw [hrun]
    exact hrun'
  · have hlength := (D.suffix hstep').length_le
    have := hconsumed (heats a b _ hlook h)
    omega

theorem seq {m : StateT S Option α} {f : α → StateT S Option β} (hm : Runs F look eats m)
    (hf : ∀ a, Runs F Any Plain (f a)) : Runs F look Plain (m >>= f) :=
  hm.plain.bind hf

theorem read {eats' : β → List τ → Prop} {r : StateT S Option α} {f : α → StateT S Option β}
    (g : List τ → α) (hr : ∀ s, D.inv s → r s = some (g (D.ahead s), s))
    (hf : ∀ list, look list → Runs F (· = list) eats' (f (g list))) :
    Runs F look eats' (r >>= f) := by
  intro s hinv hF hlook
  rcases hf _ hlook s hinv hF rfl with ⟨b, t, hrun, h⟩
  refine ⟨b, t, ?_, h⟩
  change (r s).bind _ = _
  rw [hr s hinv]
  exact hrun

theorem inspect {eats' : β → List τ → Prop} {r : StateT S Option α} {f : α → StateT S Option β}
    (g : S → α) (hr : ∀ s, r s = some (g s, s)) (hf : ∀ a, Runs F look eats' (f a)) :
    Runs F look eats' (r >>= f) := by
  intro s hinv hF hlook
  rcases hf (g s) s hinv hF hlook with ⟨b, t, hrun, h⟩
  refine ⟨b, t, ?_, h⟩
  change (r s).bind _ = _
  rw [hr s]
  exact hrun

theorem done {b : β} : Runs F look IfYield (Pure.pure (ForInStep.done b) : StateT S Option _) :=
  pure fun _ _ ⟨_, h⟩ => nomatch h

theorem yield {m : StateT S Option α} {f : α → β} (hm : Runs F look eats m)
    (heats : ∀ a list, look list → eats a list) :
    Runs F look IfYield (m >>= fun a => Pure.pure (ForInStep.yield (f a))) :=
  hm.first (fun _ => pure fun _ _ => id) fun a _ _ h _ => heats a _ h

theorem finish {m : StateT S Option α} {f : α → β} (hm : Runs F look eats m) :
    Runs F look IfYield (m >>= fun a => Pure.pure (ForInStep.done (f a))) :=
  hm.plain.bind fun _ => done

theorem ite {c : Prop} [Decidable c] {m n : StateT S Option α} (hm : c → Runs F look eats m)
    (hn : ¬ c → Runs F look eats n) : Runs F look eats (if c then m else n) := by
  by_cases hc : c
  · rw [if_pos hc]
    exact hm hc
  · rw [if_neg hc]
    exact hn hc

theorem option {eats' : β → List τ → Prop} {c : Prop} [Decidable c] {m : StateT S Option Unit}
    {f : Unit → StateT S Option β} (hm : c → Runs F look Plain m)
    (hf : ∀ u, Runs F Any eats' (f u)) : Runs F look eats' (if c then m >>= f else f ()) :=
  ite (fun hc => (hm hc).bind hf) fun _ => (hf ()).looking fun _ _ => trivial

theorem iterate {body : β → StateT S Option (ForInStep β)}
    (h : ∀ b, Runs F Any IfYield (body b)) (fuel : Nat) (b : β) (s : S) (hinv : D.inv s)
    (hF : F.holds s) (hfuel : (D.ahead s).length < fuel) :
    ∃ b' t, iterate body fuel b s = some (b', t) ∧ D.inv t ∧ D.step s t := by
  induction fuel generalizing b s with
  | zero => omega
  | succ fuel ih =>
      rcases h b s hinv hF trivial with ⟨r, t, hrun, ht, hstep, hconsumed⟩
      cases r with
      | done b' =>
          refine ⟨b', t, ?_, ht, hstep⟩
          change (body b s).bind _ = _
          rw [hrun]
          rfl
      | yield b' =>
          have hlt := hconsumed ⟨b', rfl⟩
          rcases ih b' t ht (F.stable hstep hF) (by omega) with ⟨b'', u, hrun', hu, hstep'⟩
          refine ⟨b'', u, ?_, hu, D.trans hstep hstep'⟩
          change (body b s).bind _ = _
          rw [hrun]
          exact hrun'

theorem times {body : StateT S Option Unit} (h : Runs F Any Plain body) (n : Nat) :
    Runs F Any Plain (times n body) := by
  induction n with
  | zero => exact pure fun _ _ => id
  | succ n ih => exact h.bind fun _ => ih

end Runs

end Descent

end Library

end Ridl
