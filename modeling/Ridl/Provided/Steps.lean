import Ridl.Provided.Settling

/-!
# Steps of the Session

What a session does to its calls, taken apart: it settles a pending claim,
forwards a claim or refuses one that is too long, gives every claim `down`, or
does something else that leaves the claims alone. A relation between the calls
before and after, with the events in between, holds of every call of the
session when it holds of each of these and is transitive.

## Theorems

* `Steps.takeClaims`: It holds of the loop that takes claims.
* `Steps.step`: It holds of every call of the session.
-/

namespace Ridl

namespace Provided

open Library Server

/-- The event is about no claim. -/
def Event.silent : Event → Bool
  | .note _ | .send _ => true
  | _ => false

section Below

variable {π : Type}

/-- Nothing is pending above the last number given. -/
def Below (s : Calls π) : Prop :=
  ∀ (seq : UInt64) (p : Pending), s.pending[seq]? = some p → seq ≤ s.next

theorem toNat_succ {n : UInt64} (h : n.toNat < 2 ^ 64 - 1) : (n + 1).toNat = n.toNat + 1 := by
  rw [UInt64.toNat_add, Nat.mod_eq_of_lt]
  · rfl
  · exact Nat.add_lt_of_lt_sub h

theorem lt_succ {n : UInt64} (h : n.toNat < 2 ^ 64 - 1) : n < n + 1 := by
  rw [UInt64.lt_iff_toNat_lt, toNat_succ h]
  exact Nat.lt_succ_self _

theorem Below.free {s : Calls π} (h : Below s) (hnext : s.next.toNat < 2 ^ 64 - 1) :
    s.pending[s.next + 1]? = none := by
  rcases hp : s.pending[s.next + 1]? with _ | p
  · rfl
  · exact absurd (UInt64.lt_of_lt_of_le (lt_succ hnext) (h _ p hp)) (UInt64.lt_irrefl _)

end Below

section Rule

variable {π : Type} (port : Port π) (cfg : Config)

/-- A relation that holds of each thing a session does to its calls. -/
structure Steps (R : Calls π → List Event → Calls π → Prop) : Prop where
  below : ∀ {s t a}, R s a t → Below s → Below t
  trans : ∀ {s t u a b}, R s a t → R t b u → R s (a ++ b) u
  silent : ∀ {s t : Calls π} {a}, t.pending = s.pending → t.next = s.next → t.short = s.short →
    (∀ e ∈ a, e.silent = true) → R s a t
  settle : ∀ (s : Calls π) seq outcome, R s (s.settle port seq outcome).2 (s.settle port seq outcome).1
  forward : ∀ (s : Calls π) claim now localNow, Below s → s.pending.size < cfg.capacity →
    s.next.toNat < 2 ^ 64 - 1 →
      R s (s.forward port cfg claim now localNow).2.1 (s.forward port cfg claim now localNow).1
  refuseShort : ∀ (s : Calls π) claim, R s (s.refuseShort port claim).2.1 (s.refuseShort port claim).1
  down : ∀ s : Calls π, R s (s.down port).2 (s.down port).1

namespace Steps

variable {port cfg} {R : Calls π → List Event → Calls π → Prop} (hR : Steps port cfg R)

include hR

theorem quiet {s t : Calls π} (hpending : t.pending = s.pending) (hnext : t.next = s.next)
    (hshort : t.short = s.short) : R s [] t := hR.silent hpending hnext hshort (List.forall_mem_nil _)

theorem settleAll (s : Calls π) (l : List (UInt64 × Settlement)) :
    R s (s.settleAll port l).2 (s.settleAll port l).1 := by
  induction l generalizing s with
  | nil => exact hR.quiet rfl rfl rfl
  | cons e l ih =>
      simp only [Calls.settleAll]
      exact hR.trans (hR.settle s e.1 e.2) (ih _)

/-- A response passes over the claims whose time has passed, and goes on from
    what that left. -/
theorem after_pass_response (s : Calls π) (target : Target) (correlation : UInt64)
    (outcome : ResponseOutcome) (now : Instant) :
    let e := s.expire port now (port.now s.world)
    let r := s.response port cfg target correlation outcome now
    ∃ rest, r.2 = e.2 ++ rest ∧ R e.1 rest r.1 := by
  have hnote : ∀ (u : Calls π) (note : Note), R u [.note note] u := fun u note =>
    hR.silent rfl rfl rfl (List.forall_mem_singleton.mpr rfl)
  unfold Calls.response
  simp only
  split
  · split
    · exact ⟨_, rfl, hR.settle _ _ _⟩
    · exact ⟨_, rfl, hnote _ _⟩
  · exact ⟨_, rfl, hnote _ _⟩

theorem response (s : Calls π) (target : Target) (correlation : UInt64)
    (outcome : ResponseOutcome) (now : Instant) :
    R s (s.response port cfg target correlation outcome now).2
      (s.response port cfg target correlation outcome now).1 := by
  rcases hR.after_pass_response s target correlation outcome now with ⟨rest, hevents, hrest⟩
  rw [hevents]
  exact hR.trans (hR.settleAll s _) hrest

theorem takeClaims (now : Instant) (localNow : Timestamp) (fuel : Nat) (s t : Calls π)
    (events : List Event) (step : Step) (hbelow : Below s)
    (h : s.takeClaims port cfg now localNow fuel = some (t, events, step)) : R s events t := by
  induction fuel generalizing s t events step with
  | zero => exact absurd h (by simp [Calls.takeClaims])
  | succ fuel ih =>
      unfold Calls.takeClaims at h
      split at h
      · next hfree =>
        simp only at h
        have hworld : R s [] { s with world := (port.nextClaim s.world CALL_CEILING).2 } :=
          hR.quiet rfl rfl rfl
        have hloop : ∀ r : Calls π × List Event × Bool,
            R { s with world := (port.nextClaim s.world CALL_CEILING).2 } r.2.1 r.1 →
            (if r.2.2 then (r.1.takeClaims port cfg now localNow fuel).map
                (fun q => (q.1, r.2.1 ++ q.2.1, q.2.2))
              else some (r.1, r.2.1, .cont)) = some (t, events, step) → R s events t := by
          intro r hr hrest
          have hfirst := hR.trans hworld hr
          split at hrest
          · rcases Option.map_eq_some_iff.mp hrest with ⟨⟨u, more, step'⟩, hmore, heq⟩
            simp only [Prod.mk.injEq] at heq
            rcases heq with ⟨rfl, rfl, _⟩
            exact hR.trans hfirst (ih _ _ _ _ (hR.below hfirst hbelow) hmore)
          · simp only [Option.some.injEq, Prod.mk.injEq] at hrest
            rcases hrest with ⟨rfl, rfl, _⟩
            exact hfirst
        split at h
        · exact hloop _ (hR.forward _ _ now localNow hbelow hfree.1 hfree.2) h
        · exact hloop _ (hR.refuseShort _ _) h
        · simp only [Option.some.injEq, Prod.mk.injEq] at h
          rcases h with ⟨rfl, rfl, _⟩
          exact hworld
        · simp only [Option.some.injEq, Prod.mk.injEq] at h
          rcases h with ⟨rfl, rfl, _⟩
          exact hworld
      · simp only [Option.some.injEq, Prod.mk.injEq] at h
        rcases h with ⟨rfl, rfl, _⟩
        exact hR.quiet rfl rfl rfl

/-- A tick passes over the claims whose time has passed, and goes on from what
    that left. -/
theorem after_pass_tick (s t : Calls π) (now : Instant) (fuel : Nat) (events : List Event)
    (step : Step) (hbelow : Below s) (h : s.tick port cfg now fuel = some (t, events, step)) :
    let e := s.expire port now (port.now s.world)
    ∃ rest, events = e.2 ++ rest ∧ R e.1 rest t := by
  have hexpire := hR.settleAll s (s.dueClaims now (port.now s.world))
  unfold Calls.tick at h
  simp only at h
  split at h
  · simp only [Option.some.injEq, Prod.mk.injEq] at h
    rcases h with ⟨rfl, rfl, _⟩
    exact ⟨[], (List.append_nil _).symm, hR.quiet rfl rfl rfl⟩
  · rcases Option.map_eq_some_iff.mp h with ⟨⟨u, more, step'⟩, hmore, heq⟩
    simp only [Prod.mk.injEq] at heq
    rcases heq with ⟨rfl, rfl, _⟩
    exact ⟨more, rfl, hR.takeClaims now _ fuel _ _ _ _ (hR.below hexpire hbelow) hmore⟩

theorem tick (s t : Calls π) (now : Instant) (fuel : Nat) (events : List Event) (step : Step)
    (hbelow : Below s) (h : s.tick port cfg now fuel = some (t, events, step)) : R s events t := by
  rcases hR.after_pass_tick s t now fuel events step hbelow h with ⟨rest, hevents, hrest⟩
  rw [hevents]
  exact hR.trans (hR.settleAll s _) hrest

theorem onMessage (s : Session π) (frame : Frame) (now : Instant) (change : π → π) :
    R s.calls (s.onMessage port cfg frame now change).2.1
      (s.onMessage port cfg frame now change).1.calls := by
  have hsent : ∀ e ∈ Session.subscriptions cfg, e.silent = true := by
    intro e he
    rcases List.mem_map.mp he with ⟨target, _, rfl⟩
    rfl
  unfold Session.onMessage
  split
  · simp only
    split
    · exact hR.silent rfl rfl rfl (List.forall_mem_singleton.mpr rfl)
    · exact hR.silent rfl rfl rfl hsent
  · exact hR.quiet rfl rfl rfl
  · exact hR.response s.calls _ _ _ now
  · exact hR.quiet rfl rfl rfl
  · exact hR.quiet rfl rfl rfl
  · exact hR.quiet rfl rfl rfl
  · exact hR.silent rfl rfl rfl (List.forall_mem_singleton.mpr rfl)

theorem step {s t : Session π} {op : ProvidedOp π} {events : List Event} {step : Step}
    (hbelow : Below s.calls) (h : s.step port cfg op = some (t, events, step)) :
    R s.calls events t.calls := by
  unfold Session.step at h
  split at h
  · exact absurd h (by simp)
  · cases op with
    | message frame now change =>
        simp only [Option.some.injEq] at h
        have hmessage := hR.onMessage s frame now change
        rwa [h] at hmessage
    | garbled error =>
        have hnote : ∀ note : Note, R s.calls [.note note] s.calls := fun note =>
          hR.silent rfl rfl rfl (List.forall_mem_singleton.mpr rfl)
        simp only [Option.some.injEq] at h
        cases error with
        | violation v =>
            simp only [Session.garbled, Prod.mk.injEq] at h
            rcases h with ⟨rfl, rfl, _⟩
            exact hnote _
        | discard d =>
            unfold Session.garbled at h
            simp only at h
            split at h <;>
            · simp only [Prod.mk.injEq] at h
              rcases h with ⟨rfl, rfl, _⟩
              exact hnote _
    | tick now fuel commit =>
        have hcommit : R s.calls [] (s.deliver commit).calls := hR.quiet rfl rfl rfl
        unfold Session.tick at h
        simp only at h
        split at h
        · rcases Option.map_eq_some_iff.mp h with ⟨⟨u, more, step'⟩, hmore, heq⟩
          simp only [Prod.mk.injEq] at heq
          rcases heq with ⟨rfl, rfl, _⟩
          exact hR.trans hcommit (hR.tick _ _ now fuel _ _ (hR.below hcommit hbelow) hmore)
        · simp only [Option.some.injEq, Prod.mk.injEq] at h
          rcases h with ⟨rfl, rfl, _⟩
          exact hcommit
    | world change =>
        simp only [Option.some.injEq, Prod.mk.injEq] at h
        rcases h with ⟨rfl, rfl, _⟩
        exact hR.quiet rfl rfl rfl
    | drop =>
        simp only [Option.some.injEq, Prod.mk.injEq] at h
        rcases h with ⟨rfl, rfl, _⟩
        exact hR.down s.calls

end Steps

end Rule

end Provided

end Ridl
