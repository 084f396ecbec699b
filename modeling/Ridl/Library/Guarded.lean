import Mathlib.Data.List.Basic

/-!
# Guarded Recursion

Values of nodes, each from a program that asks for the values of other nodes.
The programs are run with a guard. A node whose value is asked for while it is
being computed has none, so a cycle ends; and a value that was computed is
remembered, so a node that is reached twice is computed once.

Neither shows in the answer. The value of a node is what its program answers
when every node it asks for has a value, and is found in some depth if it is
found at all (`value`). A run answers this value (`run_eq_iff`): whatever was
remembered, and in whatever order the nodes were met. With as many levels as
there are keys a run ends (`run_isSome`).

A run may start under keys that are being computed already. What is asked for
under such a key has no value, which is the same as a body that answers nothing
(`avoid`).

## Theorems

* `value_mono`: A value found in some depth is found in any greater one.
* `run_eq_iff`: A run answers what the program answers from the values.
-/

namespace Ridl

namespace Library

namespace Guarded

variable {N V K α β : Type}

/-- A program that asks for the values of nodes, and may answer nothing. -/
inductive Ask (N V α : Type)
  | done (result : Option α)
  | ask (node : N) (next : V → Ask N V α)

namespace Ask

def bind : Ask N V α → (α → Ask N V β) → Ask N V β
  | .done none, _ => .done none
  | .done (some a), f => f a
  | .ask node next, f => .ask node fun v => (next v).bind f

instance : Monad (Ask N V) where
  pure a := .done (some a)
  bind := bind

end Ask

def valueOf (node : N) : Ask N V V := .ask node fun v => .done (some v)

/-- A value that may be missing. -/
def given (result : Option α) : Ask N V α := .done result

/-- What a program answers where these are the values. -/
def answer (values : N → Option V) : Ask N V α → Option α
  | .done result => result
  | .ask node next => (values node).bind fun v => answer values (next v)

@[simp]
theorem answer_bind (values : N → Option V) (w : Ask N V α) (f : α → Ask N V β) :
    answer values (w >>= f) = (answer values w).bind fun a => answer values (f a) := by
  change answer values (w.bind f) = _
  induction w with
  | done result => cases result <;> rfl
  | ask node next ih =>
      simp only [Ask.bind, answer, Option.bind_assoc]
      exact congrArg _ (funext ih)

@[simp]
theorem answer_given (values : N → Option V) (result : Option α) :
    answer values (given result) = result := rfl

@[simp]
theorem answer_valueOf (values : N → Option V) (node : N) :
    answer values (valueOf node) = values node := Option.bind_fun_some _

theorem answer_mono {values values' : N → Option V}
    (h : ∀ node v, values node = some v → values' node = some v) {w : Ask N V α} {a : α}
    (ha : answer values w = some a) : answer values' w = some a := by
  induction w with
  | done result => exact ha
  | ask node next ih =>
      rcases Option.bind_eq_some_iff.1 ha with ⟨v, hv, hnext⟩
      exact Option.bind_eq_some_iff.2 ⟨v, h node v hv, ih v hnext⟩

section Values

variable (body : N → Ask N V V)

/-- The value of a node that is found in a depth. -/
def value : Nat → N → Option V
  | 0, _ => none
  | depth + 1, node => answer (value depth) (body node)

variable {body}

variable {depth depth' : Nat} {node : N} {v : V}

theorem value_succ (h : value body depth node = some v) :
    value body (depth + 1) node = some v := by
  induction depth generalizing node v with
  | zero => cases h
  | succ depth ih => exact answer_mono (fun _ _ => ih) h

theorem value_mono (hle : depth ≤ depth')
    (h : value body depth node = some v) : value body depth' node = some v := by
  induction hle with
  | refl => exact h
  | step _ ih => exact value_succ ih

theorem answer_value_mono (hle : depth ≤ depth') {w : Ask N V α} {a : α}
    (h : answer (value body depth) w = some a) : answer (value body depth') w = some a :=
  answer_mono (fun _ _ => value_mono hle) h

theorem value_unique {v' : V}
    (h : value body depth node = some v) (h' : value body depth' node = some v') : v = v' := by
  have hmax := value_mono (Nat.le_max_left depth depth') h
  rw [value_mono (Nat.le_max_right depth depth') h'] at hmax
  exact (Option.some.inj hmax).symm

end Values

/-- What is being computed, and what was. -/
structure Guard (K V : Type) where
  visiting : List K
  computed : List (K × V)

variable [DecidableEq K]

/-- A program run with an answer for each node it asks for. A run that does not end is `none`; a
    program that answers nothing still hands its state on. -/
def run {σ : Type} (ask : N → σ → Option (Option V × σ)) : Ask N V α → σ → Option (Option α × σ)
  | .done result, state => some (result, state)
  | .ask node next, state =>
      match ask node state with
      | none => none
      | some (none, state) => some (none, state)
      | some (some v, state) => run ask (next v) state

variable (key : N → K) (body : N → Ask N V V)

/-- The value of a node under the guard, in at most so many levels. -/
def guarded : Nat → N → Guard K V → Option (Option V × Guard K V)
  | 0, _, _ => none
  | fuel + 1, node, guard =>
      match guard.computed.lookup (key node) with
      | some v => some (some v, guard)
      | none =>
          if key node ∈ guard.visiting then some (none, guard)
          else
            (run (guarded fuel) (body node)
                { guard with visiting := key node :: guard.visiting }).map
              fun (out, guard) =>
                (out,
                  { visiting := guard.visiting.tail
                    computed := (out.map (key node, ·)).toList ++ guard.computed })

/-- The bodies, where those under some keys answer nothing. -/
def avoid (keys : List K) (node : N) : Ask N V V :=
  if key node ∈ keys then .done none else body node

section Avoid

variable {key : N → K} {body : N → Ask N V V} {keys : List K}

variable {node : N} {depth : Nat} {v : V}

theorem avoid_of_not_mem (h : key node ∉ keys) : avoid key body keys node = body node :=
  if_neg h

theorem not_mem_of_value
    (h : value (avoid key body keys) depth node = some v) : key node ∉ keys := by
  intro hmem
  cases depth with
  | zero => cases h
  | succ depth =>
      rw [value, avoid, if_pos hmem] at h
      cases h

theorem value_avoid_mono {keys' : List K} (hsub : ∀ k ∈ keys, k ∈ keys')
    (h : value (avoid key body keys') depth node = some v) :
    value (avoid key body keys) depth node = some v := by
  induction depth generalizing node v with
  | zero => cases h
  | succ depth ih =>
      have hnot := not_mem_of_value h
      rw [value, avoid_of_not_mem hnot] at h
      rw [value, avoid_of_not_mem fun hmem => hnot (hsub _ hmem)]
      exact answer_mono (fun _ _ => ih) h

variable (hinj : ∀ node node' : N, key node = key node' → node = node')

include hinj

theorem value_avoid_self (hnone : value (avoid key body keys) depth node = none) {m : N} {d : Nat}
    (hd : d ≤ depth) (h : value (avoid key body keys) d m = some v) :
    value (avoid key body (key node :: keys)) d m = some v := by
  induction d generalizing m v with
  | zero => cases h
  | succ d ih =>
      have hnot := not_mem_of_value h
      have hne : key m ≠ key node := by
        intro hkey
        rw [hinj m node hkey] at h
        rw [value_mono hd h] at hnone
        cases hnone
      rw [value, avoid_of_not_mem hnot] at h
      rw [value, avoid_of_not_mem fun hmem => (List.mem_cons.1 hmem).elim hne hnot]
      exact answer_mono (fun _ _ => ih (Nat.le_of_succ_le hd)) h

theorem exists_value_avoid_self (h : value (avoid key body keys) depth node = some v) :
    ∃ d, answer (value (avoid key body (key node :: keys)) d) (body node) = some v := by
  induction depth with
  | zero => cases h
  | succ depth ih =>
      cases hprev : value (avoid key body keys) depth node with
      | none =>
          refine ⟨depth, ?_⟩
          have hnot := not_mem_of_value h
          rw [value, avoid_of_not_mem hnot] at h
          exact answer_mono (fun _ _ => value_avoid_self hinj hprev (Nat.le_refl _)) h
      | some v' =>
          exact ih (by rw [hprev, value_unique h hprev])

end Avoid

section Answers

variable {key : N → K} {body : N → Ask N V V} {start visiting : List K}

/-- What is remembered are values. -/
def Sound (key : N → K) (body : N → Ask N V V) (start : List K) (computed : List (K × V)) : Prop :=
  ∀ node v, computed.lookup (key node) = some v →
    ∃ depth, value (avoid key body start) depth node = some v

/-- Run under a stack, from sound values, `m` leaves both so. What it answers is the value, and it
    answers the value that does not rest on the stack. -/
def Answers (key : N → K) (body : N → Ask N V V) (start visiting : List K) (w : Ask N V α)
    (m : Guard K V → Option (Option α × Guard K V)) : Prop :=
  ∀ computed out guard, Sound key body start computed → m ⟨visiting, computed⟩ = some (out, guard) →
    guard.visiting = visiting ∧ Sound key body start guard.computed ∧
      (∀ a, out = some a → ∃ depth, answer (value (avoid key body start) depth) w = some a) ∧
      ∀ depth a, answer (value (avoid key body visiting) depth) w = some a → out = some a

theorem run_answers {ask : N → Guard K V → Option (Option V × Guard K V)}
    (hask : ∀ node, Answers key body start visiting (valueOf node) (ask node)) (w : Ask N V α) :
    Answers key body start visiting w (run ask w) := by
  induction w with
  | done result =>
      rintro computed out guard hsound hrun
      cases hrun
      exact ⟨rfl, hsound, fun a h => ⟨0, h⟩, fun _ _ h => h⟩
  | ask node next ih =>
      intro computed out guard hsound hrun
      rw [run] at hrun
      cases hnode : ask node ⟨visiting, computed⟩ with
      | none => simp only [hnode, reduceCtorEq] at hrun
      | some r =>
          rcases r with ⟨_ | v, ⟨visiting', computed'⟩⟩
          · simp only [hnode, Option.some.injEq, Prod.mk.injEq] at hrun
            rcases hrun with ⟨rfl, rfl⟩
            rcases hask node _ _ _ hsound hnode with ⟨hvisiting, hsound', -, hvalue⟩
            refine ⟨hvisiting, hsound', nofun, fun depth a h => ?_⟩
            rcases Option.bind_eq_some_iff.1 h with ⟨v, hv, -⟩
            cases hvalue depth v (by rw [answer_valueOf, hv])
          · simp only [hnode] at hrun
            rcases hask node _ _ _ hsound hnode with ⟨rfl, hsound', hvalue, hvalue'⟩
            rcases ih v _ _ _ hsound' hrun with ⟨hvisiting, hsound'', hnext, hnext'⟩
            refine ⟨hvisiting, hsound'', fun a h => ?_, fun depth a h => ?_⟩
            · rcases hvalue v rfl with ⟨d, hd⟩
              rcases hnext a h with ⟨d', hd'⟩
              rw [answer_valueOf] at hd
              exact ⟨max d d', Option.bind_eq_some_iff.2
                ⟨v, value_mono (Nat.le_max_left d d') hd,
                  answer_value_mono (Nat.le_max_right d d') hd'⟩⟩
            · rcases Option.bind_eq_some_iff.1 h with ⟨v', hv', hrest⟩
              have hsame := hvalue' depth v' (by rw [answer_valueOf, hv'])
              cases hsame
              exact hnext' depth a hrest

theorem guarded_answers (hinj : ∀ node node' : N, key node = key node' → node = node')
    (start visiting : List K) (hstart : ∀ k ∈ start, k ∈ visiting) (fuel : Nat) (node : N) :
    Answers key body start visiting (valueOf node) (guarded key body fuel node) := by
  induction fuel generalizing visiting node with
  | zero => intro _ _ _ _ h; cases h
  | succ fuel ih =>
      intro computed out guard hsound hrun
      rw [guarded] at hrun
      simp only [answer_valueOf]
      cases hlookup : computed.lookup (key node) with
      | some v =>
          simp only [hlookup, Option.some.injEq, Prod.mk.injEq] at hrun
          rcases hrun with ⟨rfl, rfl⟩
          rcases hsound node v hlookup with ⟨d, hd⟩
          refine ⟨rfl, hsound, fun a h => ⟨d, by rw [hd, h]⟩, fun depth a h => ?_⟩
          rw [value_unique hd (value_avoid_mono hstart h)]
      | none =>
          simp only [hlookup] at hrun
          by_cases hvisiting : key node ∈ visiting
          · simp only [hvisiting, if_true, Option.some.injEq, Prod.mk.injEq] at hrun
            rcases hrun with ⟨rfl, rfl⟩
            exact ⟨rfl, hsound, nofun, fun depth a h => absurd hvisiting (not_mem_of_value h)⟩
          · simp only [hvisiting, if_false] at hrun
            rcases Option.map_eq_some_iff.1 hrun with ⟨⟨out', ⟨visiting', computed'⟩⟩, hbody, heq⟩
            simp only [Prod.mk.injEq] at heq
            rcases heq with ⟨rfl, rfl⟩
            have hask := ih (key node :: visiting) fun k hk => List.mem_cons_of_mem _ (hstart k hk)
            rcases run_answers hask (body node) _ _ _ hsound hbody with
              ⟨hstack, hsound', hvalue, hvalue'⟩
            have hbodyvalue : ∀ a, out' = some a →
                ∃ depth, value (avoid key body start) depth node = some a := by
              intro a ha
              rcases hvalue a ha with ⟨d, hd⟩
              refine ⟨d + 1, ?_⟩
              rw [value, avoid_of_not_mem fun hmem => hvisiting (hstart _ hmem)]
              exact hd
            refine ⟨congrArg List.tail hstack, ?_, hbodyvalue, fun depth a h => ?_⟩
            · intro m v hm
              cases out' with
              | none => exact hsound' m v hm
              | some a =>
                  by_cases hkey : key m = key node
                  · rw [hinj m node hkey] at hm ⊢
                    simp only [Option.map_some, Option.toList_some, List.singleton_append,
                      List.lookup_cons_self] at hm
                    rw [← hm]
                    exact hbodyvalue a rfl
                  · refine hsound' m v ?_
                    simpa only [Option.map_some, Option.toList_some, List.singleton_append,
                      List.lookup_cons, beq_false_of_ne hkey] using hm
            · rcases exists_value_avoid_self hinj h with ⟨d, hd⟩
              exact hvalue' d a hd

/-- A run from sound values answers what its program answers, where nothing has a value under the
    keys that are being computed already, and it leaves the stack and sound values. -/
theorem run_eq_iff (hinj : ∀ node node' : N, key node = key node' → node = node') {fuel : Nat}
    {w : Ask N V α} {computed : List (K × V)} {out : Option α} {guard : Guard K V}
    (hsound : Sound key body start computed)
    (hrun : run (guarded key body fuel) w ⟨start, computed⟩ = some (out, guard)) :
    guard.visiting = start ∧ Sound key body start guard.computed ∧
      ∀ a, out = some a ↔ ∃ depth, answer (value (avoid key body start) depth) w = some a := by
  have hask : ∀ node, Answers key body start start (valueOf node) (guarded key body fuel node) :=
    guarded_answers hinj start start (fun _ hk => hk) fuel
  rcases run_answers hask w computed out guard hsound hrun with ⟨hstack, hsound', hvalue, hvalue'⟩
  exact ⟨hstack, hsound', fun a => ⟨hvalue a, fun ⟨depth, h⟩ => hvalue' depth a h⟩⟩

end Answers

section Ends

variable {key : N → K} {body : N → Ask N V V}

/-- Run under a stack, the program ends and leaves the stack. -/
def Ends (visiting : List K) (m : Guard K V → Option (Option α × Guard K V)) : Prop :=
  ∀ computed, ∃ out computed', m ⟨visiting, computed⟩ = some (out, ⟨visiting, computed'⟩)

omit [DecidableEq K] in
theorem run_ends {visiting : List K} {ask : N → Guard K V → Option (Option V × Guard K V)}
    (hask : ∀ node, Ends visiting (ask node)) (w : Ask N V α) : Ends visiting (run ask w) := by
  induction w with
  | done result => exact fun computed => ⟨result, computed, rfl⟩
  | ask node next ih =>
      intro computed
      rcases hask node computed with ⟨_ | v, computed', hnode⟩
      · exact ⟨none, computed', by rw [run, hnode]⟩
      · rcases ih v computed' with ⟨out, computed'', hnext⟩
        exact ⟨out, computed'', by rw [run, hnode]; exact hnext⟩

/-- The keys that are not being computed. -/
def remaining (keys visiting : List K) : List K := keys.filter (· ∉ visiting)

variable {keys : List K}

theorem remaining_cons_lt {visiting : List K} {k : K} (hk : k ∈ keys) (hnot : k ∉ visiting) :
    (remaining keys (k :: visiting)).length < (remaining keys visiting).length := by
  have hsub : remaining keys (k :: visiting) = (remaining keys visiting).filter (· ≠ k) := by
    rw [remaining, remaining, List.filter_filter]
    refine List.filter_congr fun a _ => ?_
    simp only [List.mem_cons, not_or, ne_eq, Bool.decide_and]
  rw [hsub]
  refine List.length_filter_lt_length_iff_exists.2 ⟨k, ?_, by simp⟩
  exact List.mem_filter.2 ⟨hk, decide_eq_true hnot⟩

/-- Each level takes one of the keys that remain. -/
theorem guarded_ends (hkeys : ∀ node, key node ∈ keys) {fuel : Nat}
    (visiting : List K) (hfuel : (remaining keys visiting).length < fuel) (node : N) :
    Ends visiting (guarded key body fuel node) := by
  induction fuel generalizing visiting node with
  | zero => omega
  | succ fuel ih =>
      intro computed
      rw [guarded]
      cases computed.lookup (key node) with
      | some v => exact ⟨some v, computed, rfl⟩
      | none =>
          by_cases hvisiting : key node ∈ visiting
          · exact ⟨none, computed, if_pos hvisiting⟩
          · have hlt := remaining_cons_lt (hkeys node) hvisiting
            have hask := ih (key node :: visiting) (by omega)
            rcases run_ends hask (body node) computed with ⟨out, computed', hbody⟩
            refine ⟨out, (out.map (key node, ·)).toList ++ computed', ?_⟩
            simp only [hvisiting, if_false, hbody, Option.map_some, List.tail_cons]

theorem run_isSome (hkeys : ∀ node, key node ∈ keys) {fuel : Nat}
    (hfuel : keys.length < fuel) (w : Ask N V α) (guard : Guard K V) :
    ∃ out guard', run (guarded key body fuel) w guard = some (out, guard') := by
  have hlength : (remaining keys guard.visiting).length ≤ keys.length := List.length_filter_le _ _
  have hask : ∀ node, Ends guard.visiting (guarded key body fuel node) :=
    guarded_ends hkeys guard.visiting (Nat.lt_of_le_of_lt hlength hfuel)
  rcases run_ends hask w guard.computed with ⟨out, computed, h⟩
  exact ⟨out, ⟨guard.visiting, computed⟩, h⟩

end Ends

end Guarded

end Library

end Ridl
