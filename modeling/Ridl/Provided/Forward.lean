import Ridl.Provided.Steps

/-!
# Forwarded Claims

What holds of the claims a session forwards, in every run. Requests carry
increasing numbers, and a claim that is pending under a number is the claim its
request was sent for, or a claim that was refused before it was sent and that
the port would not release.

`Good` is the invariant over the events so far, and `Keeps` says that what a
function did keeps it. The functions that only settle are kept by one lemma:
they leave a part of what was pending and send no request.

## Theorems

* `forward_keeps`: A claim taken is sent under the next number, or refused.
* `keeps_steps`: What a session does to its calls keeps the invariant.
* `good_of_run`: The invariant holds in every run.
-/

namespace Ridl

namespace Provided

open Library Server

/-- The number of the request an event sends, if it does. -/
def Event.requestSeq : Event → Option UInt64
  | .request _ (.request _ envelope _) => some envelope.seq
  | _ => none

/-- The numbers of the requests sent, in order. -/
def requests (trace : List Event) : List UInt64 := trace.filterMap Event.requestSeq

/-- The claim's request was sent, with the number it is pending under. -/
def Sent (trace : List Event) (seq : UInt64) (p : Pending) : Prop :=
  ∃ args, .request p.claim (.request p.target ⟨p.stamp, seq⟩ args) ∈ trace

/-- The claim was refused before it was sent, and the port did not release it. -/
def Refused (trace : List Event) (seq : UInt64) (p : Pending) : Prop :=
  seq ∉ requests trace ∧
    ∃ outcome answer, .settled p.claim outcome answer ∈ trace ∧ released answer = false

section Invariant

variable {π : Type} (cfg : Config)

/-- What a session's state says about the events so far. -/
structure Good (trace : List Event) (s : Calls π) : Prop where
  sentBounded : ∀ seq ∈ requests trace, seq ≤ s.next
  increasing : (requests trace).Pairwise (· < ·)
  room : s.pending.size ≤ cfg.capacity
  origin : ∀ (seq : UInt64) (p : Pending), s.pending[seq]? = some p →
    Sent trace seq p ∨ Refused trace seq p

/-- What was done keeps the invariant, and gives no number again. -/
structure Keeps (s : Calls π) (events : List Event) (t : Calls π) : Prop where
  good : ∀ trace, Good cfg trace s → Good cfg (trace ++ events) t
  below : Below s → Below t
  next : s.next ≤ t.next
  gone : ∀ seq ≤ s.next, s.pending[seq]? = none → t.pending[seq]? = none

variable {cfg}

namespace Keeps

variable {s t u : Calls π} {a b : List Event}

theorem trans (hab : Keeps cfg s a t) (hbc : Keeps cfg t b u) : Keeps cfg s (a ++ b) u := by
  refine ⟨fun trace htrace => ?_, fun hs => hbc.below (hab.below hs),
    UInt64.le_trans hab.next hbc.next, fun seq hle hnone => ?_⟩
  · rw [← List.append_assoc]
    exact hbc.good _ (hab.good trace htrace)
  · exact hbc.gone seq (UInt64.le_trans hle hab.next) (hab.gone seq hle hnone)

/-- A function that sends no request and leaves a part of what was pending. -/
theorem of_shrink (hquiet : requests a = []) (hnext : t.next = s.next)
    (hpart : ∀ (seq : UInt64) (p : Pending), t.pending[seq]? = some p → s.pending[seq]? = some p)
    (hsize : t.pending.size ≤ s.pending.size) : Keeps cfg s a t := by
  refine ⟨fun trace h => ?_, fun hs seq p hp => ?_, UInt64.le_of_eq hnext.symm,
    fun seq _ hnone => ?_⟩
  · have hrequests : requests (trace ++ a) = requests trace := by
      unfold requests at hquiet ⊢
      rw [List.filterMap_append, hquiet, List.append_nil]
    refine ⟨fun seq hseq => ?_, ?_, Nat.le_trans hsize h.room, fun seq p hp => ?_⟩
    · rw [hrequests] at hseq
      rw [hnext]
      exact h.sentBounded seq hseq
    · rw [hrequests]
      exact h.increasing
    · rcases h.origin seq p (hpart seq p hp) with ⟨args, hsent⟩ | ⟨hunsent, outcome, answer, hmem, hr⟩
      · exact Or.inl ⟨args, List.mem_append_left _ hsent⟩
      · exact Or.inr ⟨hrequests ▸ hunsent, outcome, answer, List.mem_append_left _ hmem, hr⟩
  · rw [hnext]
    exact hs seq p (hpart seq p hp)
  · rcases hp : t.pending[seq]? with _ | p
    · rfl
    · rw [hpart seq p hp] at hnone
      exact absurd hnone (Option.some_ne_none p)

theorem of_world (hpending : t.pending = s.pending) (hnext : t.next = s.next)
    (hquiet : requests a = []) : Keeps cfg s a t :=
  of_shrink hquiet hnext (fun _ _ hp => hpending ▸ hp) (Nat.le_of_eq (by rw [hpending]))

end Keeps

variable {events : List Event} {answer : Except SettleError Unit}

theorem requests_silent (h : ∀ e ∈ events, e.silent = true) :
    requests events = [] := by
  refine List.filterMap_eq_nil_iff.mpr (fun e he => ?_)
  cases e with
  | note _ => rfl
  | send _ => rfl
  | _ => exact absurd (h _ he) (by simp [Event.silent])

theorem requests_settledAs {claim : ClaimId} {outcome : Settlement}
    (h : SettledAs claim outcome events answer) :
    requests events = [] := by
  cases h <;> rfl

theorem requests_took (claim : Claim) {outcome : Settlement}
    (h : SettledAs claim.id outcome events answer) :
    requests (.took claim :: events) = [] := by
  have hquiet := requests_settledAs h
  exact hquiet

theorem size_left_le (pending : OrdMap UInt64 Pending) (seq : UInt64)
    (answer : Except SettleError Unit) : (Calls.left pending seq answer).size ≤ pending.size := by
  unfold Calls.left
  split
  · exact Std.ExtTreeMap.size_erase_le
  · exact Nat.le_refl _

theorem left_keeps {s : Calls π} {world : π} {seq : UInt64} (hquiet : requests events = []) :
    Keeps cfg s events { s with pending := Calls.left s.pending seq answer, world := world } :=
  Keeps.of_shrink hquiet rfl (fun seq' p => Calls.getElem?_of_left _ _ seq' _ p) (size_left_le _ _ _)

variable (port : Port π)

theorem settle_keeps (s : Calls π) (seq : UInt64) (outcome : Settlement) :
    Keeps cfg s (s.settle port seq outcome).2 (s.settle port seq outcome).1 := by
  rcases hp : s.pending[seq]? with _ | p
  · rw [Calls.settle_none port s seq outcome hp]
    exact Keeps.of_world rfl rfl rfl
  · rcases Calls.settle_spec port s seq p outcome hp with ⟨answer, events, world, hsettle, hsettled⟩
    rw [hsettle]
    exact left_keeps (requests_settledAs hsettled)

theorem refuseShort_keeps (s : Calls π) (claim : ClaimId) :
    Keeps cfg s (s.refuseShort port claim).2.1 (s.refuseShort port claim).1 := by
  unfold Calls.refuseShort
  simp only
  split
  · exact Keeps.of_world rfl rfl rfl
  · exact Keeps.of_world rfl rfl rfl

theorem giveDown_quiet (world : π) (claims : List ClaimId) :
    requests (Calls.giveDown port world claims).2 = [] := by
  induction claims generalizing world with
  | nil => rfl
  | cons claim claims ih =>
      simp only [Calls.giveDown, requests, List.filterMap_cons, Event.requestSeq]
      exact ih _

theorem down_keeps (s : Calls π) : Keeps cfg s (s.down port).2 (s.down port).1 := by
  refine Keeps.of_shrink (giveDown_quiet port _ _) rfl (fun seq p hp => ?_) (Nat.zero_le _)
  exact absurd hp (by rw [(Calls.down_spec port s).1, Std.ExtTreeMap.getElem?_empty]; simp)

theorem size_insert_le (s : Calls π) (seq : UInt64) (p : Pending)
    (h : s.pending.size < cfg.capacity) : (s.pending.insert seq p).size ≤ cfg.capacity :=
  Nat.le_trans Std.ExtTreeMap.size_insert_le h

/-- A claim made pending under the next number, as its events say it was sent
    or refused. -/
theorem insert_keeps (s : Calls π) (p : Pending) (world : π) (events : List Event)
    (hroom : s.pending.size < cfg.capacity) (hnext : s.next.toNat < 2 ^ 64 - 1)
    (horigin : requests events = [s.next + 1] ∧ Sent events (s.next + 1) p ∨
      requests events = [] ∧ ∃ outcome answer, .settled p.claim outcome answer ∈ events ∧
        released answer = false) :
    Keeps cfg s events { s with
      pending := s.pending.insert (s.next + 1) p, next := s.next + 1, world := world } := by
  have hlt := lt_succ hnext
  refine ⟨fun trace h => ?_, fun hs seq p' hp' => ?_, UInt64.le_of_lt hlt,
    fun seq hle hnone => ?_⟩
  · have hnew : requests (trace ++ events) = requests trace ++ requests events :=
      List.filterMap_append
    have hbelow : ∀ seq ∈ requests trace, seq < s.next + 1 :=
      fun seq hseq => UInt64.lt_of_le_of_lt (h.sentBounded seq hseq) hlt
    refine ⟨fun seq hseq => ?_, ?_, size_insert_le s _ p hroom, fun seq p' hp' => ?_⟩
    · rw [hnew, List.mem_append] at hseq
      rcases hseq with hold | hseq
      · exact UInt64.le_of_lt (hbelow seq hold)
      · rcases horigin with ⟨hone, _⟩ | ⟨hnil, _⟩
        · rw [hone, List.mem_singleton] at hseq
          rw [hseq]
          exact UInt64.le_refl _
        · rw [hnil] at hseq
          exact absurd hseq List.not_mem_nil
    · rw [hnew]
      rcases horigin with ⟨hone, _⟩ | ⟨hnil, _⟩
      · rw [hone]
        refine List.pairwise_append.mpr ⟨h.increasing, List.pairwise_singleton _ _, ?_⟩
        intro seq hseq seq' hseq'
        rw [List.mem_singleton.mp hseq']
        exact hbelow seq hseq
      · rw [hnil, List.append_nil]
        exact h.increasing
    · by_cases hkey : s.next + 1 = seq
      · rw [← hkey, OrdMap.getElem?_insert_self, Option.some.injEq] at hp'
        rw [← hkey, ← hp']
        rcases horigin with ⟨_, args, hsent⟩ | ⟨hnil, outcome, answer, hmem, hr⟩
        · exact Or.inl ⟨args, List.mem_append_right _ hsent⟩
        · refine Or.inr ⟨?_, outcome, answer, List.mem_append_right _ hmem, hr⟩
          rw [hnew, hnil, List.append_nil]
          exact fun hseq => absurd (hbelow _ hseq) (UInt64.lt_irrefl _)
      · rw [OrdMap.getElem?_insert_of_ne _ _ _ _ hkey] at hp'
        rcases h.origin seq p' hp' with ⟨args, hsent⟩ | ⟨hunsent, outcome, answer, hmem, hr⟩
        · exact Or.inl ⟨args, List.mem_append_left _ hsent⟩
        · refine Or.inr ⟨?_, outcome, answer, List.mem_append_left _ hmem, hr⟩
          -- a later request has a number above every pending one
          rw [hnew, List.mem_append]
          rintro (hold | hseq)
          · exact hunsent hold
          · rcases horigin with ⟨hone, _⟩ | ⟨hnil, _⟩
            · rw [hone, List.mem_singleton] at hseq
              exact hkey hseq.symm
            · rw [hnil] at hseq
              exact absurd hseq List.not_mem_nil
  · by_cases hkey : s.next + 1 = seq
    · rw [hkey]
      exact UInt64.le_refl _
    · rw [OrdMap.getElem?_insert_of_ne _ _ _ _ hkey] at hp'
      exact UInt64.le_trans (hs seq p' hp') (UInt64.le_of_lt hlt)
  · have hkey : s.next + 1 ≠ seq := by
      intro heq
      rw [← heq] at hle
      exact absurd (UInt64.lt_of_lt_of_le hlt hle) (UInt64.lt_irrefl _)
    exact (OrdMap.getElem?_insert_of_ne _ _ _ _ hkey).trans hnone

theorem forward_keeps (s : Calls π) (claim : Claim) (now : Instant) (localNow : Timestamp)
    (hbelow : Below s) (hroom : s.pending.size < cfg.capacity)
    (hnext : s.next.toNat < 2 ^ 64 - 1) :
    Keeps cfg s (s.forward port cfg claim now localNow).2.1
      (s.forward port cfg claim now localNow).1 := by
  rcases Calls.forward_spec port cfg s claim now localNow (hbelow.free hnext) with
    hsent | ⟨outcome, events, answer, world, hsettled, ⟨_, hgone⟩ | ⟨hkept, hstays⟩⟩
  · rw [hsent]
    exact insert_keeps s _ s.world _ hroom hnext
      (Or.inl ⟨rfl, claim.args, List.mem_cons_of_mem _ (List.mem_singleton_self _)⟩)
  · have hquiet : requests (.took claim :: events) = [] := requests_took claim hsettled
    rw [hgone]
    exact Keeps.of_world rfl rfl hquiet
  · have hquiet : requests (.took claim :: events) = [] := requests_took claim hsettled
    rw [hstays]
    refine insert_keeps s _ world _ hroom hnext (Or.inr ⟨hquiet, ?_⟩)
    cases hsettled with
    | once => exact ⟨_, _, List.mem_cons_of_mem _ List.mem_cons_self, hkept⟩
    | again => exact ⟨_, _, List.mem_cons_of_mem _ List.mem_cons_self, rfl⟩

theorem keeps_steps : Steps port cfg (Keeps cfg) where
  below h := h.below
  trans := Keeps.trans
  silent hpending hnext _ hsilent := Keeps.of_world hpending hnext (requests_silent hsilent)
  settle s seq outcome := settle_keeps port s seq outcome
  forward s claim now localNow hbelow hroom hnext :=
    forward_keeps port s claim now localNow hbelow hroom hnext
  refuseShort s claim := refuseShort_keeps port s claim
  down s := down_keeps port s

end Invariant

section Runs

variable {π : Type} {port : Port π} {cfg : Config}

/-- The events of a run, in order. -/
def trace (xs : List (ProvidedStep π)) : List Event := xs.flatMap (fun x => x.answer.1)

theorem good_of_run {world : π} {xs : List (ProvidedStep π)} {t : Session π}
    (h : (providing port cfg world).IsRun (providing port cfg world).init xs t) :
    Good cfg (trace xs) t.calls ∧ Below t.calls := by
  refine h.history (fun ys u => Good cfg (trace ys) u.calls ∧ Below u.calls) ?_ ?_
  · have hempty : ∀ (seq : UInt64) (p : Pending), (Calls.new world).pending[seq]? ≠ some p := by
      intro seq p hp
      cases (Std.ExtTreeMap.getElem?_empty (a := seq)).symm.trans hp
    exact ⟨⟨List.forall_mem_nil _, List.Pairwise.nil, Nat.zero_le _,
      fun seq p hp => absurd hp (hempty seq p)⟩, fun seq p hp => absurd hp (hempty seq p)⟩
  · rintro ys x _ _ hstep ⟨hgood, hbelow⟩
    have hkeeps := (keeps_steps port).step hbelow hstep
    unfold trace
    rw [List.flatMap_append, List.flatMap_singleton]
    exact ⟨hkeeps.good _ hgood, hkeeps.below hbelow⟩

end Runs

end Provided

end Ridl
