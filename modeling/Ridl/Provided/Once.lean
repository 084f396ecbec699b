import Ridl.Provided.Forward

/-!
# One Settlement per Claim

A claim the session takes is settled successfully at most once. The session
forgets a pending claim as soon as the port has taken a settlement for it, so a
second success takes a claim that the session owns twice: pending under two
numbers, or pending and remembered as too long.

A port that keeps its contract never makes it own one twice. It presents a
claim again only while it is too long to be read, and no claim that was settled.
`Fresh` is that contract, read off the events of a run.

## Theorems

* `settle_once`, `forward_once`, `refuseShort_once`, `down_once`: Each thing
  done to the calls keeps it.
* `once_of_run`: A claim is settled successfully at most once.
-/

namespace Ridl

namespace Provided

open Library Server

namespace Event

/-- The claim is taken. -/
def takes (id : ClaimId) : Event → Bool
  | .took claim => claim.id = id
  | _ => false

/-- The claim is presented as too long. -/
def shorts (id : ClaimId) : Event → Bool
  | .short claim => claim = id
  | _ => false

def settles (id : ClaimId) : Event → Bool
  | .settled claim _ (.ok ()) => claim = id
  | _ => false

end Event

/-- The port's contract between an earlier event and a later one: no claim is
    presented after it was taken or settled, and none is taken after it was
    presented as too long, since the buffer stays the same. -/
def Follows (id : ClaimId) (e later : Event) : Prop :=
  (later.takes id = true ∨ later.shorts id = true → e.takes id = false ∧ e.settles id = false) ∧
  (later.takes id = true → e.shorts id = false)

/-- The port presents the claim as its contract says. -/
def Fresh (id : ClaimId) (trace : List Event) : Prop := trace.Pairwise (Follows id)

/-- The successful settlements of a claim. -/
def settlements (id : ClaimId) (trace : List Event) : Nat := trace.countP (Event.settles id)

section Claims

variable {π : Type} (id : ClaimId)

/-- The claim is pending under no number. -/
def Unowned (s : Calls π) : Prop :=
  ∀ (seq : UInt64) (p : Pending), s.pending[seq]? = some p → p.claim ≠ id

/-- What a session owns of a claim, and whether it was settled. -/
structure Once (trace : List Event) (s : Calls π) : Prop where
  taken : ∀ (seq : UInt64) (p : Pending), s.pending[seq]? = some p → p.claim = id →
    ∃ e ∈ trace, e.takes id = true
  single : ∀ (seq seq' : UInt64) (p p' : Pending), s.pending[seq]? = some p →
    s.pending[seq']? = some p' → p.claim = id → p'.claim = id → seq = seq'
  shorted : s.short = some id → ∃ e ∈ trace, e.shorts id = true
  apart : s.short = some id → Unowned id s
  count : settlements id trace ≤ 1
  done : settlements id trace = 1 → s.short ≠ some id ∧ Unowned id s

/-- What was done to the calls settles the claim once at most, if the port
    keeps its contract. -/
structure OnceStep (s : Calls π) (events : List Event) (t : Calls π) : Prop where
  once : ∀ trace, Fresh id (trace ++ events) → Once id trace s → Once id (trace ++ events) t
  below : Below s → Below t

variable {id} {s t u : Calls π}

theorem OnceStep.trans {a b : List Event} (hab : OnceStep id s a t) (hbc : OnceStep id t b u) :
    OnceStep id s (a ++ b) u := by
  refine ⟨fun trace hfresh hs => ?_, fun hs => hbc.below (hab.below hs)⟩
  rw [← List.append_assoc] at hfresh ⊢
  exact hbc.once _ hfresh (hab.once trace (List.pairwise_append.mp hfresh).1 hs)

theorem settlements_append (a b : List Event) :
    settlements id (a ++ b) = settlements id a + settlements id b := List.countP_append

variable {trace events : List Event}

theorem Fresh.presented (h : Fresh id (trace ++ events)) (e : Event)
    (he : e ∈ events) (hpresents : e.takes id = true ∨ e.shorts id = true) :
    (∀ x ∈ trace, x.takes id = false) ∧ settlements id trace = 0 := by
  have hbefore := (List.pairwise_append.mp h).2.2
  refine ⟨fun x hx => ((hbefore x hx e he).1 hpresents).1, ?_⟩
  refine List.countP_eq_zero.mpr (fun x hx => ?_)
  rw [((hbefore x hx e he).1 hpresents).2]
  exact Bool.false_ne_true

theorem Once.unowned (h : Once id trace s)
    (hnone : ∀ x ∈ trace, x.takes id = false) : Unowned id s := by
  intro seq p hp hclaim
  rcases h.taken seq p hp hclaim with ⟨e, he, htakes⟩
  rw [hnone e he] at htakes
  exact absurd htakes Bool.false_ne_true

/-- Fewer claims, and no settlement of this one. -/
theorem Once.shrink (h : Once id trace s)
    (hquiet : settlements id events = 0) (hshort : t.short = s.short)
    (hpart : ∀ (seq : UInt64) (p : Pending), t.pending[seq]? = some p → s.pending[seq]? = some p) :
    Once id (trace ++ events) t := by
  have hcount : settlements id (trace ++ events) = settlements id trace := by
    rw [settlements_append, hquiet, Nat.add_zero]
  refine ⟨fun seq p hp hclaim => ?_, fun seq seq' p p' hp hp' => ?_, fun hs => ?_, fun hs => ?_,
    hcount ▸ h.count, fun hone => ?_⟩
  · rcases h.taken seq p (hpart seq p hp) hclaim with ⟨e, he, htakes⟩
    exact ⟨e, List.mem_append_left _ he, htakes⟩
  · exact h.single seq seq' p p' (hpart seq p hp) (hpart seq' p' hp')
  · rcases h.shorted (hshort ▸ hs) with ⟨e, he, hshorts⟩
    exact ⟨e, List.mem_append_left _ he, hshorts⟩
  · exact fun seq p hp => h.apart (hshort ▸ hs) seq p (hpart seq p hp)
  · rcases h.done (hcount ▸ hone) with ⟨hnot, hunowned⟩
    exact ⟨hshort ▸ hnot, fun seq p hp => hunowned seq p (hpart seq p hp)⟩

theorem settlements_of_ne {claim : ClaimId} {outcome : Settlement}
    {answer : Except SettleError Unit} (h : SettledAs claim outcome events answer)
    (hne : claim ≠ id) : settlements id events = 0 := by
  refine List.countP_eq_zero.mpr (fun e he => ?_)
  rcases h.mem e he with ⟨given, a, rfl, _⟩
  cases a with
  | ok _ => exact fun hsettles => hne (of_decide_eq_true hsettles)
  | error _ => exact Bool.false_ne_true

theorem settlements_settledAs {outcome : Settlement}
    {answer : Except SettleError Unit} (h : SettledAs id outcome events answer) :
    settlements id events = if answer = .ok () then 1 else 0 := by
  cases h with
  | once answer _ =>
      cases answer with
      | ok _ => simp [settlements, Event.settles]
      | error _ => simp [settlements, Event.settles]
  | again cap answer =>
      cases answer with
      | ok _ => simp [settlements, Event.settles]
      | error _ => simp [settlements, Event.settles]

variable (port : Port π)

theorem settle_once (s : Calls π) (seq : UInt64) (outcome : Settlement) :
    OnceStep id s (s.settle port seq outcome).2 (s.settle port seq outcome).1 := by
  rcases hp : s.pending[seq]? with _ | p
  · rw [Calls.settle_none port s seq outcome hp]
    exact ⟨fun trace _ hs => hs.shrink rfl rfl (fun _ _ h => h), fun hs => hs⟩
  rcases Calls.settle_spec port s seq p outcome hp with ⟨answer, events, world, hsettle, hsettled⟩
  rw [hsettle]
  have hpart := fun seq' p' => Calls.getElem?_of_left s.pending seq seq' answer p'
  refine ⟨fun trace _ hs => ?_, fun hs seq' p' hp' => hs seq' p' (hpart seq' p' hp')⟩
  by_cases hclaim : p.claim = id
  · by_cases hok : answer = .ok ()
    · -- the claim is settled now, and the session owns it no more
      rw [hclaim] at hsettled
      have hcount : settlements id trace = 0 := by
        by_contra hne
        have hone : settlements id trace = 1 := by
          have hle := hs.count
          omega
        exact (hs.done hone).2 seq p hp hclaim
      have hunowned : Unowned id { s with
          pending := Calls.left s.pending seq answer, world := world } := by
        intro seq' p' hp' hclaim'
        have hsame := hs.single seq' seq p' p (hpart seq' p' hp') hp hclaim' hclaim
        have hgone := Calls.getElem?_left_self s.pending seq answer
        rw [hok] at hgone
        rw [hsame, hok] at hp'
        rw [hgone] at hp'
        exact absurd hp' (by simp [released])
      have hnew : settlements id (trace ++ events) = 1 := by
        rw [settlements_append, hcount, settlements_settledAs hsettled, if_pos hok]
      have hnot : s.short ≠ some id := fun hshort => hs.apart hshort seq p hp hclaim
      exact ⟨fun seq' p' hp' hclaim' => absurd hclaim' (hunowned seq' p' hp'),
        fun seq' _ p' _ hp' _ hclaim' _ => absurd hclaim' (hunowned seq' p' hp'),
        fun hshort => absurd hshort hnot, fun hshort => absurd hshort hnot,
        Nat.le_of_eq hnew, fun _ => ⟨hnot, hunowned⟩⟩
    · rw [hclaim] at hsettled
      refine hs.shrink ?_ rfl hpart
      rw [settlements_settledAs hsettled, if_neg hok]
  · exact hs.shrink (settlements_of_ne hsettled hclaim) rfl hpart

theorem Once.insert_other (h : Once id trace s)
    (hquiet : settlements id events = 0) (hshort : t.short = s.short) (seq : UInt64) (p : Pending)
    (hpending : t.pending = s.pending.insert seq p) (hne : p.claim ≠ id) :
    Once id (trace ++ events) t := by
  have hcount : settlements id (trace ++ events) = settlements id trace := by
    rw [settlements_append, hquiet, Nat.add_zero]
  have hold : ∀ (seq' : UInt64) (p' : Pending), t.pending[seq']? = some p' → p'.claim = id →
      s.pending[seq']? = some p' := by
    intro seq' p' hp' hclaim
    rw [hpending, OrdMap.getElem?_insert] at hp'
    split at hp'
    · rw [Option.some.injEq] at hp'
      exact absurd hclaim (hp' ▸ hne)
    · exact hp'
  refine ⟨fun seq' p' hp' hclaim => ?_, fun a b p' q' hp' hq' hcp hcq => ?_, fun hs => ?_,
    fun hs seq' p' hp' hclaim => ?_, hcount ▸ h.count, fun hone => ?_⟩
  · rcases h.taken seq' p' (hold seq' p' hp' hclaim) hclaim with ⟨e, he, htakes⟩
    exact ⟨e, List.mem_append_left _ he, htakes⟩
  · exact h.single a b p' q' (hold a p' hp' hcp) (hold b q' hq' hcq) hcp hcq
  · rcases h.shorted (hshort ▸ hs) with ⟨e, he, hshorts⟩
    exact ⟨e, List.mem_append_left _ he, hshorts⟩
  · exact h.apart (hshort ▸ hs) seq' p' (hold seq' p' hp' hclaim) hclaim
  · rcases h.done (hcount ▸ hone) with ⟨hnot, hunowned⟩
    exact ⟨hshort ▸ hnot, fun seq' p' hp' hclaim =>
      hunowned seq' p' (hold seq' p' hp' hclaim) hclaim⟩

/-- A claim made pending that is taken now: nothing is owned of it before. -/
theorem Once.insert_self (h : Once id trace s)
    (hfresh : Fresh id (trace ++ events)) (htook : ∃ e ∈ events, e.takes id = true)
    (hquiet : settlements id events = 0) (hshort : t.short = s.short) (seq : UInt64) (p : Pending)
    (hpending : t.pending = s.pending.insert seq p) : Once id (trace ++ events) t := by
  rcases htook with ⟨e, he, htakes⟩
  rcases hfresh.presented e he (Or.inl htakes) with ⟨hnone, hzero⟩
  have hunowned := h.unowned hnone
  have hcount : settlements id (trace ++ events) = 0 := by
    rw [settlements_append, hquiet, hzero]
  have hnot : t.short ≠ some id := by
    intro hs
    rcases h.shorted (hshort ▸ hs) with ⟨x, hx, hshorts⟩
    have hbefore := ((List.pairwise_append.mp hfresh).2.2 x hx e he).2 htakes
    rw [hbefore] at hshorts
    exact absurd hshorts Bool.false_ne_true
  have hnew : ∀ (seq' : UInt64) (p' : Pending), t.pending[seq']? = some p' → p'.claim = id →
      seq' = seq := by
    intro seq' p' hp' hclaim
    by_contra hne
    rw [hpending, OrdMap.getElem?_insert_of_ne _ _ _ _ (Ne.symm hne)] at hp'
    exact hunowned seq' p' hp' hclaim
  refine ⟨fun _ _ _ _ => ⟨e, List.mem_append_right _ he, htakes⟩,
    fun a b p' q' hp' hq' hcp hcq => (hnew a p' hp' hcp).trans (hnew b q' hq' hcq).symm,
    fun hs => absurd hs hnot, fun hs => absurd hs hnot, ?_, fun hone => ?_⟩
  · rw [hcount]
    exact Nat.zero_le 1
  · rw [hcount] at hone
    exact absurd hone (by simp)

/-- A claim taken and released at once. -/
theorem Once.pass (h : Once id trace s)
    (hfresh : Fresh id (trace ++ events)) (htook : ∃ e ∈ events, e.takes id = true)
    (hcount : settlements id events ≤ 1) (hshort : t.short = s.short)
    (hpending : t.pending = s.pending) : Once id (trace ++ events) t := by
  rcases htook with ⟨e, he, htakes⟩
  rcases hfresh.presented e he (Or.inl htakes) with ⟨hnone, hzero⟩
  have hunowned : Unowned id t := fun seq p hp => h.unowned hnone seq p (hpending ▸ hp)
  have hnot : t.short ≠ some id := by
    intro hs
    rcases h.shorted (hshort ▸ hs) with ⟨x, hx, hshorts⟩
    rw [((List.pairwise_append.mp hfresh).2.2 x hx e he).2 htakes] at hshorts
    exact absurd hshorts Bool.false_ne_true
  refine ⟨fun seq p hp hclaim => absurd hclaim (hunowned seq p hp),
    fun seq _ p _ hp _ hclaim _ => absurd hclaim (hunowned seq p hp),
    fun hs => absurd hs hnot, fun hs => absurd hs hnot, ?_, fun _ => ⟨hnot, hunowned⟩⟩
  rw [settlements_append, hzero, Nat.zero_add]
  exact hcount

theorem forward_once (cfg : Config) (s : Calls π) (claim : Claim) (now : Instant)
    (localNow : Timestamp) (hbelow : Below s) (hnext : s.next.toNat < 2 ^ 64 - 1)
    (hstays : Below s → Below (s.forward port cfg claim now localNow).1) :
    OnceStep id s (s.forward port cfg claim now localNow).2.1
      (s.forward port cfg claim now localNow).1 := by
  refine ⟨fun trace hfresh hs => ?_, hstays⟩
  rcases Calls.forward_spec port cfg s claim now localNow (hbelow.free hnext) with
    hsent | ⟨outcome, events, answer, world, hsettled, ⟨_, hgone⟩ | ⟨hkept, hstay⟩⟩
  · rw [hsent] at hfresh ⊢
    by_cases hclaim : claim.id = id
    · exact hs.insert_self hfresh ⟨_, List.mem_cons_self, decide_eq_true hclaim⟩ rfl rfl _ _ rfl
    · exact hs.insert_other rfl rfl _ _ rfl hclaim
  · have htook : settlements id (.took claim :: events) = settlements id events :=
      List.countP_cons_of_neg (by simp [Event.settles])
    rw [hgone] at hfresh ⊢
    by_cases hclaim : claim.id = id
    · refine hs.pass hfresh ⟨_, List.mem_cons_self, decide_eq_true hclaim⟩ ?_ rfl rfl
      rw [hclaim] at hsettled
      rw [htook, settlements_settledAs hsettled]
      split
      · exact Nat.le_refl 1
      · exact Nat.zero_le 1
    · exact hs.shrink (htook.trans (settlements_of_ne hsettled hclaim)) rfl (fun _ _ h => h)
  · have htook : settlements id (.took claim :: events) = settlements id events :=
      List.countP_cons_of_neg (by simp [Event.settles])
    rw [hstay] at hfresh ⊢
    by_cases hclaim : claim.id = id
    · refine hs.insert_self hfresh ⟨_, List.mem_cons_self, decide_eq_true hclaim⟩ ?_ rfl _ _ rfl
      have hfailed : answer ≠ .ok () := by
        intro hok
        rw [hok] at hkept
        exact absurd hkept (by simp [released])
      rw [hclaim] at hsettled
      rw [htook, settlements_settledAs hsettled, if_neg hfailed]
    · exact hs.insert_other (htook.trans (settlements_of_ne hsettled hclaim)) rfl _ _ rfl hclaim

theorem refuseShort_once (s : Calls π) (claim : ClaimId) :
    OnceStep id s (s.refuseShort port claim).2.1 (s.refuseShort port claim).1 := by
  rcases Calls.refuseShort_spec port s claim with ⟨answer, world, hevents, hcalls⟩
  rw [hevents, hcalls]
  have hcount : settlements id [.short claim, .settled claim corrupt answer] =
      if claim = id ∧ answer = .ok () then 1 else 0 := by
    cases answer with
    | ok _ => by_cases hclaim : claim = id <;> simp [settlements, Event.settles, hclaim]
    | error _ => simp [settlements, Event.settles]
  refine ⟨fun trace hfresh hs => ?_, fun hs => hs⟩
  by_cases hclaim : claim = id
  · rcases hfresh.presented (.short claim) List.mem_cons_self (Or.inr (decide_eq_true hclaim)) with
      ⟨hnone, hzero⟩
    have hunowned := hs.unowned hnone
    have hshorted : ∃ e ∈ trace ++ [.short claim, .settled claim corrupt answer],
        e.shorts id = true :=
      ⟨.short claim, List.mem_append_right _ List.mem_cons_self, decide_eq_true hclaim⟩
    refine ⟨fun seq p hp hid => absurd hid (hunowned seq p hp),
      fun seq _ p _ hp _ hid _ => absurd hid (hunowned seq p hp), fun _ => hshorted,
      fun _ => hunowned, ?_, fun hone => ⟨?_, hunowned⟩⟩
    · rw [settlements_append, hzero, hcount]
      split
      · exact Nat.le_refl 1
      · exact Nat.zero_le 1
    · -- a claim settled now is not remembered
      by_cases hok : answer = .ok ()
      · simp [hok]
      · rw [settlements_append, hzero, hcount, if_neg (fun h => hok h.2)] at hone
        exact absurd hone (by simp)
  · have hquiet : settlements id [.short claim, .settled claim corrupt answer] = 0 := by
      rw [hcount, if_neg (fun h => hclaim h.1)]
    have hnew : settlements id (trace ++ [.short claim, .settled claim corrupt answer]) =
        settlements id trace := by
      rw [settlements_append, hquiet, Nat.add_zero]
    have hnot : (if answer = .ok () then none else some claim) ≠ some id := by
      split
      · simp
      · simp [hclaim]
    refine ⟨fun seq p hp hid => ?_, hs.single, fun h => absurd h hnot, fun h => absurd h hnot,
      hnew ▸ hs.count, fun hone => ⟨hnot, (hs.done (hnew ▸ hone)).2⟩⟩
    rcases hs.taken seq p hp hid with ⟨e, he, htakes⟩
    exact ⟨e, List.mem_append_left _ he, htakes⟩

theorem giveDown_settlements (world : π) (claims : List ClaimId) :
    settlements id (Calls.giveDown port world claims).2 ≤ claims.count id := by
  induction claims generalizing world with
  | nil => exact Nat.le_refl 0
  | cons claim claims ih =>
      simp only [Calls.giveDown, settlements, List.countP_cons, List.count_cons]
      refine Nat.add_le_add (ih _) ?_
      generalize (port.settle world claim (.error (.transport .down))).1 = answer
      by_cases hclaim : claim = id
      · rw [if_pos (beq_iff_eq.mpr hclaim)]
        split
        · exact Nat.le_refl 1
        · exact Nat.zero_le 1
      · cases answer with
        | ok _ => simp [Event.settles, hclaim]
        | error _ => simp [Event.settles]

/-- A claim that a session does not own twice is given `down` once. -/
theorem count_owned_le (h : Once id trace s) :
    (s.pending.toList.map (fun e => e.2.claim) ++ s.short.toList).count id ≤ 1 := by
  have hpending : (s.pending.toList.map (fun e => e.2.claim)).count id ≤ 1 := by
    rw [List.count_eq_countP, List.countP_map, List.countP_eq_length_filter]
    have hkeys : ((s.pending.toList.filter ((fun c => c == id) ∘ fun e => e.2.claim)).map
        Prod.fst).Nodup := by
      refine (List.filter_sublist.map Prod.fst).nodup ?_
      rw [Std.ExtTreeMap.map_fst_toList_eq_keys]
      exact Std.ExtTreeMap.nodup_keys
    have hmem : ∀ e ∈ s.pending.toList.filter ((fun c => c == id) ∘ fun e => e.2.claim),
        s.pending[e.1]? = some e.2 ∧ e.2.claim = id := by
      intro e he
      rcases List.mem_filter.mp he with ⟨hlist, hclaim⟩
      exact ⟨Std.ExtTreeMap.mem_toList_iff_getElem?_eq_some.mp hlist, eq_of_beq hclaim⟩
    rcases hlist : s.pending.toList.filter ((fun c => c == id) ∘ fun e => e.2.claim) with
      _ | ⟨a, _ | ⟨b, rest⟩⟩
    · rw [hlist]
      exact Nat.zero_le 1
    · rw [hlist]
      exact Nat.le_refl 1
    · -- two entries with the claim would have one number
      rw [hlist] at hkeys hmem
      rcases hmem a List.mem_cons_self with ⟨ha, hclaima⟩
      rcases hmem b (List.mem_cons_of_mem _ List.mem_cons_self) with ⟨hb, hclaimb⟩
      rw [List.map_cons, List.map_cons, List.nodup_cons] at hkeys
      exact absurd (h.single a.1 b.1 a.2 b.2 ha hb hclaima hclaimb)
        (fun heq => hkeys.1 (heq ▸ List.mem_cons_self))
  rw [List.count_append]
  by_cases hshort : s.short = some id
  · have hnone : (s.pending.toList.map (fun e => e.2.claim)).count id = 0 := by
      refine List.count_eq_zero.mpr (fun hmem => ?_)
      rcases List.mem_map.mp hmem with ⟨e, he, hclaim⟩
      exact h.apart hshort e.1 e.2 (Std.ExtTreeMap.mem_toList_iff_getElem?_eq_some.mp he) hclaim
    rw [hnone, hshort]
    simp
  · have hnone : s.short.toList.count id = 0 := by
      refine List.count_eq_zero.mpr (fun hmem => hshort ?_)
      exact Option.mem_toList.mp hmem
    rw [hnone]
    exact hpending

theorem down_once (s : Calls π) : OnceStep id s (s.down port).2 (s.down port).1 := by
  have hempty : ∀ (seq : UInt64) (p : Pending), (s.down port).1.pending[seq]? ≠ some p := by
    intro seq p hp
    cases (Std.ExtTreeMap.getElem?_empty (a := seq)).symm.trans hp
  have hunowned : Unowned id (s.down port).1 := fun seq p hp => absurd hp (hempty seq p)
  have hshort : (s.down port).1.short ≠ some id := fun h => by cases h
  refine ⟨fun trace _ hs => ?_, fun _ seq p hp => absurd hp (hempty seq p)⟩
  have hdown : settlements id (s.down port).2 ≤
      (s.pending.toList.map (fun e => e.2.claim) ++ s.short.toList).count id :=
    giveDown_settlements port s.world _
  refine ⟨fun seq p hp => absurd hp (hempty seq p), fun seq _ p _ hp => absurd hp (hempty seq p),
    fun h => absurd h hshort, fun h => absurd h hshort, ?_, fun _ => ⟨hshort, hunowned⟩⟩
  rw [settlements_append]
  by_cases hone : settlements id trace = 1
  · rcases hs.done hone with ⟨hnot, hnone⟩
    have hzero : (s.pending.toList.map (fun e => e.2.claim) ++ s.short.toList).count id = 0 := by
      refine List.count_eq_zero.mpr (fun hmem => ?_)
      rcases List.mem_append.mp hmem with hpending | hshort
      · rcases List.mem_map.mp hpending with ⟨e, he, hclaim⟩
        exact hnone e.1 e.2 (Std.ExtTreeMap.mem_toList_iff_getElem?_eq_some.mp he) hclaim
      · exact hnot (Option.mem_toList.mp hshort)
    omega
  · have hle := hs.count
    have howned := count_owned_le hs
    omega

/-- What a session does to its calls settles the claim once at most. -/
theorem once_steps (cfg : Config) : Steps port cfg (OnceStep id) where
  below h := h.below
  trans := OnceStep.trans
  silent hpending hnext hshort hsilent := by
    refine ⟨fun trace _ hs => hs.shrink ?_ hshort (fun _ _ hp => hpending ▸ hp),
      fun hs seq p hp => ?_⟩
    · refine List.countP_eq_zero.mpr (fun e he => ?_)
      have hquiet := hsilent e he
      cases e with
      | note _ => exact Bool.false_ne_true
      | send _ => exact Bool.false_ne_true
      | _ => exact absurd hquiet (by simp [Event.silent])
    · rw [hnext]
      exact hs seq p (hpending ▸ hp)
  settle s seq outcome := settle_once port s seq outcome
  forward s claim now localNow hbelow hroom hnext :=
    forward_once port cfg s claim now localNow hbelow hnext
      (forward_keeps port s claim now localNow hbelow hroom hnext).below
  refuseShort s claim := refuseShort_once port s claim
  down s := down_once port s

end Claims

section Runs

variable {π : Type} {port : Port π} {cfg : Config} {world : π}

theorem once_of_run (id : ClaimId) {xs : List (ProvidedStep π)} {t : Session π}
    (h : (providing port cfg world).IsRun (providing port cfg world).init xs t)
    (hfresh : Fresh id (trace xs)) : Once id (trace xs) t.calls := by
  have hinv := h.history (fun ys u => (Fresh id (trace ys) → Once id (trace ys) u.calls) ∧
    Below u.calls) ?_ ?_
  · exact hinv.1 hfresh
  · have hempty : ∀ (seq : UInt64) (p : Pending), (Calls.new world).pending[seq]? ≠ some p := by
      intro seq p hp
      cases (Std.ExtTreeMap.getElem?_empty (a := seq)).symm.trans hp
    refine ⟨fun _ => ⟨fun seq p hp => absurd hp (hempty seq p),
      fun seq _ p _ hp => absurd hp (hempty seq p), fun hs => ?_, fun hs => ?_, Nat.zero_le 1,
      fun hone => ?_⟩, fun seq p hp => absurd hp (hempty seq p)⟩
    · cases hs
    · cases hs
    · exact absurd hone (by simp [trace, settlements])
  · rintro ys x _ _ hstep ⟨honce, hbelow⟩
    have hmore : OnceStep id x.pre.calls x.answer.1 x.post.calls :=
      (once_steps port cfg).step hbelow hstep
    unfold trace
    rw [List.flatMap_append, List.flatMap_singleton]
    refine ⟨fun hfresh => hmore.once _ hfresh (honce (List.pairwise_append.mp hfresh).1),
      hmore.below hbelow⟩

end Runs

end Provided

end Ridl
