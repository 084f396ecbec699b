import Ridl.Library.Map

/-!
# Worklists

The loop that follows references until there is no new one. What is pending is
taken from the top, what it stands for is looked up, and everything found under
a key that was not reached before is reached now, with its own references on top
of the pending ones.

A thing may be found many times, but it is reached once, so the loop ends: the
references of all that can be found are as many rounds as it can take
(`pending_run`). What it has reached then is what a path leads to
(`getElem?_run`).

## Main definitions

* `Worklist.step`: A round of the loop.

## Theorems

* `pending_run`, `pending_rounds`: The loop ends.
* `getElem?_run`: What it has reached.
-/

namespace Ridl

namespace Library

variable {ι κ ν : Type}

/-- A path leads to an entry: a root finds it, or a reference of what a path
    leads to. -/
inductive Reaches (find : ι → List (κ × ν)) (refs : ν → List ι) (roots : List ι) : κ × ν → Prop
  | root {item : ι} {entry : κ × ν} (hitem : item ∈ roots) (hfound : entry ∈ find item) :
      Reaches find refs roots entry
  | next {source : κ × ν} {item : ι} {entry : κ × ν} (hsource : Reaches find refs roots source)
      (hitem : item ∈ refs source.2) (hfound : entry ∈ find item) : Reaches find refs roots entry

/-- A reference on a path: a root, or of what a path leads to. -/
def Follows (find : ι → List (κ × ν)) (refs : ν → List ι) (roots : List ι) (item : ι) : Prop :=
  item ∈ roots ∨ ∃ source, Reaches find refs roots source ∧ item ∈ refs source.2

theorem Reaches.of_follows {find : ι → List (κ × ν)} {refs : ν → List ι} {roots : List ι}
    {item : ι} {entry : κ × ν} (h : Follows find refs roots item) (hfound : entry ∈ find item) :
    Reaches find refs roots entry := by
  rcases h with hroot | ⟨source, hsource, hitem⟩
  · exact .root hroot hfound
  · exact .next hsource hitem hfound

theorem Reaches.exists_follows {find : ι → List (κ × ν)} {refs : ν → List ι} {roots : List ι}
    {entry : κ × ν} (h : Reaches find refs roots entry) :
    ∃ item, Follows find refs roots item ∧ entry ∈ find item := by
  cases h with
  | root hitem hfound => exact ⟨_, .inl hitem, hfound⟩
  | next hsource hitem hfound => exact ⟨_, .inr ⟨_, hsource, hitem⟩, hfound⟩

variable [Ord κ] [Std.TransOrd κ]

/-- The state of the loop, with the last pushed reference first. -/
structure Worklist (ι κ ν : Type) [Ord κ] where
  pending : List ι
  reached : OrdMap κ ν

namespace Worklist

/-- Reaches what was found, unless its key was reached before. -/
def visit (refs : ν → List ι) (state : Worklist ι κ ν) (entry : κ × ν) : Worklist ι κ ν :=
  if state.reached.contains entry.1 then state
  else
    { pending := (refs entry.2).reverse ++ state.pending
      reached := state.reached.insert entry.1 entry.2 }

/-- Takes the top reference and visits all that it finds. -/
def step (find : ι → List (κ × ν)) (refs : ν → List ι) (state : Worklist ι κ ν) :
    Worklist ι κ ν :=
  match state.pending with
  | [] => state
  | item :: pending => (find item).foldl (visit refs) { state with pending := pending }

def run (find : ι → List (κ × ν)) (refs : ν → List ι) : Nat → Worklist ι κ ν → Worklist ι κ ν
  | 0, state => state
  | fuel + 1, state => run find refs fuel (step find refs state)

/-- Nothing reached yet. -/
def start (roots : List ι) : Worklist ι κ ν := { pending := roots.reverse, reached := ∅ }

variable {find : ι → List (κ × ν)} {refs : ν → List ι} {roots : List ι}
variable {state : Worklist ι κ ν}

/-! ### How long the loop takes -/

theorem sum_filter_le {p q : ν → Bool} (f : ν → Nat) (l : List ν) (h : ∀ a, q a = true → p a = true) :
    ((l.filter q).map f).sum ≤ ((l.filter p).map f).sum := by
  induction l with
  | nil => exact Nat.le_refl _
  | cons a l ih =>
      rcases hq : q a with _ | _
      · rw [List.filter_cons_of_neg (by rw [hq]; exact Bool.false_ne_true)]
        rcases hp : p a with _ | _
        · rw [List.filter_cons_of_neg (by rw [hp]; exact Bool.false_ne_true)]
          exact ih
        · rw [List.filter_cons_of_pos hp, List.map_cons, List.sum_cons]
          omega
      · rw [List.filter_cons_of_pos hq, List.filter_cons_of_pos (h a hq), List.map_cons,
          List.map_cons, List.sum_cons, List.sum_cons]
        omega

/-- It is smaller by what an entry counts for that is left out. -/
theorem sum_filter_add_le {p q : ν → Bool} (f : ν → Nat) {a : ν} {l : List ν} (hmem : a ∈ l)
    (hp : p a = true) (hq : q a = false) (h : ∀ a, q a = true → p a = true) :
    ((l.filter q).map f).sum + f a ≤ ((l.filter p).map f).sum := by
  induction l with
  | nil => cases hmem
  | cons b l ih =>
      rcases List.mem_cons.mp hmem with rfl | hmem
      · rw [List.filter_cons_of_pos hp, List.filter_cons_of_neg (by rw [hq]; exact Bool.false_ne_true),
          List.map_cons, List.sum_cons]
        have := sum_filter_le f l h
        omega
      · have := ih hmem
        rcases hqb : q b with _ | _
        · rw [List.filter_cons_of_neg (by rw [hqb]; exact Bool.false_ne_true)]
          rcases hpb : p b with _ | _
          · rw [List.filter_cons_of_neg (by rw [hpb]; exact Bool.false_ne_true)]
            exact this
          · rw [List.filter_cons_of_pos hpb, List.map_cons, List.sum_cons]
            omega
        · rw [List.filter_cons_of_pos hqb, List.filter_cons_of_pos (h b hqb), List.map_cons,
            List.map_cons, List.sum_cons, List.sum_cons]
          omega

/-- The references of what is not reached yet. -/
def unvisited (refs : ν → List ι) (possible : List (κ × ν)) (reached : OrdMap κ ν) : Nat :=
  ((possible.filter (fun entry => !reached.contains entry.1)).map
    (fun entry => (refs entry.2).length)).sum

theorem unvisited_visit {possible : List (κ × ν)} {entry : κ × ν} (hentry : entry ∈ possible) :
    (visit refs state entry).pending.length +
        unvisited refs possible (visit refs state entry).reached ≤
      state.pending.length + unvisited refs possible state.reached := by
  unfold visit
  split
  · exact Nat.le_refl _
  · next hseen =>
    have hless := sum_filter_add_le (p := fun entry => !state.reached.contains entry.1)
      (q := fun other => !(state.reached.insert entry.1 entry.2).contains other.1)
      (fun entry => (refs entry.2).length) hentry (by rw [Bool.eq_false_iff.mpr hseen]; rfl)
      (by rw [Std.ExtTreeMap.contains_insert_self]; rfl)
      (fun other h => by
        rw [Std.ExtTreeMap.contains_insert, Bool.not_or, Bool.and_eq_true] at h
        exact h.2)
    simp only [unvisited, List.length_append, List.length_reverse]
    omega

theorem unvisited_visits (refs : ν → List ι) (state : Worklist ι κ ν)
    {possible rest : List (κ × ν)} (hrest : ∀ entry ∈ rest, entry ∈ possible) :
    (rest.foldl (visit refs) state).pending.length +
        unvisited refs possible (rest.foldl (visit refs) state).reached ≤
      state.pending.length + unvisited refs possible state.reached := by
  induction rest generalizing state with
  | nil => exact Nat.le_refl _
  | cons entry rest ih =>
      exact Nat.le_trans (ih _ (fun other hmem => hrest other (List.mem_cons_of_mem _ hmem)))
        (unvisited_visit (hrest entry List.mem_cons_self))

theorem unvisited_step (refs : ν → List ι) {possible : List (κ × ν)}
    (hfind : ∀ item ∈ state.pending, ∀ entry ∈ find item, entry ∈ possible) :
    (step find refs state).pending.length + unvisited refs possible (step find refs state).reached +
      min 1 state.pending.length ≤
    state.pending.length + unvisited refs possible state.reached := by
  unfold step
  split
  · next hpending => simp only [hpending, List.length_nil, Nat.min_zero, Nat.add_zero, Nat.le_refl]
  · next top pending hpending =>
    have h := unvisited_visits refs { state with pending := pending } (hfind top (hpending ▸ List.mem_cons_self))
    rw [hpending, List.length_cons]
    dsimp only at h
    omega

theorem pending_run_of_nil (fuel : Nat) (h : state.pending = []) :
    (run find refs fuel state).pending = [] := by
  induction fuel generalizing state with
  | zero => exact h
  | succ fuel ih =>
      refine ih ?_
      rw [step, h]
      exact h

/-! ### What the loop keeps -/

theorem pending_visit (entry : κ × ν) {item : ι} (h : item ∈ state.pending) :
    item ∈ (visit refs state entry).pending := by
  unfold visit
  split
  · exact h
  · exact List.mem_append_right _ h

/-- Only paths are followed. What was found by a reference that is not pending is
    reached, unless it is the one whose finds are being visited. -/
structure Explored (find : ι → List (κ × ν)) (refs : ν → List ι) (roots : List ι)
    (visiting : Option ι) (state : Worklist ι κ ν) : Prop where
  followed : ∀ item ∈ state.pending, Follows find refs roots item
  sound : ∀ key value, state.reached[key]? = some value → Reaches find refs roots (key, value)
  complete : ∀ item, (item ∈ roots ∨ ∃ (key : κ) (value : ν), state.reached[key]? = some value ∧
      item ∈ refs value) →
    visiting = some item ∨ item ∈ state.pending ∨
      ∀ entry ∈ find item, state.reached.contains entry.1 = true

theorem explored_start (find : ι → List (κ × ν)) (refs : ν → List ι) (roots : List ι) :
    Explored find refs roots none (start roots) where
  followed := fun item hitem => .inl (List.mem_reverse.mp hitem)
  sound := by
    intro key value h
    rw [start, Std.ExtTreeMap.getElem?_empty] at h
    cases h
  complete := by
    rintro item (hroot | ⟨key, value, h, -⟩)
    · exact .inr (.inl (List.mem_reverse.mpr hroot))
    · rw [start, Std.ExtTreeMap.getElem?_empty] at h
      cases h

variable [Std.LawfulEqOrd κ]

theorem contains_visit (entry : κ × ν) (key : κ) :
    (visit refs state entry).reached.contains key = true ↔
      key = entry.1 ∨ state.reached.contains key = true := by
  unfold visit
  split
  · next hseen =>
    refine ⟨.inr, ?_⟩
    rintro (rfl | h)
    · exact hseen
    · exact h
  · rw [Std.ExtTreeMap.contains_insert, Bool.or_eq_true, beq_iff_eq, Std.compare_eq_iff_eq,
      eq_comm]

theorem explored_visit {entry : κ × ν} {top : ι} (h : Explored find refs roots (some top) state)
    (htop : Follows find refs roots top) (hfound : entry ∈ find top) :
    Explored find refs roots (some top) (visit refs state entry) := by
  have hreaches := Reaches.of_follows htop hfound
  by_cases hseen : state.reached.contains entry.1 = true
  · have hsame : visit refs state entry = state := by rw [visit, if_pos hseen]
    rw [hsame]
    exact h
  · have hnew : visit refs state entry =
        { pending := (refs entry.2).reverse ++ state.pending
          reached := state.reached.insert entry.1 entry.2 } := by rw [visit, if_neg hseen]
    classical
    refine ⟨?_, ?_, ?_⟩
    · intro item hitem
      rw [hnew] at hitem
      rcases List.mem_append.mp hitem with hown | hold
      · exact .inr ⟨entry, hreaches, List.mem_reverse.mp hown⟩
      · exact h.followed item hold
    · intro key value hget
      rw [hnew] at hget
      simp only [OrdMap.getElem?_insert] at hget
      split at hget
      · next heq =>
        cases hget
        exact heq ▸ hreaches
      · exact h.sound key value hget
    · intro item hitem
      -- A reference is one of the entry's, or it was there before the visit.
      have hcase : item ∈ refs entry.2 ∨ item ∈ roots ∨
          ∃ (key : κ) (value : ν), state.reached[key]? = some value ∧ item ∈ refs value := by
        rcases hitem with hroot | ⟨key, value, hget, hmem⟩
        · exact .inr (.inl hroot)
        · rw [hnew] at hget
          simp only [OrdMap.getElem?_insert] at hget
          split at hget
          · cases hget
            exact .inl hmem
          · exact .inr (.inr ⟨key, value, hget, hmem⟩)
      rcases hcase with hown | hold
      · refine .inr (.inl ?_)
        rw [hnew]
        exact List.mem_append_left _ (List.mem_reverse.mpr hown)
      · rcases h.complete item hold with heq | hpending | hall
        · exact .inl heq
        · exact .inr (.inl (pending_visit entry hpending))
        · exact .inr (.inr (fun other hmem =>
            (contains_visit entry other.1).mpr (.inr (hall other hmem))))

/-- The visits of what is left of the top reference's finds. -/
theorem explored_visits {top : ι} {rest : List (κ × ν)}
    (h : Explored find refs roots (some top) state) (htop : Follows find refs roots top)
    (hrest : ∀ entry ∈ rest, entry ∈ find top)
    (hdone : ∀ entry ∈ find top, entry ∈ rest ∨ state.reached.contains entry.1 = true) :
    Explored find refs roots none (rest.foldl (visit refs) state) := by
  induction rest generalizing state with
  | nil =>
      refine ⟨h.followed, h.sound, fun item hitem => ?_⟩
      rcases h.complete item hitem with heq | hother
      · cases heq
        exact .inr (.inr (fun entry hmem => (hdone entry hmem).resolve_left List.not_mem_nil))
      · exact .inr hother
  | cons entry rest ih =>
      refine ih (explored_visit h htop (hrest entry List.mem_cons_self))
        (fun other hmem => hrest other (List.mem_cons_of_mem _ hmem)) (fun other hmem => ?_)
      rw [contains_visit]
      rcases hdone other hmem with hin | hseen
      · rcases List.mem_cons.mp hin with rfl | hin
        · exact .inr (.inl rfl)
        · exact .inl hin
      · exact .inr (.inr hseen)

theorem explored_step (h : Explored find refs roots none state) :
    Explored find refs roots none (step find refs state) := by
  unfold step
  split
  · exact h
  · next top pending hpending =>
    have htop := h.followed top (hpending ▸ List.mem_cons_self)
    refine explored_visits ⟨fun item hitem => ?_, h.sound, fun item hitem => ?_⟩ htop
      (fun _ hmem => hmem) (fun _ hmem => .inl hmem)
    · exact h.followed item (hpending ▸ List.mem_cons_of_mem _ hitem)
    · rcases h.complete item hitem with hnone | hmem | hall
      · cases hnone
      · rw [hpending] at hmem
        rcases List.mem_cons.mp hmem with rfl | hmem
        · exact .inl rfl
        · exact .inr (.inl hmem)
      · exact .inr (.inr hall)

theorem explored_run (fuel : Nat) (h : Explored find refs roots none state) :
    Explored find refs roots none (run find refs fuel state) := by
  induction fuel generalizing state with
  | zero => exact h
  | succ fuel ih => exact ih (explored_step h)

/-! ### The end of the loop -/

theorem pending_run {possible : List (κ × ν)} (h : Explored find refs roots none state)
    (hfind : ∀ item, Follows find refs roots item → ∀ entry ∈ find item, entry ∈ possible)
    (fuel : Nat)
    (hfuel : state.pending.length + unvisited refs possible state.reached ≤ fuel) :
    (run find refs fuel state).pending = [] := by
  induction fuel generalizing state with
  | zero =>
      rw [run]
      exact List.length_eq_zero_iff.mp (by omega)
  | succ fuel ih =>
      have hstep := unvisited_step refs (fun item hitem => hfind item (h.followed item hitem))
      rcases hpending : state.pending with _ | ⟨top, pending⟩
      · exact pending_run_of_nil _ hpending
      · rw [hpending, List.length_cons] at hfuel hstep
        exact ih (explored_step h) (by omega)

/-- The rounds that a loop may take that finds nothing else than the entries. -/
def rounds (refs : ν → List ι) (roots : List ι) (possible : List (κ × ν)) : Nat :=
  roots.length + (possible.map (fun entry => (refs entry.2).length)).sum

theorem pending_rounds {possible : List (κ × ν)}
    (hfind : ∀ item, Follows find refs roots item → ∀ entry ∈ find item, entry ∈ possible) :
    (run find refs (rounds refs roots possible) (start roots)).pending = [] := by
  have hnone : possible.filter (fun entry => !(∅ : OrdMap κ ν).contains entry.1) = possible :=
    List.filter_eq_self.mpr (fun entry _ => by rw [Std.ExtTreeMap.contains_empty]; rfl)
  refine pending_run (explored_start find refs roots) hfind _ ?_
  simp only [start, List.length_reverse, unvisited, hnone, rounds, Nat.le_refl]

theorem getElem?_run {possible : List (κ × ν)}
    (hfind : ∀ item, Follows find refs roots item → ∀ entry ∈ find item, entry ∈ possible)
    (hkeys : ∀ a ∈ possible, ∀ b ∈ possible, a.1 = b.1 → a = b) {key : κ} {value : ν} :
    (run find refs (rounds refs roots possible) (start roots)).reached[key]? = some value ↔
      Reaches find refs roots (key, value) := by
  have hexplored := explored_run (rounds refs roots possible) (explored_start find refs roots)
  have hdone := pending_rounds hfind
  generalize run find refs (rounds refs roots possible) (start roots) = final at *
  have hinside : ∀ entry, Reaches find refs roots entry → entry ∈ possible := by
    intro entry h
    rcases h.exists_follows with ⟨item, hfollows, hfound⟩
    exact hfind item hfollows entry hfound
  -- A key that was reached was reached with the entry of the key.
  have hvalue : ∀ entry, Reaches find refs roots entry → final.reached.contains entry.1 = true →
      final.reached[entry.1]? = some entry.2 := by
    intro entry hentry hcontains
    rcases hv : final.reached[entry.1]? with _ | v
    · rw [Std.ExtTreeMap.contains_eq_isSome_getElem?, hv] at hcontains
      cases hcontains
    · have hsame := hkeys _ (hinside _ (hexplored.sound _ _ hv)) _ (hinside _ hentry) rfl
      rw [← hsame]
  have hfound : ∀ item, (item ∈ roots ∨ ∃ (key : κ) (value : ν),
      final.reached[key]? = some value ∧ item ∈ refs value) →
      ∀ entry ∈ find item, final.reached.contains entry.1 = true := by
    intro item hitem
    rcases hexplored.complete item hitem with hvisiting | hpending | hall
    · cases hvisiting
    · rw [hdone] at hpending
      cases hpending
    · exact hall
  have hcontains : ∀ entry, Reaches find refs roots entry →
      final.reached.contains entry.1 = true := by
    intro entry h
    induction h with
    | root hitem hin => exact hfound _ (.inl hitem) _ hin
    | next hsource hitem hin ih => exact hfound _ (.inr ⟨_, _, hvalue _ hsource ih, hitem⟩) _ hin
  exact ⟨hexplored.sound key value, fun h => hvalue _ h (hcontains _ h)⟩

end Worklist

end Library

end Ridl
