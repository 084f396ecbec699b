import Mathlib.Tactic.SplitIfs

/-!
# Three-Way Merge

What two sides that grew out of one base make of one place: either side may have
nothing there, and so may the base.

A side that is as the base has no say. Where both sides changed the place and say
different things, the place is in conflict, unless the base has nothing there: then
both sides added something, and both is kept.

## Theorems

* `threeWay_of_base`, `threeWay_of_added`: Where both sides changed a place.
* `changed_of_ours_lost`, `changed_of_theirs_lost`: What a side had is lost only to a change of
  the other.
* `eq_none_of_threeWay_both`: Both is kept only where the base has nothing.
-/

namespace Ridl

namespace Library

/-- What a place holds after a merge. -/
inductive Merged (α : Type)
  /-- One value, or nothing. -/
  | takes (value : Option α)
  /-- Both sides added something. -/
  | both (ours theirs : α)
  | conflict
deriving DecidableEq

variable {α : Type} [DecidableEq α]

/-- The merge of one place. -/
def threeWay (base ours theirs : Option α) : Merged α :=
  if ours = theirs then .takes ours
  else if ours = base then .takes theirs
  else if theirs = base then .takes ours
  else
    match base, ours, theirs with
    | none, some a, some b => .both a b
    | _, _, _ => .conflict

variable {base ours theirs value : Option α} {a b : α}

theorem threeWay_of_base (h : ours ≠ theirs) (hours : ours ≠ some a) (htheirs : theirs ≠ some a) :
    threeWay (some a) ours theirs = .conflict := by
  unfold threeWay
  rw [if_neg h, if_neg hours, if_neg htheirs]

theorem threeWay_of_added (h : a ≠ b) : threeWay none (some a) (some b) = .both a b := by
  unfold threeWay
  rw [if_neg fun heq => h (Option.some.inj heq), if_neg (Option.some_ne_none a),
    if_neg (Option.some_ne_none b)]

theorem changed_of_ours_lost (h : threeWay base ours theirs = .takes value) (hne : value ≠ ours) :
    theirs ≠ base := by
  unfold threeWay at h
  split_ifs at h with hsame hours htheirs
  · cases h
    exact absurd rfl hne
  · exact fun heq => hsame (hours.trans heq.symm)
  · cases h
    exact absurd rfl hne
  · exact htheirs

theorem changed_of_theirs_lost (h : threeWay base ours theirs = .takes value)
    (hne : value ≠ theirs) : ours ≠ base := by
  unfold threeWay at h
  split_ifs at h with hsame hours htheirs
  · cases h
    exact absurd hsame hne
  · cases h
    exact absurd rfl hne
  · exact hours
  · exact hours

theorem eq_none_of_threeWay_both (h : threeWay base ours theirs = .both a b) :
    base = none ∧ ours = some a ∧ theirs = some b := by
  unfold threeWay at h
  split_ifs at h
  rcases base with _ | _ <;> rcases ours with _ | _ <;> rcases theirs with _ | _ <;> cases h
  exact ⟨rfl, rfl, rfl⟩

theorem eq_or_eq_of_threeWay_takes (h : threeWay base ours theirs = .takes value) :
    value = ours ∨ value = theirs := by
  unfold threeWay at h
  split_ifs at h
  · cases h
    exact .inl rfl
  · cases h
    exact .inr rfl
  · cases h
    exact .inl rfl
  · rcases base with _ | _ <;> rcases ours with _ | _ <;> rcases theirs with _ | _ <;> cases h

end Library

end Ridl
