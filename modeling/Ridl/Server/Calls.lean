import Std.Data.ExtTreeSet.Lemmas
import Ridl.Library.Map
import Ridl.Library.Run
import Ridl.Runtime.Contract

/-!
# The Kept Responses

A settled response is kept for a repeat of its request: until its bound has
passed, or as one of the last 64 that have none. The responses are in a map by
the request they answer, and each is in one of two indexes, by its bound or in
the ring. The sum of their lengths is counted along.

A second settle of one request is a defect of the caller, which a debug build
reports; here it is what the release build does, which takes the replaced
response out of the count and out of its index.

The count is subtracted from with the check for underflow, and `none` is the
panic of that check.

## Main definitions

* `Calls.settle`, `Calls.expire`: A response is kept; responses are let go.
* `Calls.Sound`: The map, the indexes and the count agree.

## Theorems

* `Calls.settle_sound`, `Calls.expire_sound`: Each operation keeps them so.
* `kept_responses_agree`: So does every run.
-/

namespace Ridl

namespace Server

open Library

/-- The responses kept whose bound is not known. -/
def RETAINED : Nat := 64

/-- One kept response, and the last instant at which it is kept. -/
structure Kept where
  bytes : Bytes
  keptUntil : Option Timestamp
deriving DecidableEq

instance : Ord (Timestamp × UInt64) := lexOrd

/-- The responses kept by the request each answers, those with a bound in the
    order of their bounds, those without in the order they came, and the sum of
    the lengths of all. -/
structure Calls where
  settled : OrdMap UInt64 Kept
  byUntil : Std.ExtTreeSet (Timestamp × UInt64) compare
  ring : List UInt64
  bytes : Nat

/-- A subtraction that panics on underflow. -/
def sub? (a b : Nat) : Option Nat := if b ≤ a then some (a - b) else none

namespace Calls

def new : Calls := ⟨∅, ∅, [], 0⟩

/-- A replaced response leaves the count and its index. -/
def unkeep (c : Calls) (seq : UInt64) (old : Kept) : Option Calls := do
  let bytes ← sub? c.bytes old.bytes.length
  match old.keptUntil with
  | some bound => some { c with bytes := bytes, byUntil := c.byUntil.erase (bound, seq) }
  | none => some { c with bytes := bytes, ring := c.ring.filter (· ≠ seq) }

/-- A response that is in no index any more leaves the map and the count. -/
def forget (c : Calls) (seq : UInt64) : Option Calls :=
  match c.settled[seq]? with
  | none => some c
  | some kept => do
    let bytes ← sub? c.bytes kept.bytes.length
    some { c with settled := c.settled.erase seq, bytes := bytes }

/-- The response is in the map and counted, and what it replaced is out. -/
def enter (c : Calls) (seq : UInt64) (kept : Kept) : Option Calls :=
  let entered :=
    { c with bytes := c.bytes + kept.bytes.length, settled := c.settled.insert seq kept }
  match c.settled[seq]? with
  | some old => entered.unkeep seq old
  | none => some entered

/-- The request takes its place in the index of its bound. -/
def index (c : Calls) (seq : UInt64) (bound : Option Timestamp) : Option Calls :=
  match bound with
  | some bound => some { c with byUntil := c.byUntil.insert (bound, seq) }
  | none =>
    match c.ring ++ [seq] with
    | [] => some c
    | oldest :: rest =>
      if RETAINED < (oldest :: rest).length then { c with ring := rest }.forget oldest
      else some { c with ring := oldest :: rest }

/-- Keeps the response sent for a request. -/
def settle (c : Calls) (seq : UInt64) (response : Bytes) (bound : Option Timestamp) :
    Option Calls :=
  (c.enter seq ⟨response, bound⟩).bind fun c => c.index seq bound

variable {c : Calls} {seq : UInt64}

theorem forget_byUntil {c' : Calls} (h : c.forget seq = some c') :
    c'.byUntil = c.byUntil := by
  unfold forget at h
  split at h
  · cases h
    rfl
  · rcases Option.bind_eq_some_iff.mp h with ⟨bytes, -, h⟩
    cases h
    rfl

theorem size_erase_lt {set : Std.ExtTreeSet (Timestamp × UInt64) compare}
    {a : Timestamp × UInt64} (h : a ∈ set) : (set.erase a).size < set.size := by
  have hne : set.size ≠ 0 := by
    intro hzero
    rw [Std.ExtTreeSet.eq_empty_iff_size_eq_zero.mpr hzero] at h
    exact absurd h Std.ExtTreeSet.not_mem_empty
  rw [Std.ExtTreeSet.size_erase, if_pos (Std.ExtTreeSet.contains_iff_mem.mpr h)]
  omega

/-- Lets go every response kept until an instant before `now`. -/
def expire (c : Calls) (now : Timestamp) : Option Calls :=
  match _h : c.byUntil.min? with
  | none => some c
  | some (bound, seq) =>
    if now ≤ bound then some c
    else
      match _h' : { c with byUntil := c.byUntil.erase (bound, seq) }.forget seq with
      | none => none
      | some c' => expire c' now
termination_by c.byUntil.size
decreasing_by
  rw [forget_byUntil _h']
  exact size_erase_lt (Std.ExtTreeSet.min?_mem _h)

/-! ## The agreement -/

/-- The count is of the responses kept, each is in the index of its bound, and
    no index holds another. -/
structure Sound (c : Calls) : Prop where
  count : c.bytes = OrdMap.total (fun kept => kept.bytes.length) c.settled
  bounded : ∀ bound seq, (bound, seq) ∈ c.byUntil ↔
    ∃ kept, c.settled[seq]? = some kept ∧ kept.keptUntil = some bound
  unbounded : ∀ seq, seq ∈ c.ring ↔ ∃ kept, c.settled[seq]? = some kept ∧ kept.keptUntil = none
  once : c.ring.Nodup
  few : c.ring.length ≤ RETAINED

/-- The same but for the request `seq`, which is in neither index. -/
structure Loose (seq : UInt64) (c : Calls) : Prop where
  count : c.bytes = OrdMap.total (fun kept => kept.bytes.length) c.settled
  bounded : ∀ bound s, (bound, s) ∈ c.byUntil ↔
    s ≠ seq ∧ ∃ kept, c.settled[s]? = some kept ∧ kept.keptUntil = some bound
  unbounded : ∀ s, s ∈ c.ring ↔
    s ≠ seq ∧ ∃ kept, c.settled[s]? = some kept ∧ kept.keptUntil = none
  once : c.ring.Nodup
  few : c.ring.length ≤ RETAINED

theorem new_sound : new.Sound where
  count := rfl
  bounded := by
    intro bound seq
    simp [new]
  unbounded := by
    intro seq
    simp [new]
  once := List.nodup_nil
  few := Nat.zero_le _

theorem mem_insert_iff (set : Std.ExtTreeSet (Timestamp × UInt64) compare)
    (a b : Timestamp × UInt64) : b ∈ set.insert a ↔ a = b ∨ b ∈ set := by
  rw [Std.ExtTreeSet.mem_insert, Std.compare_eq_iff_eq]

theorem mem_erase_iff (set : Std.ExtTreeSet (Timestamp × UInt64) compare)
    (a b : Timestamp × UInt64) : b ∈ set.erase a ↔ a ≠ b ∧ b ∈ set := by
  rw [Std.ExtTreeSet.mem_erase, ne_eq, Std.compare_eq_iff_eq]

theorem sub_total {kept : Kept}
    (hcount : c.bytes = OrdMap.total (fun kept => kept.bytes.length) c.settled)
    (h : c.settled[seq]? = some kept) :
    sub? c.bytes kept.bytes.length =
      some (OrdMap.total (fun kept => kept.bytes.length) (c.settled.erase seq)) := by
  have htotal := OrdMap.total_erase (fun kept : Kept => kept.bytes.length) c.settled seq kept h
  rw [sub?, if_pos (by omega), hcount, htotal, Nat.add_sub_cancel_left]

/-- A response in no index is forgotten, and nothing else is. -/
theorem forget_sound (h : c.Loose seq) :
    ∃ c', c.forget seq = some c' ∧ c'.Sound ∧ c'.settled = c.settled.erase seq := by
  have hothers : ∀ {P : Kept → Prop} s, (s ≠ seq ∧ ∃ kept, c.settled[s]? = some kept ∧ P kept) ↔
      ∃ kept, (c.settled.erase seq)[s]? = some kept ∧ P kept := by
    intro P s
    rw [OrdMap.getElem?_erase]
    by_cases heq : seq = s
    · rw [if_pos heq]
      constructor
      · intro hs
        exact absurd heq.symm hs.1
      · rintro ⟨kept, hnone, -⟩
        cases hnone
    · rw [if_neg heq]
      exact ⟨fun hs => hs.2, fun hs => ⟨Ne.symm heq, hs⟩⟩
  unfold forget
  cases hkept : c.settled[seq]? with
  | none =>
      have hsame : c.settled.erase seq = c.settled := by
        refine Std.ExtTreeMap.ext_getElem? fun a => ?_
        rw [OrdMap.getElem?_erase]
        by_cases heq : seq = a
        · rw [if_pos heq, ← heq, hkept]
        · rw [if_neg heq]
      refine ⟨c, rfl, ⟨h.count, fun bound s => ?_, fun s => ?_, h.once, h.few⟩, hsame.symm⟩
      · rw [h.bounded, hothers, hsame]
      · rw [h.unbounded, hothers, hsame]
  | some kept =>
      dsimp only
      rw [sub_total h.count hkept]
      refine ⟨_, rfl, ⟨rfl, fun bound s => ?_, fun s => ?_, h.once, h.few⟩, rfl⟩
      · exact (h.bounded bound s).trans (hothers s)
      · exact (h.unbounded s).trans (hothers s)

/-- When the response that is replaced is not of a kind, the others of the kind
    are those there were. -/
theorem others_iff {P : Kept → Prop} (kept : Kept)
    (hunlike : ∀ old, c.settled[seq]? = some old → ¬ P old) (s : UInt64) :
    (∃ kept', c.settled[s]? = some kept' ∧ P kept') ↔
      s ≠ seq ∧ ∃ kept', (c.settled.insert seq kept)[s]? = some kept' ∧ P kept' := by
  rw [OrdMap.getElem?_insert]
  by_cases heq : seq = s
  · subst heq
    constructor
    · rintro ⟨kept', hkept', hP⟩
      exact absurd hP (hunlike kept' hkept')
    · intro hs
      exact absurd rfl hs.1
  · rw [if_neg heq]
    exact ⟨fun hs => ⟨Ne.symm heq, hs⟩, fun hs => hs.2⟩

theorem filter_ring (h : c.Sound)
    (hunlike : ∀ old, c.settled[seq]? = some old → ¬ old.keptUntil = none) :
    c.ring.filter (· ≠ seq) = c.ring := by
  refine List.filter_eq_self.mpr fun s hs => decide_eq_true fun heq => ?_
  rcases (h.unbounded s).mp hs with ⟨kept, hkept, hnone⟩
  exact hunlike kept (heq ▸ hkept) hnone

/-- The response is entered, and is in neither index yet. -/
theorem enter_loose (h : c.Sound) (seq : UInt64) (kept : Kept) :
    ∃ c', c.enter seq kept = some c' ∧ c'.Loose seq ∧ c'.settled = c.settled.insert seq kept ∧
      c'.ring = c.ring.filter (· ≠ seq) := by
  unfold enter
  cases hold : c.settled[seq]? with
  | none =>
      have hunlike : ∀ {P : Kept → Prop} old, c.settled[seq]? = some old → ¬ P old := by
        intro P old hsome
        rw [hold] at hsome
        cases hsome
      refine ⟨_, rfl, ⟨?_, fun bound s => ?_, fun s => ?_, h.once, h.few⟩, rfl,
        (filter_ring h hunlike).symm⟩
      · dsimp only
        rw [OrdMap.total_insert _ _ _ _ hold, h.count, Nat.add_comm]
      · exact (h.bounded bound s).trans (others_iff kept hunlike s)
      · exact (h.unbounded s).trans (others_iff kept hunlike s)
  | some old =>
      have htotal := OrdMap.total_replace (fun kept : Kept => kept.bytes.length) c.settled seq kept
        old hold
      have hsub : sub? (c.bytes + kept.bytes.length) old.bytes.length =
          some (OrdMap.total (fun kept : Kept => kept.bytes.length)
            (c.settled.insert seq kept)) := by
        have hcount := h.count
        rw [sub?, if_pos (by omega)]
        congr 1
        omega
      have hunlike : ∀ {P : Kept → Prop}, ¬ P old →
          ∀ old', c.settled[seq]? = some old' → ¬ P old' := by
        intro P hP old' hsome
        rw [hold] at hsome
        cases hsome
        exact hP
      dsimp only [unkeep]
      rw [hsub]
      cases hbound : old.keptUntil with
      | some bound₀ =>
          have hnot : ¬ old.keptUntil = none := by rw [hbound]; exact Option.some_ne_none _
          refine ⟨_, rfl, ⟨rfl, fun bound s => ?_, fun s => ?_, h.once, h.few⟩, rfl,
            (filter_ring h (hunlike hnot)).symm⟩
          · rw [mem_erase_iff]
            by_cases heq : bound₀ = bound
            · subst heq
              -- The erased entry is the one of this bound and request.
              rw [h.bounded, OrdMap.getElem?_insert]
              by_cases hs : seq = s
              · subst hs
                exact ⟨fun hmem => absurd rfl hmem.1, fun hmem => absurd rfl hmem.1⟩
              · rw [if_neg hs]
                exact ⟨fun hmem => ⟨Ne.symm hs, hmem.2⟩,
                  fun hmem => ⟨fun hpair => hs (congrArg Prod.snd hpair), hmem.2⟩⟩
            · have hbound' : ¬ old.keptUntil = some bound := by
                rw [hbound]
                exact fun hsome => heq (Option.some.inj hsome)
              refine Iff.trans ⟨fun hmem => hmem.2, fun hmem => ⟨fun hpair => heq ?_, hmem⟩⟩
                ((h.bounded bound s).trans (others_iff kept (hunlike hbound') s))
              exact congrArg Prod.fst hpair
          · exact (h.unbounded s).trans (others_iff kept (hunlike hnot) s)
      | none =>
          refine ⟨_, rfl, ⟨rfl, fun bound s => ?_, fun s => ?_, h.once.filter _, ?_⟩, rfl, rfl⟩
          · have hnot : ¬ old.keptUntil = some bound := by rw [hbound]; exact nofun
            exact (h.bounded bound s).trans (others_iff kept (hunlike hnot) s)
          · dsimp only
            rw [List.mem_filter, decide_eq_true_iff, h.unbounded, OrdMap.getElem?_insert]
            by_cases hs : seq = s
            · subst hs
              exact ⟨fun hmem => absurd rfl hmem.2, fun hmem => absurd rfl hmem.1⟩
            · rw [if_neg hs]
              exact and_comm
          · exact Nat.le_trans (List.length_filter_le _ _) h.few

/-- The request in its index makes the three agree again. -/
theorem index_sound {kept : Kept} (h : c.Loose seq) (hkept : c.settled[seq]? = some kept) :
    ∃ c', c.index seq kept.keptUntil = some c' ∧ c'.Sound := by
  have hsplit : ∀ {P : Kept → Prop} s, (∃ kept', c.settled[s]? = some kept' ∧ P kept') ↔
      (seq = s ∧ P kept) ∨ (s ≠ seq ∧ ∃ kept', c.settled[s]? = some kept' ∧ P kept') := by
    intro P s
    by_cases heq : seq = s
    · subst heq
      constructor
      · rintro ⟨kept', hkept', hP⟩
        rw [hkept] at hkept'
        cases hkept'
        exact .inl ⟨rfl, hP⟩
      · rintro (⟨-, hP⟩ | ⟨hne, -⟩)
        · exact ⟨kept, hkept, hP⟩
        · exact absurd rfl hne
    · constructor
      · intro hs
        exact .inr ⟨Ne.symm heq, hs⟩
      · rintro (⟨heq', -⟩ | ⟨-, hs⟩)
        · exact absurd heq' heq
        · exact hs
  unfold index
  cases hbound : kept.keptUntil with
  | some bound₀ =>
      refine ⟨_, rfl, h.count, fun bound s => ?_, fun s => ?_, h.once, h.few⟩
      · dsimp only
        rw [mem_insert_iff, h.bounded]
        refine Iff.trans (or_congr_left ?_) (hsplit s).symm
        rw [hbound, Prod.mk.injEq, Option.some.injEq]
        exact and_comm
      · rw [h.unbounded]
        refine Iff.trans ⟨.inr, fun hs => hs.resolve_left fun hnone => ?_⟩ (hsplit s).symm
        rw [hbound] at hnone
        cases hnone.2
  | none =>
      have hring : ∀ s, s ∈ c.ring ++ [seq] ↔
          ∃ kept', c.settled[s]? = some kept' ∧ kept'.keptUntil = none := by
        intro s
        rw [List.mem_append, List.mem_singleton, h.unbounded, or_comm]
        refine Iff.trans (or_congr_left ⟨fun hs => ⟨hs.symm, hbound⟩, fun hs => hs.1.symm⟩)
          (hsplit s).symm
      have hbounded : ∀ bound s, (bound, s) ∈ c.byUntil ↔
          ∃ kept', c.settled[s]? = some kept' ∧ kept'.keptUntil = some bound := by
        intro bound s
        rw [h.bounded]
        refine Iff.trans ⟨.inr, fun hs => hs.resolve_left fun hsome => ?_⟩ (hsplit s).symm
        rw [hbound] at hsome
        cases hsome.2
      have hnot : seq ∉ c.ring := fun hmem => ((h.unbounded seq).mp hmem).1 rfl
      have honce : (c.ring ++ [seq]).Nodup := by
        rw [List.nodup_append]
        refine ⟨h.once, List.nodup_singleton seq, fun s hs s' hs' heq => hnot ?_⟩
        rw [List.mem_singleton.mp hs'] at heq
        exact heq ▸ hs
      have hlength : (c.ring ++ [seq]).length = c.ring.length + 1 := List.length_append
      dsimp only
      cases hcons : c.ring ++ [seq] with
      | nil => exact absurd hcons (List.append_ne_nil_of_right_ne_nil _ (List.cons_ne_nil _ _))
      | cons oldest rest =>
          rw [hcons] at hring honce hlength
          dsimp only
          by_cases hfull : RETAINED < (oldest :: rest).length
          · rw [if_pos hfull]
            have hloose : Loose oldest { c with ring := rest } := by
              refine ⟨h.count, fun bound s => ?_, fun s => ?_, (List.nodup_cons.mp honce).2, ?_⟩
              · refine (hbounded bound s).trans ⟨fun hs => ⟨?_, hs⟩, fun hs => hs.2⟩
                -- The oldest of the ring has no bound.
                rintro rfl
                rcases (hring s).mp List.mem_cons_self with ⟨kept', hkept', hnone⟩
                rcases hs with ⟨kept'', hkept'', hsome⟩
                rw [hkept'] at hkept''
                cases hkept''
                rw [hnone] at hsome
                cases hsome
              · dsimp only
                rw [← hring, List.mem_cons]
                constructor
                · intro hs
                  exact ⟨fun heq => (List.nodup_cons.mp honce).1 (heq ▸ hs), .inr hs⟩
                · exact fun hs => hs.2.resolve_left hs.1
              · have hfew := h.few
                rw [List.length_cons] at hlength
                dsimp only
                omega
            rcases forget_sound hloose with ⟨c', hforget, hsound, -⟩
            exact ⟨c', hforget, hsound⟩
          · rw [if_neg hfull]
            exact ⟨_, rfl, h.count, hbounded, hring, honce, Nat.not_lt.mp hfull⟩

theorem settle_sound (h : c.Sound) (seq : UInt64) (response : Bytes)
    (bound : Option Timestamp) : ∃ c', c.settle seq response bound = some c' ∧ c'.Sound := by
  rcases enter_loose h seq ⟨response, bound⟩ with ⟨c₁, henter, hloose, hsettled, -⟩
  have hkept : c₁.settled[seq]? = some ⟨response, bound⟩ := by
    rw [hsettled, OrdMap.getElem?_insert_self]
  rcases index_sound hloose hkept with ⟨c', hindex, hsound⟩
  refine ⟨c', ?_, hsound⟩
  rw [settle, henter]
  exact hindex

theorem le_of_lexOrd {a b : Timestamp × UInt64} (h : (compare a b).isLE) : a.1 ≤ b.1 := by
  have hcompare : compare a b = (compare a.1 b.1).then (compare a.2 b.2) := rfl
  refine Std.isLE_compare.mp ?_
  cases hfirst : compare a.1 b.1 with
  | lt => rfl
  | eq => rfl
  | gt =>
      rw [hcompare, hfirst] at h
      cases h

theorem bound_le {bound bound' : Timestamp} {s : UInt64}
    (h : c.byUntil.min? = some (bound, seq)) (hmem : (bound', s) ∈ c.byUntil) : bound ≤ bound' :=
  le_of_lexOrd ((Std.ExtTreeSet.min?_eq_some_iff_mem_and_forall.mp h).2 _ hmem)

/-- The bound has passed. -/
def Due (now : Timestamp) (kept : Kept) : Prop :=
  ∃ bound, kept.keptUntil = some bound ∧ bound < now

theorem expire_sound (h : c.Sound) (now : Timestamp) :
    ∃ c', c.expire now = some c' ∧ c'.Sound ∧
      ∀ (seq : UInt64) (kept : Kept), c'.settled[seq]? = some kept ↔
        c.settled[seq]? = some kept ∧ ¬ Due now kept := by
  induction hn : c.byUntil.size using Nat.strongRecOn generalizing c with
  | ind n ih =>
      -- When the loop stops, the earliest bound has not passed.
      have hstop : (∀ bound s, (bound, s) ∈ c.byUntil → ¬ bound < now) →
          ∀ (seq : UInt64) (kept : Kept), c.settled[seq]? = some kept ↔
            c.settled[seq]? = some kept ∧ ¬ Due now kept := by
        intro hnone seq kept
        refine ⟨fun hkept => ⟨hkept, ?_⟩, fun hkept => hkept.1⟩
        rintro ⟨bound, hbound, hlt⟩
        exact hnone bound seq ((h.bounded bound seq).mpr ⟨kept, hkept, hbound⟩) hlt
      unfold expire
      split
      · rename_i hmin
        refine ⟨c, rfl, h, hstop fun bound s hmem => ?_⟩
        rw [Std.ExtTreeSet.min?_eq_none_iff.mp hmin] at hmem
        exact absurd hmem Std.ExtTreeSet.not_mem_empty
      · rename_i bound seq hmin
        by_cases hle : now ≤ bound
        · rw [if_pos hle]
          refine ⟨c, rfl, h, hstop fun bound' s hmem hlt => ?_⟩
          exact absurd (Int64.lt_of_lt_of_le hlt hle) (Int64.not_lt.mpr (bound_le hmin hmem))
        · rw [if_neg hle]
          have hmem : (bound, seq) ∈ c.byUntil := Std.ExtTreeSet.min?_mem hmin
          rcases (h.bounded bound seq).mp hmem with ⟨due, hdue, hbound⟩
          have hloose : Loose seq { c with byUntil := c.byUntil.erase (bound, seq) } := by
            refine ⟨h.count, fun bound' s => ?_, fun s => ?_, h.once, h.few⟩
            · dsimp only
              rw [mem_erase_iff, h.bounded]
              by_cases heq : s = seq
              · subst heq
                refine ⟨fun hs => absurd ?_ hs.1, fun hs => absurd rfl hs.1⟩
                rcases hs.2 with ⟨kept, hkept, hsome⟩
                rw [hdue] at hkept
                cases hkept
                rw [← Option.some.inj (hbound.symm.trans hsome)]
              · exact and_congr_left fun _ =>
                  ⟨fun _ => heq, fun _ hpair => heq (congrArg Prod.snd hpair).symm⟩
            · refine (h.unbounded s).trans ⟨fun hs => ⟨?_, hs⟩, fun hs => hs.2⟩
              rintro rfl
              rcases hs with ⟨kept, hkept, hnone⟩
              rw [hdue] at hkept
              cases hkept
              rw [hbound] at hnone
              cases hnone
          rcases forget_sound hloose with ⟨c₁, hforget, hsound, hsettled⟩
          have hsize : c₁.byUntil.size < n := by
            rw [forget_byUntil hforget, ← hn]
            exact size_erase_lt hmem
          rcases ih _ hsize hsound rfl with ⟨c', hexpire, hsound', hspec⟩
          refine ⟨c', ?_, hsound', fun s kept => (hspec s kept).trans ?_⟩
          · split
            · rename_i hnone
              rw [hforget] at hnone
              cases hnone
            · rename_i hsome
              rw [hforget] at hsome
              cases hsome
              exact hexpire
          · rw [hsettled, OrdMap.getElem?_erase]
            by_cases heq : seq = s
            · subst heq
              rw [if_pos rfl]
              refine ⟨fun hs => absurd hs.1 nofun, fun hs => absurd ?_ hs.2⟩
              rw [hdue] at hs
              cases hs.1
              exact ⟨bound, hbound, Int64.not_le.mp hle⟩
            · rw [if_neg heq]

end Calls

/-- What happens to the kept responses. -/
inductive CallsOp
  | settle (seq : UInt64) (response : Bytes) (bound : Option Timestamp)
  | expire (now : Timestamp)

/-- The kept responses of a session; no operation answers anything. -/
def keptResponses : Machine Calls CallsOp Unit where
  init := .new
  step c
    | .settle seq response bound => (c.settle seq response bound).map fun c' => (c', ())
    | .expire now => (c.expire now).map fun c' => (c', ())

theorem keptResponses_step {c : Calls} (h : c.Sound) (op : CallsOp) :
    ∃ c', keptResponses.step c op = some (c', ()) ∧ c'.Sound := by
  cases op with
  | settle seq response bound =>
      rcases Calls.settle_sound h seq response bound with ⟨c', hstep, hsound⟩
      refine ⟨c', ?_, hsound⟩
      change (c.settle seq response bound).map _ = _
      rw [hstep]
      rfl
  | expire now =>
      rcases Calls.expire_sound h now with ⟨c', hstep, hsound, -⟩
      refine ⟨c', ?_, hsound⟩
      change (c.expire now).map _ = _
      rw [hstep]
      rfl

theorem keptResponses_exec {c : Calls} (h : c.Sound) (ops : List CallsOp) :
    ∃ xs c', keptResponses.exec c ops = some (xs, c') ∧ c'.Sound ∧ ∀ x ∈ xs, x.pre.Sound := by
  induction ops generalizing c with
  | nil => exact ⟨[], c, rfl, h, fun x hx => absurd hx List.not_mem_nil⟩
  | cons op ops ih =>
      rcases keptResponses_step h op with ⟨c₁, hstep, hsound⟩
      rcases ih hsound with ⟨xs, c', hexec, hsound', hall⟩
      refine ⟨⟨c, op, (), c₁⟩ :: xs, c', ?_, hsound', ?_⟩
      · rw [Machine.exec, hstep]
        change (keptResponses.exec c₁ ops >>= _) = _
        rw [hexec]
        rfl
      · intro x hx
        rcases List.mem_cons.mp hx with rfl | hmem
        · exact h
        · exact hall x hmem

/-- **The kept responses agree.** Whatever is settled, also twice, and expired,
    the count does not underflow and is the sum of the lengths of the responses
    kept; each is in the index of its own bound or in the ring, and no index
    holds another; the ring has at most 64; and an expiry lets go exactly the
    responses whose bound has passed. -/
theorem kept_responses_agree (ops : List CallsOp) :
    ∃ xs c, keptResponses.exec .new ops = some (xs, c) ∧
      c.bytes = OrdMap.total (fun kept => kept.bytes.length) c.settled ∧
      (∀ seq kept, c.settled[seq]? = some kept →
        (∀ bound, (bound, seq) ∈ c.byUntil ↔ kept.keptUntil = some bound) ∧
        (seq ∈ c.ring ↔ kept.keptUntil = none)) ∧
      (∀ bound seq, (bound, seq) ∈ c.byUntil → c.settled[seq]? ≠ none) ∧
      (∀ seq ∈ c.ring, c.settled[seq]? ≠ none) ∧
      c.ring.Nodup ∧ c.ring.length ≤ RETAINED ∧
      ∀ x ∈ xs, ∀ now, x.op = .expire now → ∀ (seq : UInt64) (kept : Kept),
        (x.post.settled[seq]? = some kept ↔ x.pre.settled[seq]? = some kept ∧
          ∀ bound, kept.keptUntil = some bound → now ≤ bound) := by
  rcases keptResponses_exec Calls.new_sound ops with ⟨xs, c, hexec, hsound, hall⟩
  refine ⟨xs, c, hexec, hsound.count, fun seq kept hkept => ⟨fun bound => ?_, ?_⟩,
    fun bound seq hmem => ?_, fun seq hmem => ?_, hsound.once, hsound.few, ?_⟩
  · rw [hsound.bounded, hkept]
    exact ⟨fun ⟨kept', hsome, hbound⟩ => Option.some.inj hsome ▸ hbound,
      fun hbound => ⟨kept, rfl, hbound⟩⟩
  · rw [hsound.unbounded, hkept]
    exact ⟨fun ⟨kept', hsome, hbound⟩ => Option.some.inj hsome ▸ hbound,
      fun hbound => ⟨kept, rfl, hbound⟩⟩
  · rcases (hsound.bounded bound seq).mp hmem with ⟨kept, hkept, -⟩
    rw [hkept]
    exact Option.some_ne_none kept
  · rcases (hsound.unbounded seq).mp hmem with ⟨kept, hkept, -⟩
    rw [hkept]
    exact Option.some_ne_none kept
  · intro x hx now hop seq kept
    rcases Calls.expire_sound (hall x hx) now with ⟨c', hexpire, -, hspec⟩
    have hstep := (Machine.isRun_exec _ _ _ _ hexec).step_of_mem x hx
    rw [hop] at hstep
    change (x.pre.expire now).map _ = _ at hstep
    rw [hexpire] at hstep
    cases hstep
    refine (hspec seq kept).trans (and_congr_right fun _ => ?_)
    constructor
    · intro hnot bound hbound
      exact Int64.not_lt.mp fun hlt => hnot ⟨bound, hbound, hlt⟩
    · rintro hall' ⟨bound, hbound, hlt⟩
      exact Int64.not_lt.mpr (hall' bound hbound) hlt

end Server

end Ridl
