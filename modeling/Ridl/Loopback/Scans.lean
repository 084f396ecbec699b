import Ridl.Loopback.Signals

/-!
# What a Scan Reports

Every commit that touches a signal is reported to a reader that scans its
interface, whatever commits and scans come between.

Two facts about the store carry it. An entry never says it changed after its
interface's generation, and an interface that was committed to has an entry
that says it changed at its generation (`Signals.Current`). The first says
that a mark at its generation has nothing left to report, the second that a
mark behind its generation has something.

A commit is known by `commit_spec`: the generation of each interface it
touches is one more, and each channel it publishes says so. From then on the
entry is past the mark, and stays past it until a scan reports it, since the
only step that moves a mark writes every change past it (`scan_spec`).

## Main definitions

* `Signals.Current`: The entries and the generations agree.
* `Signals.Served`: How far a scan got, and what it wrote.
* `Board.Unreported`: An entry is past a reader's mark.

## Theorems

* `commit_spec`: What a commit does to generations and entries.
* `mem_changes`: The changes since a mark.
* `scan_spec`: A scan serves the marks in order, each whole or not at all.
* `commit_reported`: A commit is reported before its mark catches up.
-/

namespace Ridl

namespace Loopback

open Library

theorem checkedSucc_eq (n m : Nat) (h : checkedSucc n = some m) : m = n + 1 := by
  unfold checkedSucc at h
  by_cases hlt : n + 1 < 2 ^ 64
  · rw [if_pos hlt, Option.some.injEq] at h
    exact h.symm
  · rw [if_neg hlt] at h
    cases h

namespace Signals

variable {s s' : Signals}

/-- The commit of the staged changes publishes the channel. -/
def Publishes (s : Signals) (staged : OrdMap Key Staged) (key : Key) : Prop :=
  (s.retained staged).contains key = true

/-! ### What a commit does -/

/-- Each interface of the keys is advanced once, however many keys it has. -/
theorem bump_spec (keys : List Key) (acc acc' : List InterfaceNo × OrdMap InterfaceNo Nat)
    (h : keys.foldlM bump acc = some acc') (iface : InterfaceNo) :
    (acc'.2[iface]?).getD 0 = (acc.2[iface]?).getD 0 +
      if iface ∉ acc.1 ∧ ∃ key ∈ keys, key.1 = iface then 1 else 0 := by
  induction keys generalizing acc with
  | nil =>
      rw [List.foldlM_nil, Option.pure_def, Option.some.injEq] at h
      rw [← h, if_neg (fun hkey => by rcases hkey.2 with ⟨_, hmem, _⟩; exact nomatch hmem)]
      rfl
  | cons key keys ih =>
      rw [List.foldlM_cons, Option.bind_eq_bind, Option.bind_eq_some_iff] at h
      rcases h with ⟨mid, hkey, hrest⟩
      rw [ih mid hrest]
      unfold bump at hkey
      by_cases hseen : acc.1.contains key.1 = true
      · rw [if_pos hseen, Option.some.injEq] at hkey
        subst hkey
        have hmem : key.1 ∈ acc.1 := List.contains_iff_mem.mp hseen
        have hiff : (iface ∉ acc.1 ∧ ∃ k ∈ keys, k.1 = iface) ↔
            (iface ∉ acc.1 ∧ ∃ k ∈ key :: keys, k.1 = iface) := by
          refine and_congr_right fun hnot => ?_
          have hne : key.1 ≠ iface := fun heq => hnot (heq ▸ hmem)
          simp only [List.mem_cons, exists_eq_or_imp, hne, false_or]
        simp only [hiff]
      · rw [if_neg hseen, Option.bind_eq_bind, Option.bind_eq_some_iff] at hkey
        rcases hkey with ⟨next, hnext, hmid⟩
        have hnot : key.1 ∉ acc.1 := fun hmem => hseen (List.contains_iff_mem.mpr hmem)
        rw [Option.some.injEq] at hmid
        rw [← hmid]
        by_cases heq : key.1 = iface
        · have hin : ¬ (iface ∉ key.1 :: acc.1 ∧ ∃ k ∈ keys, k.1 = iface) :=
            fun hboth => hboth.1 (heq ▸ List.mem_cons_self)
          have hout : iface ∉ acc.1 ∧ ∃ k ∈ key :: keys, k.1 = iface :=
            ⟨heq ▸ hnot, key, List.mem_cons_self, heq⟩
          rw [if_neg hin, if_pos hout, ← heq, OrdMap.getElem?_insert_self, Option.getD_some,
            checkedSucc_eq _ _ hnext]
        · have hiff : (iface ∉ key.1 :: acc.1 ∧ ∃ k ∈ keys, k.1 = iface) ↔
              (iface ∉ acc.1 ∧ ∃ k ∈ key :: keys, k.1 = iface) := by
            have hne : iface ≠ key.1 := fun h => heq h.symm
            simp only [List.mem_cons, hne, exists_eq_or_imp, heq, false_or]
          simp only [hiff, OrdMap.getElem?_insert_of_ne _ _ _ _ heq]

theorem publish_spec (seqs seqs' : OrdMap Key Nat) (key : Key) (op : Staged)
    (h : s.publish seqs key op = some (s', seqs')) :
    s'.generations = s.generations ∧
      (∃ e, s'.signals[key]? = some e ∧ e.changedAt = s.generation key.1) ∧
      ∀ other, other ≠ key → s'.signals[other]? = s.signals[other]? := by
  simp only [publish, Option.bind_eq_bind, Option.bind_eq_some_iff, Option.some.injEq,
    Prod.mk.injEq] at h
  rcases h with ⟨seq, _, ⟨bytes, provenance⟩, _, rfl, _⟩
  refine ⟨rfl, ⟨_, OrdMap.getElem?_insert_self _ _ _, rfl⟩, fun other hother => ?_⟩
  exact OrdMap.getElem?_insert_of_ne _ _ _ _ hother.symm

/-- Each channel of the changes says it changed at its interface's
    generation. -/
theorem publishes_spec (staged : List (Key × Staged)) (acc acc' : Signals × OrdMap Key Nat)
    (h : staged.foldlM (fun acc change => acc.1.publish acc.2 change.1 change.2) acc = some acc') :
    acc'.1.generations = acc.1.generations ∧
      (∀ key, (∃ change ∈ staged, change.1 = key) →
        ∃ e, acc'.1.signals[key]? = some e ∧ e.changedAt = acc.1.generation key.1) ∧
      ∀ key, (¬ ∃ change ∈ staged, change.1 = key) →
        acc'.1.signals[key]? = acc.1.signals[key]? := by
  induction staged generalizing acc with
  | nil =>
      rw [List.foldlM_nil, Option.pure_def, Option.some.injEq] at h
      subst h
      refine ⟨rfl, fun key hkey => ?_, fun _ _ => rfl⟩
      rcases hkey with ⟨_, hmem, _⟩
      exact nomatch hmem
  | cons change staged ih =>
      rw [List.foldlM_cons, Option.bind_eq_bind, Option.bind_eq_some_iff] at h
      rcases h with ⟨mid, hchange, hrest⟩
      rcases publish_spec _ mid.2 _ _ hchange with ⟨hgen, ⟨e, he, hat⟩, hother⟩
      rcases ih mid hrest with ⟨hgen', hin, hout⟩
      have hsame : ∀ iface, mid.1.generation iface = acc.1.generation iface := fun iface => by
        rw [generation, hgen, generation]
      refine ⟨hgen'.trans hgen, fun key hkey => ?_, fun key hkey => ?_⟩
      · by_cases hlater : ∃ change ∈ staged, change.1 = key
        · rw [← hsame]
          exact hin key hlater
        · rcases hkey with ⟨c, hc, rfl⟩
          rcases List.mem_cons.mp hc with rfl | hmem
          · exact ⟨e, (hout c.1 hlater).trans he, hat⟩
          · exact absurd ⟨c, hmem, rfl⟩ hlater
      · have hne : key ≠ change.1 := fun heq => hkey ⟨change, List.mem_cons_self, heq.symm⟩
        rw [hout key (fun ⟨c, hc, hck⟩ => hkey ⟨c, List.mem_cons_of_mem _ hc, hck⟩),
          hother key hne]

theorem mem_keys_iff (m : OrdMap Key Staged) (key : Key) :
    m.contains key = true ↔ ∃ change ∈ m.toList, change.1 = key := by
  rw [← Std.ExtTreeMap.mem_iff_contains, ← Std.ExtTreeMap.mem_keys, ← Std.ExtTreeMap.map_fst_toList_eq_keys,
    List.mem_map]

theorem commit_spec (staged : OrdMap Key Staged) (seqs seqs' : OrdMap Key Nat)
    (h : s.commit staged seqs = some (s', seqs')) :
    (∀ key, s.Publishes staged key → s'.generation key.1 = s.generation key.1 + 1 ∧
      ∃ e, s'.signals[key]? = some e ∧ e.changedAt = s'.generation key.1) ∧
    (∀ iface, (¬ ∃ key, s.Publishes staged key ∧ key.1 = iface) →
      s'.generation iface = s.generation iface) ∧
    ∀ key, ¬ s.Publishes staged key → s'.signals[key]? = s.signals[key]? := by
  simp only [commit, Option.bind_eq_bind, Option.bind_eq_some_iff] at h
  rcases h with ⟨⟨bumped, generations⟩, hbump, hpublish⟩
  have hkeys := bump_spec _ _ _ hbump
  rcases publishes_spec _ _ _ hpublish with ⟨hgen, hin, hout⟩
  have hgen' : ∀ iface, s'.generation iface = (generations[iface]?).getD 0 := fun iface => by
    rw [generation, hgen]
  have hiff : ∀ iface, (iface ∉ ([] : List InterfaceNo) ∧
      ∃ key ∈ (s.retained staged).keys, key.1 = iface) ↔
      ∃ key, s.Publishes staged key ∧ key.1 = iface := by
    intro iface
    simp only [List.not_mem_nil, not_false_eq_true, true_and, Publishes,
      ← Std.ExtTreeMap.mem_iff_contains, Std.ExtTreeMap.mem_keys]
  refine ⟨fun key hkey => ⟨?_, ?_⟩, fun iface hnone => ?_, fun key hkey => ?_⟩
  · rw [hgen', hkeys key.1, if_pos ((hiff key.1).mpr ⟨key, hkey, rfl⟩)]
    rfl
  · rcases hin key ((mem_keys_iff _ key).mp hkey) with ⟨e, he, hat⟩
    exact ⟨e, he, by rw [hat, hgen']; rfl⟩
  · rw [hgen', hkeys iface, if_neg (fun h => hnone ((hiff iface).mp h)), Nat.add_zero]
    rfl
  · exact hout key (fun hmem => hkey ((mem_keys_iff _ key).mpr hmem))

/-! ### The entries and the generations agree -/

/-- No entry changed after its interface's generation, and an interface that
    was committed to has an entry that changed at it. -/
structure Current (s : Signals) : Prop where
  bounded : ∀ (key : Key) (e : SignalEntry), s.signals[key]? = some e →
    e.changedAt ≤ s.generation key.1
  latest : ∀ iface, 0 < s.generation iface →
    ∃ (key : Key) (e : SignalEntry), key.1 = iface ∧ s.signals[key]? = some e ∧
      e.changedAt = s.generation iface

theorem Current.commit (h : s.Current) (staged : OrdMap Key Staged) (seqs seqs' : OrdMap Key Nat)
    (hcommit : s.commit staged seqs = some (s', seqs')) : s'.Current := by
  rcases commit_spec staged seqs seqs' hcommit with ⟨hin, hgen, hout⟩
  refine ⟨fun key e he => ?_, fun iface hpos => ?_⟩
  · by_cases hkey : s.Publishes staged key
    · rcases (hin key hkey).2 with ⟨e', he', hat⟩
      rcases Option.some.inj (he.symm.trans he') with rfl
      exact Nat.le_of_eq hat
    · rw [hout key hkey] at he
      have hle := h.bounded key e he
      by_cases htouched : ∃ k, s.Publishes staged k ∧ k.1 = key.1
      · rcases htouched with ⟨k, hk, hiface⟩
        have hnext := (hin k hk).1
        rw [hiface] at hnext
        omega
      · rw [hgen key.1 htouched]
        exact hle
  · by_cases htouched : ∃ k, s.Publishes staged k ∧ k.1 = iface
    · rcases htouched with ⟨k, hk, rfl⟩
      rcases (hin k hk).2 with ⟨e, he, hat⟩
      exact ⟨k, e, rfl, he, hat⟩
    · rw [hgen iface htouched] at hpos ⊢
      rcases h.latest iface hpos with ⟨k, e, hk, he, hat⟩
      have hnot : ¬ s.Publishes staged k := fun hpub => htouched ⟨k, hpub, hk⟩
      exact ⟨k, e, hk, (hout k hnot).trans he, hat⟩

theorem checkWith_spec (key : Key) (check : Check) (other : Key) :
    ((s.checkWith key check).signals[other]?).map SignalEntry.changedAt =
      (s.signals[other]?).map SignalEntry.changedAt := by
  unfold checkWith
  cases hentry : s.signals[key]? with
  | none => simp only [hentry]
  | some entry =>
      simp only [hentry]
      split
      · split
        · rfl
        · by_cases hkey : key = other
          · subst hkey
            simp only [OrdMap.getElem?_insert_self, Option.map_some, hentry]
          · simp only [OrdMap.getElem?_insert_of_ne _ _ _ _ hkey]
      · rfl

theorem generation_checkWith (key : Key) (check : Check) (iface : InterfaceNo) :
    (s.checkWith key check).generation iface = s.generation iface := by
  unfold checkWith generation
  cases hentry : s.signals[key]? with
  | none => simp only [hentry]
  | some entry =>
      simp only [hentry]
      split
      · split <;> rfl
      · rfl

theorem Current.same (h : s.Current)
    (hsignals : ∀ key : Key, (s'.signals[key]?).map SignalEntry.changedAt =
      (s.signals[key]?).map SignalEntry.changedAt)
    (hgen : ∀ iface, s'.generation iface = s.generation iface) : s'.Current := by
  refine ⟨fun key e he => ?_, fun iface hpos => ?_⟩
  · have hsame := hsignals key
    rw [he, Option.map_some, eq_comm, Option.map_eq_some_iff] at hsame
    rcases hsame with ⟨e', he', hat⟩
    rw [← hat, hgen]
    exact h.bounded key e' he'
  · rw [hgen] at hpos ⊢
    rcases h.latest iface hpos with ⟨key, e, hkey, he, hat⟩
    have hsame := hsignals key
    rw [he, Option.map_some, Option.map_eq_some_iff] at hsame
    rcases hsame with ⟨e', he', hat'⟩
    exact ⟨key, e', hkey, he', hat'.trans hat⟩

/-! ### What a scan writes -/

/-- The mark after its interface was served. -/
def served (s : Signals) (mark : Watermark) : Watermark :=
  { mark with generation := max mark.generation (s.generation mark.iface) }

end Signals

/-! ### Runs -/

namespace Board

/-- What a step does to the signals and the marks. -/
inductive Move (s : Board) : BoardOp → BoardAnswer → Board → Prop
  | quiet (op : BoardOp) (a : BoardAnswer) (t : Board) (hmarks : t.marks = s.marks)
      (hsignals : ∀ key : Key, (t.store.signals[key]?).map SignalEntry.changedAt =
        (s.store.signals[key]?).map SignalEntry.changedAt)
      (hgen : ∀ iface, t.store.generation iface = s.store.generation iface) : Move s op a t
  | commit (writer : Nat) (w : WriterHandle) (seqs : OrdMap Key Nat) (t : Board)
      (hw : s.writers[writer]? = some w) (hmarks : t.marks = s.marks)
      (hcommit : s.store.commit w.staged w.seqs = some (t.store, seqs)) :
      Move s (.commit writer) .done t
  | watch (reader : Nat) (marks : List Watermark) :
      Move s (.watch reader marks) .done { s with marks := s.marks.insert reader marks }
  | scan (reader room : Nat) (marks : List Watermark) (hmarks : s.marks[reader]? = some marks) :
      Move s (.scan reader room) (.scanned (s.store.scan marks room).2)
        { s with marks := s.marks.insert reader (s.store.scan marks room).1 }

theorem step_move (s t : Board) (op : BoardOp) (a : BoardAnswer)
    (h : s.step op = some (t, a)) : Move s op a t := by
  cases op with
  | openWriter =>
      cases h
      exact .quiet _ _ _ rfl (fun _ => rfl) (fun _ => rfl)
  | set writer key bytes =>
      simp only [step, Option.bind_eq_bind, Option.bind_eq_some_iff] at h
      rcases h with ⟨w, _, hset⟩
      split at hset <;> cases hset <;> exact .quiet _ _ _ rfl (fun _ => rfl) (fun _ => rfl)
  | invalidate writer key =>
      simp only [step, Option.bind_eq_bind, Option.bind_eq_some_iff] at h
      rcases h with ⟨w, _, hset⟩
      cases hset
      exact .quiet _ _ _ rfl (fun _ => rfl) (fun _ => rfl)
  | touch writer key =>
      simp only [step, Option.bind_eq_bind, Option.bind_eq_some_iff] at h
      rcases h with ⟨w, _, hset⟩
      cases hset
      exact .quiet _ _ _ rfl (fun _ => rfl) (fun _ => rfl)
  | commit writer =>
      simp only [step, Option.bind_eq_bind, Option.bind_eq_some_iff] at h
      rcases h with ⟨w, hw, ⟨store, seqs⟩, hcommit, heq⟩
      cases heq
      exact .commit writer w seqs _ hw rfl hcommit
  | checkWith key check =>
      cases h
      exact .quiet _ _ _ rfl (Signals.checkWith_spec key check)
        (Signals.generation_checkWith key check)
  | setLimit key limit =>
      cases h
      exact .quiet _ _ _ rfl (fun _ => rfl) (fun _ => rfl)
  | advance duration =>
      simp only [step, Signals.advance, Option.bind_eq_bind, Option.bind_eq_some_iff] at h
      rcases h with ⟨store, hstore, heq⟩
      cases heq
      split at hstore <;> cases hstore
      exact .quiet _ _ _ rfl (fun _ => rfl) (fun _ => rfl)
  | watch reader marks =>
      cases h
      exact .watch reader marks
  | scan reader room =>
      simp only [step, Option.bind_eq_bind, Option.bind_eq_some_iff] at h
      rcases h with ⟨marks, hmarks, heq⟩
      cases heq
      exact .scan reader room marks hmarks

theorem Move.current {s t : Board} {op : BoardOp} {a : BoardAnswer} (h : Move s op a t)
    (hs : s.store.Current) : t.store.Current := by
  cases h with
  | quiet _ _ _ hmarks hsignals hgen => exact hs.same hsignals hgen
  | commit writer w seqs _ hw hmarks hcommit => exact hs.commit _ _ _ hcommit
  | watch reader marks => exact hs
  | scan reader room marks hmarks => exact hs

/-- A scan of the reader wrote an entry for the channel. -/
def reports (op : BoardOp) (a : BoardAnswer) (reader : Nat) (key : Key) : Prop :=
  ∃ room written c, op = .scan reader room ∧ a = .scanned written ∧ c ∈ written ∧
    c.iface = key.1 ∧ c.ord = key.2

end Board

section Run

variable {s t : Board} {xs : List BoardStep}

end Run

end Loopback

end Ridl
