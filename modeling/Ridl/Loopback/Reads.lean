import Ridl.Loopback.Scans
import Ridl.Runtime.Port

/-!
# What a Reader Is Told

Writers stage changes and commit them in any order, checks are installed in
between, and a check may refuse what was published before it. Through all of
that a live value is the one last set on its channel, and the installed check
accepts it: a publication makes a value live only when the check accepts it,
and the installation of a check leaves no live value that it refuses.

## Main definitions

* `Signals.read`: The sample of a channel, and its bytes.
* `Signals.Live`, `Writes`: The live value of a channel, and what a step commits to it.

## Theorems

* `step_live`: Where a live value comes from.
* `live_is_last_set`: A live value is the one last set, and passes its check.
* `generation_counts`: A generation counts the commits to its interface.
-/

namespace Ridl

namespace Loopback

open Library

def unpublished : RawSample :=
  { provenance := .init, freshness := .unbounded, envelope := { stamp := 0, seq := 0 }, len := 0 }

/-- The loopback has no member table, so nothing it answers has a staleness bound. -/
def sampleOf (entry : SignalEntry) : RawSample :=
  { provenance := entry.provenance, freshness := .unbounded, envelope := entry.envelope
    len := entry.bytes.length }

namespace Signals

/-- The sample of a channel, and the bytes copied to a buffer of `room` bytes. -/
def read (s : Signals) (key : Key) (room : Nat) : Except ReadError (RawSample × Bytes) :=
  match s.signals[key]? with
  | none => .ok (unpublished, [])
  | some entry =>
      if room < entry.bytes.length then .error (.short entry.bytes.length)
      else .ok (sampleOf entry, entry.bytes)

def Live (s : Signals) (key : Key) (bytes : Bytes) : Prop :=
  ∃ e, s.signals[key]? = some e ∧ e.provenance = .live ∧ e.bytes = bytes

/-- The check of the channel, where it has one, accepts the bytes. -/
def Passes (s : Signals) (key : Key) (bytes : Bytes) : Prop :=
  ∀ check, s.checks[key]? = some check → check bytes = .ok ()

variable {s s' : Signals} (key : Key) (bytes : Bytes)

theorem publish_live {seqs seqs' : OrdMap Key Nat} {k : Key} {op : Staged}
    (h : s.publish seqs k op = some (s', seqs')) :
    s'.checks = s.checks ∧ (s'.Live key bytes →
      (k = key ∧ op = .set bytes ∧ s.Passes key bytes) ∨
        s.Live key bytes ∧ (k = key → op = .touch)) := by
  simp only [publish, Option.bind_eq_bind, Option.bind_eq_some_iff, Option.some.injEq,
    Prod.mk.injEq] at h
  rcases h with ⟨seq, _, ⟨b, provenance⟩, hpublished, rfl, _⟩
  refine ⟨rfl, ?_⟩
  rintro ⟨e, he, hlive, rfl⟩
  by_cases hk : k = key
  · subst hk
    rw [OrdMap.getElem?_insert_self, Option.some.injEq] at he
    subst he
    change provenance = .live at hlive
    subst hlive
    cases op with
    | set b' =>
        refine .inl ⟨rfl, ?_⟩
        unfold Passes
        cases hcheck : s.checks[k]? with
        | none =>
            rw [hcheck] at hpublished
            cases hpublished
            exact ⟨rfl, fun c hc => absurd hc.symm (Option.some_ne_none c)⟩
        | some c =>
            cases hc : c b' <;>
              simp only [published, hcheck, Option.map_some, Option.getD_some, hc] at hpublished <;>
              cases hpublished
            exact ⟨rfl, fun c' hc' => Option.some.inj hc' ▸ hc⟩
    | invalidate => cases hpublished
    | touch =>
        rcases Option.map_eq_some_iff.mp hpublished with ⟨old, hold, heq⟩
        rw [Prod.mk.injEq] at heq
        exact .inr ⟨⟨old, hold, heq.2, heq.1⟩, fun _ => rfl⟩
  · rw [OrdMap.getElem?_insert_of_ne _ _ _ _ hk] at he
    exact .inr ⟨⟨e, he, hlive, rfl⟩, fun h => absurd h hk⟩

theorem publishes_live (staged : List (Key × Staged)) (acc acc' : Signals × OrdMap Key Nat)
    (h : staged.foldlM (fun acc change => acc.1.publish acc.2 change.1 change.2) acc = some acc') :
    acc'.1.checks = acc.1.checks ∧ (acc'.1.Live key bytes →
      ((key, .set bytes) ∈ staged ∧ acc.1.Passes key bytes) ∨
        acc.1.Live key bytes ∧ ∀ op, (key, op) ∈ staged → op = .touch) := by
  induction staged generalizing acc with
  | nil =>
      cases h
      exact ⟨rfl, fun hlive => .inr ⟨hlive, fun op hop => absurd hop List.not_mem_nil⟩⟩
  | cons change staged ih =>
      rw [List.foldlM_cons, Option.bind_eq_bind, Option.bind_eq_some_iff] at h
      rcases h with ⟨mid, hchange, hrest⟩
      rcases ih mid hrest with ⟨hchecks, hlater⟩
      have hpublish := publish_live key bytes hchange
      refine ⟨hchecks.trans hpublish.1, fun hlive => ?_⟩
      unfold Passes at hlater ⊢
      rw [hpublish.1] at hlater
      rcases hlater hlive with ⟨hset, hpass⟩ | ⟨hmid, htouch⟩
      · exact .inl ⟨List.mem_cons_of_mem _ hset, hpass⟩
      · rcases hpublish.2 hmid with ⟨hk, hop, hpass⟩ | ⟨hold, hk⟩
        · exact .inl ⟨hk ▸ hop ▸ List.mem_cons_self, hpass⟩
        · refine .inr ⟨hold, fun op hop => ?_⟩
          rcases List.mem_cons.mp hop with rfl | hmem
          · exact hk rfl
          · exact htouch op hmem

theorem commit_live {staged : OrdMap Key Staged} {seqs seqs' : OrdMap Key Nat}
    (h : s.commit staged seqs = some (s', seqs')) :
    s'.checks = s.checks ∧ (s'.Live key bytes →
      (staged[key]? = some (.set bytes) ∧ s.Passes key bytes) ∨
        s.Live key bytes ∧ ∀ op, staged[key]? = some op → op = .touch) := by
  simp only [commit, Option.bind_eq_bind, Option.bind_eq_some_iff] at h
  rcases h with ⟨_, _, hpublish⟩
  rcases publishes_live key bytes _ _ _ hpublish with ⟨hchecks, hlive⟩
  have hmem (op : Staged) : (key, op) ∈ (s.retained staged).toList ↔
      staged[key]? = some op ∧ (op ≠ .touch || s.signals.contains key) = true := by
    rw [Std.ExtTreeMap.mem_toList_iff_getElem?_eq_some, Signals.retained,
      Std.ExtTreeMap.getElem?_filter', Option.filter_eq_some_iff]
  simp only [hmem] at hlive
  refine ⟨hchecks, fun h => (hlive h).imp (fun hset => ⟨hset.1.1, hset.2⟩) fun hold => ⟨hold.1, ?_⟩⟩
  intro op hop
  by_contra htouch
  exact htouch (hold.2 op ⟨hop, Bool.or_eq_true_iff.mpr (.inl (decide_eq_true htouch))⟩)

theorem checkWith_cases (s : Signals) (k : Key) (check : Check) :
    (s.checkWith k check = { s with checks := s.checks.insert k check } ∧
      ∀ e, s.signals[k]? = some e → e.provenance = .live → check e.bytes = .ok ()) ∨
    ∃ e detection, s.signals[k]? = some e ∧ s.checkWith k check =
      { s with
        checks := s.checks.insert k check
        signals := s.signals.insert k
          { e with bytes := [], provenance := .invalid (.detected detection) } } := by
  unfold checkWith
  cases hentry : s.signals[k]? with
  | none => exact .inl ⟨by simp only [hentry], fun e he => absurd he.symm (Option.some_ne_none e)⟩
  | some e =>
      by_cases hlive : e.provenance = .live
      · cases hcheck : check e.bytes with
        | ok =>
            refine .inl ⟨by simp only [hentry, hlive, if_true, hcheck], fun e' he' _ => ?_⟩
            exact Option.some.inj he' ▸ hcheck
        | error detection =>
            exact .inr ⟨e, detection, rfl, by simp only [hentry, hlive, if_true, hcheck]⟩
      · refine .inl ⟨by simp only [hentry, hlive, if_false], fun e' he' hlive' => ?_⟩
        exact absurd (Option.some.inj he' ▸ hlive') hlive

theorem checkWith_live {k : Key} {check : Check} (h : (s.checkWith k check).Live key bytes) :
    s.Live key bytes ∧ (s.Passes key bytes → (s.checkWith k check).Passes key bytes) := by
  rcases h with ⟨e, he, hlive, rfl⟩
  unfold Passes Live
  by_cases hk : k = key
  · subst hk
    rcases checkWith_cases s k check with ⟨heq, haccepts⟩ | ⟨old, detection, hold, heq⟩
    · rw [heq] at he ⊢
      refine ⟨⟨e, he, hlive, rfl⟩, fun _ c hc => ?_⟩
      rw [OrdMap.getElem?_insert_self, Option.some.injEq] at hc
      exact hc ▸ haccepts e he hlive
    · rw [heq, OrdMap.getElem?_insert_self, Option.some.injEq] at he
      subst he
      cases hlive
  · rcases checkWith_cases s k check with ⟨heq, -⟩ | ⟨old, detection, -, heq⟩ <;>
      rw [heq] at he ⊢ <;>
      rw [OrdMap.getElem?_insert_of_ne _ _ _ _ hk] <;>
      try rw [OrdMap.getElem?_insert_of_ne _ _ _ _ hk] at he
    all_goals exact ⟨⟨e, he, hlive, rfl⟩, id⟩

end Signals

/-- The step commits the staged change of the channel. -/
def Writes (x : BoardStep) (key : Key) (op : Staged) : Prop :=
  ∃ writer w, x.op = .commit writer ∧ x.pre.writers[writer]? = some w ∧ w.staged[key]? = some op

/-- The step is a commit that publishes a channel of the interface. -/
def Commits (iface : InterfaceNo) (x : BoardStep) : Prop :=
  ∃ writer w key, x.op = .commit writer ∧ x.pre.writers[writer]? = some w ∧
    x.pre.store.Publishes w.staged key ∧ key.1 = iface

section Run

variable {s t : Board} {xs : List BoardStep} {x : BoardStep}

theorem step_quiet {op : BoardOp} {a : BoardAnswer} (h : s.step op = some (t, a))
    (hcommit : ∀ writer, op ≠ .commit writer) (hcheck : ∀ k check, op ≠ .checkWith k check) :
    t.store.checks = s.store.checks ∧ t.store.signals = s.store.signals := by
  cases op with
  | commit writer => exact absurd rfl (hcommit writer)
  | checkWith k check => exact absurd rfl (hcheck k check)
  | openWriter | setLimit | watch =>
      cases h
      exact ⟨rfl, rfl⟩
  | set =>
      simp only [Board.step, Option.bind_eq_bind, Option.bind_eq_some_iff] at h
      rcases h with ⟨_, _, h⟩
      split at h <;> cases h <;> exact ⟨rfl, rfl⟩
  | advance =>
      simp only [Board.step, Signals.advance, Option.bind_eq_bind, Option.bind_eq_some_iff] at h
      rcases h with ⟨_, hstore, h⟩
      cases h
      split at hstore <;> cases hstore
      exact ⟨rfl, rfl⟩
  | invalidate | touch | scan =>
      simp only [Board.step, Option.bind_eq_bind, Option.bind_eq_some_iff] at h
      rcases h with ⟨_, _, h⟩
      cases h
      exact ⟨rfl, rfl⟩

theorem commit_of_step (h : x.pre.step x.op = some (x.post, x.answer)) {writer : Nat}
    (hop : x.op = .commit writer) : ∃ w seqs, x.pre.writers[writer]? = some w ∧
      x.pre.store.commit w.staged w.seqs = some (x.post.store, seqs) := by
  rw [hop] at h
  simp only [Board.step, Option.bind_eq_bind, Option.bind_eq_some_iff, Option.some.injEq,
    Prod.mk.injEq] at h
  rcases h with ⟨w, hw, ⟨store, seqs⟩, hstore, heq, _⟩
  exact ⟨w, seqs, hw, heq ▸ hstore⟩

theorem step_live (h : x.pre.step x.op = some (x.post, x.answer)) {key : Key} {bytes : Bytes}
    (hlive : x.post.store.Live key bytes) :
    (Writes x key (.set bytes) ∧ x.post.store.Passes key bytes) ∨
      x.pre.store.Live key bytes ∧ (∀ op, Writes x key op → op = .touch) ∧
        (x.pre.store.Passes key bytes → x.post.store.Passes key bytes) := by
  by_cases hcommit : ∃ writer, x.op = .commit writer
  · rcases hcommit with ⟨writer, hop⟩
    rcases commit_of_step h hop with ⟨w, seqs, hw, hstore⟩
    rcases Signals.commit_live key bytes hstore with ⟨hchecks, hfrom⟩
    unfold Signals.Passes
    rw [hchecks]
    refine (hfrom hlive).imp (fun hset => ⟨⟨writer, w, hop, hw, hset.1⟩, hset.2⟩) fun hold =>
      ⟨hold.1, ?_, id⟩
    rintro op ⟨writer', w', hop', hw', hstaged⟩
    cases hop.symm.trans hop'
    cases hw.symm.trans hw'
    exact hold.2 op hstaged
  · have hno : ∀ op, Writes x key op → op = .touch := by
      rintro op ⟨writer, _, hop, _⟩
      exact absurd ⟨writer, hop⟩ hcommit
    refine .inr ?_
    by_cases hcheck : ∃ k check, x.op = .checkWith k check
    · rcases hcheck with ⟨k, check, hop⟩
      rw [hop] at h
      simp only [Board.step, Option.some.injEq, Prod.mk.injEq] at h
      rw [← h.1] at hlive ⊢
      rcases Signals.checkWith_live key bytes hlive with ⟨hpre, hpass⟩
      exact ⟨hpre, hno, hpass⟩
    · rcases step_quiet h (fun writer hop => hcommit ⟨writer, hop⟩)
        (fun k check hop => hcheck ⟨k, check, hop⟩) with ⟨hchecks, hsignals⟩
      unfold Signals.Live Signals.Passes at *
      rw [hchecks]
      rw [hsignals] at hlive
      exact ⟨hlive, hno, id⟩

/-- Whatever is staged, committed and checked in between, a value that is read live is the one
    last set on its channel, and the installed check accepts it. -/
theorem live_is_last_set (h : board.IsRun Board.new xs t) (key : Key) (room : Nat)
    (sample : RawSample) (bytes : Bytes) (hread : t.store.read key room = .ok (sample, bytes))
    (hlive : sample.provenance = .live) :
    t.store.Passes key bytes ∧ ∃ front x after, xs = front ++ x :: after ∧
      Writes x key (.set bytes) ∧ ∀ y ∈ after, ∀ op, Writes y key op → op = .touch := by
  have hrun := h.history (fun ys s => s.store.Live key bytes →
    s.store.Passes key bytes ∧ ∃ front x after, ys = front ++ x :: after ∧
      Writes x key (.set bytes) ∧ ∀ y ∈ after, ∀ op, Writes y key op → op = .touch) ?_ ?_
  · refine hrun ?_
    unfold Signals.read at hread
    cases he : t.store.signals[key]? with
    | none =>
        rw [he] at hread
        cases hread
        cases hlive
    | some e =>
        rw [he] at hread
        dsimp only at hread
        split at hread <;> cases hread
        exact ⟨e, he, hlive, rfl⟩
  · rintro ⟨e, he, _⟩
    rw [Board.new, Signals.new, Std.ExtTreeMap.getElem?_empty] at he
    cases he
  · intro ys x _ _ hstep ih hlive
    rcases step_live hstep hlive with ⟨hset, hpass⟩ | ⟨hold, htouch, hpass⟩
    · exact ⟨hpass, ys, x, [], rfl, hset, fun y hy => absurd hy List.not_mem_nil⟩
    · rcases ih hold with ⟨hpre, front, y, after, hys, hset, hafter⟩
      refine ⟨hpass hpre, front, y, after ++ [x], ?_, hset, fun z hz => ?_⟩
      · rw [hys, List.append_assoc, List.cons_append]
      · rcases List.mem_append.mp hz with hz | hz
        · exact hafter z hz
        · exact List.mem_singleton.mp hz ▸ htouch

/-- A value is set, and then touched. -/
def touchedOps : List BoardOp :=
  [.openWriter, .set 0 (1, 1) [42], .commit 0, .touch 0 (1, 1), .commit 0]

theorem live_is_last_set_touched :
    ∃ xs t, board.IsRun Board.new xs t ∧ t.store.Passes (1, 1) [42] ∧
      ∃ front x after, xs = front ++ x :: after ∧ Writes x (1, 1) (.set [42]) ∧
        ∀ y ∈ after, ∀ op, Writes y (1, 1) op → op = .touch := by
  have hexec : (board.exec Board.new touchedOps).any (fun run =>
      decide (run.2.store.read (1, 1) 4 = .ok (⟨.live, .unbounded, ⟨0, 2⟩, 1⟩, [42]))) = true := by
    decide +kernel
  rcases (Option.any_eq_true _ _).mp hexec with ⟨⟨xs, t⟩, hrun, hread⟩
  have hisRun := Machine.isRun_exec _ _ _ _ hrun
  exact ⟨xs, t, hisRun, live_is_last_set hisRun (1, 1) 4 _ _ (of_decide_eq_true hread) rfl⟩

open Classical in
theorem step_generation (h : x.pre.step x.op = some (x.post, x.answer)) (iface : InterfaceNo) :
    x.post.store.generation iface =
      x.pre.store.generation iface + if Commits iface x then 1 else 0 := by
  by_cases hcommit : ∃ writer, x.op = .commit writer
  · rcases hcommit with ⟨writer, hop⟩
    rcases commit_of_step h hop with ⟨w, seqs, hw, hstore⟩
    rcases Signals.commit_spec _ _ _ hstore with ⟨hin, hout, _⟩
    by_cases htouched : ∃ key, x.pre.store.Publishes w.staged key ∧ key.1 = iface
    · rcases htouched with ⟨key, hkey, rfl⟩
      rw [if_pos ⟨writer, w, key, hop, hw, hkey, rfl⟩]
      exact (hin key hkey).1
    · rw [if_neg, Nat.add_zero]
      · exact hout iface htouched
      · rintro ⟨writer', w', key, hop', hw', hkey⟩
        cases hop.symm.trans hop'
        cases hw.symm.trans hw'
        exact htouched ⟨key, hkey⟩
  · rw [if_neg fun hx => hcommit ⟨hx.choose, hx.choose_spec.choose_spec.choose_spec.1⟩,
      Nat.add_zero]
    have hmove := Board.step_move _ _ _ _ h
    generalize x.op = op at hmove hcommit
    generalize x.answer = a at hmove
    generalize x.post = t at hmove ⊢
    cases hmove with
    | quiet _ _ _ _ _ hgen => exact hgen iface
    | commit writer => exact absurd ⟨writer, rfl⟩ hcommit
    | watch | scan => rfl

open Classical in
/-- The generation of an interface is the number of commits that published one of its channels. -/
theorem generation_counts (h : board.IsRun Board.new xs t) (iface : InterfaceNo) :
    t.store.generation iface = xs.countP (Commits iface ·) := by
  refine h.history (fun ys s => s.store.generation iface = ys.countP (Commits iface ·)) ?_ ?_
  · rw [Board.new, Signals.new, Signals.generation, Std.ExtTreeMap.getElem?_empty]
    rfl
  · intro ys x _ _ hstep ih
    rw [step_generation hstep, ih, List.countP_append, List.countP_singleton]
    simp only [decide_eq_true_eq]

open Classical in
theorem generation_counts_touched :
    ∃ xs t, board.IsRun Board.new xs t ∧ t.store.generation 1 = 2 ∧
      xs.countP (Commits 1 ·) = 2 := by
  have hexec : (board.exec Board.new touchedOps).any (fun run =>
      decide (run.2.store.generation 1 = 2)) = true := by decide +kernel
  rcases (Option.any_eq_true _ _).mp hexec with ⟨⟨xs, t⟩, hrun, hgen⟩
  have hisRun := Machine.isRun_exec _ _ _ _ hrun
  have htwo := of_decide_eq_true hgen
  exact ⟨xs, t, hisRun, htwo, (generation_counts hisRun 1).symm.trans htwo⟩

end Run

end Loopback

end Ridl
