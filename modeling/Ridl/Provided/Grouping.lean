import Ridl.Provided.Taking

/-!
# Samples Are Committed by Their Stamps

The samples a consumer gives its backend, cut into groups by the commits
between them. A group has one remote stamp and at most one sample of each
channel, and its commit carries its stamp; the samples after the last commit
are such a group without its commit, and the state says which: the stamp and
the channels of the group that waits.

## Theorems

* `flush_waits`, `begin_waits`: What a commit and a sample do to the groups.
* `consumer_commits_grouped`: Numbers increase, samples are committed in
  groups, values are the last good ones, and gaps add up.
-/

namespace Ridl

namespace Provided

open Library Server

/-- Some samples and the commit after them. -/
structure Group where
  stamp : Timestamp
  samples : List (Target × Sample)

def given (samples : List (Target × Sample)) : List Delivery :=
  samples.map fun s => .sample s.1 s.2

def Group.moves (g : Group) : List Delivery := given g.samples ++ [.commit g.stamp]

def Delivery.isMove : Delivery → Bool
  | .sample _ _ | .commit _ => true
  | _ => false

/-- The samples and the commits of a trace. -/
def moves (trace : List Delivery) : List Delivery := trace.filter Delivery.isMove

/-- The samples have one stamp and are of different channels. -/
def Uniform (stamp : Timestamp) (samples : List (Target × Sample)) : Prop :=
  (∀ s ∈ samples, s.2.envelope.stamp = stamp) ∧ (samples.map fun s => keyOf s.1).Nodup

/-- The samples and the commits of a trace are groups, and samples that wait. -/
structure Grouped (trace : List Delivery) (groups : List Group)
    (waiting : List (Target × Sample)) : Prop where
  cut : moves trace = groups.flatMap Group.moves ++ given waiting
  groups : ∀ g ∈ groups, g.samples ≠ [] ∧ Uniform g.stamp g.samples
  waiting : ∃ stamp, Uniform stamp waiting

theorem moves_append (a b : List Delivery) : moves (a ++ b) = moves a ++ moves b :=
  List.filter_append ..

namespace Grouped

variable {trace out : List Delivery} {groups : List Group} {waiting : List (Target × Sample)}

theorem quiet (h : Grouped trace groups waiting) (hout : moves out = []) :
    Grouped (trace ++ out) groups waiting :=
  { h with cut := by rw [moves_append, hout, List.append_nil, h.cut] }

theorem commit (h : Grouped trace groups waiting) (hne : waiting ≠ []) {stamp : Timestamp}
    (huniform : Uniform stamp waiting) :
    Grouped (trace ++ [.commit stamp]) (groups ++ [⟨stamp, waiting⟩]) [] where
  cut := by
    rw [moves_append, h.cut, List.flatMap_append, List.flatMap_singleton, List.append_assoc]
    exact (List.append_nil _).symm
  groups g hg := by
    rcases List.mem_append.1 hg with hg | hg
    · exact h.groups g hg
    · rw [List.mem_singleton.1 hg]
      exact ⟨hne, huniform⟩
  waiting := ⟨stamp, fun _ hs => absurd hs List.not_mem_nil, List.nodup_nil⟩

theorem join (h : Grouped trace groups waiting) {target : Target} {sample : Sample}
    {stamp : Timestamp} (huniform : Uniform stamp (waiting ++ [(target, sample)])) :
    Grouped (trace ++ [.sample target sample]) groups (waiting ++ [(target, sample)]) where
  cut := by
    rw [moves_append, h.cut, given, given, List.map_append, List.append_assoc]
    rfl
  groups := h.groups
  waiting := ⟨stamp, huniform⟩

end Grouped

/-- The state says which samples wait for their commit, and since when. -/
structure Waits (trace : List Delivery) (last : Option Instant) (s : Consumer)
    (groups : List Group) (waiting : List (Target × Sample)) : Prop where
  grouped : Grouped trace groups waiting
  idle : s.group = none → waiting = [] ∧ s.groupChannels = []
  held : ∀ stamp now, s.group = some (stamp, now) → waiting ≠ [] ∧ Uniform stamp waiting ∧
    s.groupChannels = (waiting.map fun s => keyOf s.1) ∧ last = some now

section Steps

variable {trace out : List Delivery} {last : Option Instant} {s t : Consumer}
  {groups : List Group} {waiting : List (Target × Sample)}

theorem flush_waits (h : Waits trace last s groups waiting) (hflush : s.flush = (t, out))
    (later : Option Instant) :
    t.group = none ∧ t.interval = s.interval ∧
      ∃ groups', Waits (trace ++ out) later t groups' [] := by
  rcases flush_spec hflush with ⟨_, hinterval, hcase⟩
  rcases hcase with ⟨hgroup, rfl, rfl⟩ | ⟨stamp, now, hgroup, hnone, hchannels, rfl⟩
  · rcases h.idle hgroup with ⟨rfl, hchannels⟩
    refine ⟨hgroup, hinterval, groups, ?_, fun _ => ⟨rfl, hchannels⟩, fun _ _ hsome => ?_⟩
    · rw [List.append_nil]
      exact h.grouped
    · rw [hgroup] at hsome
      cases hsome
  · rcases h.held stamp now hgroup with ⟨hne, huniform, _, _⟩
    refine ⟨hnone, hinterval, _, h.grouped.commit hne huniform, fun _ => ⟨rfl, hchannels⟩,
      fun _ _ hsome => ?_⟩
    rw [hnone] at hsome
    cases hsome

theorem join_waits (h : Waits trace last s groups waiting) {target : Target} {sample : Sample}
    {now : Instant}
    (hstamp : ∀ stamp now, s.group = some (stamp, now) → stamp = sample.envelope.stamp)
    (hfree : keyOf target ∉ s.groupChannels)
    (hgroup : t.group = some (sample.envelope.stamp, now))
    (hchannels : t.groupChannels = s.groupChannels ++ [keyOf target]) :
    Waits (trace ++ [.sample target sample]) (some now) t groups
      (waiting ++ [(target, sample)]) := by
  have hkeys : s.groupChannels = waiting.map fun s => keyOf s.1 := by
    rcases hheld : s.group with _ | ⟨stamp, instant⟩
    · rw [(h.idle hheld).2, (h.idle hheld).1]
      rfl
    · exact (h.held stamp instant hheld).2.2.1
  have hsame : ∀ w ∈ waiting, w.2.envelope.stamp = sample.envelope.stamp := by
    rcases hheld : s.group with _ | ⟨stamp, instant⟩
    · rw [(h.idle hheld).1]
      exact fun w hw => absurd hw List.not_mem_nil
    · exact fun w hw =>
        ((h.held stamp instant hheld).2.1.1 w hw).trans (hstamp stamp instant hheld)
  have hnodup : (waiting.map fun s => keyOf s.1).Nodup := by
    rcases h.grouped.waiting with ⟨_, huniform⟩
    exact huniform.2
  have huniform : Uniform sample.envelope.stamp (waiting ++ [(target, sample)]) := by
    refine ⟨fun w hw => ?_, ?_⟩
    · rcases List.mem_append.1 hw with hw | hw
      · exact hsame w hw
      · rw [List.mem_singleton.1 hw]
    · rw [List.map_append]
      refine List.nodup_append.2 ⟨hnodup, List.nodup_singleton _, fun a ha b hb hab => ?_⟩
      have hkey : a = keyOf target := hab.trans (List.mem_singleton.1 hb)
      exact hfree (hkeys ▸ hkey ▸ ha)
  refine ⟨h.grouped.join huniform, fun hnone => ?_, fun stamp instant hsome => ?_⟩
  · rw [hgroup] at hnone
    cases hnone
  · rw [hgroup] at hsome
    cases hsome
    refine ⟨List.append_ne_nil_of_right_ne_nil _ (List.cons_ne_nil _ _), huniform, ?_, rfl⟩
    rw [hchannels, hkeys, List.map_append]
    rfl

theorem begin_waits (h : Waits trace last s groups waiting) (target : Target) (sample : Sample)
    (now : Instant) :
    (s.begin target sample.envelope.stamp now).1.interval = s.interval ∧
      ∃ groups' waiting', Waits
        (trace ++ ((s.begin target sample.envelope.stamp now).2 ++ [.sample target sample]))
        (some now) (s.begin target sample.envelope.stamp now).1 groups' waiting' := by
  rcases begin_spec s target sample.envelope.stamp now with ⟨u, out, hu, hbegin⟩
  rw [hbegin, ← List.append_assoc]
  rcases hu with hflush | ⟨rfl, rfl, hstamp, hfree⟩
  · rcases flush_waits h hflush none with ⟨hnone, hinterval, groups', hwaits⟩
    refine ⟨hinterval, groups', _, join_waits hwaits (fun stamp instant hsome => ?_) ?_ rfl ?_⟩
    · rw [hnone] at hsome
      cases hsome
    · rw [(hwaits.idle hnone).2]
      exact List.not_mem_nil
    · show (if keyOf target ∈ u.groupChannels then _ else _ : List Key) = _
      rw [(hwaits.idle hnone).2, if_neg List.not_mem_nil]
  · rw [List.append_nil]
    exact ⟨rfl, groups, _, join_waits h hstamp hfree rfl (if_neg hfree)⟩

end Steps

theorem lastPublished_append (members : MemberTable) (ys : List ConsumerStep) (x : ConsumerStep) :
    lastPublished members (ys ++ [x]) =
      ((published members x).map fun a => a.2.2).or (lastPublished members ys) := by
  rw [lastPublished, filterMap_append_singleton]
  rcases published members x with _ | a
  · exact congrArg List.getLast? (List.append_nil _)
  · exact List.getLast?_concat

theorem published_of_untaken {members : MemberTable} {x : ConsumerStep}
    (h : taken members x = none) : published members x = none := by
  rcases hpublished : published members x with _ | ⟨target, state, now⟩
  · rfl
  · rcases taken_of_published hpublished with ⟨seq, hseq⟩
    rw [h] at hseq
    cases hseq

theorem deliveries_append (ys : List ConsumerStep) (x : ConsumerStep) :
    deliveries (ys ++ [x]) = deliveries ys ++ x.answer := by
  rw [deliveries, List.flatMap_append, List.flatMap_singleton]
  rfl

theorem Waits.quiet {members : MemberTable} {ys : List ConsumerStep} {x : ConsumerStep}
    {groups : List Group} {waiting : List (Target × Sample)}
    (h : Waits (deliveries ys) (lastPublished members ys) x.pre groups waiting)
    (hgroup : x.post.group = x.pre.group)
    (hchannels : x.post.groupChannels = x.pre.groupChannels) (hquiet : moves x.answer = [])
    (hunpublished : published members x = none) :
    Waits (deliveries (ys ++ [x])) (lastPublished members (ys ++ [x])) x.post groups waiting := by
  refine ⟨deliveries_append ys x ▸ h.grouped.quiet hquiet, ?_, ?_⟩
  · rw [hgroup, hchannels]
    exact h.idle
  · rw [hgroup, hchannels, lastPublished_append, hunpublished]
    exact h.held

theorem waits_of_run {members : MemberTable} {interval : Duration} {xs : List ConsumerStep}
    {t : Consumer}
    (h : Machine.IsRun (consuming members interval) (consuming members interval).init xs t) :
    t.interval = interval ∧ ∃ groups waiting,
      Waits (deliveries xs) (lastPublished members xs) t groups waiting := by
  refine h.history (fun ys s => s.interval = interval ∧ ∃ groups waiting,
    Waits (deliveries ys) (lastPublished members ys) s groups waiting) ?_
    fun ys x _ _ hstep hprev => ?_
  · refine ⟨rfl, [], [], ⟨rfl, fun g hg => absurd hg List.not_mem_nil, 0,
      fun s hs => absurd hs List.not_mem_nil, List.nodup_nil⟩, fun _ => ⟨rfl, rfl⟩, nofun⟩
  rcases hprev with ⟨hinterval, groups, waiting, hwaits⟩
  cases consumer_outcome (Option.some.inj hstep) with
  | ignored _ _ hgroup hchannels hkept hanswer huntaken =>
      have hquiet : moves x.answer = [] := List.filter_eq_nil_iff.2 fun d hd => by
        rcases hanswer d hd with ⟨note, rfl⟩
        exact Bool.false_ne_true
      exact ⟨hkept.trans hinterval, groups, waiting,
        hwaits.quiet hgroup hchannels hquiet (published_of_untaken huntaken)⟩
  | committed hflush huntaken =>
      rcases flush_waits hwaits hflush (lastPublished members (ys ++ [x])) with
        ⟨_, hkept, groups', hwaits'⟩
      exact ⟨hkept.trans hinterval, groups', [], deliveries_append ys x ▸ hwaits'⟩
  | published target envelope state now clock old ch hop _ _ _ _ _ _ htaken hpost hanswer =>
      have hset : Waits (deliveries ys) (lastPublished members ys)
          (x.pre.setChannel (keyOf target) ch) groups waiting :=
        ⟨hwaits.grouped, hwaits.idle, hwaits.held⟩
      have hlast : lastPublished members (ys ++ [x]) = some now := by
        rw [lastPublished_append, published, hop]
        dsimp only
        rw [htaken]
        rfl
      have hjoined := begin_waits hset target (sampleOf members target envelope clock
        (received (members.payloadLimit target) old.good state)) now
      rw [hlast, deliveries_append, hanswer, hpost]
      exact ⟨hjoined.1.trans hinterval, hjoined.2⟩
  | occurred target envelope payload clock old ch hop _ _ _ _ _ _ hpost hanswer =>
      have hquiet : moves x.answer = [] := by
        rcases hanswer with hanswer | ⟨checked, hanswer⟩
        · rw [hanswer]
          rcases gapOf old.seq envelope.seq with _ | count
          · rfl
          · rfl
        · rw [hanswer]
          rfl
      have hunpublished : published members x = none := by
        rw [published, hop]
      exact ⟨by rw [hpost]; exact hinterval, groups, waiting,
        hwaits.quiet (by rw [hpost]; rfl) (by rw [hpost]; rfl) hquiet hunpublished⟩

/-- What holds of every run of a consumer. -/
structure Consumed (members : MemberTable) (interval : Duration) (xs : List ConsumerStep) :
    Prop where
  increasing : ∀ key, (numbers members key xs).Pairwise (· < ·)
  grouped : ∃ groups waiting, Grouped (deliveries xs) groups waiting
  covered : ∀ front x back now, xs = front ++ x :: back → x.op = .tick now →
    (∀ last, lastPublished members front = some last → interval ≤ now - last) →
    ∃ groups, Grouped (deliveries (front ++ [x])) groups []
  dropped : ∀ x ∈ xs, ∀ target envelope state now clock,
    x.op = .publication target envelope state now clock → published members x = none →
    x.post = x.pre ∧ ∀ d ∈ x.answer, ∃ note, d = .dropped note
  valued : ∀ front x back target sample, xs = front ++ x :: back →
    .sample target sample ∈ x.answer →
    (∃ state now clock, x.op = .publication target sample.envelope state now clock ∧
      published members x = some (target, state, now)) ∧
    sample.value =
      lastGood (members.payloadLimit target) (states members (keyOf target) (front ++ [x]))
  gapped : ∀ key first rest last, (members.member key.1 key.2).map Prod.fst = some .event →
    numbers members key xs = first :: rest → (numbers members key xs).getLast? = some last →
    first.toNat + ((gaps key (deliveries xs)).map UInt64.toNat).sum + rest.length = last.toNat

section Run

variable {members : MemberTable} {interval : Duration} {xs front back : List ConsumerStep}
  {x : ConsumerStep} {t : Consumer}

theorem consumer_at_step
    (h : Machine.IsRun (consuming members interval) (consuming members interval).init
      (front ++ x :: back) t) :
    Machine.IsRun (consuming members interval) (consuming members interval).init front x.pre ∧
      x.pre.step members x.op = (x.post, x.answer) ∧
      Machine.IsRun (consuming members interval) (consuming members interval).init
        (front ++ [x]) x.post := by
  rcases (Machine.isRun_append _ _ _ _).1 h with ⟨m, hfront, hpre, hstep, _⟩
  refine ⟨hpre ▸ hfront, Option.some.inj hstep, ?_⟩
  exact (Machine.isRun_append _ _ _ _).2 ⟨m, hfront, hpre, hstep, rfl⟩

theorem covered_of_tick {groups : List Group} {waiting : List (Target × Sample)} {now : Instant}
    (hinterval : x.pre.interval = interval)
    (hwaits : Waits (deliveries front) (lastPublished members front) x.pre groups waiting)
    (hop : x.op = .tick now) (hstep : x.pre.step members x.op = (x.post, x.answer))
    (hlong : ∀ last, lastPublished members front = some last → interval ≤ now - last) :
    ∃ groups, Grouped (deliveries (front ++ [x])) groups [] := by
  rw [hop] at hstep
  dsimp only [Consumer.step, Consumer.tick] at hstep
  rw [deliveries_append]
  rcases hgroup : x.pre.group with _ | ⟨stamp, last⟩
  · rw [hgroup] at hstep
    have hanswer : [] = x.answer := congrArg Prod.snd hstep
    rw [← hanswer, List.append_nil]
    exact ⟨groups, (hwaits.idle hgroup).1 ▸ hwaits.grouped⟩
  · have hidle : x.pre.interval ≤ now - last :=
      hinterval ▸ hlong last (hwaits.held stamp last hgroup).2.2.2
    rw [if_pos (by rw [hgroup]; exact decide_eq_true hidle)] at hstep
    rcases flush_waits hwaits hstep none with ⟨_, _, groups', hflushed⟩
    exact ⟨groups', hflushed.grouped⟩

theorem dropped_of_unpublished {target : Target} {envelope : Envelope} {state : PublishState}
    {now : Instant} {clock : Timestamp} (hop : x.op = .publication target envelope state now clock)
    (hstep : x.pre.step members x.op = (x.post, x.answer))
    (hunpublished : published members x = none) :
    x.post = x.pre ∧ ∀ d ∈ x.answer, ∃ note, d = .dropped note := by
  rw [published, hop] at hunpublished
  dsimp only at hunpublished
  rw [taken, hop] at hunpublished
  rw [hop] at hstep
  dsimp only [Consumer.step, Consumer.publication] at hstep
  rcases hchannel : x.pre.channel members target .signal envelope.seq with notes | ⟨s, ch⟩
  · rw [hchannel, Prod.mk.injEq] at hstep
    exact ⟨hstep.1.symm, hstep.2 ▸ channel_eq_error hchannel⟩
  · dsimp only at hunpublished
    rw [hchannel] at hunpublished
    cases hunpublished

theorem sample_not_mem_flush {s t : Consumer} {out : List Delivery} {target : Target}
    {sample : Sample} (h : s.flush = (t, out)) : .sample target sample ∉ out := by
  rcases (flush_spec h).2.2 with ⟨_, _, rfl⟩ | ⟨stamp, last, _, _, _, rfl⟩
  · exact List.not_mem_nil
  · intro hmem
    cases List.mem_singleton.1 hmem

theorem valued_of_sample {target : Target} {sample : Sample}
    (hstep : x.pre.step members x.op = (x.post, x.answer))
    (hknown : Known members (keyOf target) (front ++ [x]) x.post)
    (hmem : .sample target sample ∈ x.answer) :
    (∃ state now clock, x.op = .publication target sample.envelope state now clock ∧
      published members x = some (target, state, now)) ∧
    sample.value =
      lastGood (members.payloadLimit target) (states members (keyOf target) (front ++ [x])) := by
  cases consumer_outcome hstep with
  | ignored _ _ _ _ _ hanswer _ =>
      rcases hanswer _ hmem with ⟨note, heq⟩
      cases heq
  | committed hflush _ => exact absurd hmem (sample_not_mem_flush hflush)
  | published signal envelope state now clock old ch hop hkind _ _ _ _ hgood htaken hpost hanswer =>
      rw [hanswer] at hmem
      rcases List.mem_append.1 hmem with hcommit | hsample
      · rcases begin_spec (x.pre.setChannel (keyOf signal) ch) signal envelope.stamp now with
          ⟨u, out, hu, hbegin⟩
        rw [hbegin] at hcommit
        rcases hu with hflush | ⟨_, rfl, _⟩
        · exact absurd hcommit (sample_not_mem_flush hflush)
        · exact absurd hcommit List.not_mem_nil
      · cases List.mem_singleton.1 hsample
        have hpublished : published members x = some (target, state, now) := by
          rw [published, hop]
          dsimp only
          rw [htaken]
          rfl
        have hheld : x.post.held (keyOf target) = ch.good := by
          rw [hpost, held_congr (begin_channels _ _ _ _), held_setChannel, if_pos rfl]
        refine ⟨⟨state, now, clock, hop, hpublished⟩, ?_⟩
        have hvalue := hknown.held
        rw [signalTarget_keyOf hkind, hheld, hgood] at hvalue
        exact hvalue
  | occurred event envelope payload clock old ch _ _ _ _ _ _ _ _ hanswer =>
      rcases hanswer with hanswer | ⟨checked, hanswer⟩
      · rw [hanswer] at hmem
        rcases hgap : gapOf old.seq envelope.seq with _ | count
        · rw [hgap] at hmem
          exact absurd hmem List.not_mem_nil
        · rw [hgap] at hmem
          cases List.mem_singleton.1 hmem
      · rw [hanswer] at hmem
        cases List.mem_singleton.1 hmem

end Run

/-- Numbers taken on a channel increase; samples are committed in groups of one
    stamp and different channels, and no sample waits for longer than an idle
    interval; a dropped publication changes nothing; the value of a sample is
    the last good one; and the gaps of an event add up. -/
theorem consumer_commits_grouped (members : MemberTable) (interval : Duration)
    (xs : List ConsumerStep) (t : Consumer)
    (h : Machine.IsRun (consuming members interval) (consuming members interval).init xs t) :
    Consumed members interval xs where
  increasing key := (known_of_run h key).increasing
  grouped := by
    rcases (waits_of_run h).2 with ⟨groups, waiting, hwaits⟩
    exact ⟨groups, waiting, hwaits.grouped⟩
  covered front x back now hsplit hop hlong := by
    rcases consumer_at_step (hsplit ▸ h) with ⟨hfront, hstep, _⟩
    rcases waits_of_run hfront with ⟨hinterval, groups, waiting, hwaits⟩
    exact covered_of_tick hinterval hwaits hop hstep hlong
  dropped x hx target envelope state now clock hop hunpublished :=
    dropped_of_unpublished hop (Option.some.inj (h.step_of_mem x hx)) hunpublished
  valued front x back target sample hsplit hmem := by
    rcases consumer_at_step (hsplit ▸ h) with ⟨_, hstep, hnext⟩
    exact valued_of_sample hstep (known_of_run hnext _) hmem
  gapped key first rest last hevent := (known_of_run h key).gapped hevent first rest last

def feedMembers : MemberTable :=
  { name := "feed", hash := .zero
    members := ((∅ : OrdMap Key MemberTable.Entry).insert (1, 1) ⟨.signal, none, some 2, false⟩).insert
      (1, 2) ⟨.event, some 1000, none, false⟩
    compatible := [] }

def feedSignal : Target := ⟨.signal, 1, 1⟩

def feedEvent : Target := ⟨.event, 1, 2⟩

/-- Two stamps, a number sent twice, a value too large, and a lost occurrence. -/
def feed : List ConsumerOp :=
  [.answer feedSignal .accepted, .answer feedEvent .accepted,
    .publication feedSignal ⟨5, 1⟩ (.live [7]) 0 5, .publication feedSignal ⟨6, 1⟩ .init 1 6,
    .publication feedSignal ⟨6, 2⟩ (.live [1, 2, 3]) 2 6, .occurrence feedEvent ⟨6, 1⟩ [] 6,
    .occurrence feedEvent ⟨7, 4⟩ [] 90, .tick 3, .tick 12]

theorem consumer_commits_grouped_feed :
    ∃ xs t, Machine.IsRun (consuming feedMembers 10) (consuming feedMembers 10).init xs t ∧
      numbers feedMembers (1, 2) xs = [1, 4] ∧ gaps (1, 2) (deliveries xs) = [2] ∧
      Consumed feedMembers 10 xs := by
  have hexec : ((consuming feedMembers 10).exec (consuming feedMembers 10).init feed).any
      (fun run => decide (numbers feedMembers (1, 2) run.1 = [1, 4] ∧
        gaps (1, 2) (deliveries run.1) = [2])) = true := by
    decide +kernel
  rcases (Option.any_eq_true _ _).mp hexec with ⟨⟨xs, t⟩, hrun, hhistory⟩
  have hisRun := Machine.isRun_exec _ t _ xs hrun
  rcases of_decide_eq_true hhistory with ⟨hnumbers, hgaps⟩
  exact ⟨xs, t, hisRun, hnumbers, hgaps, consumer_commits_grouped _ _ xs t hisRun⟩

end Provided

end Ridl
