import Ridl.Library.Numbered
import Ridl.Server.Session

/-!
# Signal Publication

What a session publishes on one signal channel, over a whole run. The
publications under `init` carry 0. The others are numbered from 1: each carries
the number of the one before it, when it says the same thing again, or the next
one. The channel's state remembers the last number and the last sample, whoever
wrote it: a subscribe, a read, or a tick in either mode.

`Published` is the invariant that relates the channel's state to the
publications made so far, and `Extends` says that what a call sent extends
them. Each function of the session is shown to extend every channel's
publications, so that a call, which is a composition of them, does too.

In polling mode a tick reads every subscribed signal, and sends it unless it is
the sample last sent. After the tick the sample last sent is therefore the one
that it read.

## Theorems

* `publishSignal_extends`: One sample extends its channel's publications.
* `step_extends`: One call extends every channel's publications.
* `pollKeys_current`: A polling pass leaves the samples it read as last sent.
* `publication_sequence`: The numbering of every run's publications.
-/

namespace Ridl

namespace Server

open Library

/-- The publications on the channel that a list of effects sends. -/
def publications (key : Key) (effects : List Effect) : List (Envelope × PublishState) :=
  effects.filterMap (Effect.signal key)

/-- The publications of a run on one channel. -/
def published (key : Key) (xs : List SessionStep) : List (Envelope × PublishState) :=
  publications key (xs.flatMap (fun x => x.answer.1))

/-- The publications that are not under `init`. -/
def numbered (l : List (Envelope × PublishState)) : List (Envelope × PublishState) :=
  l.filter (fun p => p.2 ≠ .init)

/-- A publication as its number and what it says. -/
def said (p : Envelope × PublishState) : Nat × Timestamp × PublishState :=
  (p.1.seq.toNat, p.1.stamp, p.2)

/-- What a `publish` of the sample says. -/
def Sent.says (sent : Sent) : Timestamp × PublishState :=
  (sent.stamp, publishState sent.provenance sent.bytes)

/-- The channel's state says what was published on it. -/
structure Published (s : Session) (key : Key) (l : List (Envelope × PublishState)) : Prop where
  zero : ∀ p ∈ l, p.2 = .init → p.1.seq = 0
  numbers : ∃ o, Numbered ((numbered l).map said) (s.channel key).counter.toNat o ∧
    ∀ sent, (s.channel key).last = some sent → sent.provenance ≠ .init → o = some sent.says
  last : ∀ sent, (s.channel key).last = some sent →
    ∃ seq, l.getLast? = some (⟨sent.stamp, seq⟩, publishState sent.provenance sent.bytes)

/-- What was sent from one state to another extends a channel's publications,
    and an accepted `attach` stays accepted. -/
structure Extends (key : Key) (s : Session) (effects : List Effect) (t : Session) : Prop where
  published : ∀ l, Published s key l → Published t key (l ++ publications key effects)
  attached : s.attached = true → t.attached = true

section Silent

variable (key : Key)

@[simp] theorem publications_nil : publications key [] = [] := rfl

@[simp] theorem publications_append (a b : List Effect) :
    publications key (a ++ b) = publications key a ++ publications key b := List.filterMap_append

@[simp] theorem publications_answer (cfg : Serving) (target : Target) (outcome : AnswerOutcome) :
    publications key (answer cfg target outcome) = [] := by
  cases outcome with
  | accepted => rfl
  | contract c =>
      by_cases hcarried : carried c cfg.frameVersion = true
      · simp only [answer, if_pos hcarried]
        rfl
      · simp only [answer, if_neg hcarried]
        rfl

theorem signal_fixed (target : Target) (hkind : target.kind = .fixed) (envelope : Envelope)
    (state : PublishState) : (Frame.publish target envelope state).signal key = none := by
  have hne : target ≠ signalTarget key := by
    intro heq
    rw [heq] at hkind
    exact absurd hkind (by simp only [signalTarget, reduceCtorEq, not_false_eq_true])
  simp only [Frame.signal, if_neg hne]

theorem publications_pushBlocks (target : Target) (envelope : Envelope) (payload : Bytes) :
    publications key (Session.pushBlocks target envelope payload) = [] := by
  unfold Session.pushBlocks publications
  rw [List.filterMap_map]
  exact List.filterMap_eq_nil_iff.mpr (fun _ _ => rfl)

theorem signal_publish (key' : Key) (envelope : Envelope) (state : PublishState) :
    (Frame.publish (signalTarget key') envelope state).signal key =
      if key' = key then some (envelope, state) else none := by
  unfold Frame.signal
  refine if_congr ⟨fun h => ?_, fun h => h ▸ rfl⟩ rfl rfl
  simp only [signalTarget, Target.mk.injEq, true_and] at h
  exact Prod.ext h.1 h.2

end Silent

section Channel

variable (s : Session) (key : Key)

@[simp] theorem channel_setChannel_self (ch : SignalChannel) :
    (s.setChannel key ch).channel key = ch := by
  unfold Session.channel Session.setChannel
  rw [OrdMap.getElem?_insert_self, Option.getD_some]

theorem channel_setChannel_of_ne (key' : Key) (ch : SignalChannel) (h : key' ≠ key) :
    (s.setChannel key' ch).channel key = s.channel key := by
  unfold Session.channel Session.setChannel
  rw [OrdMap.getElem?_insert_of_ne _ _ _ _ h]

theorem channel_of_not_contains (h : s.signals.contains key = false) :
    s.channel key = SignalChannel.default := by
  unfold Session.channel
  rw [Std.ExtTreeMap.getElem?_eq_none_of_contains_eq_false h, Option.getD_none]

end Channel

namespace Extends

variable {key : Key} {s t u : Session} {a b : List Effect}

theorem trans (hab : Extends key s a t) (hbc : Extends key t b u) : Extends key s (a ++ b) u := by
  refine ⟨fun l hl => ?_, fun hs => hbc.attached (hab.attached hs)⟩
  rw [publications_append, ← List.append_assoc]
  exact hbc.published _ (hab.published l hl)

/-- A call that sends nothing on the channel and keeps its number and its
    sample. -/
theorem of_kept (hsilent : publications key a = []) (hattached : s.attached = true → t.attached = true)
    (hcounter : (t.channel key).counter = (s.channel key).counter)
    (hlast : (t.channel key).last = (s.channel key).last) : Extends key s a t := by
  refine ⟨fun l hl => ?_, hattached⟩
  rw [hsilent, List.append_nil]
  refine ⟨hl.zero, ?_, ?_⟩
  · rw [hcounter, hlast]
    exact hl.numbers
  · rw [hlast]
    exact hl.last

theorem of_channel (hsilent : publications key a = []) (hattached : s.attached = true → t.attached = true)
    (h : t.channel key = s.channel key) : Extends key s a t :=
  of_kept hsilent hattached (by rw [h]) (by rw [h])

theorem setChannel (key' : Key) (ch : SignalChannel)
    (hcounter : ch.counter = (s.channel key').counter) (hlast : ch.last = (s.channel key').last)
    (hsilent : publications key a = []) : Extends key s a (s.setChannel key' ch) := by
  by_cases h : key' = key
  · rw [h] at hcounter hlast
    rw [h]
    refine of_kept hsilent id ?_ ?_
    · rw [channel_setChannel_self]
      exact hcounter
    · rw [channel_setChannel_self]
      exact hlast
  · exact of_channel hsilent id (channel_setChannel_of_ne s key key' ch h)

end Extends

theorem toNat_succSeq {n m : UInt64} (h : succSeq n = some m) : m.toNat = n.toNat + 1 := by
  unfold succSeq at h
  by_cases hlt : n.toNat + 1 < 2 ^ 64
  · rw [if_pos hlt, Option.some.injEq] at h
    rw [← h, UInt64.toNat_add, Nat.mod_eq_of_lt]
    · rfl
    · exact hlt
  · rw [if_neg hlt] at h
    exact absurd h (by simp)

/-- A number that is not an `init` sample's is the counter's next, or its last
    one for the sample sent last. -/
theorem number_spec {ch : SignalChannel} {sample : Resolved} {bytes : Bytes} {fresh : Bool}
    {seq counter : UInt64} (hlive : sample.provenance ≠ .init)
    (h : ch.number sample bytes fresh = some (seq, counter)) :
    counter = seq ∧ (seq.toNat = ch.counter.toNat + 1 ∨
      seq = ch.counter ∧ ch.last = some (Sent.of sample bytes)) := by
  unfold SignalChannel.number at h
  rw [if_neg hlive] at h
  by_cases hsame : (!fresh && ch.unchanged sample bytes) = true
  · rw [if_pos hsame, Option.some.injEq, Prod.mk.injEq] at h
    rw [Bool.and_eq_true] at hsame
    exact ⟨h.2.symm.trans h.1, Or.inr ⟨h.1.symm, of_decide_eq_true hsame.2⟩⟩
  · rw [if_neg hsame] at h
    rcases Option.map_eq_some_iff.mp h with ⟨n, hsucc, hn⟩
    rw [Prod.mk.injEq] at hn
    exact ⟨hn.2.symm.trans hn.1, Or.inl (hn.1 ▸ toNat_succSeq hsucc)⟩

theorem publishState_eq_init (provenance : Provenance) (bytes : Bytes) :
    publishState provenance bytes = .init ↔ provenance = .init := by
  cases provenance <;> simp only [publishState, reduceCtorEq]

/-- A publication that is not under `init` is numbered like the last one, when
    it says the same, or with the next number. -/
theorem Published.publish {s t : Session} {key : Key} {l : List (Envelope × PublishState)}
    (h : Published s key l) (sent : Sent) (seq : UInt64) (hlive : sent.provenance ≠ .init)
    (hch : (t.channel key).counter = seq ∧ (t.channel key).last = some sent)
    (hseq : seq.toNat = (s.channel key).counter.toNat + 1 ∨
      seq = (s.channel key).counter ∧ (s.channel key).last = some sent) :
    Published t key (l ++ [(⟨sent.stamp, seq⟩, publishState sent.provenance sent.bytes)]) := by
  have hstate : publishState sent.provenance sent.bytes ≠ .init :=
    fun hinit => hlive ((publishState_eq_init _ _).mp hinit)
  rcases h.numbers with ⟨o, hnumbered, hsame⟩
  have hlist : (numbered (l ++ [(⟨sent.stamp, seq⟩, publishState sent.provenance
      sent.bytes)])).map said = (numbered l).map said ++ [(seq.toNat, sent.says)] := by
    simp only [numbered, List.filter_append, List.map_append, List.filter_cons, List.filter_nil,
      hstate, ne_eq, not_false_eq_true, decide_true, if_true, List.map_cons, List.map_nil]
    rfl
  refine ⟨fun p hp hinit => ?_, ⟨some sent.says, ?_, fun sent' hlast' _ => ?_⟩,
    fun sent' hlast' => ⟨seq, ?_⟩⟩
  · rcases List.mem_append.mp hp with hl | hnew
    · exact h.zero p hl hinit
    · rw [List.mem_singleton.mp hnew] at hinit
      exact absurd hinit hstate
  · rw [hlist, hch.1]
    rcases hseq with hnext | ⟨hagain, hlast⟩
    · rw [hnext]
      exact hnumbered.next _ _ _ _
    · rw [hsame sent hlast hlive] at hnumbered
      rw [hagain]
      exact hnumbered.again _ _ _
  · rw [hch.2, Option.some.injEq] at hlast'
    rw [hlast']
  · rw [hch.2, Option.some.injEq] at hlast'
    rw [List.getLast?_append, List.getLast?_singleton, ← hlast']
    rfl

/-- A publication under `init` carries 0 and leaves the numbering alone. -/
theorem Published.publishInit {s t : Session} {key : Key} {l : List (Envelope × PublishState)}
    (h : Published s key l) (stamp : Timestamp)
    (hcounter : (t.channel key).counter = (s.channel key).counter)
    (hlast : ∀ sent, (t.channel key).last = some sent →
      sent.provenance = .init ∧ sent.stamp = stamp) :
    Published t key (l ++ [(⟨stamp, 0⟩, .init)]) := by
  have hlist : numbered (l ++ [(⟨stamp, 0⟩, .init)]) = numbered l := by
    unfold numbered
    rw [List.filter_append, List.filter_cons_of_neg (by simp), List.filter_nil, List.append_nil]
  rcases h.numbers with ⟨o, hnumbered, _⟩
  refine ⟨fun p hp hinit => ?_, ⟨o, ?_, fun sent hsent hlive => ?_⟩, fun sent hsent => ⟨0, ?_⟩⟩
  · rcases List.mem_append.mp hp with hl | hnew
    · exact h.zero p hl hinit
    · rw [List.mem_singleton.mp hnew]
  · rw [hlist, hcounter]
    exact hnumbered
  · exact absurd (hlast sent hsent).1 hlive
  · rw [List.getLast?_append, List.getLast?_singleton, (hlast sent hsent).1,
      (hlast sent hsent).2]
    rfl

theorem publishSignal_extends (key : Key) {s t : Session} {key' : Key} {sample : Resolved}
    {bytes : Bytes} {fresh : Bool} {effects : List Effect}
    (h : s.publishSignal key' sample bytes fresh = some (t, effects)) :
    Extends key s effects t := by
  unfold Session.publishSignal at h
  by_cases hunknown : sample.provenance = .init ∧ s.signals.contains key' = false
  · simp only [if_pos hunknown, Option.some.injEq, Prod.mk.injEq] at h
    rcases h with ⟨rfl, rfl⟩
    refine ⟨fun l hl => ?_, id⟩
    simp only [publications, List.filterMap_cons, List.filterMap_nil, Effect.signal, signal_publish]
    by_cases hkey : key' = key
    · rw [if_pos hkey]
      refine hl.publishInit _ rfl (fun sent hsent => ?_)
      rw [channel_of_not_contains s key (hkey ▸ hunknown.2)] at hsent
      exact absurd hsent (by simp [SignalChannel.default])
    · rw [if_neg hkey, List.append_nil]
      exact hl
  · simp only [if_neg hunknown, Option.bind_eq_bind, Option.bind_eq_some_iff, Option.some.injEq,
      Prod.mk.injEq] at h
    rcases h with ⟨⟨seq, counter⟩, hnumber, rfl, rfl⟩
    refine ⟨fun l hl => ?_, id⟩
    simp only [publications, List.filterMap_cons, List.filterMap_nil, Effect.signal, signal_publish]
    by_cases hkey : key' = key
    · subst hkey
      rw [if_pos rfl]
      by_cases hinit : sample.provenance = .init
      · rw [SignalChannel.number, if_pos hinit, Option.some.injEq, Prod.mk.injEq] at hnumber
        rcases hnumber with ⟨rfl, rfl⟩
        rw [(publishState_eq_init _ _).mpr hinit]
        refine hl.publishInit _ ?_ (fun sent hsent => ?_)
        · rw [channel_setChannel_self]
        · rw [channel_setChannel_self, Option.some.injEq] at hsent
          rw [← hsent]
          exact ⟨hinit, rfl⟩
      · rcases number_spec hinit hnumber with ⟨hcounter, hseq⟩
        refine hl.publish (Sent.of sample bytes) seq hinit ?_ hseq
        rw [channel_setChannel_self]
        exact ⟨hcounter, rfl⟩
    · rw [if_neg hkey, List.append_nil]
      have hset : Extends key s [] (s.setChannel key'
          { s.channel key' with counter := counter, last := some (Sent.of sample bytes) }) :=
        Extends.of_channel rfl id (channel_setChannel_of_ne s key key' _ hkey)
      have hkept := hset.published l hl
      rw [publications_nil, List.append_nil] at hkept
      exact hkept

/-- The `j`-th read of a signal is the one that ends a fetch: each before it held
    a value within the cap, too long for the buffer. -/
def Decisive (cfg : Serving) (ports : Ports) (key : Key) (j : Nat) : Prop :=
  ∀ i < j, ∃ sample bytes, ports.read key i = .value sample bytes ∧
    bytes.length ≤ cfg.signalCap key

/-- A fetch changes the read buffer alone, and gives what its last read held. -/
theorem fetchSignal_spec {cfg : Serving} {s t : Session} {ports : Ports} {key : Key}
    {got : Fetch Resolved} (h : s.fetchSignal cfg ports key = some (got, t)) :
    (∃ buf, t = { s with buf := buf }) ∧ ∃ j, Decisive cfg ports key j ∧ ∀ sample bytes,
      ports.read key j = .value sample bytes → bytes.length ≤ cfg.signalCap key →
        got = .sample sample bytes := by
  unfold Session.fetchSignal at h
  simp only [Option.bind_eq_bind, Option.bind_eq_some_iff, Option.some.injEq, Prod.mk.injEq] at h
  rcases h with ⟨⟨got', buf⟩, hfetch, rfl, rfl⟩
  exact ⟨⟨buf, rfl⟩, fetch_last _ _ _ _ _ hfetch⟩

section Calls

variable {cfg : Serving} {s t : Session} {ports : Ports} {effects : List Effect} {step : Step}

theorem extends_quiet (key : Key) (hsilent : publications key effects = [])
    (h : t.signals = s.signals ∧ t.attached = s.attached) : Extends key s effects t :=
  Extends.of_channel hsilent (fun hs => h.2.trans hs) (by rw [Session.channel, h.1, Session.channel])

theorem extends_some {u : Session} {sent : List Effect} {step' : Step} (key : Key)
    (h : some (u, sent, step') = some (t, effects, step)) (hsilent : publications key sent = [])
    (hkept : u.signals = s.signals ∧ u.attached = s.attached) : Extends key s effects t := by
  simp only [Option.some.injEq, Prod.mk.injEq] at h
  rcases h with ⟨rfl, rfl, _⟩
  exact extends_quiet key hsilent hkept

theorem subscribeSignal_extends (key key' : Key)
    (h : s.subscribeSignal cfg ports key' = some (t, effects, step)) : Extends key s effects t := by
  unfold Session.subscribeSignal at h
  by_cases hsubscribed : s.subscribed key' = true
  · simp only [if_pos hsubscribed] at h
    exact extends_some key h (publications_answer key _ _ _) ⟨rfl, rfl⟩
  · simp only [if_neg hsubscribed, Option.bind_eq_bind, Option.bind_eq_some_iff] at h
    rcases h with ⟨⟨got, s'⟩, hfetch, h⟩
    have hkept : s'.signals = s.signals ∧ s'.attached = s.attached := by
      rcases (fetchSignal_spec hfetch).1 with ⟨buf, rfl⟩
      unfold Session.mark
      split
      · exact ⟨rfl, rfl⟩
      · split <;> exact ⟨rfl, rfl⟩
    have hfetched : Extends key s [] s' := extends_quiet key rfl hkept
    cases got with
    | contract c =>
        refine extends_some key h (publications_answer key _ _ _) ?_
        split
        · exact hkept
        · exact hkept
    | gone => exact extends_some key h rfl hkept
    | sample sample bytes =>
        simp only [Option.bind_eq_some_iff, Option.some.injEq, Prod.mk.injEq] at h
        rcases h with ⟨⟨u, sent⟩, hpublish, rfl, rfl, _⟩
        have hset := hfetched.trans (Extends.setChannel key'
          { s'.channel key' with subscribed := true } rfl rfl (publications_answer key cfg
            (signalTarget key') .accepted))
        exact hset.trans (publishSignal_extends key hpublish)
    | tooLarge needed =>
        simp only [Option.some.injEq, Prod.mk.injEq] at h
        rcases h with ⟨rfl, rfl, _⟩
        have hsilent : publications key (answer cfg (signalTarget key') .accepted ++
            [.note (.valueTooLarge (signalTarget key') needed)]) = [] := rfl
        exact hfetched.trans (Extends.setChannel key' _ rfl rfl hsilent)

theorem subscribe_extends (key : Key) (target : Target)
    (h : s.subscribe cfg ports target = some (t, effects, step)) : Extends key s effects t := by
  unfold Session.subscribe at h
  split at h
  · exact extends_some key h (publications_answer key _ _ _) ⟨rfl, rfl⟩
  · split at h
    · exact subscribeSignal_extends key _ h
    · split at h
      · exact extends_some key h rfl ⟨rfl, rfl⟩
      · exact extends_some key h (publications_answer key _ _ _) ⟨rfl, rfl⟩
      · exact extends_some key h rfl ⟨rfl, rfl⟩
    · exact extends_some key h (publications_answer key _ _ _) ⟨rfl, rfl⟩

theorem unsubscribeSignal_extends (key key' : Key) :
    Extends key s [] (s.unsubscribeSignal key') := by
  have hunmark : ∀ u : Session, Extends key s [] u →
      Extends key s [] (if u.signals.toList.any (fun e => e.1.1 = key'.1 && e.2.subscribed) then u
        else u.unmark key'.1) := by
    intro u hu
    split
    · exact hu
    · exact hu.trans (extends_quiet key rfl ⟨rfl, rfl⟩)
  refine hunmark _ ?_
  cases hch : s.signals[key']? with
  | none => exact extends_quiet key rfl ⟨rfl, rfl⟩
  | some ch =>
      have hchannel : s.channel key' = ch := by rw [Session.channel, hch, Option.getD_some]
      exact Extends.setChannel key' _ (by rw [hchannel]) (by rw [hchannel]) rfl

theorem unsubscribe_extends (key : Key) (target : Target)
    (h : some (s.unsubscribe cfg target) = some (t, effects, step)) : Extends key s effects t := by
  unfold Session.unsubscribe at h
  split at h
  · exact extends_some key h rfl ⟨rfl, rfl⟩
  · split at h
    · simp only [Option.some.injEq, Prod.mk.injEq] at h
      rcases h with ⟨rfl, rfl, _⟩
      exact unsubscribeSignal_extends key _
    · exact extends_some key h rfl ⟨rfl, rfl⟩
    · exact extends_some key h rfl ⟨rfl, rfl⟩

theorem readFixed_extends (key : Key) (target : Target) (hkind : target.kind = .fixed)
    (h : s.readFixed cfg ports target = some (t, effects, step)) : Extends key s effects t := by
  unfold Session.readFixed at h
  simp only [Option.bind_eq_bind, Option.bind_eq_some_iff] at h
  rcases h with ⟨⟨got, buf⟩, _, h⟩
  cases got with
  | tooLarge needed => exact extends_some key h (publications_answer key _ _ _) ⟨rfl, rfl⟩
  | contract c => exact extends_some key h (publications_answer key _ _ _) ⟨rfl, rfl⟩
  | gone => exact extends_some key h rfl ⟨rfl, rfl⟩
  | sample info value =>
      simp only at h
      split at h
      · refine extends_some key h ?_ ⟨rfl, rfl⟩
        simp only [publications, List.filterMap_cons, Effect.signal, signal_fixed key target hkind,
          List.filterMap_nil]
      · exact extends_some key h (publications_pushBlocks key _ _ _) ⟨rfl, rfl⟩

theorem readSignal_extends (key key' : Key)
    (h : s.readSignal cfg ports key' = some (t, effects, step)) : Extends key s effects t := by
  unfold Session.readSignal at h
  simp only [Option.bind_eq_bind, Option.bind_eq_some_iff] at h
  rcases h with ⟨⟨got, s'⟩, hfetch, h⟩
  rcases (fetchSignal_spec hfetch).1 with ⟨buf, rfl⟩
  cases got with
  | sample sample bytes =>
      simp only [Option.bind_eq_some_iff, Option.some.injEq, Prod.mk.injEq] at h
      rcases h with ⟨⟨u, sent⟩, hpublish, rfl, rfl, _⟩
      have hfetched : Extends key s [] { s with buf := buf } := extends_quiet key rfl ⟨rfl, rfl⟩
      exact hfetched.trans (publishSignal_extends key hpublish)
  | tooLarge needed => exact extends_some key h (publications_answer key _ _ _) ⟨rfl, rfl⟩
  | contract c => exact extends_some key h (publications_answer key _ _ _) ⟨rfl, rfl⟩
  | gone => exact extends_some key h rfl ⟨rfl, rfl⟩

theorem read_extends (key : Key) (target : Target)
    (h : s.read cfg ports target = some (t, effects, step)) : Extends key s effects t := by
  unfold Session.read at h
  split at h
  · exact extends_some key h (publications_answer key _ _ _) ⟨rfl, rfl⟩
  · split at h
    · exact readSignal_extends key _ h
    · next hkind => exact readFixed_extends key target hkind h
    · exact extends_some key h (publications_answer key _ _ _) ⟨rfl, rfl⟩

theorem pollKey_extends (key : Key) {scanning : Bool} {key' : Key}
    (h : s.pollKey cfg ports scanning key' = some (t, effects, step)) : Extends key s effects t := by
  unfold Session.pollKey at h
  simp only [Option.bind_eq_bind, Option.bind_eq_some_iff] at h
  rcases h with ⟨⟨got, s'⟩, hfetch, h⟩
  rcases (fetchSignal_spec hfetch).1 with ⟨buf, rfl⟩
  have hfetched : Extends key s [] { s with buf := buf } := extends_quiet key rfl ⟨rfl, rfl⟩
  cases got with
  | sample sample bytes =>
      have hset := hfetched.trans (Extends.setChannel (a := []) key'
        { Session.channel { s with buf := buf } key' with tooLarge := none } rfl rfl rfl)
      simp only at h
      split at h
      · simp only [Option.bind_eq_some_iff, Option.some.injEq, Prod.mk.injEq] at h
        rcases h with ⟨⟨u, sent⟩, hpublish, rfl, rfl, _⟩
        exact hset.trans (publishSignal_extends key hpublish)
      · simp only [Option.some.injEq, Prod.mk.injEq] at h
        rcases h with ⟨rfl, rfl, _⟩
        exact hset
  | tooLarge needed =>
      simp only at h
      split at h
      · simp only [Option.some.injEq, Prod.mk.injEq] at h
        rcases h with ⟨rfl, rfl, _⟩
        exact hfetched.trans (Extends.setChannel key' _ rfl rfl rfl)
      · simp only [Option.some.injEq, Prod.mk.injEq] at h
        rcases h with ⟨rfl, rfl, _⟩
        exact hfetched.trans (Extends.setChannel key' _ rfl rfl rfl)
  | contract c => exact extends_some key h rfl ⟨rfl, rfl⟩
  | gone => exact extends_some key h rfl ⟨rfl, rfl⟩

theorem pollKeys_extends (key : Key) {scanning : Bool} (keys : List Key)
    (h : Session.pollKeys cfg ports scanning keys s = some (t, effects, step)) :
    Extends key s effects t := by
  induction keys generalizing s effects with
  | nil => exact extends_some key h rfl ⟨rfl, rfl⟩
  | cons key' keys ih =>
      unfold Session.pollKeys at h
      simp only [Option.bind_eq_bind, Option.bind_eq_some_iff] at h
      rcases h with ⟨⟨s', first, step'⟩, hpoll, h⟩
      split at h
      · simp only [Option.some.injEq, Prod.mk.injEq] at h
        rcases h with ⟨rfl, rfl, _⟩
        exact pollKey_extends key hpoll
      · simp only [Option.bind_eq_some_iff, Option.some.injEq, Prod.mk.injEq] at h
        rcases h with ⟨⟨u, more, step''⟩, hrest, rfl, rfl, rfl⟩
        exact (pollKey_extends key hpoll).trans (ih hrest)

theorem pollSignals_extends (key : Key) {fuel : Nat}
    (h : s.pollSignals cfg ports fuel = some (t, effects, step)) : Extends key s effects t := by
  unfold Session.pollSignals at h
  cases hview : ports.scannable with
  | some view =>
      simp only [hview, Option.bind_eq_bind, Option.bind_eq_some_iff] at h
      rcases h with ⟨⟨keys, marks, changes⟩, _, h⟩
      have hscanned : Extends key s [] { s with marks := marks, changes := changes } :=
        extends_quiet key rfl ⟨rfl, rfl⟩
      exact hscanned.trans (pollKeys_extends key keys h)
  | none =>
      simp only [hview] at h
      exact pollKeys_extends key _ h

theorem poll_extends (key : Key) {fuel : Nat} {rest : Elsewhere}
    (h : s.poll cfg ports fuel rest = some (t, effects, step)) : Extends key s effects t := by
  unfold Session.poll at h
  split at h
  · exact extends_some key h rfl ⟨rfl, rfl⟩
  · simp only [Option.bind_eq_bind, Option.bind_eq_some_iff] at h
    rcases h with ⟨⟨s', sent, step'⟩, hsignals, h⟩
    split at h
    · simp only [Option.some.injEq, Prod.mk.injEq] at h
      rcases h with ⟨rfl, rfl, _⟩
      exact pollSignals_extends key hsignals
    · simp only [Option.some.injEq, Prod.mk.injEq] at h
      rcases h with ⟨rfl, rfl, _⟩
      exact (pollSignals_extends key hsignals).trans (extends_quiet key (rest.quiet key) ⟨rfl, rfl⟩)

theorem attach_extends (key : Key) (a : Attach)
    (h : some (s.attach cfg a) = some (t, effects, step)) : Extends key s effects t := by
  unfold Session.attach at h
  simp only at h
  split at h
  · exact extends_some key h rfl ⟨rfl, rfl⟩
  · simp only [Option.some.injEq, Prod.mk.injEq] at h
    rcases h with ⟨rfl, rfl, _⟩
    exact Extends.of_channel rfl (fun _ => rfl) rfl

theorem handle_extends (key : Key) (frame : Frame) {rest : Elsewhere}
    (h : s.handle cfg frame ports rest = some (t, effects, step)) : Extends key s effects t := by
  unfold Session.handle at h
  split at h
  · exact extends_some key h rfl ⟨rfl, rfl⟩
  · split at h
    · cases frame with
      | attach a => exact attach_extends key a h
      | _ => exact extends_some key h rfl ⟨rfl, rfl⟩
    · cases frame with
      | subscribe target => exact subscribe_extends key target h
      | unsubscribe target => exact unsubscribe_extends key target h
      | read target => exact read_extends key target h
      | request | chunk | streamEnd | streamCredit =>
          exact extends_some key h (rest.quiet key) ⟨rfl, rfl⟩
      | _ => exact extends_some key h rfl ⟨rfl, rfl⟩

theorem garbled_extends (key : Key) (error : DecodeError)
    (h : some (s.garbled error) = some (t, effects, step)) : Extends key s effects t := by
  cases error with
  | violation v => exact extends_some key h rfl ⟨rfl, rfl⟩
  | discard d =>
      unfold Session.garbled at h
      simp only at h
      split at h
      · exact extends_some key h rfl ⟨rfl, rfl⟩
      · exact extends_some key h rfl ⟨rfl, rfl⟩

theorem call_extends (key : Key) (op : SessionOp)
    (h : s.call cfg op = some (t, effects, step)) : Extends key s effects t := by
  cases op with
  | message frame ports rest => exact handle_extends key frame h
  | garbled error => exact garbled_extends key error h
  | tick ports fuel rest => exact poll_extends key h

theorem keepClosed_kept (s : Session) (step : Step) :
    (s.keepClosed step).signals = s.signals ∧ (s.keepClosed step).attached = s.attached := by
  cases step <;> exact ⟨rfl, rfl⟩

theorem step_extends (key : Key) (op : SessionOp)
    (h : s.step cfg op = some (t, effects, step)) : Extends key s effects t := by
  unfold Session.step at h
  cases hclosed : s.closed with
  | some code =>
      simp only [hclosed] at h
      exact extends_some key h rfl ⟨rfl, rfl⟩
  | none =>
      simp only [hclosed, Option.bind_eq_bind, Option.bind_eq_some_iff, Option.some.injEq,
        Prod.mk.injEq] at h
      rcases h with ⟨⟨s', sent, step'⟩, hcall, rfl, rfl, _⟩
      have hclosing : Extends key s' [] (s'.keepClosed step') :=
        extends_quiet key rfl (keepClosed_kept s' step')
      have hcalled := (call_extends key op hcall).trans hclosing
      rwa [List.append_nil] at hcalled

end Calls

theorem published_new (key : Key) : Published Session.new key [] := by
  have hchannel : Session.new.channel key = SignalChannel.default :=
    channel_of_not_contains _ _ (by rfl)
  refine ⟨List.forall_mem_nil _, ⟨none, ?_, fun sent hsent => ?_⟩, fun sent hsent => ?_⟩
  · rw [hchannel]
    exact Numbered.nil
  · rw [hchannel] at hsent
    exact absurd hsent (by simp [SignalChannel.default])
  · rw [hchannel] at hsent
    exact absurd hsent (by simp [SignalChannel.default])

theorem published_of_run {cfg : Serving} {xs : List SessionStep} {t : Session}
    (h : (session cfg).IsRun Session.new xs t) (key : Key) :
    Published t key (published key xs) := by
  refine h.history (fun ys u => Published u key (published key ys)) (published_new key) ?_
  intro ys x _ _ hstep hys
  have hnext := (step_extends key x.op hstep).published _ hys
  unfold published
  rw [List.flatMap_append, publications_append, List.flatMap_singleton]
  exact hnext

section Polling

variable {cfg : Serving} {s t : Session} {ports : Ports} {effects : List Effect}

/-- The channel remembers the sample the poll last read of it, when it fits. -/
def Current (cfg : Serving) (ports : Ports) (s : Session) (key : Key) : Prop :=
  ∃ j, Decisive cfg ports key j ∧ ∀ sample bytes, ports.read key j = .value sample bytes →
    bytes.length ≤ cfg.signalCap key → (s.channel key).last = some (Sent.of sample bytes)

/-- A sample published on a channel with a state changes that channel alone,
    which stays subscribed or not and remembers the sample. -/
theorem publishSignal_spec {key : Key} {sample : Resolved} {bytes : Bytes} {fresh : Bool}
    (hknown : s.signals.contains key = true)
    (h : s.publishSignal key sample bytes fresh = some (t, effects)) :
    (∀ key', key ≠ key' → t.channel key' = s.channel key') ∧
    (t.channel key).subscribed = (s.channel key).subscribed ∧
    (t.channel key).last = some (Sent.of sample bytes) := by
  unfold Session.publishSignal at h
  have hcond : ¬ (sample.provenance = .init ∧ s.signals.contains key = false) := by
    rw [hknown]
    exact fun hboth => absurd hboth.2 (by simp)
  simp only [if_neg hcond, Option.bind_eq_bind, Option.bind_eq_some_iff, Option.some.injEq,
    Prod.mk.injEq] at h
  rcases h with ⟨⟨seq, counter⟩, _, rfl, _⟩
  refine ⟨fun key' hne => channel_setChannel_of_ne s key' key _ hne, ?_, ?_⟩
  · rw [channel_setChannel_self]
  · rw [channel_setChannel_self]

theorem contains_setChannel (s : Session) (key : Key) (ch : SignalChannel) :
    (s.setChannel key ch).signals.contains key = true := by
  unfold Session.setChannel
  exact Std.ExtTreeMap.contains_insert_self

/-- Polling one signal changes its channel alone, and leaves the sample it
    read as the one last sent, which it was or is sent now. -/
theorem pollKey_spec {key : Key}
    (h : s.pollKey cfg ports false key = some (t, effects, .cont)) :
    (∀ key', key ≠ key' → t.channel key' = s.channel key') ∧
    (t.channel key).subscribed = (s.channel key).subscribed ∧ Current cfg ports t key := by
  unfold Session.pollKey at h
  simp only [Option.bind_eq_bind, Option.bind_eq_some_iff] at h
  rcases h with ⟨⟨got, s'⟩, hfetch, h⟩
  rcases fetchSignal_spec hfetch with ⟨⟨buf, rfl⟩, j, hdecisive, hread⟩
  cases got with
  | sample sample bytes =>
      -- what the last read held is the sample fetched
      have hfetched : ∀ sample' bytes', ports.read key j = .value sample' bytes' →
          bytes'.length ≤ cfg.signalCap key → Sent.of sample' bytes' = Sent.of sample bytes := by
        intro sample' bytes' hvalue hfit
        have heq := hread sample' bytes' hvalue hfit
        rw [Fetch.sample.injEq] at heq
        rw [heq.1, heq.2]
      simp only [Bool.false_or] at h
      split at h
      · simp only [Option.bind_eq_some_iff, Option.some.injEq, Prod.mk.injEq] at h
        rcases h with ⟨⟨u, sent⟩, hpublish, rfl, rfl, _⟩
        rcases publishSignal_spec (contains_setChannel _ _ _) hpublish with ⟨hother, hsub, hlast⟩
        refine ⟨fun key' hne => ?_, ?_, j, hdecisive, fun sample' bytes' hvalue hfit => ?_⟩
        · rw [hother key' hne, channel_setChannel_of_ne _ _ _ _ hne]
          rfl
        · rw [hsub, channel_setChannel_self]
          rfl
        · rw [hlast, hfetched sample' bytes' hvalue hfit]
      · next hsame =>
        simp only [Option.some.injEq, Prod.mk.injEq] at h
        rcases h with ⟨rfl, _, _⟩
        rw [Bool.not_eq_true, Bool.not_eq_false', SignalChannel.unchanged,
          decide_eq_true_eq] at hsame
        refine ⟨fun key' hne => ?_, ?_, j, hdecisive, fun sample' bytes' hvalue hfit => ?_⟩
        · rw [channel_setChannel_of_ne _ _ _ _ hne]
          rfl
        · rw [channel_setChannel_self]
          rfl
        · rw [hsame, hfetched sample' bytes' hvalue hfit]
  | tooLarge needed =>
      have hshape : ∃ ch : SignalChannel, ch.subscribed = (s.channel key).subscribed ∧
          t = Session.setChannel { s with buf := buf } key ch := by
        simp only at h
        split at h
        · simp only [Option.some.injEq, Prod.mk.injEq] at h
          exact ⟨{ s.channel key with tooLarge := some needed }, rfl, h.1.symm⟩
        · simp only [Option.some.injEq, Prod.mk.injEq] at h
          exact ⟨s.channel key, rfl, h.1.symm⟩
      rcases hshape with ⟨ch, hsub, rfl⟩
      refine ⟨fun key' hne => ?_, ?_, j, hdecisive, fun sample' bytes' hvalue hfit => ?_⟩
      · rw [channel_setChannel_of_ne _ _ _ _ hne]
        rfl
      · rw [channel_setChannel_self, hsub]
      · exact absurd (hread sample' bytes' hvalue hfit) (by simp)
  | contract c =>
      simp only [Option.some.injEq, Prod.mk.injEq] at h
      rcases h with ⟨rfl, _, _⟩
      exact ⟨fun _ _ => rfl, rfl, j, hdecisive, fun sample' bytes' hvalue hfit =>
        absurd (hread sample' bytes' hvalue hfit) (by simp)⟩
  | gone =>
      simp only [Option.some.injEq, Prod.mk.injEq, reduceCtorEq, and_false] at h

theorem pollKeys_current (keys : List Key) (hnodup : keys.Nodup)
    (h : Session.pollKeys cfg ports false keys s = some (t, effects, .cont)) :
    (∀ key, t.subscribed key = s.subscribed key) ∧
    (∀ key, key ∉ keys → t.channel key = s.channel key) ∧
    ∀ key ∈ keys, Current cfg ports t key := by
  induction keys generalizing s effects with
  | nil =>
      simp only [Session.pollKeys, Option.some.injEq, Prod.mk.injEq] at h
      rcases h with ⟨rfl, _, _⟩
      exact ⟨fun _ => rfl, fun _ _ => rfl, List.forall_mem_nil _⟩
  | cons key keys ih =>
      unfold Session.pollKeys at h
      simp only [Option.bind_eq_bind, Option.bind_eq_some_iff] at h
      rcases h with ⟨⟨s', first, step⟩, hpoll, h⟩
      split at h
      · next hstop =>
        simp only [Option.some.injEq, Prod.mk.injEq] at h
        exact absurd h.2.2 hstop
      · next hcont =>
        simp only [Option.bind_eq_some_iff, Option.some.injEq, Prod.mk.injEq] at h
        rcases h with ⟨⟨u, more, step'⟩, hrest, rfl, rfl, rfl⟩
        rw [Decidable.not_not] at hcont
        subst hcont
        rcases pollKey_spec hpoll with ⟨hother, hsub, hcurrent⟩
        rcases List.nodup_cons.mp hnodup with ⟨hnotin, hnodup'⟩
        rcases ih hnodup' hrest with ⟨hsubs, hkept, hall⟩
        refine ⟨fun key' => (hsubs key').trans ?_, fun key' hnot => ?_, fun key' hmem => ?_⟩
        · by_cases hkey : key = key'
          · rw [← hkey]
            exact hsub
          · exact congrArg SignalChannel.subscribed (hother key' hkey)
        · rw [List.mem_cons, not_or] at hnot
          rw [hkept key' hnot.2, hother key' (Ne.symm hnot.1)]
        · rcases List.mem_cons.mp hmem with rfl | htail
          -- its own pass, which no later one touches
          · unfold Current at hcurrent ⊢
            rw [hkept key' hnotin]
            exact hcurrent
          · exact hall key' htail

/-- No channel has a state before an `attach` is accepted. -/
def Closed (s : Session) : Prop := s.attached = false → s.signals = ∅

theorem closed_step {op : SessionOp} {step : Step} (hclosed : Closed s)
    (h : s.step cfg op = some (t, effects, step)) : Closed t := by
  intro ht
  have hs : s.attached = false := by
    by_contra hattached
    have hkept := (step_extends ((0, 0) : Key) op h).attached ((Bool.not_eq_false _).mp hattached)
    rw [ht] at hkept
    exact absurd hkept (by simp)
  have hempty := hclosed hs
  unfold Session.step at h
  cases hcode : s.closed with
  | some code =>
      simp only [hcode, Option.some.injEq, Prod.mk.injEq] at h
      rw [← h.1]
      exact hempty
  | none =>
      simp only [hcode, Option.bind_eq_bind, Option.bind_eq_some_iff, Option.some.injEq,
        Prod.mk.injEq] at h
      rcases h with ⟨⟨s', sent, step'⟩, hcall, rfl, _, _⟩
      rw [(keepClosed_kept s' step').1]
      suffices hsame : s'.signals = s.signals from hsame.trans hempty
      cases op with
      | garbled error =>
          cases error with
          | violation v =>
              simp only [Session.call, Session.garbled, Option.some.injEq, Prod.mk.injEq] at hcall
              rw [← hcall.1]
          | discard d =>
              simp only [Session.call, Session.garbled, hs, Bool.false_eq_true, if_false,
                Option.some.injEq, Prod.mk.injEq] at hcall
              rw [← hcall.1]
      | tick ports fuel rest =>
          simp only [Session.call, Session.poll, hs, Bool.not_false, if_true, Option.some.injEq,
            Prod.mk.injEq] at hcall
          rw [← hcall.1]
      | message frame ports rest =>
          simp only [Session.call, Session.handle, hs, if_true] at hcall
          split at hcall
          · simp only [Option.some.injEq, Prod.mk.injEq] at hcall
            rw [← hcall.1]
          · split at hcall
            · unfold Session.attach at hcall
              simp only at hcall
              split at hcall
              · simp only [Option.some.injEq, Prod.mk.injEq] at hcall
                rw [← hcall.1]
              · simp only [Option.some.injEq, Prod.mk.injEq] at hcall
                rw [← hcall.1]
            · simp only [Option.some.injEq, Prod.mk.injEq] at hcall
              rw [← hcall.1]

/-- After a polling tick that goes on, every subscribed signal's last sample
    sent is the one the tick read. -/
theorem tick_current {fuel : Nat} {rest : Elsewhere} (hclosed : Closed s)
    (hpolling : ports.scannable = none)
    (h : s.step cfg (.tick ports fuel rest) = some (t, effects, .cont)) (key : Key)
    (hsubscribed : t.subscribed key = true) : Current cfg ports t key := by
  unfold Session.step at h
  cases hcode : s.closed with
  | some code => simp only [hcode, Option.some.injEq, Prod.mk.injEq, reduceCtorEq, and_false] at h
  | none =>
      simp only [hcode, Session.call, Option.bind_eq_bind, Option.bind_eq_some_iff,
        Option.some.injEq, Prod.mk.injEq] at h
      rcases h with ⟨⟨s', sent, step⟩, hpoll, rfl, _, rfl⟩
      unfold Session.poll at hpoll
      by_cases hattached : s.attached = true
      · simp only [hattached, Bool.not_true, Bool.false_eq_true, if_false, Option.bind_eq_bind,
          Option.bind_eq_some_iff] at hpoll
        rcases hpoll with ⟨⟨u, first, step'⟩, hsignals, hpoll⟩
        split at hpoll
        · next hstop =>
          simp only [Option.some.injEq, Prod.mk.injEq] at hpoll
          exact absurd hpoll.2.2 hstop
        · next hcont =>
          simp only [Option.some.injEq, Prod.mk.injEq] at hpoll
          rcases hpoll with ⟨rfl, _, _⟩
          rw [Decidable.not_not] at hcont
          subst hcont
          simp only [Session.pollSignals, hpolling] at hsignals
          rcases pollKeys_current _ (Std.ExtTreeMap.nodup_keys.filter _) hsignals with
            ⟨hsubs, _, hall⟩
          refine hall key (List.mem_filter.mpr ⟨?_, (hsubs key).symm.trans hsubscribed⟩)
          rw [Std.ExtTreeMap.mem_keys, ← Std.ExtTreeMap.contains_iff_mem]
          by_contra hunknown
          have hsub := (hsubs key).symm.trans hsubscribed
          rw [Session.subscribed, channel_of_not_contains s key ((Bool.not_eq_true _).mp hunknown)]
            at hsub
          exact absurd hsub (by simp [SignalChannel.default])
      · rw [Bool.not_eq_true] at hattached
        simp only [hattached, Bool.not_false, if_true, Option.some.injEq, Prod.mk.injEq] at hpoll
        rcases hpoll with ⟨rfl, _, _⟩
        have hunknown : s.signals.contains key = false := by
          rw [hclosed hattached]
          exact Std.ExtTreeMap.contains_empty
        have hnot := congrArg SignalChannel.subscribed (channel_of_not_contains s key hunknown)
        exact absurd (hnot.symm.trans hsubscribed) (by simp [SignalChannel.default])

end Polling

theorem closed_of_run {cfg : Serving} {xs : List SessionStep} {t : Session}
    (h : (session cfg).IsRun Session.new xs t) : Closed t :=
  h.invariant Closed (fun _ => rfl) (fun _ _ hstep hpre => closed_step hpre hstep)

/-- In every run of a session, for every signal channel: a publication under
    `init` carries 0; the numbers of the others start at 1, and each is the one
    before it or the next; two with one number are the same publication; and
    after a polling tick that goes on, a subscribed signal's last sample sent
    is the one the tick read last, if its value fits. -/
theorem publication_sequence (cfg : Serving) (xs : List SessionStep) (t : Session)
    (h : (session cfg).IsRun Session.new xs t) (key : Key) :
    (∀ p ∈ published key xs, p.2 = .init → p.1.seq = 0) ∧
    (∀ p, (numbered (published key xs)).head? = some p → p.1.seq = 1) ∧
    (numbered (published key xs)).IsChain (fun p q =>
      q.1.seq.toNat = p.1.seq.toNat ∨ q.1.seq.toNat = p.1.seq.toNat + 1) ∧
    (∀ p ∈ numbered (published key xs), ∀ q ∈ numbered (published key xs),
      p.1.seq = q.1.seq → p.1.stamp = q.1.stamp ∧ p.2 = q.2) ∧
    ∀ front x back, xs = front ++ x :: back → ∀ ports fuel rest, x.op = .tick ports fuel rest →
      ports.scannable = none → x.answer.2 = .cont → x.post.subscribed key = true →
        ∃ j, Decisive cfg ports key j ∧ ∀ sample bytes, ports.read key j = .value sample bytes →
          bytes.length ≤ cfg.signalCap key →
            (x.post.channel key).last = some (Sent.of sample bytes) ∧
            ∃ seq, (published key (front ++ [x])).getLast? =
              some (⟨sample.envelope.stamp, seq⟩, publishState sample.provenance bytes) := by
  have hpublished := published_of_run h key
  rcases hpublished.numbers with ⟨o, hnumbered, _⟩
  refine ⟨hpublished.zero, fun p hp => ?_, ?_, fun p hp q hq heq => ?_, ?_⟩
  · have hone := hnumbered.starts (said p) (by rw [List.head?_map, hp]; rfl)
    exact UInt64.toNat_inj.mp hone
  · exact (List.isChain_map said).mp hnumbered.climbs
  · have hsaid := hnumbered.unique (said p) (List.mem_map_of_mem hp) (said q)
      (List.mem_map_of_mem hq) (congrArg UInt64.toNat heq)
    simp only [said, Prod.mk.injEq] at hsaid
    exact hsaid.2
  · intro front x back hsplit ports fuel rest hop hpolling hcont hsubscribed
    rw [hsplit] at h
    rcases (Machine.isRun_append _ _ _ _).mp h with ⟨m, hfront, hpre, hstep, _⟩
    have hnow : (session cfg).IsRun Session.new (front ++ [x]) x.post :=
      (Machine.isRun_append _ _ _ _).mpr ⟨m, hfront, hpre, hstep, rfl⟩
    have hclosed : Closed x.pre := hpre ▸ closed_of_run hfront
    have htick : x.pre.step cfg (.tick ports fuel rest) = some (x.post, x.answer.1, .cont) := by
      rw [← hop, ← hcont]
      exact hstep
    rcases tick_current hclosed hpolling htick key hsubscribed with ⟨j, hdecisive, hcurrent⟩
    refine ⟨j, hdecisive, fun sample bytes hread hfit => ?_⟩
    have hlast := hcurrent sample bytes hread hfit
    exact ⟨hlast, (published_of_run hnow key).last _ hlast⟩

/-- A session with no member table, at the largest message limit. -/
def plainServing : Serving :=
  { name := "unit", hash := .zero, encoding := some 1, members := none,
    messageLimit := MAX_MESSAGE_LIMIT, frameVersion := FRAME_VERSION, limited := by decide }

def plainAttach : Attach :=
  { frameVersion := FRAME_VERSION, encoding := 1, hash := .zero, name := "unit",
    known := by decide, named := by decide }

/-- Ports that hold one live value, at one stamp, for every signal. -/
def holding (stamp : Timestamp) (bytes : Bytes) : Ports :=
  { read := fun _ _ => .value ⟨.live, .unbounded, ⟨stamp, 9⟩⟩ bytes
    readFixed := fun _ => .contract .unknownInteraction
    now := 0
    scannable := none
    subscribe := .ok () }

def Elsewhere.nothing : Elsewhere :=
  { effects := [], step := .cont, grown := id, quiet := fun _ => rfl }

/-- A signal subscribed, unsubscribed and subscribed again with the same value
    keeps its number; a tick that reads another value gives it the next. -/
def resubscribed : List SessionOp :=
  let call := fun (frame : Frame) =>
    SessionOp.message frame (holding 5 [42]) Elsewhere.nothing
  [call (.attach plainAttach), call (.subscribe (signalTarget (1, 1))),
    call (.unsubscribe (signalTarget (1, 1))), call (.subscribe (signalTarget (1, 1))),
    .tick (holding 6 [43]) 0 Elsewhere.nothing]

theorem publication_sequence_resubscribed :
    ∃ xs t, (session plainServing).IsRun Session.new xs t ∧
      (published (1, 1) xs).map (fun p => p.1.seq) = [1, 1, 2] ∧
      (numbered (published (1, 1) xs)).IsChain (fun p q =>
        q.1.seq.toNat = p.1.seq.toNat ∨ q.1.seq.toNat = p.1.seq.toNat + 1) := by
  have hexec : ((session plainServing).exec Session.new resubscribed).any (fun run =>
      decide ((published (1, 1) run.1).map (fun p => p.1.seq) = [1, 1, 2])) = true := by
    decide +kernel
  rcases (Option.any_eq_true _ _).mp hexec with ⟨⟨xs, t⟩, hrun, hseqs⟩
  have hisRun := Machine.isRun_exec Session.new t _ xs hrun
  exact ⟨xs, t, hisRun, of_decide_eq_true hseqs,
    (publication_sequence plainServing xs t hisRun (1, 1)).2.2.1⟩

end Server

end Ridl
