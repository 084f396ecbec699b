import Ridl.Provided.Consumer

/-!
# The Frames a Consumer Takes

What every step of a consumer does. A step may change nothing but whether a
channel is open, commit the group, deliver a publication it took, or take an
occurrence. `consumer_outcome` says so once, and the invariants of the
consumer's runs are case analyses over it.

`Known` is what the state says about the history of one channel: its last
number is the last one taken, its last good value is the last live one since
the last `init`, and the gaps recorded for it are the numbers skipped.

## Theorems

* `channel_eq_ok`: When a frame is taken.
* `consumer_outcome`: Every step has one of the outcomes.
-/

namespace Ridl

namespace Provided

open Library Server

section Frames

variable (members : MemberTable)

/-- The channel and the number of the frame the step took. -/
def taken (x : ConsumerStep) : Option (Key × UInt64) :=
  match x.op with
  | .publication target envelope _ _ _ =>
      (x.pre.channel members target .signal envelope.seq).toOption.map
        fun _ => (keyOf target, envelope.seq)
  | .occurrence target envelope _ _ =>
      (x.pre.channel members target .event envelope.seq).toOption.map
        fun _ => (keyOf target, envelope.seq)
  | _ => none

def published (x : ConsumerStep) : Option (Target × PublishState × Instant) :=
  match x.op with
  | .publication target _ state now _ => (taken members x).map fun _ => (target, state, now)
  | _ => none

/-- The numbers taken on a channel, in order. -/
def numbers (key : Key) (xs : List ConsumerStep) : List UInt64 :=
  xs.filterMap fun x => (taken members x).bind fun a => if a.1 = key then some a.2 else none

/-- The states published on a channel, in order. -/
def states (key : Key) (xs : List ConsumerStep) : List PublishState :=
  xs.filterMap fun x =>
    (published members x).bind fun a => if keyOf a.1 = key then some a.2.1 else none

/-- The instant of the last publication taken. -/
def lastPublished (xs : List ConsumerStep) : Option Instant :=
  (xs.filterMap fun x => (published members x).map fun a => a.2.2).getLast?

end Frames

/-- The deliveries of a run, in order. -/
def deliveries (xs : List ConsumerStep) : List Delivery := xs.flatMap fun x => x.answer

/-- The gap a delivery reports on a channel. -/
def Delivery.gap (key : Key) : Delivery → Option UInt64
  | .occurrence target _ _ (some count) => if keyOf target = key then some count else none
  | .eventGap target count => if keyOf target = key then some count else none
  | _ => none

/-- The gaps recorded for a channel, in order. -/
def gaps (key : Key) (trace : List Delivery) : List UInt64 := trace.filterMap (Delivery.gap key)

/-- The bytes of a live value within its limit. -/
def goodOf (limit : Nat) : PublishState → Option Bytes
  | .live bytes => if bytes.length > limit then none else some bytes
  | _ => none

/-- The last live value since the last `init`. -/
def lastGood (limit : Nat) (states : List PublishState) : Option Bytes :=
  (states.reverse.takeWhile fun state => decide (state ≠ .init)).findSome? (goodOf limit)

theorem lastGood_append (limit : Nat) (states : List PublishState) (state : PublishState) :
    lastGood limit (states ++ [state]) = (received limit (lastGood limit states) state).1 := by
  unfold lastGood
  rw [List.reverse_append, List.reverse_singleton, List.singleton_append]
  cases state with
  | init => rfl
  | invalidDeclared => rfl
  | live bytes =>
      have hlive : PublishState.live bytes ≠ .init := PublishState.noConfusion
      rw [List.takeWhile_cons_of_pos (p := fun state : PublishState => decide (state ≠ .init))
        (decide_eq_true hlive), List.findSome?_cons]
      by_cases hlarge : bytes.length > limit
      · rw [show goodOf limit (.live bytes) = none from if_pos hlarge, received, if_pos hlarge]
      · rw [show goodOf limit (.live bytes) = some bytes from if_neg hlarge, received,
          if_neg hlarge]

variable {members : MemberTable}

variable {target : Target} {s t : Consumer} {envelope : Envelope}

theorem taken_of_published {x : ConsumerStep} {state : PublishState}
    {now : Instant} (h : published members x = some (target, state, now)) :
    ∃ seq, taken members x = some (keyOf target, seq) := by
  rcases hop : x.op with ⟨_, _⟩ | ⟨_, envelope, _, _, _⟩ | ⟨_, _, _, _⟩ | _
  · rw [published, hop] at h
    cases h
  · rw [published, hop] at h
    rcases htaken : taken members x with _ | a
    · rw [htaken] at h
      cases h
    · rw [htaken] at h
      cases h
      rw [taken, hop] at htaken
      rcases Option.map_eq_some_iff.1 htaken with ⟨_, _, ha⟩
      exact ⟨envelope.seq, by rw [← ha]⟩
  · rw [published, hop] at h
    cases h
  · rw [published, hop] at h
    cases h

theorem channel_eq_ok {kind : Kind} {seq : UInt64}
    {ch : Channel} (h : s.channel members target kind seq = .ok (t, ch)) :
    target.kind = kind ∧ (members.member target.iface target.ord).map Prod.fst = some kind ∧
      ∃ old, s.channels[keyOf target]? = some old ∧ old.accepted = true ∧
        (∀ last, old.seq = some last → last < seq) ∧ ch = { old with seq := some seq } ∧
        t = s.setChannel (keyOf target) ch := by
  unfold Consumer.channel at h
  by_cases hkind : target.kind ≠ kind ∨
      (members.member target.iface target.ord).map Prod.fst ≠ some kind
  · rw [if_pos hkind] at h
    cases h
  rw [if_neg hkind] at h
  rcases hold : s.channels[keyOf target]? with _ | old
  · rw [hold] at h
    cases h
  rw [hold] at h
  dsimp only at h
  by_cases hopen : old.accepted = true
  · rw [if_neg (not_not_intro hopen)] at h
    by_cases hdup : old.seq.any (fun last => decide (seq ≤ last)) = true
    · rw [if_pos hdup] at h
      cases h
    · rw [if_neg hdup] at h
      cases h
      refine ⟨not_not.1 fun hne => hkind (Or.inl hne), not_not.1 fun hne => hkind (Or.inr hne),
        old, rfl, hopen, fun last hlast => ?_, rfl, rfl⟩
      rw [hlast, Option.any_some, decide_eq_true_eq] at hdup
      exact UInt64.not_le.1 hdup
  · rw [if_pos hopen] at h
    cases h

theorem channel_eq_error {kind : Kind} {seq : UInt64}
    {notes : List Delivery} (h : s.channel members target kind seq = .error notes) :
    ∀ d ∈ notes, ∃ note, d = .dropped note := by
  unfold Consumer.channel at h
  have hsingle : ∀ note, notes = [.dropped note] → ∀ d ∈ notes, ∃ note, d = .dropped note :=
    fun note hnotes d hd => ⟨note, List.mem_singleton.1 (hnotes ▸ hd)⟩
  split at h
  · cases h
    exact hsingle _ rfl
  · split at h
    · cases h
      exact fun d hd => absurd hd List.not_mem_nil
    · split at h
      · cases h
        exact hsingle _ rfl
      · split at h
        · cases h
          exact hsingle _ rfl
        · cases h

/-- A sample of the publication a step took. -/
def sampleOf (members : MemberTable) (target : Target) (envelope : Envelope) (clock : Timestamp)
    (received : Option Bytes × Provenance) : Sample :=
  { value := received.1, provenance := received.2
    freshness := freshnessOf ((members.member target.iface target.ord).bind Prod.snd) clock
      envelope.stamp
    envelope := envelope }

/-- The last number taken on a channel. -/
def Consumer.last (s : Consumer) (key : Key) : Option UInt64 := s.channels[key]?.bind Channel.seq

/-- The last good value of a channel. -/
def Consumer.held (s : Consumer) (key : Key) : Option Bytes := s.channels[key]?.bind Channel.good

/-- What a step does. -/
inductive Outcome (members : MemberTable) (x : ConsumerStep) : Prop
  | ignored (last : ∀ key, x.post.last key = x.pre.last key)
      (held : ∀ key, x.post.held key = x.pre.held key)
      (group : x.post.group = x.pre.group)
      (groupChannels : x.post.groupChannels = x.pre.groupChannels)
      (interval : x.post.interval = x.pre.interval)
      (answer : ∀ d ∈ x.answer, ∃ note, d = .dropped note) (untaken : taken members x = none)
  | committed (flush : x.pre.flush = (x.post, x.answer)) (untaken : taken members x = none)
  | published (target : Target) (envelope : Envelope) (state : PublishState) (now : Instant)
      (clock : Timestamp) (old ch : Channel)
      (op : x.op = .publication target envelope state now clock) (kind : target.kind = .signal)
      (member : (members.member target.iface target.ord).map Prod.fst = some .signal)
      (held : x.pre.channels[keyOf target]? = some old)
      (newer : ∀ last, old.seq = some last → last < envelope.seq)
      (seq : ch.seq = some envelope.seq)
      (good : ch.good = (received (members.payloadLimit target) old.good state).1)
      (taken : taken members x = some (keyOf target, envelope.seq))
      (post : x.post = ((x.pre.setChannel (keyOf target) ch).begin target envelope.stamp now).1)
      (answer : x.answer =
        ((x.pre.setChannel (keyOf target) ch).begin target envelope.stamp now).2 ++
          [.sample target (sampleOf members target envelope clock
            (received (members.payloadLimit target) old.good state))])
  | occurred (target : Target) (envelope : Envelope) (payload : Bytes) (clock : Timestamp)
      (old ch : Channel) (op : x.op = .occurrence target envelope payload clock)
      (member : (members.member target.iface target.ord).map Prod.fst = some .event)
      (held : x.pre.channels[keyOf target]? = some old)
      (newer : ∀ last, old.seq = some last → last < envelope.seq)
      (seq : ch.seq = some envelope.seq) (good : ch.good = old.good)
      (taken : taken members x = some (keyOf target, envelope.seq))
      (post : x.post = x.pre.setChannel (keyOf target) ch)
      (answer : x.answer = ((gapOf old.seq envelope.seq).map (.eventGap target)).toList ∨
        ∃ checked, x.answer =
          [.occurrence target checked envelope (gapOf old.seq envelope.seq)])

theorem setChannel_setChannel (s : Consumer) (key : Key) (a b : Channel) :
    (s.setChannel key a).setChannel key b = s.setChannel key b :=
  congrArg (fun channels => { s with channels := channels })
    (OrdMap.insert_insert s.channels key a b)

theorem Outcome.same {x : ConsumerStep} (hpost : x.post = x.pre)
    (hanswer : ∀ d ∈ x.answer, ∃ note, d = .dropped note) (huntaken : taken members x = none) :
    Outcome members x :=
  .ignored (fun _ => by rw [hpost]) (fun _ => by rw [hpost]) (by rw [hpost]) (by rw [hpost])
    (by rw [hpost]) hanswer huntaken

theorem answer_outcome {x : ConsumerStep} {outcome : AnswerOutcome}
    (hop : x.op = .answer target outcome) (hpost : x.post = x.pre.answer target outcome)
    (hanswer : x.answer = []) : Outcome members x := by
  have hquiet : ∀ d ∈ x.answer, ∃ note, d = .dropped note := by
    rw [hanswer]
    exact fun d hd => absurd hd List.not_mem_nil
  have huntaken : taken members x = none := by
    rw [taken, hop]
  rw [Consumer.answer] at hpost
  rcases hheld : x.pre.channels[keyOf target]? with _ | ch
  · rw [hheld] at hpost
    exact .same hpost hquiet huntaken
  rw [hheld] at hpost
  dsimp only at hpost
  by_cases hanswered : ch.answered = true
  · rw [if_pos hanswered] at hpost
    exact .same hpost hquiet huntaken
  rw [if_neg hanswered] at hpost
  have hlookup : ∀ key : Key, x.post.channels[key]? =
      if keyOf target = key then some { ch with answered := true, accepted := outcome = .accepted }
      else x.pre.channels[key]? := by
    intro key
    rw [hpost]
    exact OrdMap.getElem?_insert _ _ _ _
  have hfield : ∀ {α : Type} (f : Channel → Option α),
      f { ch with answered := true, accepted := outcome = .accepted } = f ch →
      ∀ key : Key, x.post.channels[key]?.bind f = x.pre.channels[key]?.bind f := by
    intro α f hf key
    rw [hlookup]
    by_cases hkey : keyOf target = key
    · rw [if_pos hkey, ← hkey, hheld]
      exact hf
    · rw [if_neg hkey]
  exact .ignored (hfield _ rfl) (hfield _ rfl) (by rw [hpost]; rfl) (by rw [hpost]; rfl)
    (by rw [hpost]; rfl) hquiet huntaken

theorem publication_outcome {x : ConsumerStep}
    {state : PublishState} {now : Instant} {clock : Timestamp}
    (hop : x.op = .publication target envelope state now clock)
    (h : x.pre.publication members target envelope state now clock = (x.post, x.answer)) :
    Outcome members x := by
  have htaken : taken members x = (x.pre.channel members target .signal envelope.seq).toOption.map
      fun _ => (keyOf target, envelope.seq) := by
    rw [taken, hop]
  unfold Consumer.publication at h
  rcases hchannel : x.pre.channel members target .signal envelope.seq with notes | ⟨t, ch⟩
  · rw [hchannel] at h htaken
    rw [Prod.mk.injEq] at h
    exact .same h.1.symm (h.2 ▸ channel_eq_error hchannel) htaken
  rcases channel_eq_ok hchannel with ⟨hkind, hmember, old, hheld, _, hnewer, hch, ht⟩
  rw [hchannel] at h htaken
  dsimp only at h
  rw [ht, setChannel_setChannel, Prod.mk.injEq] at h
  exact .published target envelope state now clock old _ hop hkind hmember hheld hnewer
    (by rw [hch]) (by rw [hch]) htaken h.1.symm (by rw [← h.2, hch]; rfl)

theorem occurrence_outcome {x : ConsumerStep} {payload : Bytes} {clock : Timestamp}
    (hop : x.op = .occurrence target envelope payload clock)
    (h : x.pre.occurrence members target envelope payload clock = (x.post, x.answer)) :
    Outcome members x := by
  have htaken : taken members x = (x.pre.channel members target .event envelope.seq).toOption.map
      fun _ => (keyOf target, envelope.seq) := by
    rw [taken, hop]
  unfold Consumer.occurrence at h
  rcases hchannel : x.pre.channel members target .event envelope.seq with notes | ⟨t, ch⟩
  · rw [hchannel] at h htaken
    rw [Prod.mk.injEq] at h
    exact .same h.1.symm (h.2 ▸ channel_eq_error hchannel) htaken
  rcases channel_eq_ok hchannel with ⟨_, hmember, old, hheld, _, hnewer, hch, ht⟩
  rw [hchannel] at h htaken
  dsimp only at h
  rw [hheld, Option.bind_some] at h
  have hoccurred : x.post = t → _ → Outcome members x := fun hpost hanswer =>
    .occurred target envelope payload clock old ch hop hmember hheld hnewer (by rw [hch])
      (by rw [hch]) htaken (hpost.trans ht) hanswer
  split at h
  · rw [Prod.mk.injEq] at h
    exact hoccurred h.1.symm (Or.inl h.2.symm)
  · rw [Prod.mk.injEq] at h
    exact hoccurred h.1.symm (Or.inr ⟨_, h.2.symm⟩)

theorem consumer_outcome {x : ConsumerStep} (h : x.pre.step members x.op = (x.post, x.answer)) :
    Outcome members x := by
  rcases hop : x.op with ⟨target, outcome⟩ | ⟨target, envelope, state, now, clock⟩ |
    ⟨target, envelope, payload, clock⟩ | now
  · rw [hop] at h
    exact answer_outcome hop (congrArg Prod.fst h).symm (congrArg Prod.snd h).symm
  · rw [hop] at h
    exact publication_outcome hop h
  · rw [hop] at h
    exact occurrence_outcome hop h
  · have huntaken : taken members x = none := by
      rw [taken, hop]
    rw [hop] at h
    dsimp only [Consumer.step, Consumer.tick] at h
    split at h
    · exact .committed h huntaken
    · rw [Prod.mk.injEq] at h
      exact .same h.1.symm (h.2 ▸ fun d hd => absurd hd List.not_mem_nil) huntaken

/-- What is known of a channel: its numbers increase, and its last good value
    and its gaps are those of its history. -/
structure Known (members : MemberTable) (key : Key) (ys : List ConsumerStep) (s : Consumer) :
    Prop where
  last : s.last key = (numbers members key ys).getLast?
  increasing : (numbers members key ys).Pairwise (· < ·)
  held : s.held key = lastGood (members.payloadLimit (signalTarget key)) (states members key ys)
  ungapped : numbers members key ys = [] → gaps key (deliveries ys) = []
  gapped : (members.member key.1 key.2).map Prod.fst = some .event →
    ∀ first rest last, numbers members key ys = first :: rest →
      (numbers members key ys).getLast? = some last →
      first.toNat + ((gaps key (deliveries ys)).map UInt64.toNat).sum + rest.length = last.toNat

theorem filterMap_append_singleton {α β : Type} (f : α → Option β) (l : List α) (a : α) :
    (l ++ [a]).filterMap f = l.filterMap f ++ (f a).toList := by
  rw [List.filterMap_append]
  rcases h : f a with _ | b
  · rw [List.filterMap_cons_none h]
    rfl
  · rw [List.filterMap_cons_some h]
    rfl

theorem gaps_append (key : Key) (ys : List ConsumerStep) (x : ConsumerStep) :
    gaps key (deliveries (ys ++ [x])) = gaps key (deliveries ys) ++ gaps key x.answer := by
  unfold gaps deliveries
  rw [List.flatMap_append, List.flatMap_singleton, List.filterMap_append]

namespace Known

variable {key : Key} {ys : List ConsumerStep} {x : ConsumerStep}

/-- A step that takes nothing from the channel. -/
theorem other (h : Known members key ys x.pre) (hlast : x.post.last key = x.pre.last key)
    (hheld : x.post.held key = x.pre.held key)
    (htaken : ∀ a, taken members x = some a → a.1 ≠ key)
    (hgaps : gaps key x.answer = []) : Known members key (ys ++ [x]) x.post := by
  have hnumbers : numbers members key (ys ++ [x]) = numbers members key ys := by
    rw [numbers, filterMap_append_singleton]
    rcases ha : taken members x with _ | a
    · exact List.append_nil _
    · rw [Option.bind_some, if_neg (htaken a ha)]
      exact List.append_nil _
  have hstates : states members key (ys ++ [x]) = states members key ys := by
    rw [states, filterMap_append_singleton]
    rcases hp : published members x with _ | p
    · exact List.append_nil _
    · rcases taken_of_published hp with ⟨seq, hseq⟩
      rw [Option.bind_some, if_neg (htaken _ hseq)]
      exact List.append_nil _
  have hdeliveries : gaps key (deliveries (ys ++ [x])) = gaps key (deliveries ys) := by
    rw [gaps_append, hgaps, List.append_nil]
  refine ⟨?_, ?_, ?_, ?_, ?_⟩
  · rw [hlast, hnumbers]
    exact h.last
  · rw [hnumbers]
    exact h.increasing
  · rw [hheld, hstates]
    exact h.held
  · rw [hnumbers, hdeliveries]
    exact h.ungapped
  · rw [hnumbers, hdeliveries]
    exact h.gapped

theorem gap_sum {last seq : UInt64} (h : last < seq) :
    last.toNat + ((gapOf (some last) seq).toList.map UInt64.toNat).sum + 1 = seq.toNat := by
  have hlt := UInt64.lt_iff_toNat_lt.1 h
  have hsub : (seq - last).toNat = seq.toNat - last.toNat :=
    UInt64.toNat_sub_of_le _ _ (UInt64.le_of_lt h)
  unfold gapOf
  rw [Option.bind_some]
  by_cases hgap : seq - last > 1
  · have hone : 1 < seq.toNat - last.toNat := hsub ▸ UInt64.lt_iff_toNat_lt.1 hgap
    have hpred : (seq - last - 1).toNat = seq.toNat - last.toNat - 1 := by
      rw [UInt64.toNat_sub_of_le _ _ (UInt64.le_of_lt hgap), hsub]
      rfl
    rw [if_pos hgap, Option.toList_some, List.map_singleton, List.sum_singleton, hpred]
    omega
  · have hone : ¬ 1 < seq.toNat - last.toNat :=
      fun hlt => hgap (UInt64.lt_iff_toNat_lt.2 (hsub.symm ▸ hlt))
    rw [if_neg hgap, Option.toList_none, List.map_nil, List.sum_nil]
    omega

/-- A step that takes a frame of the channel. -/
theorem took {seq : UInt64} (h : Known members key ys x.pre)
    (htaken : taken members x = some (key, seq))
    (hnewer : ∀ last, x.pre.last key = some last → last < seq)
    (hlast : x.post.last key = some seq)
    (hheld : x.post.held key =
      lastGood (members.payloadLimit (signalTarget key)) (states members key (ys ++ [x])))
    (hgaps : (members.member key.1 key.2).map Prod.fst = some .event →
      gaps key x.answer = (gapOf (x.pre.last key) seq).toList) :
    Known members key (ys ++ [x]) x.post := by
  have hnumbers : numbers members key (ys ++ [x]) = numbers members key ys ++ [seq] := by
    rw [numbers, filterMap_append_singleton, htaken, Option.bind_some, if_pos rfl]
    rfl
  refine ⟨?_, ?_, hheld, ?_, ?_⟩
  · rw [hlast, hnumbers, List.getLast?_concat]
  · rw [hnumbers]
    refine List.pairwise_append.2 ⟨h.increasing, List.pairwise_singleton _ _, fun a ha b hb => ?_⟩
    rw [List.mem_singleton.1 hb]
    rcases hend : (numbers members key ys).getLast? with _ | last
    · rw [List.getLast?_eq_none_iff.1 hend] at ha
      exact absurd ha List.not_mem_nil
    · have hlt := hnewer last (h.last.trans hend)
      rcases List.getLast?_eq_some_iff.1 hend with ⟨front, hfront⟩
      have hincreasing := h.increasing
      rw [hfront] at hincreasing ha
      rcases List.mem_append.1 ha with ha | ha
      · exact UInt64.lt_trans ((List.pairwise_append.1 hincreasing).2.2 a ha last
          (List.mem_singleton_self _)) hlt
      · rw [List.mem_singleton.1 ha]
        exact hlt
  · rw [hnumbers]
    exact fun hnil => absurd hnil (List.append_ne_nil_of_right_ne_nil _ (List.cons_ne_nil _ _))
  · rw [hnumbers, gaps_append, List.map_append, List.sum_append]
    intro hevent first rest last hsplit hend
    rw [List.getLast?_concat, Option.some.injEq] at hend
    subst hend
    have hgap := hgaps hevent
    rw [h.last] at hgap hnewer
    rw [hgap]
    rcases hold : numbers members key ys with _ | ⟨first', rest'⟩
    · rw [hold] at hsplit
      cases hsplit
      rw [h.ungapped hold]
      rfl
    · rcases hend' : (numbers members key ys).getLast? with _ | last'
      · rw [List.getLast?_eq_none_iff.1 hend'] at hold
        cases hold
      · have hprev := h.gapped hevent first' rest' last' hold hend'
        rw [hend'] at hnewer
        have hsum := gap_sum (hnewer last' rfl)
        rw [hold] at hsplit hend'
        cases hsplit
        rw [hend', show (rest'.append [seq]).length = rest'.length + 1 from List.length_append]
        omega

end Known

theorem flush_spec {out : List Delivery} (h : s.flush = (t, out)) :
    t.channels = s.channels ∧ t.interval = s.interval ∧
      ((s.group = none ∧ t = s ∧ out = []) ∨ ∃ stamp last, s.group = some (stamp, last) ∧
        t.group = none ∧ t.groupChannels = [] ∧ out = [.commit stamp]) := by
  unfold Consumer.flush at h
  rcases hgroup : s.group with _ | ⟨stamp, last⟩
  · rw [hgroup] at h
    cases h
    exact ⟨rfl, rfl, Or.inl ⟨rfl, rfl, rfl⟩⟩
  · rw [hgroup] at h
    cases h
    exact ⟨rfl, rfl, Or.inr ⟨stamp, last, rfl, rfl, rfl, rfl⟩⟩

theorem gaps_flush (key : Key) {out : List Delivery} (h : s.flush = (t, out)) :
    gaps key out = [] := by
  rcases (flush_spec h).2.2 with ⟨_, _, hout⟩ | ⟨stamp, last, _, _, _, hout⟩
  · rw [hout]
    rfl
  · rw [hout]
    rfl

theorem begin_spec (s : Consumer) (target : Target) (stamp : Timestamp) (now : Instant) :
    ∃ u out, (s.flush = (u, out) ∨ u = s ∧ out = [] ∧
        (∀ held last, s.group = some (held, last) → held = stamp) ∧
        keyOf target ∉ s.groupChannels) ∧
      s.begin target stamp now = ({ u with
        groupChannels := if keyOf target ∈ u.groupChannels then u.groupChannels
          else u.groupChannels ++ [keyOf target]
        group := some (stamp, now) }, out) := by
  unfold Consumer.begin
  by_cases hflush : s.group.any (fun group => group.1 ≠ stamp) ∨ keyOf target ∈ s.groupChannels
  · rw [if_pos hflush]
    exact ⟨s.flush.1, s.flush.2, Or.inl rfl, rfl⟩
  · rw [if_neg hflush]
    refine ⟨s, [], Or.inr ⟨rfl, rfl, fun held last hgroup => ?_, fun hmem => hflush (Or.inr hmem)⟩,
      rfl⟩
    by_contra hne
    exact hflush (Or.inl (by rw [hgroup]; exact decide_eq_true hne))

theorem begin_channels (s : Consumer) (target : Target) (stamp : Timestamp) (now : Instant) :
    (s.begin target stamp now).1.channels = s.channels := by
  rcases begin_spec s target stamp now with ⟨u, out, hu, hbegin⟩
  rw [hbegin]
  rcases hu with hflush | ⟨rfl, _⟩
  · exact (flush_spec hflush).1
  · rfl

theorem gaps_begin (key : Key) (s : Consumer) (target : Target) (stamp : Timestamp)
    (now : Instant) : gaps key (s.begin target stamp now).2 = [] := by
  rcases begin_spec s target stamp now with ⟨u, out, hu, hbegin⟩
  rw [hbegin]
  rcases hu with hflush | ⟨_, hout, _⟩
  · exact gaps_flush key hflush
  · rw [hout]
    rfl

theorem last_setChannel (s : Consumer) (key other : Key) (ch : Channel) :
    (s.setChannel key ch).last other = if key = other then ch.seq else s.last other := by
  unfold Consumer.last Consumer.setChannel
  rw [OrdMap.getElem?_insert]
  by_cases hkey : key = other
  · rw [if_pos hkey, if_pos hkey]
    rfl
  · rw [if_neg hkey, if_neg hkey]

theorem held_setChannel (s : Consumer) (key other : Key) (ch : Channel) :
    (s.setChannel key ch).held other = if key = other then ch.good else s.held other := by
  unfold Consumer.held Consumer.setChannel
  rw [OrdMap.getElem?_insert]
  by_cases hkey : key = other
  · rw [if_pos hkey, if_pos hkey]
    rfl
  · rw [if_neg hkey, if_neg hkey]

theorem last_congr (h : s.channels = t.channels) (key : Key) :
    s.last key = t.last key := by
  rw [Consumer.last, h, Consumer.last]

theorem held_congr (h : s.channels = t.channels) (key : Key) :
    s.held key = t.held key := by
  rw [Consumer.held, h, Consumer.held]

theorem subscribe_blank (members : MemberTable) (interval : Duration) (key : Key) (ch : Channel)
    (h : ((Consumer.new interval).subscribe members).channels[key]? = some ch) :
    ch = Channel.default := by
  have hfold : ∀ (targets : List Target) (m : OrdMap Key Channel),
      (∀ (k : Key) c, m[k]? = some c → c = Channel.default) →
      ∀ (k : Key) c, (targets.foldl (fun m t => m.insert (keyOf t) Channel.default) m)[k]? =
        some c → c = Channel.default := by
    intro targets
    induction targets with
    | nil => exact fun m hm => hm
    | cons t targets ih =>
        intro m hm
        exact ih _ (OrdMap.forall_insert m (keyOf t) Channel.default
          (fun _ c => c = Channel.default) rfl hm)
  refine hfold _ ∅ (fun k c hc => ?_) key ch h
  rw [Std.ExtTreeMap.getElem?_empty] at hc
  cases hc

theorem Known.init (members : MemberTable) (interval : Duration) (key : Key) :
    Known members key [] (consuming members interval).init := by
  have hblank : ∀ {α : Type} (f : Channel → Option α), f Channel.default = none →
      ((consuming members interval).init.channels[key]?).bind f = none := by
    intro α f hf
    rcases hch : (consuming members interval).init.channels[key]? with _ | ch
    · rfl
    · rw [subscribe_blank members interval key ch hch]
      exact hf
  exact
    { last := hblank _ rfl
      increasing := List.Pairwise.nil
      held := hblank _ rfl
      ungapped := fun _ => rfl
      gapped := fun _ _ _ _ hnil => by cases hnil }

theorem signalTarget_keyOf (h : target.kind = .signal) :
    signalTarget (keyOf target) = target := by
  rw [signalTarget, ← h]
  rfl

theorem gaps_occurred {key : Key} {gap : Option UInt64} {answer : List Delivery}
    (h : answer = (gap.map (.eventGap target)).toList ∨
      ∃ checked, answer = [.occurrence target checked envelope gap]) :
    gaps key answer = if keyOf target = key then gap.toList else [] := by
  rcases h with rfl | ⟨checked, rfl⟩
  · rcases gap with _ | count
    · exact (ite_self _).symm
    · by_cases hkey : keyOf target = key
      · rw [if_pos hkey]
        exact List.filterMap_cons_some (if_pos hkey)
      · rw [if_neg hkey]
        exact List.filterMap_cons_none (if_neg hkey)
  · rcases gap with _ | count
    · exact (ite_self _).symm
    · by_cases hkey : keyOf target = key
      · rw [if_pos hkey]
        exact List.filterMap_cons_some (if_pos hkey)
      · rw [if_neg hkey]
        exact List.filterMap_cons_none (if_neg hkey)

theorem known_of_run {members : MemberTable} {interval : Duration} {xs : List ConsumerStep}
    (h : Machine.IsRun (consuming members interval) (consuming members interval).init xs t) (key : Key) :
    Known members key xs t := by
  refine h.history (Known members key) ?_ fun ys x _ _ hstep hprev => ?_
  · exact Known.init members interval key
  cases consumer_outcome (Option.some.inj hstep) with
  | ignored hlast hheld _ _ _ hanswer huntaken =>
      refine hprev.other (hlast key) (hheld key) (by rw [huntaken]; nofun)
        (List.filterMap_eq_nil_iff.2 fun d hd => ?_)
      rcases hanswer d hd with ⟨note, rfl⟩
      rfl
  | committed hflush huntaken =>
      exact hprev.other (last_congr (flush_spec hflush).1 key) (held_congr (flush_spec hflush).1 key)
        (by rw [huntaken]; nofun) (gaps_flush key hflush)
  | published target envelope state now clock old ch hop hkind hmember hheld hnewer hseq hgood
      htaken hpost hanswer =>
      have hlast : x.post.last key =
          if keyOf target = key then some envelope.seq else x.pre.last key := by
        rw [hpost, last_congr (begin_channels _ _ _ _), last_setChannel, hseq]
      have hgaps : gaps key x.answer = [] := by
        rw [hanswer, gaps, List.filterMap_append]
        exact (congrArg (· ++ []) (gaps_begin key _ _ _ _)).trans (List.append_nil _)
      have hheldPost : x.post.held key =
          if keyOf target = key then ch.good else x.pre.held key := by
        rw [hpost, held_congr (begin_channels _ _ _ _), held_setChannel]
      by_cases hkey : keyOf target = key
      · subst hkey
        have hold : x.pre.last (keyOf target) = old.seq := by
          rw [Consumer.last, hheld, Option.bind_some]
        have hstates : states members (keyOf target) (ys ++ [x]) =
            states members (keyOf target) ys ++ [state] := by
          rw [states, filterMap_append_singleton, published, hop]
          dsimp only
          rw [htaken, Option.map_some, Option.bind_some, if_pos rfl]
          rfl
        rw [if_pos rfl] at hlast hheldPost
        refine hprev.took htaken (hold ▸ hnewer) hlast ?_ fun hevent => ?_
        · rw [hheldPost, hstates, lastGood_append, ← hprev.held, hgood, Consumer.held, hheld,
            Option.bind_some, signalTarget_keyOf hkind]
        · rw [keyOf, hmember] at hevent
          cases hevent
      · rw [if_neg hkey] at hlast hheldPost
        refine hprev.other hlast hheldPost (fun a ha => ?_) hgaps
        rw [htaken, Option.some.injEq] at ha
        exact ha ▸ hkey
  | occurred target envelope payload clock old ch hop hmember hheld hnewer hseq hgood htaken
      hpost hanswer =>
      have hlast : x.post.last key =
          if keyOf target = key then some envelope.seq else x.pre.last key := by
        rw [hpost, last_setChannel, hseq]
      have hheldPost : x.post.held key =
          if keyOf target = key then ch.good else x.pre.held key := by
        rw [hpost, held_setChannel]
      have hgaps : gaps key x.answer =
          if keyOf target = key then (gapOf old.seq envelope.seq).toList else [] :=
        gaps_occurred hanswer
      by_cases hkey : keyOf target = key
      · subst hkey
        have hold : x.pre.last (keyOf target) = old.seq := by
          rw [Consumer.last, hheld, Option.bind_some]
        have hstates : states members (keyOf target) (ys ++ [x]) =
            states members (keyOf target) ys := by
          rw [states, filterMap_append_singleton, published, hop]
          exact List.append_nil _
        rw [if_pos rfl] at hlast hheldPost hgaps
        refine hprev.took htaken (hold ▸ hnewer) hlast ?_ fun _ => hold.symm ▸ hgaps
        rw [hheldPost, hstates, ← hprev.held, hgood, Consumer.held, hheld, Option.bind_some]
      · rw [if_neg hkey] at hlast hheldPost hgaps
        refine hprev.other hlast hheldPost (fun a ha => ?_) hgaps
        rw [htaken, Option.some.injEq] at ha
        exact ha ▸ hkey

end Provided

end Ridl
