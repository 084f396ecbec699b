import Ridl.Provision.Effects

/-!
# The Calls of the Handler

Which requests reach the handler of a provided session, in every run. A frame
is new when its number is above the highest one taken or answered, and a new
frame that is not refused waits for its microtask. The microtasks run in the
order of the frames, so the handler is called with increasing numbers.

`Handled` is the invariant. It is kept by what a step leaves of the calls
(`Handled.fewer`) and by each effect a step has on them.

## Theorems

* `Handled.step`: A step that calls no handler keeps what is left.
-/

namespace Ridl

namespace Provision

open Library

open ProvidedCalls

namespace Event

def answer : Event → Option (Response × Bytes)
  | .sent r bytes => some (r, bytes)
  | _ => none

def invocation : Event → Option ProvidedRequest
  | .invoked request => some request
  | _ => none

/-- The number a request is taken under, or answered. -/
def number : Event → Option UInt64
  | .taken seq => some seq
  | .sent r _ => some r.correlation
  | _ => none

end Event

/-- The responses sent first, in order, with the bytes sent. -/
def answers (trace : List Event) : List (Response × Bytes) := trace.filterMap Event.answer

/-- What the handler was called with, in order. -/
def invocations (trace : List Event) : List ProvidedRequest := trace.filterMap Event.invocation

/-- The numbers of the requests taken or answered. -/
def seen (trace : List Event) : List UInt64 := trace.filterMap Event.number

def trace (xs : List CallStep) : List Event := xs.flatMap (fun x => x.answer)

theorem trace_append (xs : List CallStep) (x : CallStep) :
    trace (xs ++ [x]) = trace xs ++ x.answer := by
  unfold trace
  rw [List.flatMap_append, List.flatMap_singleton]

section Quiet

variable {events : List Event} (h : ∀ e ∈ events, e.silent = true)
include h

theorem answers_quiet : answers events = [] :=
  List.filterMap_eq_nil_iff.2 fun e he => by
    have := h e he
    cases e <;> first | rfl | exact absurd this Bool.false_ne_true

theorem invocations_quiet : invocations events = [] :=
  List.filterMap_eq_nil_iff.2 fun e he => by
    have := h e he
    cases e <;> first | rfl | exact absurd this Bool.false_ne_true

theorem seen_quiet : seen events = [] :=
  List.filterMap_eq_nil_iff.2 fun e he => by
    have := h e he
    cases e <;> first | rfl | exact absurd this Bool.false_ne_true

end Quiet

def CallStep.IsDispatch (x : CallStep) : Prop :=
  ∃ frame limit known w, x.op = .dispatch frame limit known w

/-- The step took the call for its handler. -/
def CallStep.Takes (x : CallStep) (c : Call) : Prop :=
  (∃ w, x.op = .dispatch c.frame c.limit true w) ∧ x.answer = [.taken c.seq]

/-- A call was new when it was taken, and the answers given since are for
    earlier requests or refusals of later ones. -/
def Waiting (ys : List CallStep) (c : Call) : Prop :=
  ∃ early x mid, ys = early ++ x :: mid ∧ x.Takes c ∧ (∀ q ∈ seen (trace early), q < c.seq) ∧
    ∀ z ∈ mid, ∀ a ∈ answers z.answer, a.1.correlation < c.seq ∨ z.IsDispatch

theorem Waiting.append {ys : List CallStep} {c : Call} {x : CallStep} (h : Waiting ys c)
    (hx : ∀ a ∈ answers x.answer, a.1.correlation < c.seq ∨ x.IsDispatch) :
    Waiting (ys ++ [x]) c := by
  rcases h with ⟨early, y, mid, rfl, htakes, hnew, hmid⟩
  refine ⟨early, y, mid ++ [x], List.append_assoc _ _ _, htakes, hnew, fun z hz => ?_⟩
  rcases List.mem_append.1 hz with hz | hz
  · exact hmid z hz
  · rw [List.mem_singleton.1 hz]
    exact hx

/-- The calls whose handlers are not done. -/
def ProvidedCalls.calls (s : ProvidedCalls) : List Call := s.queued ++ s.running

theorem Fewer.calls {s t : ProvidedCalls} (h : Fewer s t) : s.calls.Sublist t.calls := by
  rcases h with ⟨queued, running, hqueued, hrunning, rfl⟩
  exact hqueued.append hrunning

/-- What a session's state says about its handler's calls so far. -/
structure Handled (ys : List CallStep) (s : ProvidedCalls) : Prop where
  seenBelow : ∀ q ∈ seen (trace ys), q ≤ s.highest
  waiting : ∀ c ∈ s.queued, Waiting ys c
  handling : ∀ c ∈ s.running, (∃ x ∈ ys, x.Takes c) ∧ c.request ∈ invocations (trace ys)
  queuedOrder : s.queued.Pairwise (fun a b => a.seq < b.seq)
  invokedBelow : ∀ c ∈ s.queued, ∀ q ∈ invocations (trace ys), q.correlation < c.seq
  invokedSeen : ∀ q ∈ invocations (trace ys), q.correlation ≤ s.highest
  invokedOrder : (invocations (trace ys)).Pairwise (fun a b => a.correlation < b.correlation)
  distinct : (s.calls.map Call.seq).Nodup
  numbered : ∀ c ∈ s.calls, 0 < c.seq ∧ c.seq ≤ s.highest
  active : s.ended = false → ∀ c ∈ s.calls, c.seq ∈ s.active
  activeBound : s.active.length ≤ CAPACITY
  runningBound : s.running.length ≤ CAPACITY

namespace Handled

variable {ys : List CallStep} {s t : ProvidedCalls} {x : CallStep}

theorem init : Handled [] .new where
  seenBelow _ hq := absurd hq List.not_mem_nil
  waiting _ hc := absurd hc List.not_mem_nil
  handling _ hc := absurd hc List.not_mem_nil
  queuedOrder := List.Pairwise.nil
  invokedBelow _ hc := absurd hc List.not_mem_nil
  invokedSeen _ hq := absurd hq List.not_mem_nil
  invokedOrder := List.Pairwise.nil
  distinct := List.nodup_nil
  numbered _ hc := absurd hc List.not_mem_nil
  active _ _ hc := absurd hc List.not_mem_nil
  activeBound := Nat.zero_le _
  runningBound := Nat.zero_le _

theorem fewer (h : Handled ys t) (hfewer : Fewer s t) : Handled ys s := by
  have hcalls := hfewer.calls
  rcases hfewer with ⟨queued, running, hqueued, hrunning, rfl⟩
  exact
    { seenBelow := h.seenBelow
      waiting := fun c hc => h.waiting c (hqueued.subset hc)
      handling := fun c hc => h.handling c (hrunning.subset hc)
      queuedOrder := h.queuedOrder.sublist hqueued
      invokedBelow := fun c hc => h.invokedBelow c (hqueued.subset hc)
      invokedSeen := h.invokedSeen
      invokedOrder := h.invokedOrder
      distinct := (hcalls.map _).nodup h.distinct
      numbered := fun c hc => h.numbered c (hcalls.subset hc)
      active := fun hopen c hc => h.active hopen c (hcalls.subset hc)
      activeBound := h.activeBound
      runningBound := Nat.le_trans hrunning.length_le h.runningBound }

/-- No call with an answered number is left. -/
def Free (seq : UInt64) (s : ProvidedCalls) : Prop := ∀ c ∈ s.calls, c.seq ≠ seq

theorem step (h : Handled ys s) (hqueued : x.post.queued = s.queued)
    (hrunning : x.post.running = s.running) (hhighest : s.highest ≤ x.post.highest)
    (hactive : x.post.ended = false → s.ended = false ∧
      ∀ c ∈ s.calls, c.seq ∈ s.active → c.seq ∈ x.post.active)
    (hbound : x.post.active.length ≤ s.active.length) (hcalled : invocations x.answer = [])
    (hseen : ∀ q ∈ seen x.answer, q ≤ x.post.highest)
    (hanswers : ∀ a ∈ answers x.answer,
      (∀ c ∈ s.queued, a.1.correlation < c.seq) ∨ x.IsDispatch) :
    Handled (ys ++ [x]) x.post := by
  have hinvoked : invocations (trace (ys ++ [x])) = invocations (trace ys) := by
    rw [trace_append, invocations, List.filterMap_append]
    exact (congrArg _ hcalled).trans (List.append_nil _)
  have hcalls : x.post.calls = s.calls := by
    rw [calls, hqueued, hrunning, calls]
  refine ⟨?_, ?_, ?_, ?_, ?_, ?_, ?_, ?_, ?_, ?_, ?_, ?_⟩
  · intro q hq
    rw [trace_append, seen, List.filterMap_append] at hq
    rcases List.mem_append.1 hq with hq | hq
    · exact UInt64.le_trans (h.seenBelow q hq) hhighest
    · exact hseen q hq
  · rw [hqueued]
    exact fun c hc => (h.waiting c hc).append fun a ha =>
      (hanswers a ha).imp_left fun hlt => hlt c hc
  · rw [hrunning, hinvoked]
    intro c hc
    rcases h.handling c hc with ⟨⟨y, hy, htakes⟩, hcalled⟩
    exact ⟨⟨y, List.mem_append_left _ hy, htakes⟩, hcalled⟩
  · rw [hqueued]
    exact h.queuedOrder
  · rw [hqueued, hinvoked]
    exact h.invokedBelow
  · rw [hinvoked]
    exact fun q hq => UInt64.le_trans (h.invokedSeen q hq) hhighest
  · rw [hinvoked]
    exact h.invokedOrder
  · rw [hcalls]
    exact h.distinct
  · rw [hcalls]
    exact fun c hc => ⟨(h.numbered c hc).1, UInt64.le_trans (h.numbered c hc).2 hhighest⟩
  · rw [hcalls]
    exact fun hopen c hc =>
      (hactive hopen).2 c hc (h.active (hactive hopen).1 c hc)
  · exact Nat.le_trans hbound h.activeBound
  · rw [hrunning]
    exact h.runningBound

theorem calm {seq : UInt64} (h : Handled ys s) (hfree : Free seq s)
    (hcalm : Calm seq s x.post) (hquiet : ∀ e ∈ x.answer, e.silent = true) :
    Handled (ys ++ [x]) x.post := by
  refine h.step hcalm.queued hcalm.running hcalm.highest
    (fun hopen => ⟨hcalm.wasOpen hopen,
      fun c hc hmem => hcalm.active hopen _ hmem (hfree c hc)⟩)
    hcalm.activeBound (invocations_quiet hquiet) ?_ ?_
  · rw [seen_quiet hquiet]
    exact fun q hq => absurd hq List.not_mem_nil
  · rw [answers_quiet hquiet]
    exact fun a ha => absurd ha List.not_mem_nil

theorem sent {encode : Response → Option Bytes} {r : Response} {bytes : Bytes}
    (h : Handled ys s) (hfree : Free r.correlation s)
    (hearlier : (∀ c ∈ s.queued, r.correlation < c.seq) ∨ x.IsDispatch)
    (hsent : Sent encode r bytes s x.post) (hanswer : x.answer = [.sent r bytes]) :
    Handled (ys ++ [x]) x.post := by
  refine h.step hsent.queued hsent.running hsent.highest.1 (fun hopen => ?_) hsent.activeBound
    (by rw [hanswer]; rfl) ?_ ?_
  · rw [hsent.kept hopen]
    exact ⟨hsent.wasOpen, fun c hc hmem =>
      List.mem_filter.2 ⟨hmem, bne_iff_ne.2 (hfree c hc)⟩⟩
  · rw [hanswer]
    intro q hq
    rw [List.mem_singleton.1 hq]
    exact hsent.highest.2
  · rw [hanswer]
    intro a ha
    rw [List.mem_singleton.1 ha]
    exact hearlier

theorem taken {frame : Request} {limit : Nat} {w : World} (h : Handled ys x.pre)
    (hop : x.op = .dispatch frame limit true w) (hfresh : ¬ frame.envelope.seq ≤ x.pre.highest)
    (hroom : x.pre.active.length < CAPACITY) (hanswer : x.answer = [.taken frame.envelope.seq])
    (hpost : x.post = x.pre.take ⟨frame, limit⟩) : Handled (ys ++ [x]) x.post := by
  have hnew : x.pre.highest < frame.envelope.seq := UInt64.not_le.1 hfresh
  have htrace := trace_append ys x
  rw [hanswer] at htrace
  have hseen : seen (trace (ys ++ [x])) = seen (trace ys) ++ [frame.envelope.seq] := by
    rw [htrace, seen, List.filterMap_append]
    rfl
  have hinvoked : invocations (trace (ys ++ [x])) = invocations (trace ys) := by
    rw [htrace, invocations, List.filterMap_append]
    exact List.append_nil _
  have hbelow : ∀ c ∈ x.pre.calls, c.seq < frame.envelope.seq :=
    fun c hc => UInt64.lt_of_le_of_lt (h.numbered c hc).2 hnew
  have hperm : x.post.calls.Perm (⟨frame, limit⟩ :: x.pre.calls) := by
    rw [hpost]
    show (x.pre.queued ++ [(⟨frame, limit⟩ : Call)] ++ x.pre.running).Perm _
    rw [List.append_assoc]
    exact List.perm_middle
  have htakes : x.Takes ⟨frame, limit⟩ := ⟨⟨w, hop⟩, hanswer⟩
  have hquiet : answers x.answer = [] := by
    rw [hanswer]
    rfl
  refine ⟨?_, ?_, ?_, ?_, ?_, ?_, ?_, ?_, ?_, ?_, ?_, ?_⟩
  · rw [hseen, hpost]
    intro q hq
    rcases List.mem_append.1 hq with hq | hq
    · exact UInt64.le_trans (h.seenBelow q hq) (UInt64.le_of_lt hnew)
    · rw [List.mem_singleton.1 hq]
      exact UInt64.le_refl _
  · rw [hpost]
    intro c hc
    rcases List.mem_append.1 hc with hc | hc
    · refine (h.waiting c hc).append fun a ha => ?_
      rw [hquiet] at ha
      exact absurd ha List.not_mem_nil
    · rw [List.mem_singleton.1 hc]
      exact ⟨ys, x, [], rfl, htakes,
        fun q hq => UInt64.lt_of_le_of_lt (h.seenBelow q hq) hnew,
        fun z hz => absurd hz List.not_mem_nil⟩
  · rw [hpost, hinvoked]
    intro c hc
    rcases h.handling c hc with ⟨⟨y, hy, htakes⟩, hcalled⟩
    exact ⟨⟨y, List.mem_append_left _ hy, htakes⟩, hcalled⟩
  · rw [hpost]
    refine List.pairwise_append.2 ⟨h.queuedOrder, List.pairwise_singleton _ _, fun a ha b hb => ?_⟩
    rw [List.mem_singleton.1 hb]
    exact hbelow a (List.mem_append_left _ ha)
  · rw [hpost, hinvoked]
    intro c hc q hq
    rcases List.mem_append.1 hc with hc | hc
    · exact h.invokedBelow c hc q hq
    · rw [List.mem_singleton.1 hc]
      exact UInt64.lt_of_le_of_lt (h.invokedSeen q hq) hnew
  · rw [hinvoked, hpost]
    exact fun q hq => UInt64.le_trans (h.invokedSeen q hq) (UInt64.le_of_lt hnew)
  · rw [hinvoked]
    exact h.invokedOrder
  · refine ((hperm.map Call.seq).nodup_iff).2 (List.nodup_cons.2 ⟨fun hmem => ?_, h.distinct⟩)
    rcases List.mem_map.1 hmem with ⟨c, hc, heq⟩
    exact UInt64.ne_of_lt (hbelow c hc) heq
  · intro c hc
    rw [hpost]
    rcases List.mem_cons.1 (hperm.subset hc) with rfl | hc
    · exact ⟨UInt64.lt_of_le_of_lt UInt64.zero_le hnew, UInt64.le_refl _⟩
    · exact ⟨(h.numbered c hc).1, UInt64.le_of_lt (hbelow c hc)⟩
  · intro hopen c hc
    rw [hpost] at hopen ⊢
    show c.seq ∈ if x.pre.active.contains _ then _ else _
    rcases List.mem_cons.1 (hperm.subset hc) with rfl | hc
    · split
      · exact List.contains_iff_mem.1 (by assumption)
      · exact List.mem_append_right _ (List.mem_singleton_self _)
    · have hmem := h.active hopen c hc
      split
      · exact hmem
      · exact List.mem_append_left _ hmem
  · rw [hpost]
    show (if x.pre.active.contains _ then _ else _ : List UInt64).length ≤ _
    split
    · exact h.activeBound
    · rw [List.length_append, List.length_singleton]
      exact hroom
  · rw [hpost]
    exact h.runningBound

theorem invoked {c : Call} {rest : List Call} (h : Handled ys x.pre)
    (hqueued : x.pre.queued = c :: rest) (hlive : x.pre.ended = false)
    (hanswer : x.answer = [.invoked c.request])
    (hpost : x.post = { x.pre with queued := rest, running := x.pre.running ++ [c] }) :
    Handled (ys ++ [x]) x.post := by
  have htrace := trace_append ys x
  rw [hanswer] at htrace
  have hseen : seen (trace (ys ++ [x])) = seen (trace ys) := by
    rw [htrace, seen, List.filterMap_append]
    exact List.append_nil _
  have hinvoked : invocations (trace (ys ++ [x])) = invocations (trace ys) ++ [c.request] := by
    rw [htrace, invocations, List.filterMap_append]
    rfl
  have hquiet : answers x.answer = [] := by
    rw [hanswer]
    rfl
  have hperm : x.post.calls.Perm x.pre.calls := by
    rw [hpost, calls, calls, hqueued]
    show (rest ++ (x.pre.running ++ [c])).Perm (c :: (rest ++ x.pre.running))
    rw [← List.append_assoc]
    exact List.perm_append_singleton c _
  have hhead : c ∈ x.pre.queued := hqueued ▸ List.mem_cons_self
  have htail : ∀ d ∈ rest, d ∈ x.pre.queued := fun d hd => hqueued ▸ List.mem_cons_of_mem c hd
  have horder := h.queuedOrder
  rw [hqueued, List.pairwise_cons] at horder
  refine ⟨?_, ?_, ?_, ?_, ?_, ?_, ?_, ?_, ?_, ?_, ?_, ?_⟩
  · rw [hseen, hpost]
    exact h.seenBelow
  · rw [hpost]
    refine fun d hd => (h.waiting d (htail d hd)).append fun a ha => ?_
    rw [hquiet] at ha
    exact absurd ha List.not_mem_nil
  · rw [hpost, hinvoked]
    intro d hd
    rcases List.mem_append.1 hd with hd | hd
    · rcases h.handling d hd with ⟨⟨y, hy, htakes⟩, hcalled⟩
      exact ⟨⟨y, List.mem_append_left _ hy, htakes⟩, List.mem_append_left _ hcalled⟩
    · rw [List.mem_singleton.1 hd]
      rcases h.waiting c hhead with ⟨early, y, mid, rfl, htakes, _⟩
      exact ⟨⟨y, List.mem_append_left _ (List.mem_append_right _ List.mem_cons_self), htakes⟩,
        List.mem_append_right _ (List.mem_singleton_self _)⟩
  · rw [hpost]
    exact horder.2
  · rw [hpost, hinvoked]
    intro d hd q hq
    rcases List.mem_append.1 hq with hq | hq
    · exact h.invokedBelow d (htail d hd) q hq
    · rw [List.mem_singleton.1 hq]
      exact horder.1 d hd
  · rw [hinvoked, hpost]
    intro q hq
    rcases List.mem_append.1 hq with hq | hq
    · exact h.invokedSeen q hq
    · rw [List.mem_singleton.1 hq]
      exact (h.numbered c (List.mem_append_left _ hhead)).2
  · rw [hinvoked]
    refine List.pairwise_append.2 ⟨h.invokedOrder, List.pairwise_singleton _ _, fun a ha b hb => ?_⟩
    rw [List.mem_singleton.1 hb]
    exact h.invokedBelow c hhead a ha
  · exact ((hperm.map Call.seq).nodup_iff).2 h.distinct
  · intro d hd
    rw [hpost]
    exact h.numbered d (hperm.subset hd)
  · intro _ d hd
    rw [hpost]
    exact h.active hlive d (hperm.subset hd)
  · rw [hpost]
    exact h.activeBound
  · have hsubset : x.post.running.map Call.seq ⊆ x.pre.active := by
      intro q hq
      rcases List.mem_map.1 hq with ⟨d, hd, rfl⟩
      exact h.active hlive d (hperm.subset (List.mem_append_right _ hd))
    have hnodup : (x.post.running.map Call.seq).Nodup :=
      ((List.sublist_append_right _ _).map _).nodup
        (((hperm.map Call.seq).nodup_iff).2 h.distinct)
    have hlength := (hnodup.subperm hsubset).length_le
    rw [List.length_map] at hlength
    exact Nat.le_trans hlength h.activeBound

theorem free_erase (h : Handled ys s) {c : Call} (hrunning : c ∈ s.running) :
    Free c.seq { s with running := s.running.erase c } := by
  have hperm : s.calls.Perm (c :: (s.queued ++ s.running.erase c)) :=
    ((List.perm_cons_erase hrunning).append_left s.queued).trans List.perm_middle
  have hnodup := ((hperm.map Call.seq).nodup_iff).1 h.distinct
  rw [List.map_cons, List.nodup_cons] at hnodup
  exact fun d hd heq => hnodup.1 (heq ▸ List.mem_map_of_mem hd)

theorem free_zero (h : Handled ys s) : Free 0 s :=
  fun c hc h0 => UInt64.lt_irrefl _ (h0 ▸ (h.numbered c hc).1)

end Handled

end Provision

end Ridl
