import Ridl.Loopback.Paths

/-!
# What a Move Does to the Chunks of a Stream

A move changes the streams of one call, and the events of the move say how.
A `Flow` is that change for one stream, without the wakers: the chunks stay,
one is added at the end, one is taken from the front, or the receiver gives
up what it did not read. A stream that took no more takes no more afterwards,
and a stream is ended only where an event says so.

## Theorems

* `Edit.flow`, `Verdict.flow`: What happens to a call is a flow of each of
  its streams.
* `Move.flow`: What happens to the store is a flow of each stream it keeps.
-/

namespace Ridl

namespace Loopback

open Library Correlate

/-- The chunk the event took from the producer of the stream. -/
def Event.takenOn (call : Nat) (no : StreamNo) : Event → Option Bytes
  | .accepted c n chunk => if c = call ∧ n = no then some chunk else none
  | _ => none

/-- The chunk the event gave to the receiver of the stream. -/
def Event.givenOn (call : Nat) (no : StreamNo) : Event → Option Bytes
  | .pulled c n chunk => if c = call ∧ n = no then some chunk else none
  | _ => none

/-- The receiver gave up the unread chunks of the stream. -/
def Event.givesUp (call : Nat) (no : StreamNo) : Event → Prop
  | .cleared c n => c = call ∧ n = no
  | .released c => c = call ∧ no ≠ REPLY_STREAM
  | .abandoned c => c = call ∧ no ≠ REPLY_STREAM
  | _ => False

def takenChunks (call : Nat) (no : StreamNo) (evs : List Event) : List Bytes :=
  evs.filterMap (Event.takenOn call no)

def givenChunks (call : Nat) (no : StreamNo) (evs : List Event) : List Bytes :=
  evs.filterMap (Event.givenOn call no)

/-- What the events did to stream `no` of `call`. -/
inductive Flow (call : Nat) (no : StreamNo) (st : StreamState) (evs : List Event)
    (st' : StreamState) : Prop
  | kept (hchunks : st'.chunks = st.chunks)
      (hended : st'.ended = true → st.ended = true ∨ .ended call no ∈ evs)
      (hfinished : st.finished = true → st'.finished = true)
      (htaken : takenChunks call no evs = []) (hgiven : givenChunks call no evs = [])
  | taken (chunk : Bytes) (hopen : st.finished = false) (hroom : chunk = [] ∨ st.full = false)
      (hchunks : st'.chunks = st.chunks ++ [chunk]) (hended : st'.ended = st.ended)
      (htaken : takenChunks call no evs = [chunk]) (hgiven : givenChunks call no evs = [])
  | given (chunk : Bytes) (hchunks : st.chunks = chunk :: st'.chunks)
      (hended : st'.ended = st.ended) (hfinished : st.finished = true → st'.finished = true)
      (htaken : takenChunks call no evs = []) (hgiven : givenChunks call no evs = [chunk])
  | gaveUp (hchunks : st'.chunks = []) (hended : st'.ended = st.ended)
      (hfinished : st'.finished = true) (hgave : ∃ ev ∈ evs, ev.givesUp call no)
      (htaken : takenChunks call no evs = []) (hgiven : givenChunks call no evs = [])

variable {call : Nat} {no : StreamNo} {st st' : StreamState} {k k' : CallEntry} {e e' : Entry}
  {ws : List Waker} {evs evs' : List Event}

/-- An event that moves no chunk may come before. -/
theorem Flow.cons {ev : Event} (htaken : ev.takenOn call no = none)
    (hgiven : ev.givenOn call no = none) (h : Flow call no st evs st') :
    Flow call no st (ev :: evs) st' := by
  have htakens : takenChunks call no (ev :: evs) = takenChunks call no evs :=
    List.filterMap_cons_none htaken
  have hgivens : givenChunks call no (ev :: evs) = givenChunks call no evs :=
    List.filterMap_cons_none hgiven
  cases h with
  | kept hchunks hended hfinished ht hg =>
      exact .kept hchunks (fun h => (hended h).imp_right (List.mem_cons_of_mem _)) hfinished
        (htakens.trans ht) (hgivens.trans hg)
  | taken chunk hopen hroom hchunks hended ht hg =>
      exact .taken chunk hopen hroom hchunks hended (htakens.trans ht) (hgivens.trans hg)
  | given chunk hchunks hended hfinished ht hg =>
      exact .given chunk hchunks hended hfinished (htakens.trans ht) (hgivens.trans hg)
  | gaveUp hchunks hended hfinished hgave ht hg =>
      rcases hgave with ⟨ev', hmem, hgives⟩
      exact .gaveUp hchunks hended hfinished ⟨ev', List.mem_cons_of_mem _ hmem, hgives⟩
        (htakens.trans ht) (hgivens.trans hg)

theorem Flow.same (htaken : takenChunks call no evs = [])
    (hgiven : givenChunks call no evs = []) : Flow call no st evs st :=
  .kept rfl Or.inl id htaken hgiven

theorem Flow.waker (waker : Option Waker) (h : Flow call no st evs st') :
    Flow call no st evs { st' with claimWaker := waker } := by
  cases h with
  | kept hchunks hended hfinished ht hg => exact .kept hchunks hended hfinished ht hg
  | taken chunk hopen hroom hchunks hended ht hg =>
      exact .taken chunk hopen hroom hchunks hended ht hg
  | given chunk hchunks hended hfinished ht hg =>
      exact .given chunk hchunks hended hfinished ht hg
  | gaveUp hchunks hended hfinished hgave ht hg =>
      exact .gaveUp hchunks hended hfinished hgave ht hg

/-! ### The streams of an entry -/

namespace CallEntry

theorem fresh_chunks (k : CallEntry) (no : StreamNo) : (k.fresh no).chunks = [] := by
  unfold fresh
  cases (k.parametersReleased && no != REPLY_STREAM) <;> rfl

theorem fresh_ended (k : CallEntry) (no : StreamNo) : (k.fresh no).ended = false := by
  unfold fresh
  cases (k.parametersReleased && no != REPLY_STREAM) <;> rfl

theorem finished_fresh (k : CallEntry) (no : StreamNo) :
    (k.fresh no).finished = (k.forgotten || (k.parametersReleased && no != REPLY_STREAM)) := by
  unfold fresh
  cases k.forgotten <;> cases (k.parametersReleased && no != REPLY_STREAM) <;> rfl

theorem stream_setStream_of_ne {no' : StreamNo} (k : CallEntry) (st : StreamState)
    (hne : no ≠ no') : (k.setStream no st).stream no' = k.stream no' := by
  rw [stream, getElem?_setStream, if_neg hne]
  rfl

theorem stream_name (k : CallEntry) (no no' : StreamNo) :
    (k.name no).stream no' = k.stream no' := by
  by_cases hno : no = no'
  · subst hno
    exact stream_setStream k no _
  · exact stream_setStream_of_ne k _ hno

end CallEntry

theorem Flow.ofEntry (f : StreamState → StreamState)
    (hget : k'.streams[no]? = k.streams[no]?.map f)
    (hnamed : ∀ st, Flow call no st evs (f st))
    (hfresh : Flow call no (k.fresh no) evs (k'.fresh no)) :
    Flow call no (k.stream no) evs (k'.stream no) := by
  rw [CallEntry.stream, CallEntry.stream, hget]
  cases k.streams[no]? with
  | none => exact hfresh
  | some st => exact hnamed st

/-- A stream that nothing named stays empty, and takes no more once it took
    no more. -/
theorem Flow.fresh (hforgotten : k.forgotten = true → k'.forgotten = true)
    (hreleased : k.parametersReleased = true → k'.parametersReleased = true)
    (htaken : takenChunks call no evs = []) (hgiven : givenChunks call no evs = []) :
    Flow call no (k.fresh no) evs (k'.fresh no) := by
  refine .kept ?_ ?_ ?_ htaken hgiven
  · rw [k.fresh_chunks, k'.fresh_chunks]
  · intro h
    rw [k'.fresh_ended] at h
    cases h
  · rw [k.finished_fresh, k'.finished_fresh, Bool.or_eq_true, Bool.or_eq_true, Bool.and_eq_true,
      Bool.and_eq_true]
    exact fun h => h.imp hforgotten (And.imp_left hreleased)

theorem Flow.release (hno : no ≠ REPLY_STREAM)
    (hreleased : k'.parametersReleased = true)
    (hget : k'.streams[no]? = k.streams[no]?.map
      (fun st => { st.release with claimWaker := none }))
    (hgave : ∃ ev ∈ evs, ev.givesUp call no)
    (htaken : takenChunks call no evs = []) (hgiven : givenChunks call no evs = []) :
    Flow call no (k.stream no) evs (k'.stream no) := by
  refine .ofEntry _ hget (fun st => ?_) ?_
  · exact .gaveUp rfl rfl st.finished_release hgave htaken hgiven
  · refine .gaveUp (k'.fresh_chunks no) ?_ ?_ hgave htaken hgiven
    · rw [k.fresh_ended, k'.fresh_ended]
    · rw [k'.finished_fresh, hreleased, Bool.true_and, bne_iff_ne.mpr hno, Bool.or_true]

/-! ### Moves -/

theorem Change.flow {side : Side} (h : Change call no side st evs st') :
    Flow call no st evs st' := by
  cases h with
  | pull chunk rest hside hchunks =>
      exact .given chunk hchunks rfl id rfl (List.filterMap_cons_some (if_pos ⟨rfl, rfl⟩))
  | push chunk hside hopen hroom =>
      exact .taken chunk (st.finished_of_closed side hopen) hroom rfl rfl
        (List.filterMap_cons_some (if_pos ⟨rfl, rfl⟩)) rfl
  | finish hside hopen =>
      refine .kept rfl (fun _ => Or.inr (List.mem_singleton_self _)) (fun _ => ?_) rfl rfl
      simp only [StreamState.finished, Bool.true_or]
  | stop error drained hopen =>
      have hstopped : (st.ended || (some (error, side)).isSome) = true := by
        rw [Option.isSome_some, Bool.or_true]
      by_cases hreceiver : Side.producer no ≠ side
      · simp only [if_pos hreceiver]
        exact .gaveUp rfl rfl hstopped ⟨_, List.mem_singleton_self _, rfl, rfl⟩ rfl rfl
      · simp only [if_neg hreceiver]
        exact .kept rfl Or.inl (fun _ => hstopped) rfl rfl

theorem Change.other {side : Side} {call' : Nat} {no' : StreamNo}
    (h : Change call no side st evs st') (hne : ¬ (call = call' ∧ no = no')) :
    takenChunks call' no' evs = [] ∧ givenChunks call' no' evs = [] := by
  cases h with
  | pull => exact ⟨rfl, List.filterMap_cons_none (if_neg hne)⟩
  | push => exact ⟨List.filterMap_cons_none (if_neg hne), rfl⟩
  | finish => exact ⟨rfl, rfl⟩
  | stop =>
      split
      · exact ⟨rfl, rfl⟩
      · exact ⟨rfl, rfl⟩

theorem Tidy.flow (h : Tidy call no st evs st') : Flow call no st evs st' := by
  cases h with
  | clear drained hclosed =>
      exact .gaveUp rfl rfl hclosed ⟨_, List.mem_singleton_self _, rfl, rfl⟩ rfl rfl
  | drain hclosed hempty => exact .kept rfl Or.inl id rfl rfl

theorem Tidy.dataless (h : Tidy call no st evs st') (call' : Nat) (no' : StreamNo) :
    takenChunks call' no' evs = [] ∧ givenChunks call' no' evs = [] := by
  cases h <;> exact ⟨rfl, rfl⟩

theorem Edit.flow (h : Edit k e ws evs k' e') (no : StreamNo) :
    Flow k.sent no (k.stream no) evs (k'.stream no) := by
  cases h with
  | name n =>
      rw [k.stream_name]
      exact .same rfl rfl
  | use => exact .same rfl rfl
  | change n side evs st hcaller hused h =>
      refine Flow.cons rfl rfl ?_
      by_cases hn : n = no
      · subst hn
        cases side with
        | caller =>
            simp only [handOver, CallEntry.stream_setStream]
            exact h.flow.waker none
        | provider =>
            simp only [handOver, CallEntry.stream_setStream]
            exact h.flow
      · rcases h.other (fun heq : k.sent = k.sent ∧ n = no => hn heq.2) with ⟨ht, hg⟩
        cases side <;>
        · simp only [handOver, k.stream_setStream_of_ne _ hn]
          exact .same ht hg
  | tidy n evs st h =>
      refine Flow.cons rfl rfl ?_
      by_cases hn : n = no
      · subst hn
        rw [CallEntry.stream_setStream]
        exact h.flow
      · rw [k.stream_setStream_of_ne _ hn]
        exact .same (h.dataless _ _).1 (h.dataless _ _).2
  | interrupt hk =>
      refine .ofEntry _ (k.getElem?_interrupted no) (fun st => ?_) (.fresh id id rfl rfl)
      refine .kept rfl Or.inl (fun hfinished => ?_) rfl rfl
      show (st.ended || _) = true
      rw [hfinished, if_pos rfl]
      exact hfinished
  | mark hs hq =>
      have hnone : takenChunks k.sent no (if k.forgotten then [] else [.acts .caller k.sent]) = [] ∧
          givenChunks k.sent no (if k.forgotten then [] else [.acts .caller k.sent]) = [] := by
        split <;> exact ⟨rfl, rfl⟩
      exact .ofEntry id (Option.map_id_fun.symm ▸ rfl) (fun _ => .same hnone.1 hnone.2)
        (.fresh (fun _ => rfl) id hnone.1 hnone.2)
  | deferInFlight hk hs hq =>
      exact .ofEntry id (Option.map_id_fun.symm ▸ rfl) (fun _ => .same rfl rfl)
        (.fresh (fun _ => rfl) id rfl rfl)
  | deferSettled o hk hs hq =>
      exact .ofEntry id (Option.map_id_fun.symm ▸ rfl) (fun _ => .same rfl rfl)
        (.fresh (fun _ => rfl) id rfl rfl)
  | quiet =>
      exact .ofEntry _ (k.getElem?_takeClaimWakers no) (fun st => .waker none (.same rfl rfl))
        (.fresh id id rfl rfl)
  | close o hs =>
      have hnone : ∀ rest : List Event, rest = [] ∨ rest = [.orphaned k.correlation] →
          takenChunks k.sent no ([.acts .provider k.sent, .abandoned k.sent] ++ rest) = [] ∧
            givenChunks k.sent no ([.acts .provider k.sent, .abandoned k.sent] ++ rest) = [] := by
        rintro rest (rfl | rfl) <;> exact ⟨rfl, rfl⟩
      rcases hnone (if k.pendingForget then [.orphaned k.correlation] else [])
        (by split <;> simp only [true_or, or_true]) with ⟨ht, hg⟩
      have hget := Store.getElem?_closedEntry k no
      by_cases hno : no = REPLY_STREAM
      · refine .ofEntry _ hget (fun st => ?_) ?_
        · simp only [hno, ne_eq, not_true_eq_false, if_false] at ht hg ⊢
          exact .waker none (.same ht hg)
        · exact .fresh id (fun _ => rfl) ht hg
      · simp only [hno, ne_eq, not_false_eq_true, if_true] at hget
        exact .release hno rfl hget ⟨.abandoned k.sent,
          List.mem_append_left _ (List.mem_cons_of_mem _ (List.mem_singleton_self _)), rfl, hno⟩
          ht hg
  | waitOutcome => exact .same rfl rfl
  | waitStream => exact .same rfl rfl
  | waitClaimStream n w hk hopen =>
      by_cases hn : n = no
      · subst hn
        rw [CallEntry.stream_setStream]
        exact .waker _ (.same rfl rfl)
      · rw [k.stream_setStream_of_ne _ hn]
        exact .same rfl rfl

theorem Edit.other (h : Edit k e ws evs k' e') (hne : k.sent ≠ call) (no : StreamNo) :
    takenChunks call no evs = [] ∧ givenChunks call no evs = [] := by
  cases h with
  | change n side evs st hcaller hused h => exact h.other fun heq => hne heq.1
  | tidy n evs st h => exact h.dataless call no
  | mark => split <;> exact ⟨rfl, rfl⟩
  | close => split <;> exact ⟨rfl, rfl⟩
  | _ => exact ⟨rfl, rfl⟩

theorem Verdict.dataless {handler : Nat} {o : Outcome} (h : Verdict handler k o ws evs k')
    (call : Nat) (no : StreamNo) : takenChunks call no evs = [] ∧ givenChunks call no evs = [] := by
  cases h with
  | settled outcome => split <;> split <;> exact ⟨rfl, rfl⟩
  | interrupted hk => exact ⟨rfl, rfl⟩

theorem Flow.settled (outcome : Except CallError Bytes)
    (hended : ∀ reply, outcome = .ok reply → st.finished = false → .ended call no ∈ evs)
    (htaken : takenChunks call no evs = []) (hgiven : givenChunks call no evs = []) :
    Flow call no st evs (st.settled outcome) := by
  unfold StreamState.settled
  cases hfinished : st.finished with
  | true => exact .same htaken hgiven
  | false =>
      rw [if_neg Bool.false_ne_true]
      cases outcome with
      | ok reply =>
          refine .kept rfl (fun _ => Or.inr (hended reply rfl hfinished)) (fun h => ?_) htaken
            hgiven
          rw [hfinished] at h
          cases h
      | error error =>
          refine .kept rfl Or.inl (fun h => ?_) htaken hgiven
          rw [hfinished] at h
          cases h

theorem Verdict.flow {handler : Nat} {o : Outcome} (h : Verdict handler k o ws evs k')
    (no : StreamNo) : Flow k.sent no (k.stream no) evs (k'.stream no) := by
  rcases h.dataless k.sent no with ⟨ht, hg⟩
  cases h with
  | settled outcome =>
      have hget := Store.getElem?_settledEntry k handler outcome no
      by_cases hreply : REPLY_STREAM = no
      · subst hreply
        rw [if_pos rfl] at hget
        rw [CallEntry.stream_of_getElem? _ _ _ hget]
        refine .settled outcome (fun reply hok hfinished => ?_) ht hg
        subst hok
        rw [hfinished]
        exact List.mem_append_left _ (List.mem_cons_of_mem _ (List.mem_singleton_self _))
      · rw [if_neg hreply] at hget
        by_cases hreleases : Store.releases k outcome = true
        · rw [if_pos hreleases] at hget
          refine .release (Ne.symm hreply) ?_ hget ⟨.released k.sent, ?_, rfl, Ne.symm hreply⟩ ht hg
          · rw [Store.settledEntry_released, hreleases, Bool.or_true]
          · rw [if_pos hreleases]
            exact List.mem_append_right _ (List.mem_singleton_self _)
        · rw [if_neg hreleases] at hget
          refine .ofEntry id (hget.trans (Option.map_id_fun.symm ▸ rfl)) (fun _ => .same ht hg)
            (.fresh ?_ ?_ ht hg)
          · rw [Store.settledEntry_forgotten]
            exact id
          · rw [Store.settledEntry_released, Bool.or_eq_true]
            exact Or.inl
  | interrupted hk =>
      have hget := Store.getElem?_interruptedEntry k no
      by_cases hreply : REPLY_STREAM = no
      · subst hreply
        rw [if_pos rfl] at hget
        rw [CallEntry.stream_of_getElem? _ _ _ hget]
        exact .waker none (.settled _ (fun reply hok => nomatch hok) ht hg)
      · rw [if_neg hreply] at hget
        exact .release (Ne.symm hreply) rfl hget
          ⟨.abandoned k.sent, List.mem_singleton_self _, rfl, Ne.symm hreply⟩ ht hg

/-! ### The store -/

/-- What the events did to stream `no` of `call` in the store: each state of the
    stream flowed from one before, or is a new call's. Where chunks moved, the
    call is kept. -/
structure Streams (call : Nat) (no : StreamNo) (s : Store) (evs : List Event) (t : Store) :
    Prop where
  stream : ∀ (i : Nat) (k' : CallEntry), t.calls[i]? = some k' → k'.sent = call →
    (∃ k, s.calls[i]? = some k ∧ k.sent = call ∧ Flow call no (k.stream no) evs (k'.stream no)) ∨
      s.nextSent ≤ call ∧ k'.stream no = StreamState.empty
  moved : takenChunks call no evs ≠ [] ∨ givenChunks call no evs ≠ [] →
    ∃ (i : Nat) (k k' : CallEntry), s.calls[i]? = some k ∧ k.sent = call ∧
      t.calls[i]? = some k' ∧ k'.sent = call ∧ Flow call no (k.stream no) evs (k'.stream no)

/-- The streams of the other calls stay when one call is changed. -/
theorem streams_update {s t : Store} {i : Nat} (ha : Accounts s) (hat : s.At i k e)
    (hcalls : t.calls = s.calls.insert i k') (hsent : k'.sent = k.sent)
    (hflow : Flow k.sent no (k.stream no) evs (k'.stream no))
    (hother : k.sent ≠ call → takenChunks call no evs = [] ∧ givenChunks call no evs = []) :
    Streams call no s evs t := by
  have hself : t.calls[i]? = some k' := by rw [hcalls, OrdMap.getElem?_insert_self]
  by_cases hcall : k.sent = call
  · subst hcall
    refine ⟨fun j l hl hlsent => Or.inl ?_, fun _ => ⟨i, k, k', hat.1, rfl, hself, hsent, hflow⟩⟩
    rw [hcalls, OrdMap.getElem?_insert] at hl
    by_cases hij : i = j
    · subst hij
      rw [if_pos rfl, Option.some.injEq] at hl
      exact ⟨k, hat.1, rfl, hl ▸ hflow⟩
    · -- No two calls have one place in send order.
      rw [if_neg hij] at hl
      rcases ha.exists_at hl with ⟨f, hatj⟩
      exact absurd (ha.balanced.sentInj i j _ _ (Store.line_of_at hat) (Store.line_of_at hatj)
        hlsent.symm) hij
  · rcases hother hcall with ⟨ht, hg⟩
    refine ⟨fun j l hl hlsent => Or.inl ?_, fun h => ?_⟩
    · rw [hcalls, OrdMap.getElem?_insert] at hl
      by_cases hij : i = j
      · rw [if_pos hij, Option.some.injEq] at hl
        exact absurd (hsent.symm.trans ((congrArg CallEntry.sent hl).trans hlsent)) hcall
      · rw [if_neg hij] at hl
        exact ⟨l, hl, hlsent, .same ht hg⟩
    · rcases h with h | h
      · exact absurd ht h
      · exact absurd hg h

theorem streams_of_calls {s t : Store} (hcalls : ∀ (j : Nat) (l : CallEntry),
      t.calls[j]? = some l → s.calls[j]? = some l)
    (ht : takenChunks call no evs = []) (hg : givenChunks call no evs = []) :
    Streams call no s evs t :=
  ⟨fun j l hl hlsent => Or.inl ⟨l, hcalls j l hl, hlsent, .same ht hg⟩,
    fun h => h.elim (absurd ht) (absurd hg)⟩

/-- What happens to the store is a flow of each stream it keeps. -/
theorem Move.streams {s t : Store} (h : Move s ws evs t) (ha : Accounts s) (call : Nat)
    (no : StreamNo) : Streams call no s evs t := by
  cases h with
  | outside t ws closed ho =>
      have hnone : takenChunks call no (closed.toList.map .closed) = [] ∧
          givenChunks call no (closed.toList.map .closed) = [] := by
        cases closed <;> exact ⟨rfl, rfl⟩
      exact streams_of_calls (fun j l hl => ho.calls ▸ hl) hnone.1 hnone.2
  | edit i k k' e e' ws evs hat he =>
      exact streams_update ha hat rfl he.same.1.sent (he.flow no) fun hne => he.other hne no
  | send i e k ws he hfree hk hsent hnew hws =>
      refine ⟨fun j l hl hlsent => ?_, fun h => h.elim (absurd rfl) (absurd rfl)⟩
      rw [OrdMap.getElem?_insert] at hl
      by_cases hij : i = j
      · rw [if_pos hij, Option.some.injEq] at hl
        subst hl
        refine Or.inr ⟨Nat.le_of_eq (hsent.symm.trans hlsent), ?_⟩
        rcases hnew with ⟨hforgotten, -, -, hstreams, -, hreleased, -⟩
        rw [CallEntry.stream, hstreams, Std.ExtTreeMap.getElem?_empty, Option.getD_none,
          CallEntry.fresh, hforgotten, hreleased]
        rfl
      · rw [if_neg hij] at hl
        exact Or.inl ⟨l, hl, hlsent, .same rfl rfl⟩
  | present i k e id handler taken hat hwait hid =>
      exact streams_update ha hat rfl rfl (.same rfl rfl) fun _ => ⟨rfl, rfl⟩
  | record i k k' e o id owner ws evs hat hs hid hclaim h =>
      exact streams_update ha hat rfl h.same.sent (.cons rfl rfl (.cons rfl rfl (h.flow no)))
        fun _ => h.dataless call no
  | unoffer => exact streams_of_calls (fun _ _ hl => hl) rfl rfl
  | giveBack => exact streams_of_calls (fun _ _ hl => hl) rfl rfl
  | drop i k e ws evs hat hwaker hstreams hclaims hslots hevs =>
      have hnone : takenChunks call no evs = [] ∧ givenChunks call no evs = [] := by
        rw [hevs]
        cases s.heldClaim k <;> exact ⟨rfl, rfl⟩
      exact streams_of_calls (fun j l hl => OrdMap.getElem?_of_erase _ _ _ _ hl) hnone.1 hnone.2

end Loopback

end Ridl
