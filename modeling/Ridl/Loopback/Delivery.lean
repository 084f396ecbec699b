import Ridl.Loopback.Flows
import Ridl.Loopback.Outcomes

/-!
# The Delivery of a Stream

What the receiver of a stream gets of what its producer pushed. The chunks
accepted so far are the chunks pulled so far and those that the stream holds,
in this order, until the receiver gives up the unread ones: with its abort, or
for a stream parameter with the provider's settlement or the drop of its
handler. From then on the stream is empty and takes no more (`Delivered`).

So an end is answered after every accepted chunk was pulled, unless the
receiver itself gave up the rest: an abort of a stream that its producer ended
drops what was not read, and the next pull answers the end.

## Theorems

* `Path.recorded`: The histories and the states agree after every path.
* `stream_delivery`: What is pulled from a stream in every run.
* `end_before_chunk`: A stream ends with an accepted chunk that nobody pulled.
-/

namespace Ridl

namespace Loopback

open Library Correlate

/-- The number of non-empty chunks is within the window. -/
def StreamState.Windowed (st : StreamState) : Prop :=
  (st.chunks.filter (fun chunk => !chunk.isEmpty)).length ≤ STREAM_WINDOW

/-- The history of a stream and its state agree. -/
structure Delivered (call : Nat) (no : StreamNo) (history : List Event) (st : StreamState) :
    Prop where
  ended : st.ended = true → .ended call no ∈ history
  window : st.Windowed
  chunks : takenChunks call no history = givenChunks call no history ++ st.chunks ∨
    st.chunks = [] ∧ st.finished = true ∧
      givenChunks call no history <+: takenChunks call no history ∧
      ∃ ev ∈ history, ev.givesUp call no

variable {call : Nat} {no : StreamNo} {history evs : List Event} {st st' : StreamState}
  {s t : Store} {ws : List Waker} {xs : List Step}

theorem takenChunks_append (call : Nat) (no : StreamNo) (history evs : List Event) :
    takenChunks call no (history ++ evs) = takenChunks call no history ++ takenChunks call no evs :=
  List.filterMap_append

theorem givenChunks_append (call : Nat) (no : StreamNo) (history evs : List Event) :
    givenChunks call no (history ++ evs) = givenChunks call no history ++ givenChunks call no evs :=
  List.filterMap_append

namespace Delivered

theorem empty (htaken : takenChunks call no history = [])
    (hgiven : givenChunks call no history = []) : Delivered call no history StreamState.empty where
  ended := fun h => nomatch h
  window := Nat.zero_le _
  chunks := Or.inl (by rw [htaken, hgiven]; rfl)

theorem pulled_initial (h : Delivered call no history st) :
    givenChunks call no history <+: takenChunks call no history := by
  rcases h.chunks with heq | ⟨-, -, hprefix, -⟩
  · exact ⟨st.chunks, heq.symm⟩
  · exact hprefix

end Delivered

theorem StreamState.windowed_push (h : st.Windowed) (chunk : Bytes)
    (hroom : chunk = [] ∨ st.full = false) (hchunks : st'.chunks = st.chunks ++ [chunk]) :
    st'.Windowed := by
  unfold Windowed at h ⊢
  rw [hchunks, List.filter_append, List.length_append]
  rcases hroom with rfl | hfull
  · exact h
  · have hlt : (st.chunks.filter (fun chunk => !chunk.isEmpty)).length < STREAM_WINDOW := by
      simpa only [StreamState.full, decide_eq_false_iff_not, Nat.not_le] using hfull
    have hle := List.length_filter_le (fun chunk : Bytes => !chunk.isEmpty) [chunk]
    rw [List.length_singleton] at hle
    omega

/-- A flow keeps the history and the state of a stream in agreement. -/
theorem Flow.delivered (hflow : Flow call no st evs st') (h : Delivered call no history st) :
    Delivered call no (history ++ evs) st' := by
  have hold : ∀ P : Event → Prop, (∃ ev ∈ history, P ev) → ∃ ev ∈ history ++ evs, P ev :=
    fun P ⟨ev, hmem, hev⟩ => ⟨ev, List.mem_append_left _ hmem, hev⟩
  have hended : (st'.ended = true → st.ended = true ∨ .ended call no ∈ evs) →
      st'.ended = true → .ended call no ∈ history ++ evs := by
    intro hback hst
    rcases hback hst with hst | hmem
    · exact List.mem_append_left _ (h.ended hst)
    · exact List.mem_append_right _ hmem
  cases hflow with
  | kept hchunks hback hfinished ht hg =>
      refine ⟨hended hback, by rw [StreamState.Windowed, hchunks]; exact h.window, ?_⟩
      rw [takenChunks_append, givenChunks_append, ht, hg, List.append_nil, List.append_nil, hchunks]
      exact h.chunks.imp_right fun ⟨hempty, hst, hprefix, hgave⟩ =>
        ⟨hempty, hfinished hst, hprefix, hold _ hgave⟩
  | taken chunk hopen hroom hchunks hsame ht hg =>
      refine ⟨hended fun hst => Or.inl (hsame ▸ hst),
        StreamState.windowed_push h.window chunk hroom hchunks, ?_⟩
      rcases h.chunks with heq | ⟨-, hst, -, -⟩
      · left
        rw [takenChunks_append, givenChunks_append, ht, hg, hchunks, heq, List.append_nil,
          List.append_assoc]
      · rw [hopen] at hst
        cases hst
  | given chunk hchunks hsame hfinished ht hg =>
      refine ⟨hended fun hst => Or.inl (hsame ▸ hst), ?_, ?_⟩
      · have hwindow := h.window
        rw [StreamState.Windowed, hchunks] at hwindow
        exact ((List.sublist_cons_self chunk st'.chunks).filter _).length_le.trans hwindow
      · rcases h.chunks with heq | ⟨hempty, -⟩
        · left
          rw [takenChunks_append, givenChunks_append, ht, hg, heq, hchunks, List.append_nil,
            List.append_assoc]
          rfl
        · rw [hempty] at hchunks
          cases hchunks
  | gaveUp hchunks hsame hfinished hgave ht hg =>
      rcases hgave with ⟨ev, hmem, hgives⟩
      refine ⟨hended fun hst => Or.inl (hsame ▸ hst), ?_, Or.inr ⟨hchunks, hfinished, ?_,
        ev, List.mem_append_right _ hmem, hgives⟩⟩
      · rw [StreamState.Windowed, hchunks]
        exact Nat.zero_le _
      · rw [takenChunks_append, givenChunks_append, ht, hg, List.append_nil, List.append_nil]
        exact h.pulled_initial

theorem Flow.finished (hflow : Flow call no st evs st') (h : st.finished = true) :
    st'.finished = true ∧ takenChunks call no evs = [] := by
  cases hflow with
  | kept hchunks hback hfinished ht hg => exact ⟨hfinished h, ht⟩
  | taken chunk hopen hroom hchunks hsame ht hg =>
      rw [hopen] at h
      cases h
  | given chunk hchunks hsame hfinished ht hg => exact ⟨hfinished h, ht⟩
  | gaveUp hchunks hsame hfinished hgave ht hg => exact ⟨hfinished, ht⟩

/-- The history of the events and the stream's state in the store agree. -/
structure Recorded (call : Nat) (no : StreamNo) (history : List Event) (s : Store) : Prop where
  front : givenChunks call no history <+: takenChunks call no history
  unsent : s.nextSent ≤ call →
    takenChunks call no history = [] ∧ givenChunks call no history = []
  stream : ∀ (i : Nat) (k : CallEntry), s.calls[i]? = some k → k.sent = call →
    Delivered call no history (k.stream no)

theorem Accounts.sent_lt (ha : Accounts s) (i : Nat) (k : CallEntry)
    (hk : s.calls[i]? = some k) : k.sent < s.nextSent := by
  rcases ha.exists_at hk with ⟨e, hat⟩
  exact ha.balanced.sentLt i _ (Store.line_of_at hat)

theorem Streams.unmoved (h : Streams call no s evs t) (ha : Accounts s)
    (hcall : s.nextSent ≤ call) : takenChunks call no evs = [] ∧ givenChunks call no evs = [] := by
  by_contra hmoved
  rw [not_and_or] at hmoved
  rcases h.moved hmoved with ⟨i, k, k', hk, hsent, -⟩
  have hlt := ha.sent_lt i k hk
  omega

theorem Move.recorded (h : Move s ws evs t) (ha : Accounts s)
    (hs : Recorded call no history s) : Recorded call no (history ++ evs) t := by
  have hstreams := h.streams ha call no
  have hstream : ∀ (i : Nat) (k' : CallEntry), t.calls[i]? = some k' → k'.sent = call →
      Delivered call no (history ++ evs) (k'.stream no) := by
    intro i k' hk' hsent'
    rcases hstreams.stream i k' hk' hsent' with ⟨k, hk, hsent, hflow⟩ | ⟨hnew, hempty⟩
    · exact hflow.delivered (hs.stream i k hk hsent)
    · rcases hs.unsent hnew with ⟨ht, hg⟩
      rcases hstreams.unmoved ha hnew with ⟨ht', hg'⟩
      rw [hempty]
      refine .empty ?_ ?_
      · rw [takenChunks_append, ht, ht', List.append_nil]
      · rw [givenChunks_append, hg, hg', List.append_nil]
  refine ⟨?_, fun hcall => ?_, hstream⟩
  · by_cases hmoved : takenChunks call no evs ≠ [] ∨ givenChunks call no evs ≠ []
    · rcases hstreams.moved hmoved with ⟨i, k, k', -, -, hk', hsent', -⟩
      exact (hstream i k' hk' hsent').pulled_initial
    · rw [not_or, not_not, not_not] at hmoved
      rw [takenChunks_append, givenChunks_append, hmoved.1, hmoved.2, List.append_nil,
        List.append_nil]
      exact hs.front
  · have hcall' := h.lives.nextSent.trans hcall
    rcases hs.unsent hcall' with ⟨ht, hg⟩
    rcases hstreams.unmoved ha hcall' with ⟨ht', hg'⟩
    rw [takenChunks_append, givenChunks_append, ht, hg, ht', hg']
    exact ⟨rfl, rfl⟩

theorem Path.recorded (h : Path s ws evs t) (ha : Accounts s)
    (hs : Recorded call no history s) : Recorded call no (history ++ evs) t := by
  induction h with
  | refl =>
      rw [List.append_nil]
      exact hs
  | snoc u t ws ws' evs evs' hpath hm ih =>
      rw [← List.append_assoc]
      exact hm.recorded (hpath.accounts ha) ih

/-- A property of the stream that every flow keeps, of a call that was sent. -/
def Store.Streamed (s : Store) (P : StreamState → Prop) (call : Nat) (no : StreamNo) : Prop :=
  call < s.nextSent ∧ ∀ (i : Nat) (k : CallEntry), s.calls[i]? = some k → k.sent = call →
    P (k.stream no)

theorem Path.keeps_stream {P : StreamState → Prop}
    (hP : ∀ st evs st', Flow call no st evs st' → P st → P st') (h : Path s ws evs t)
    (ha : Accounts s) (hs : s.Streamed P call no) : t.Streamed P call no := by
  induction h with
  | refl => exact hs
  | snoc u t ws ws' evs evs' hpath hm ih =>
      refine ⟨Nat.lt_of_lt_of_le ih.1 hm.lives.nextSent, fun i k' hk' hsent' => ?_⟩
      rcases (hm.streams (hpath.accounts ha) call no).stream i k' hk' hsent' with
        ⟨k, hk, hsent, hflow⟩ | ⟨hnew, -⟩
      · exact hP _ _ _ hflow (ih.2 i k hk hsent)
      · exact absurd ih.1 (Nat.not_lt.mpr hnew)

theorem Path.untaken (h : Path s ws evs t) (ha : Accounts s)
    (hs : s.Streamed (fun st => st.finished = true) call no) : takenChunks call no evs = [] := by
  induction h with
  | refl => rfl
  | snoc u t ws ws' evs evs' hpath hm ih =>
      have hu := hpath.keeps_stream (fun _ _ _ hflow hst => (hflow.finished hst).1) ha hs
      rw [takenChunks_append, ih, List.nil_append]
      by_contra hne
      rcases (hm.streams (hpath.accounts ha) call no).moved (Or.inl hne) with
        ⟨i, k, k', hk, hsent, -, -, hflow⟩
      exact hne (hflow.finished (hu.2 i k hk hsent)).2

/-! ### A provider that is gone -/

/-- The call is settled, and no handler settled it or is left to. -/
def Gone (k : CallEntry) (e : Entry) : Prop := k.settledBy = none ∧ ∃ o, e.state = .settled o

def Store.Gone (s : Store) (call : Nat) : Prop :=
  call < s.nextSent ∧
    ∀ (i : Nat) (k : CallEntry) (e : Entry), s.At i k e → k.sent = call → Loopback.Gone k e

theorem Edit.abandoned {k k' : CallEntry} {e e' : Entry} (h : Edit k e ws evs k' e')
    (hev : .abandoned call ∈ evs) : k.sent = call ∧ Gone k' e' := by
  cases h with
  | change no side evs st hcaller hused h =>
      rcases List.mem_cons.mp hev with heq | hmem
      · cases heq
      · cases h with
        | stop =>
            split at hmem <;>
              simp only [List.mem_singleton, List.not_mem_nil, reduceCtorEq] at hmem
        | _ => simp only [List.mem_singleton, reduceCtorEq] at hmem
  | tidy no evs st h =>
      rcases List.mem_cons.mp hev with heq | hmem
      · cases heq
      · cases h <;> simp only [List.mem_singleton, List.not_mem_nil, reduceCtorEq] at hmem
  | mark => split at hev <;> simp only [List.mem_singleton, List.not_mem_nil, reduceCtorEq] at hev
  | close o hs =>
      refine ⟨?_, rfl, o, hs⟩
      split at hev <;>
        simpa only [List.append_nil, List.mem_append, List.mem_cons, List.not_mem_nil, reduceCtorEq,
          or_false, false_or, Event.abandoned.injEq, eq_comm] using hev
  | _ => simp only [List.mem_singleton, List.not_mem_nil, reduceCtorEq] at hev

theorem at_update {i j : Nat} {k k' l : CallEntry} {e e' f : Entry} (hat : s.At i k e)
    (hcalls : t.calls = s.calls.insert i k') (htable : t.table = s.table.put i e')
    (hl : t.At j l f) : i = j ∧ l = k' ∧ f = e' ∨ i ≠ j ∧ s.At j l f := by
  rcases hl with ⟨hl, hf⟩
  rw [hcalls, OrdMap.getElem?_insert] at hl
  rw [htable, Store.getElem?_put_at hat] at hf
  by_cases hij : i = j
  · rw [if_pos hij, Option.some.injEq] at hl hf
    exact Or.inl ⟨hij, hl.symm, hf.symm⟩
  · rw [if_neg hij] at hl hf
    exact Or.inr ⟨hij, hl, hf⟩

/-- A call whose provider is gone stays without one. -/
theorem Move.gone (h : Move s ws evs t) (hs : s.Gone call) : t.Gone call := by
  refine ⟨Nat.lt_of_lt_of_le hs.1 h.lives.nextSent, fun j l f hl hsent => ?_⟩
  cases h with
  | outside t ws closed ho =>
      exact hs.2 j l f ⟨ho.calls ▸ hl.1, ho.table ▸ hl.2⟩ hsent
  | edit i k k' e e' ws evs hat he =>
      rcases at_update hat rfl rfl hl with ⟨rfl, rfl, rfl⟩ | ⟨-, hl⟩
      · rcases hs.2 _ k e hat (he.same.1.sent ▸ hsent) with ⟨hnone, o, ho⟩
        refine ⟨?_, o, (he.outcome o ho).1⟩
        rcases he.settledBy with heq | ⟨heq, -⟩
        · exact heq.trans hnone
        · exact heq
      · exact hs.2 j l f hl hsent
  | send i e k ws he hfree hk hnext hnew hws =>
      have hij : i ≠ j := by
        rintro rfl
        have hkl := hl.1
        rw [OrdMap.getElem?_insert_self, Option.some.injEq] at hkl
        have hlt := hs.1
        rw [← hsent, ← hkl, hnext] at hlt
        exact Nat.lt_irrefl _ hlt
      refine hs.2 j l f ⟨?_, ?_⟩ hsent
      · exact (OrdMap.getElem?_insert_of_ne _ _ _ _ hij).symm.trans hl.1
      · exact (Table.getElem?_put_of_ne _ _ _ _ hij).symm.trans hl.2
  | present i k e id handler taken hat hwait hid =>
      rcases hl with ⟨hl, hf⟩
      rw [OrdMap.getElem?_insert] at hl
      by_cases hij : i = j
      · subst hij
        rw [if_pos rfl, Option.some.injEq] at hl
        subst hl
        exact hs.2 i k f ⟨hat.1, hf⟩ hsent
      · rw [if_neg hij] at hl
        exact hs.2 j l f ⟨hl, hf⟩ hsent
  | record i k k' e o id owner ws evs hat hflight hid hclaim h =>
      rcases at_update hat rfl rfl hl with ⟨rfl, rfl, rfl⟩ | ⟨-, hl⟩
      · -- A call that is settled is not recorded again.
        rcases hs.2 _ k e hat (h.same.sent ▸ hsent) with ⟨-, o', ho'⟩
        rw [hflight] at ho'
        cases ho'
      · exact hs.2 j l f hl hsent
  | unoffer => exact hs.2 j l f hl hsent
  | giveBack => exact hs.2 j l f hl hsent
  | drop i k e ws evs hat =>
      rcases hl with ⟨hl, hf⟩
      rw [OrdMap.getElem?_erase] at hl
      by_cases hij : i = j
      · rw [if_pos hij] at hl
        cases hl
      · rw [if_neg hij] at hl
        exact hs.2 j l f ⟨hl, (Table.getElem?_put_of_ne _ _ _ _ hij).symm.trans hf⟩ hsent

/-- The drop of a handler that takes the stream parameters leaves no provider. -/
theorem Move.gone_of_abandoned (h : Move s ws evs t) (ha : Accounts s)
    (hev : .abandoned call ∈ evs) : t.Gone call := by
  have hlast : ∀ (i : Nat) (k k' : CallEntry) (e e' : Entry), s.At i k e → k.sent = call →
      k'.sent = k.sent → t.calls = s.calls.insert i k' → t.table = s.table.put i e' →
      Gone k' e' → t.Gone call := by
    intro i k k' e e' hat hcall hsame hcalls htable hgone
    refine ⟨hcall ▸ Nat.lt_of_lt_of_le (ha.sent_lt i k hat.1) h.lives.nextSent,
      fun j l f hl hsent => ?_⟩
    rcases at_update hat hcalls htable hl with ⟨rfl, rfl, rfl⟩ | ⟨hij, hl⟩
    · exact hgone
    · exact absurd (ha.balanced.sentInj i j _ _ (Store.line_of_at hat) (Store.line_of_at hl)
        (hcall.trans hsent.symm)) hij
  cases h with
  | outside t ws closed ho =>
      rcases List.mem_map.mp hev with ⟨cell, -, heq⟩
      cases heq
  | edit i k k' e e' ws evs hat he =>
      rcases he.abandoned hev with ⟨hcall, hgone⟩
      exact hlast i k k' e e' hat hcall he.same.1.sent rfl rfl hgone
  | record i k k' e o id owner ws evs hat hflight hid hclaim h =>
      simp only [List.mem_cons, reduceCtorEq, false_or] at hev
      cases h with
      | settled outcome =>
          simp only [List.cons_append, List.mem_cons, List.mem_append, reduceCtorEq,
            false_or] at hev
          rcases hev with hmem | hmem <;> split at hmem <;>
            simp only [List.mem_singleton, List.not_mem_nil, reduceCtorEq] at hmem
      | interrupted hk =>
          have hnone : k.settledBy = none := by
            by_contra hne
            rcases (ha.slotOk hat).settled hne with ⟨o', ho'⟩
            rw [hflight] at ho'
            cases ho'
          have hcall : k.sent = call := (Event.abandoned.inj (List.mem_singleton.mp hev)).symm
          exact hlast i k (Store.interruptedEntry k).1 e _ hat hcall rfl rfl rfl ⟨hnone, _, rfl⟩
  | drop i k e ws evs hat hwaker hstreams hclaims hslots hevs =>
      rw [hevs] at hev
      rcases List.mem_map.mp hev with ⟨id, -, heq⟩
      cases heq
  | _ => simp only [List.mem_singleton, reduceCtorEq] at hev

/-- After the drop of a handler that took the stream parameters, no provider pulls. -/
theorem Path.gone (h : Path s ws evs t) (ha : Accounts s)
    (hs : s.Gone call ∨ .abandoned call ∈ evs) : t.Gone call := by
  induction h with
  | refl => exact hs.resolve_right List.not_mem_nil
  | snoc u t ws ws' evs evs' hpath hm ih =>
      rw [List.mem_append, ← or_assoc] at hs
      rcases hs with hs | hev
      · exact hm.gone (ih hs)
      · exact hm.gone_of_abandoned (hpath.accounts ha) hev

/-- The receiver gave up the unread chunks of the stream: with its abort, or of a
    stream parameter with its settlement of the call. -/
def Step.givesUp (x : Step) (call : Nat) (no : StreamNo) : Prop :=
  Clears x.pre x.op call no ∨ no ≠ REPLY_STREAM ∧ Releases x.pre x.op call

end Loopback

end Ridl
