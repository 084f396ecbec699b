import Ridl.Ws.Traffic
import Mathlib.Logic.Relation

/-!
# The Size Limit of a Message

A message that is read in fragments never grows above the limit, so what is
left of the limit is a subtraction that does not underflow. The frame that
would take it above the limit is answered from its length field, before its
payload is there.

Together with the two earlier modules this is what the server relies on: the
events do not depend on how the stream was cut, well-formed traffic gives its
events, the limit is exact, and after an error or a close there is nothing.

## Main definitions

* `Parser.Fragments`: The parser takes fragments.
* `Parser.Within`: The open message keeps to the limit.

## Theorems

* `header_tooBig_iff`: When a header is answered by the size limit.
* `Parser.run_within`: Every reachable parser keeps to the limit.
* `Parser.next_tooBig_iff`: When an event is the size limit's.
* `Parser.reads_client_stream`: The parser reads what the client sent.
-/

namespace Ridl

namespace Ws

open Library

/-- The bytes begin with a data frame that may stand here, and its length field
    is `n`. -/
structure DataHead (message : Option Bytes) (buf : Bytes) (n : Nat) : Prop where
  head : ∃ b0 b1, Lead buf b0 b1 ∧ b0 &&& 0x70 = 0 ∧ b1 &&& 0x80 ≠ 0 ∧
    (b0 &&& 0x0F = if message.isSome then OP_CONTINUATION else OP_BINARY) ∧
    ∃ w, (lengthField (b1 &&& 0x7F) buf).run = some (.ok (n, w))
  short : n < 2 ^ 63

theorem shiftRight_eq_zero_iff (n : Nat) : n >>> 63 = 0 ↔ n < 2 ^ 63 := by
  rw [Nat.shiftRight_eq_div_pow, Nat.div_eq_zero_iff_lt (by decide)]

/-! ## The checks of a header -/

variable {message : Option Bytes} {opcode : UInt8} {maxMessageBytes : Nat} {buf : Bytes}
  {h : Header}

theorem refusal_data {fin : Bool} {len7 : UInt8} (hdata : isControl opcode = false) :
    refusal message fin opcode len7 = none ↔
      opcode = if message.isSome then OP_CONTINUATION else OP_BINARY := by
  unfold refusal
  rw [hdata, if_neg Bool.false_ne_true]
  cases message with
  | none =>
      by_cases htext : opcode = OP_TEXT
      · subst htext
        decide
      · by_cases hbinary : opcode = OP_BINARY
        · subst hbinary
          decide
        · simp [htext, hbinary]
  | some m =>
      by_cases hcontinuation : opcode = OP_CONTINUATION
      · simp [hcontinuation]
      · simp [hcontinuation]

theorem refusal_ne_tooBig (message : Option Bytes) (fin : Bool) (opcode len7 : UInt8) :
    refusal message fin opcode len7 ≠ some .TOO_BIG := by
  unfold refusal
  split_ifs
  all_goals decide

theorem sizeCheck_error {n : Nat} {fault : Fault} (hwithin : openBytes message ≤ maxMessageBytes)
    (h : (sizeCheck maxMessageBytes message opcode n).run = some (.error fault)) :
    fault = .close .TOO_BIG ∧ isControl opcode = false ∧
      maxMessageBytes < openBytes message + n := by
  unfold sizeCheck at h
  split_ifs at h with hcontrol hunder hbig
  · cases h
  · omega
  · cases h
    exact ⟨rfl, Bool.eq_false_iff.mpr hcontrol, by omega⟩
  · cases h

theorem sizeCheck_ok {n : Nat}
    (h : (sizeCheck maxMessageBytes message opcode n).run = some (.ok ())) :
    isControl opcode = true ∨ openBytes message + n ≤ maxMessageBytes := by
  unfold sizeCheck at h
  split_ifs at h with hcontrol hunder hbig
  · exact .inl hcontrol
  · cases h
  · cases h
  · exact .inr (by omega)

theorem header_tooBig_iff (hwithin : openBytes message ≤ maxMessageBytes) :
    (header maxMessageBytes message buf).run = some (.error (.close .TOO_BIG)) ↔
      ∃ n, DataHead message buf n ∧ maxMessageBytes < openBytes message + n := by
  constructor
  · intro h
    rcases header_reads h with ⟨b0, b1, hlead, hreads⟩
    generalize hr : (Except.error (.close .TOO_BIG) : Except Fault Header) = r at hreads
    cases hreads with
    | unmasked => exact absurd (Except.error.inj hr) (by decide)
    | refused hcode =>
        cases hr
        exact absurd hcode (refusal_ne_tooBig _ _ _ _)
    | overlong => exact absurd (Except.error.inj hr) (by decide)
    | oversized hpass hlen hn hsize =>
        rename_i n w fault
        rcases sizeCheck_error hwithin hsize with ⟨-, hdata, hbig⟩
        exact ⟨n, ⟨⟨b0, b1, hlead, hpass.unreserved, hpass.masked,
          (refusal_data hdata).mp hpass.admissible, w, hlen⟩,
          (shiftRight_eq_zero_iff n).mp hn⟩, hbig⟩
    | whole => cases hr
  · rintro ⟨n, ⟨⟨b0, b1, hlead, hbits, hmasked, hopcode, w, hlen⟩, hshort⟩, hbig⟩
    have hdata : isControl (b0 &&& 0x0F) = false := by
      rw [hopcode]
      cases message with
      | none => rfl
      | some m => rfl
    have hpass : Passes message b0 b1 := ⟨hbits, hmasked, (refusal_data hdata).mpr hopcode⟩
    have hsize : (sizeCheck maxMessageBytes message (b0 &&& 0x0F) n).run =
        some (.error (.close .TOO_BIG)) := by
      rw [sizeCheck, hdata, if_neg Bool.false_ne_true, if_neg (by omega), if_pos (by omega)]
      rfl
    rw [header_of_passes maxMessageBytes hlead hpass hlen ((shiftRight_eq_zero_iff n).mpr hshort),
      exceptT_bind_error hsize]

theorem header_ne_underflow (hwithin : openBytes message ≤ maxMessageBytes) :
    (header maxMessageBytes message buf).run ≠ some (.error .underflow) := by
  intro h
  rcases header_reads h with ⟨b0, b1, hlead, hreads⟩
  generalize hr : (Except.error .underflow : Except Fault Header) = r at hreads
  cases hreads with
  | unmasked => exact absurd (Except.error.inj hr) (by decide)
  | refused => exact absurd hr (by intro heq; cases heq)
  | overlong => exact absurd (Except.error.inj hr) (by decide)
  | oversized hpass hlen hn hsize =>
      cases hr
      exact absurd (sizeCheck_error hwithin hsize).1 (by decide)
  | whole => cases hr

theorem header_ok (hread : (header maxMessageBytes message buf).run = some (.ok h)) :
    isControl h.opcode = true ∨
      (h.opcode = if message.isSome then OP_CONTINUATION else OP_BINARY) ∧
        openBytes message + h.payloadLen ≤ maxMessageBytes := by
  rcases header_reads hread with ⟨b0, b1, hlead, hreads⟩
  generalize hr : (Except.ok h : Except Fault Header) = r at hreads
  cases hreads with
  | unmasked => cases hr
  | refused => cases hr
  | overlong => cases hr
  | oversized => cases hr
  | whole hpass hlen hn hsize hmask =>
      cases hr
      by_cases hcontrol : isControl (b0 &&& 0x0F) = true
      · exact .inl hcontrol
      · have hdata := Bool.eq_false_iff.mpr hcontrol
        exact .inr ⟨(refusal_data hdata).mp hpass.admissible,
          (sizeCheck_ok hsize).resolve_left hcontrol⟩

/-! ## The limit through a run -/

theorem deliver_ok_or_protocol {payload : Bytes}
    {fault : Fault} (hanswer : (deliver message h payload).1 = some (.error fault)) :
    fault = .close .PROTOCOL := by
  unfold deliver at hanswer
  split_ifs at hanswer
  all_goals try cases hanswer
  have hclose : closeEvent payload = .error fault := Option.some.inj hanswer
  unfold closeEvent at hclose
  split at hclose
  · cases hclose
  · cases hclose
    rfl
  · dsimp only at hclose
    split_ifs at hclose
    cases hclose
    rfl

/-- A delivered frame leaves an open message within the limit. -/
theorem deliver_within {payload : Bytes} (hwithin : openBytes message ≤ maxMessageBytes)
    (hread : (header maxMessageBytes message buf).run = some (.ok h))
    (hlen : payload.length = h.payloadLen) :
    openBytes (deliver message h payload).2 ≤ maxMessageBytes := by
  have hok := header_ok hread
  unfold deliver
  split_ifs with hping hpong hclose hbinary hfin hfin
  · exact hwithin
  · exact hwithin
  · exact hwithin
  · exact hwithin
  · rcases hok with hcontrol | ⟨-, hsize⟩
    · rw [hbinary] at hcontrol
      cases hcontrol
    · change payload.length ≤ maxMessageBytes
      omega
  · exact Nat.zero_le _
  · rcases hok with hcontrol | ⟨-, hsize⟩
    · unfold isControl at hcontrol
      simp [hping, hpong, hclose] at hcontrol
    · change (message.getD [] ++ payload).length ≤ maxMessageBytes
      cases message with
      | none =>
          change payload.length ≤ maxMessageBytes
          omega
      | some m =>
          rw [Option.getD_some, List.length_append, hlen]
          exact hsize

namespace Parser

/-- The open message keeps to the limit. -/
def Within (p : Parser) : Prop := openBytes p.message ≤ p.maxMessageBytes

variable {p q : Parser}

theorem turn_within (h : p.Within) : p.turn.2.Within := by
  unfold turn
  split
  · exact h
  · exact h
  · rename_i head hread
    split_ifs with hfit
    · refine deliver_within h hread ?_
      rw [length_unmask, List.length_drop, length_slice _ _ _ hfit, Header.total]
      omega
    · exact h

theorem turn_max (p : Parser) : p.turn.2.maxMessageBytes = p.maxMessageBytes := by
  unfold turn
  split
  · rfl
  · rfl
  · split_ifs
    · rfl
    · rfl

/-- One turn after the other takes a fragment. -/
def Fragments : Parser → Parser → Prop :=
  Relation.ReflTransGen fun p q => p.turn = (none, q)

theorem step_cases (p : Parser) : ∃ q, Fragments p q ∧ q.turn = (some p.step.1, p.step.2) := by
  induction hn : p.unread.length using Nat.strongRecOn generalizing p with
  | ind n ih =>
      unfold step
      split
      · rename_i answer p' h
        exact ⟨p, .refl, h⟩
      · rename_i p' h
        rcases ih _ (hn ▸ turn_shorter h) p' rfl with ⟨q, hq, hturn⟩
        exact ⟨q, .head h hq, hturn⟩

theorem step_of_turn {answer : Option (Except Fault Event)}
    (h : p.turn = (some answer, q)) : p.step = (answer, q) := by
  unfold step
  split
  · rename_i h'
    rw [h] at h'
    cases h'
    rfl
  · rename_i h'
    rw [h] at h'
    cases h'

theorem step_of_fragment (h : p.turn = (none, q)) : p.step = q.step := by
  conv => lhs; unfold step
  split
  · rename_i h'
    rw [h] at h'
    cases h'
  · rename_i h'
    rw [h] at h'
    cases h'
    rfl

theorem Fragments.step_eq (h : Fragments p q) : p.step = q.step := by
  induction h with
  | refl => rfl
  | tail _ hturn ih => rw [ih, step_of_fragment hturn]

theorem Fragments.within (h : Fragments p q) (hp : p.Within) :
    q.Within ∧ q.maxMessageBytes = p.maxMessageBytes := by
  induction h with
  | refl => exact ⟨hp, rfl⟩
  | @tail b c _ hturn ih =>
      have hwithin := turn_within ih.1
      have hmax := b.turn_max
      rw [hturn] at hwithin hmax
      exact ⟨hwithin, hmax.trans ih.2⟩

theorem step_within (h : p.Within) :
    p.step.2.Within ∧ p.step.2.maxMessageBytes = p.maxMessageBytes := by
  rcases p.step_cases with ⟨q, hq, hturn⟩
  have hwithin := turn_within (hq.within h).1
  have hmax := q.turn_max
  rw [hturn] at hwithin hmax
  exact ⟨hwithin, hmax.trans (hq.within h).2⟩

theorem turn_error {fault : Fault} (h : p.turn = (some (some (.error fault)), q))
    (hne : fault ≠ .close .PROTOCOL) :
    (header p.maxMessageBytes p.message p.unread).run = some (.error fault) := by
  unfold turn at h
  split at h
  · cases h
  · rename_i fault' hread
    cases h
    exact hread
  · split_ifs at h
    · have hanswer := congrArg Prod.fst h
      dsimp only at hanswer
      rcases Option.map_eq_some_iff.mp hanswer with ⟨r, hr, heq⟩
      cases heq
      exact absurd (deliver_ok_or_protocol hr) hne
    · cases h

/-! ## The operations -/

theorem next_of_live (h : p.finished = false) : p.next.1 = p.step.1 := by
  rw [next, if_neg (Bool.eq_false_iff.mp h)]
  dsimp only
  split_ifs
  · rfl
  · rfl

theorem next_of_finished (h : p.finished = true) : p.next = (none, p) := if_pos h

/-- The answer is the size limit's when the fragments that are there, and the
    length field of the next data frame, are above the limit. -/
theorem next_tooBig_iff (h : p.Within) :
    p.next.1 = some (.error (.close .TOO_BIG)) ↔
      p.finished = false ∧ ∃ q, Fragments p q ∧ ∃ n, DataHead q.message q.unread n ∧
        p.maxMessageBytes < openBytes q.message + n := by
  constructor
  · intro hnext
    by_cases hdone : p.finished = true
    · rw [next_of_finished hdone] at hnext
      cases hnext
    · have hlive := Bool.eq_false_iff.mpr hdone
      rw [next_of_live hlive] at hnext
      rcases p.step_cases with ⟨q, hq, hturn⟩
      rw [hnext] at hturn
      have hread := turn_error hturn (by decide)
      rw [(hq.within h).2] at hread
      have hwithin : openBytes q.message ≤ p.maxMessageBytes := by
        rw [← (hq.within h).2]
        exact (hq.within h).1
      exact ⟨hlive, q, hq, (header_tooBig_iff hwithin).mp hread⟩
  · rintro ⟨hlive, q, hq, hhead⟩
    have hwithin : openBytes q.message ≤ p.maxMessageBytes := by
      rw [← (hq.within h).2]
      exact (hq.within h).1
    have hread := (header_tooBig_iff hwithin).mpr hhead
    rw [← (hq.within h).2] at hread
    have hturn : q.turn = (some (some (.error (.close .TOO_BIG))), q) := by
      rw [turn, hread]
    rw [next_of_live hlive, hq.step_eq, step_of_turn hturn]

theorem next_ne_underflow (h : p.Within) : p.next.1 ≠ some (.error .underflow) := by
  intro hnext
  by_cases hdone : p.finished = true
  · rw [next_of_finished hdone] at hnext
    cases hnext
  · rw [next_of_live (Bool.eq_false_iff.mpr hdone)] at hnext
    rcases p.step_cases with ⟨q, hq, hturn⟩
    rw [hnext] at hturn
    exact header_ne_underflow (hq.within h).1 (turn_error hturn (by decide))

theorem feed_within (input : Bytes) (h : p.Within) :
    (p.feed input).Within ∧ (p.feed input).maxMessageBytes = p.maxMessageBytes := by
  unfold feed
  split_ifs
  · exact ⟨h, rfl⟩
  · exact ⟨h, rfl⟩

theorem next_within (h : p.Within) :
    p.next.2.Within ∧ p.next.2.maxMessageBytes = p.maxMessageBytes := by
  by_cases hdone : p.finished = true
  · rw [next_of_finished hdone]
    exact ⟨h, rfl⟩
  · rw [next, if_neg hdone]
    dsimp only
    split_ifs
    · exact ⟨Nat.zero_le _, (step_within h).2⟩
    · exact step_within h

theorem calls_within (n : Nat) (h : p.Within) :
    (polled.calls n p).2.Within ∧ (polled.calls n p).2.maxMessageBytes = p.maxMessageBytes := by
  induction n generalizing p with
  | zero => exact ⟨h, rfl⟩
  | succ n ih =>
      have hnext := next_within h
      exact ⟨(ih hnext.1).1, (ih hnext.1).2.trans hnext.2⟩

theorem run_within (schedule : List (Bytes × Nat)) (h : p.Within) :
    (polled.run schedule p).2.Within ∧
      (polled.run schedule p).2.maxMessageBytes = p.maxMessageBytes := by
  induction schedule generalizing p with
  | nil => exact ⟨h, rfl⟩
  | cons piece rest ih =>
      have hfeed := feed_within piece.1 h
      have hcalls := calls_within piece.2 hfeed.1
      exact ⟨(ih hcalls.1).1, (ih hcalls.1).2.trans (hcalls.2.trans hfeed.2)⟩

/-- **The parser reads what the client sent.** The cuts of the stream and the
    number of questions do not matter; well-formed traffic gives its events;
    the size limit is exact and its subtraction does not underflow; and after
    an error or a close there is no other answer. -/
theorem reads_client_stream (maxMessageBytes : Nat) :
    (∀ schedule : List (Bytes × Nat),
      (polled.run schedule (new maxMessageBytes)).1 ++
          polled.drain (polled.run schedule (new maxMessageBytes)).2 =
        polled.drain ((new maxMessageBytes).feed (Polled.stream schedule))) ∧
    (∀ t : Traffic, t.Fits maxMessageBytes →
      polled.drain ((new maxMessageBytes).feed t.bytes) = t.events.map .ok) ∧
    (∀ schedule : List (Bytes × Nat),
      let p := (polled.run schedule (new maxMessageBytes)).2
      openBytes p.message ≤ maxMessageBytes ∧ p.next.1 ≠ some (.error .underflow) ∧
      (p.next.1 = some (.error (.close .TOO_BIG)) ↔
        p.finished = false ∧ ∃ q, Fragments p q ∧ ∃ n, DataHead q.message q.unread n ∧
          maxMessageBytes < openBytes q.message + n)) ∧
    ∀ schedule : List (Bytes × Nat),
      let p := (polled.run schedule (new maxMessageBytes)).2
      ∀ r, p.next.1 = some r → ((∃ fault, r = .error fault) ∨ ∃ code, r = .ok (.close code)) →
        ∀ later : List (Bytes × Nat), polled.run later p.next.2 = ([], p.next.2) := by
  have hnew : (new maxMessageBytes).Within := Nat.zero_le _
  refine ⟨fun schedule => polled.run_drain schedule _, fun t ht => ?_, fun schedule => ?_,
    fun schedule r hr hlast later => ?_⟩
  · rw [Polled.drain_eq_future, ← Traffic.answers_bytes ht]
    change clientFrames.answers (maxMessageBytes, none) (([] ++ t.bytes) ++ []) = _
    rw [List.append_nil, List.nil_append]
  · have hrun := run_within schedule hnew
    have hmax : (polled.run schedule (new maxMessageBytes)).2.maxMessageBytes = maxMessageBytes :=
      hrun.2
    have hwithin := hrun.1
    have htooBig := next_tooBig_iff hrun.1
    rw [Within, hmax] at hwithin
    rw [hmax] at htooBig
    exact ⟨hwithin, next_ne_underflow hrun.1, htooBig⟩
  · refine run_finished (next_finished hr ?_) later
    rcases hlast with ⟨fault, rfl⟩ | ⟨code, rfl⟩
    · rfl
    · rfl

end Parser

end Ws

end Ridl
