import Ridl.Ws.Parser

/-!
# Frames in Pieces

The parser as an implementation of an incremental reader. One turn of the
reader takes a frame from the front of the unread bytes: its checks look at the
front only, so a turn finds again what it found when more bytes stand behind.
The parser's lazy buffer, its loop over fragments and its end are then tied to
the reader, which gives that neither the cuts of the stream nor the number of
questions matters.

## Main definitions

* `Parser.polled`: The parser as an implementation of it.

## Theorems

* `header_steady`: A header that was read is read with more bytes behind.
* `Parser.future_step`: What a step answers and what is left to answer.
-/

namespace Ridl

namespace Ws

open Library

/-! ## Steadiness -/

variable {l : Bytes}

theorem range?_append {more b : Bytes} {i n : Nat} (h : range? l i n = some b) :
    range? (l ++ more) i n = some b := by
  unfold range? at h ⊢
  by_cases hfit : i + n ≤ l.length
  · rw [if_pos hfit] at h
    rw [if_pos (by rw [List.length_append]; omega), slice_append_left l more i n hfit]
    exact h
  · rw [if_neg hfit] at h
    cases h

theorem range?_steady (i n : Nat) : Steady fun l : Bytes => (liftM (range? l i n) : Asked Bytes) :=
  .lift fun _ _ _ h => range?_append h

theorem byte_steady (i : Nat) :
    Steady fun l : Bytes => (liftM (l[i]? : Option UInt8) : Asked UInt8) := by
  refine .lift fun l more b h => ?_
  rw [List.getElem?_append_left (List.getElem?_eq_some_iff.mp h).1]
  exact h

theorem lengthField_steady (len7 : UInt8) : Steady (lengthField len7) := by
  unfold lengthField
  refine .ite (.bind (range?_steady 2 2) fun b => .const _) (.ite ?_ (.const _))
  exact .bind (range?_steady 2 8) fun b => .const _

theorem header_steady (maxMessageBytes : Nat) (message : Option Bytes) :
    Steady (header maxMessageBytes message) := by
  unfold header
  refine .bind (byte_steady 0) fun b0 => .bind (byte_steady 1) fun b1 => .ite (.const _) ?_
  cases refusal message (b0 &&& 0x80 ≠ 0 : Bool) (b0 &&& 0x0F) (b1 &&& 0x7F) with
  | some code => exact .const _
  | none =>
      refine .bind (lengthField_steady _) fun field => .ite (.const _) ?_
      exact .bind (.const _) fun _ => .bind (range?_steady _ 4) fun mask => .const _

/-! ## The reader -/

/-- Takes the frame at the front. -/
def frameTurn (s : Nat × Option Bytes) (l : Bytes) :
    Option (Option (Except Fault Event) × Option ((Nat × Option Bytes) × Bytes)) :=
  match (header s.1 s.2 l).run with
  | none => none
  | some (.error fault) => some (some (.error fault), none)
  | some (.ok h) =>
    if h.total ≤ l.length then
      let (answer, message) := deliver s.2 h (unmask h.mask ((l.take h.total).drop h.headerLen))
      some (answer, if answer.any Parser.isLast then none else some ((s.1, message), l.drop h.total))
    else none

theorem frameTurn_of_header {maxMessageBytes : Nat} {message : Option Bytes}
    {h : Header} (hread : (header maxMessageBytes message l).run = some (.ok h))
    (hfit : h.total ≤ l.length) :
    frameTurn (maxMessageBytes, message) l =
      let r := deliver message h (unmask h.mask ((l.take h.total).drop h.headerLen))
      some (r.1, if r.1.any Parser.isLast then none
        else some ((maxMessageBytes, r.2), l.drop h.total)) := by
  unfold frameTurn
  rw [hread]
  exact if_pos hfit

theorem frameTurn_append {s : Nat × Option Bytes}
    {answer : Option (Except Fault Event)} {after : Option ((Nat × Option Bytes) × Bytes)}
    (more : Bytes) (h : frameTurn s l = some (answer, after)) :
    frameTurn s (l ++ more) = some (answer, after.map fun t => (t.1, t.2 ++ more)) := by
  unfold frameTurn at h ⊢
  cases hread : (header s.1 s.2 l).run with
  | none =>
      rw [hread] at h
      cases h
  | some r =>
      rw [header_steady s.1 s.2 l more r hread]
      rw [hread] at h
      cases r with
      | error fault =>
          cases h
          rfl
      | ok head =>
          dsimp only at h ⊢
          by_cases hfit : head.total ≤ l.length
          · rw [if_pos hfit] at h
            rw [if_pos (by rw [List.length_append]; omega), List.take_append_of_le_length hfit,
              List.drop_append_of_le_length hfit]
            cases h
            by_cases hlast : (deliver s.2 head (unmask head.mask
                ((l.take head.total).drop head.headerLen))).1.any Parser.isLast = true
            · rw [if_pos hlast, if_pos hlast]
              rfl
            · rw [if_neg hlast, if_neg hlast]
              rfl
          · rw [if_neg hfit] at h
            cases h

theorem frameTurn_shorter {s : Nat × Option Bytes}
    {answer : Option (Except Fault Event)} {s' : Nat × Option Bytes} {rest : Bytes}
    (h : frameTurn s l = some (answer, some (s', rest))) : rest.length < l.length := by
  unfold frameTurn at h
  split at h
  · cases h
  · cases h
  · rename_i head _
    dsimp only at h
    have hpos := head.nonempty
    by_cases hfit : head.total ≤ l.length
    · rw [if_pos hfit] at h
      have hafter := congrArg Prod.snd (Option.some.inj h)
      dsimp only at hafter
      split_ifs at hafter
      cases hafter
      rw [List.length_drop]
      unfold Header.total at *
      omega
    · rw [if_neg hfit] at h
      cases h

/-- The reader of a client's frames. Its state is the size limit and the open
    message. -/
def clientFrames : Reader (Nat × Option Bytes) UInt8 (Except Fault Event) where
  turn := frameTurn
  turn_append := frameTurn_append
  turn_shorter := frameTurn_shorter

/-! ## The parser implements the reader -/

namespace Parser

/-- Where a parser stands that has not ended. -/
def position (p : Parser) : (Nat × Option Bytes) × Bytes :=
  ((p.maxMessageBytes, p.message), p.unread)

def view (p : Parser) : Option ((Nat × Option Bytes) × Bytes) :=
  if p.finished then none else some p.position

/-- A turn of the loop is a turn of the reader. -/
theorem frameTurn_position (p : Parser) :
    frameTurn (p.maxMessageBytes, p.message) p.unread =
      match p.turn with
      | (some none, _) => none
      | (some (some r), p') => some (some r, if isLast r then none else some p'.position)
      | (none, p') => some (none, some p'.position) := by
  unfold frameTurn turn
  dsimp only
  cases hread : (header p.maxMessageBytes p.message p.unread).run with
  | none => rfl
  | some r =>
      cases r with
      | error fault => rfl
      | ok h =>
          have hlen : h.total ≤ p.unread.length ↔ p.pos + h.total ≤ p.buf.length := by
            have hbound := p.bound
            simp only [unread, List.length_drop]
            omega
          have hdrop : p.unread.drop h.total = p.buf.drop (p.pos + h.total) := List.drop_drop
          have htake : p.unread.take h.total = slice p.buf p.pos h.total := rfl
          dsimp only
          by_cases hfit : p.pos + h.total ≤ p.buf.length
          · rw [if_pos (hlen.mpr hfit), dif_pos hfit, hdrop, htake]
            rcases deliver p.message h (unmask h.mask
              ((slice p.buf p.pos h.total).drop h.headerLen)) with ⟨answer, message⟩
            cases answer with
            | none => rfl
            | some r => rfl
          · rw [if_neg (mt hlen.mp hfit), dif_neg hfit]

variable {p : Parser}

theorem turn_waits {p' : Parser} (h : p.turn = (some none, p')) : p' = p := by
  unfold turn at h
  split at h
  · exact (congrArg Prod.snd h).symm
  · exact (congrArg Prod.snd h).symm
  · split_ifs at h
    · have hanswer := congrArg Prod.fst h
      simp at hanswer
    · exact (congrArg Prod.snd h).symm

theorem turn_finished (p : Parser) : p.turn.2.finished = p.finished := by
  unfold turn
  split
  · rfl
  · rfl
  · split
    · rfl
    · rfl

theorem step_finished (p : Parser) : p.step.2.finished = p.finished := by
  induction hn : p.unread.length using Nat.strongRecOn generalizing p with
  | ind n ih =>
      have hturn := p.turn_finished
      unfold step
      split
      · rename_i h
        rw [h] at hturn
        exact hturn
      · rename_i p' h
        rw [h] at hturn
        rw [ih _ (hn ▸ turn_shorter h) p' rfl]
        exact hturn

theorem future_step (p : Parser) (more : Bytes) :
    clientFrames.future (some p.position) more = p.step.1.toList ++
      clientFrames.future (if p.step.1.any isLast then none else some p.step.2.position) more := by
  induction hn : p.unread.length using Nat.strongRecOn generalizing p with
  | ind n ih =>
      have hturn := p.frameTurn_position
      unfold step
      split
      · rename_i answer p' h
        rw [h] at hturn
        cases answer with
        | none =>
            rw [turn_waits h]
            rfl
        | some r => exact clientFrames.answers_turn hturn more
      · rename_i p' h
        rw [h] at hturn
        rw [← ih _ (hn ▸ turn_shorter h) p' rfl]
        exact clientFrames.answers_turn hturn more

/-- After a step without an answer no frame is there whole. -/
theorem step_none (h : p.step.1 = none) :
    frameTurn (p.step.2.maxMessageBytes, p.step.2.message) p.step.2.unread = none := by
  induction hn : p.unread.length using Nat.strongRecOn generalizing p with
  | ind n ih =>
      unfold step at h ⊢
      split
      · rename_i answer p' hturn
        have hanswer : answer = none := by
          split at h
          · rename_i hturn'
            rw [hturn] at hturn'
            cases hturn'
            exact h
          · rename_i hturn'
            rw [hturn] at hturn'
            cases hturn'
        subst hanswer
        rw [turn_waits hturn, frameTurn_position, hturn]
      · rename_i p' hturn
        refine ih _ (hn ▸ turn_shorter hturn) ?_ rfl
        split at h
        · rename_i hturn'
          rw [hturn] at hturn'
          cases hturn'
        · rename_i hturn'
          rw [hturn] at hturn'
          cases hturn'
          exact h

theorem view_of_live (h : p.finished = false) : p.view = some p.position := by
  rw [view, h]
  rfl

theorem view_of_finished (h : p.finished = true) : p.view = none := by
  rw [view, h]
  rfl

theorem view_feed (p : Parser) (input : Bytes) :
    (p.feed input).view = p.view.map fun t => (t.1, t.2 ++ input) := by
  by_cases h : p.finished = true
  · rw [feed, if_pos h, view_of_finished h]
    rfl
  · rw [feed, if_neg h, view_of_live (Bool.eq_false_iff.mpr h)]
    exact view_of_live (Bool.eq_false_iff.mpr h)

theorem future_next (p : Parser) (more : Bytes) :
    clientFrames.future p.view more = p.next.1.toList ++ clientFrames.future p.next.2.view more := by
  unfold next
  by_cases h : p.finished = true
  · rw [if_pos h]
    rfl
  · rw [if_neg h, view_of_live (Bool.eq_false_iff.mpr h), future_step]
    dsimp only
    by_cases hlast : p.step.1.any isLast = true
    · rw [if_pos hlast, if_pos hlast]
      rfl
    · have hlive := p.step_finished.trans (Bool.eq_false_iff.mpr h)
      rw [if_neg hlast, if_neg hlast, view_of_live hlive]

theorem next_none (h : p.next.1 = none) : clientFrames.future p.view [] = [] := by
  by_cases hdone : p.finished = true
  · rw [view_of_finished hdone]
    rfl
  · have hstep : p.step.1 = none := by
      rw [next, if_neg hdone] at h
      dsimp only at h
      split_ifs at h with hlast
      · rw [h] at hlast
        cases hlast
      · exact h
    rw [view_of_live (Bool.eq_false_iff.mpr hdone), future_step, hstep]
    change clientFrames.answers _ (p.step.2.unread ++ []) = []
    rw [List.append_nil]
    exact clientFrames.answers_of_none (step_none hstep)

/-- The parser as an implementation of the reader of frames. -/
def polled : Polled clientFrames Parser where
  feed := feed
  next := next
  view := view
  view_feed := view_feed
  future_next := future_next
  next_none := fun _ => next_none

theorem run_finished (h : p.finished = true) (schedule : List (Bytes × Nat)) :
    polled.run schedule p = ([], p) := by
  have hcalls : ∀ n, polled.calls n p = ([], p) := by
    intro n
    induction n with
    | zero => rfl
    | succ n ih =>
        have hnext : polled.next p = (none, p) := if_pos h
        rw [Polled.calls, hnext]
        dsimp only
        rw [ih]
        rfl
  induction schedule with
  | nil => rfl
  | cons piece rest ih =>
      have hfeed : polled.feed p piece.1 = p := if_pos h
      rw [Polled.run, hfeed, hcalls]
      dsimp only
      rw [ih]
      rfl

theorem next_finished {r : Except Fault Event} (h : p.next.1 = some r)
    (hlast : isLast r = true) : p.next.2.finished = true := by
  by_cases hdone : p.finished = true
  · rw [next, if_pos hdone] at h
    cases h
  · rw [next, if_neg hdone] at h ⊢
    dsimp only at h ⊢
    split_ifs at h ⊢ with hany
    · rfl
    · rw [h] at hany
      exact absurd hlast hany

end Parser

end Ws

end Ridl
