import Ridl.Frame.Agreement
import Ridl.Frame.RoundTrip
import Ridl.Ws.Limit

/-!
# Frames over the WebSocket

The way of a frame from the client to the server, through three codecs: the
client encodes it, the platform sends it as a message in fragments, and the
server puts the fragments together and decodes the message.

None of the three looks into another. The parser hands out payloads whatever
they hold (`messages_events`), and what one side's encoder wrote is the frame's
bytes on the other side too, so the frames that come out are those that went
in.

## Theorems

* `messages_events`: The events of traffic hand out its messages.
* `client_frames_arrive`: The server decodes the frames that the client sent.
-/

namespace Ridl

namespace Ws

open Library

/-- The messages among what a parser answered. -/
def messages : List (Except Fault Event) → List Bytes
  | [] => []
  | .ok (.binary message) :: answers => message :: messages answers
  | _ :: answers => messages answers

/-- The payloads of the whole messages. -/
def Traffic.payloads (t : Traffic) : List Bytes :=
  t.items.filterMap fun item => match item with
    | .control _ => none
    | .message m => some m.payload

theorem messages_append (front back : List (Except Fault Event)) :
    messages (front ++ back) = messages front ++ messages back := by
  induction front with
  | nil => rfl
  | cons answer front ih =>
      cases answer with
      | error fault => exact ih
      | ok event =>
          cases event with
          | binary message => exact congrArg (message :: ·) ih
          | _ => exact ih

theorem messages_controls (controls : List Control) :
    messages ((controls.map Control.event).map .ok) = [] := by
  induction controls with
  | nil => rfl
  | cons c controls ih =>
      cases hping : c.isPing <;>
        simp only [List.map_cons, Control.event, hping, if_true, Bool.false_eq_true, if_false,
          messages] <;>
        exact ih

theorem messages_controlEvents (m : Message) : messages (m.controlEvents.map .ok) = [] := by
  rw [Message.controlEvents]
  induction m.others with
  | nil => rfl
  | cons o others ih =>
      rw [List.flatMap_cons, List.map_append, messages_append, messages_controls, ih,
        List.append_nil]

theorem messages_items (items : List Item) :
    messages ((items.flatMap Item.events).map .ok) = Traffic.payloads ⟨items, none, none⟩ := by
  induction items with
  | nil => rfl
  | cons item items ih =>
      rw [List.flatMap_cons, List.map_append, messages_append, ih]
      cases item with
      | control c => rw [show Item.events (.control c) = [c].map Control.event from rfl,
          messages_controls]; rfl
      | message m =>
          rw [Item.events, List.map_append, messages_append, messages_controlEvents]
          rfl

theorem messages_events (t : Traffic) : messages (t.events.map .ok) = t.payloads := by
  have hclose : messages ((t.close.toList.map Close.event).map .ok) = [] := by
    cases t.close <;> rfl
  have hincomplete : messages (t.incompleteEvents.map .ok) = [] := by
    unfold Traffic.incompleteEvents
    cases t.incomplete with
    | none => rfl
    | some m =>
        change messages ((m.1.controlEvents ++ m.2.map Control.event).map .ok) = []
        rw [List.map_append, messages_append, messages_controlEvents, messages_controls]
        rfl
  rw [Traffic.events, List.map_append, List.map_append, messages_append, messages_append,
    messages_items, hclose, hincomplete, List.append_nil, List.append_nil]
  rfl

/-- The server decodes the frames that the client sent, in order and no others: whatever the
    fragments, the masks and the control frames in between, and however the network cuts the
    bytes. -/
theorem client_frames_arrive (maxMessageBytes : Nat) (frames : List (Ridl.Frame × Ts.Frame))
    (hviews : ∀ p ∈ frames, Wire.Shaped p.1 ∧ Ts.view p.1 = some p.2)
    (t : Traffic) (hfits : t.Fits maxMessageBytes)
    (hsent : t.payloads.map some = frames.map fun p => Ts.encode p.2 Ts.FRAME_VERSION_3)
    (schedule : List (Bytes × Nat)) (hstream : Polled.stream schedule = t.bytes) :
    (messages ((Parser.polled.run schedule (.new maxMessageBytes)).1 ++
        Parser.polled.drain (Parser.polled.run schedule (.new maxMessageBytes)).2)).map
          Wire.decode =
      frames.map fun p => .ok (Wire.untyped p.1) := by
  have hdrain : Parser.polled.drain (Parser.polled.feed (.new maxMessageBytes) t.bytes) =
      t.events.map .ok := by
    rw [Polled.drain_eq_future, ← Traffic.answers_bytes hfits]
    change clientFrames.answers (maxMessageBytes, none) (([] ++ t.bytes) ++ []) = _
    rw [List.append_nil, List.nil_append]
  have hpayloads : t.payloads = frames.map fun p => Wire.frameBytes p.1 := by
    refine (List.map_injective_iff.mpr (Option.some_injective Bytes)) (hsent.trans ?_)
    rw [List.map_map]
    exact List.map_congr_left fun p hp => Ts.encode_view (hviews p hp).2
  rw [Parser.polled.run_drain, hstream, hdrain, messages_events, hpayloads, List.map_map]
  exact List.map_congr_left fun p hp => Wire.decode_frameBytes p.1 (hviews p hp).1

/-- A subscription arrives in two fragments with a ping in between. -/
theorem client_frames_arrive_pinged :
    ∃ t : Traffic, t.events = [.ping [9], .binary [3, 1, 1, 0, 0, 0, 2, 0, 0, 0]] ∧
      (messages ((Parser.polled.run [(t.bytes, 3)] (.new 64)).1 ++
        Parser.polled.drain (Parser.polled.run [(t.bytes, 3)] (.new 64)).2)).map Wire.decode =
          [.ok (.subscribe ⟨.signal, 1, 2⟩)] := by
  have hfour : ([1, 2, 3, 4] : Bytes).length = 4 := rfl
  let t : Traffic := ⟨[.message ⟨⟨[3, 1, 1, 0], ⟨_, hfour⟩, .short, (by decide : 4 ≤ 125)⟩,
    [([⟨true, [9], ⟨_, hfour⟩, by decide⟩],
      ⟨[0, 0, 2, 0, 0, 0], ⟨_, hfour⟩, .medium, (by decide : 6 < 2 ^ 16)⟩)]⟩], none, none⟩
  have hfits : t.Fits 64 := by
    refine ⟨fun item hitem => ?_, fun m hm => absurd hm (Option.not_mem_none m)⟩
    rw [List.mem_singleton.mp hitem]
    exact (by decide : 10 ≤ 64)
  exact ⟨t, rfl, client_frames_arrive 64 [(.subscribe ⟨.signal, 1, 2⟩, .subscribe ⟨1, 1, 2⟩)]
    (List.forall_mem_singleton.mpr ⟨⟨by decide, by decide⟩, rfl⟩) t hfits rfl _
    (List.append_nil _)⟩

end Ws

end Ridl
