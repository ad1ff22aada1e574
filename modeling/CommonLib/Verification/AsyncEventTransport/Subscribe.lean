import CommonLib.Model.AsyncEventTransport
import CommonLib.Verification.AsyncTcp.Receive

/-! # The receive loop of a subscriber

Two layers: the dispatcher that `subscribe` installs, and the read loop that arms itself again
only when the dispatcher returns. -/

namespace CommonLib.AsyncEventTransport

open AsyncTcp AsyncTcp.Receiver

/-- A call of a user handler. -/
inductive Call
  | message (payload : Bytes)
  | subscribed
  deriving DecidableEq, Repr

/-- Whether the frame is one that makes `subscribe` call `onSubscribed`. -/
def IsAck (raw : Bytes) : Prop :=
  ∃ frame, Frame.parse raw = some frame ∧ frame.type = Frame.ACK

/-- The call that a frame is due: DATA to `onMessage`, ACK to `onSubscribed` where there is one. -/
def dueCall (supplied : Bool) (raw : Bytes) : Option Call :=
  match Frame.parse raw with
  | none => none
  | some frame =>
      if frame.type = Frame.ACK then if supplied then some .subscribed else none
      else if frame.type = Frame.DATA then some (.message frame.payload)
      else none

namespace UserHandlers

variable {σ : Type*} (u : UserHandlers σ)

def call (user : σ) : Call → σ
  | .message payload => u.onMessage user payload
  | .subscribed => (u.onSubscribed.getD id) user

/-- The calls that a sequence of frames is due, made one after the other. -/
def callAll (user : σ) (frames : List Bytes) : σ :=
  (frames.filterMap (dueCall u.onSubscribed.isSome)).foldl u.call user

/-! ## One frame -/

/-- The dispatcher returns unless it calls an empty handler, and then has made the call due. -/
theorem onReceive_returned {raw : Bytes} (hraw : 3 ≤ raw.length)
    (hack : u.onSubscribed.isSome ∨ ¬ IsAck raw) (user : σ) :
    u.onReceive user raw = ⟨u.callAll user [raw], .returned⟩ := by
  obtain ⟨frame, hframe⟩ := Frame.exists_parse hraw
  by_cases htype : frame.type = Frame.ACK
  · have hsupplied : u.onSubscribed.isSome :=
      hack.resolve_right fun h => h ⟨frame, hframe, htype⟩
    obtain ⟨onSubscribed, hon⟩ := Option.isSome_iff_exists.mp hsupplied
    simp [onReceive, callAll, dueCall, hframe, htype, hon, call]
  · by_cases hdata : frame.type = Frame.DATA
    · simp [onReceive, callAll, dueCall, hframe, hdata, call]
    · simp [onReceive, callAll, dueCall, hframe, htype, hdata]

theorem onReceive_threw {raw : Bytes} (hsupplied : u.onSubscribed = none) (hack : IsAck raw)
    (user : σ) : u.onReceive user raw = ⟨user, .threw⟩ := by
  obtain ⟨frame, hframe, htype⟩ := hack
  simp [onReceive, hframe, htype, hsupplied]

/-! ## Sequences of frames -/

theorem deliver_returned {frames : List Bytes} (hframes : ∀ raw ∈ frames, 3 ≤ raw.length)
    (hack : u.onSubscribed.isSome ∨ ∀ raw ∈ frames, ¬ IsAck raw) (user : σ) :
    u.handlers.deliver user frames = ⟨u.callAll user frames, .returned⟩ := by
  induction frames generalizing user with
  | nil => rfl
  | cons raw frames ih =>
      have hhead : u.handlers.onReceive user raw = ⟨u.callAll user [raw], .returned⟩ :=
        u.onReceive_returned (hframes raw List.mem_cons_self)
          (hack.imp_right fun h => h raw List.mem_cons_self) user
      rw [Handlers.deliver, hhead, if_pos rfl,
        ih (fun m hm => hframes m (List.mem_cons_of_mem _ hm))
          (hack.imp_right fun h m hm => h m (List.mem_cons_of_mem _ hm))]
      simp only [callAll, List.filterMap_cons, List.filterMap_nil]
      split <;> simp

/-- Without a handler for it, the first ACK ends the delivery. -/
theorem deliver_threw {frames : List Bytes} (hframes : ∀ raw ∈ frames, 3 ≤ raw.length)
    (hsupplied : u.onSubscribed = none) (hack : ∃ raw ∈ frames, IsAck raw) (user : σ) :
    (u.handlers.deliver user frames).exit ≠ .returned := by
  induction frames generalizing user with
  | nil =>
      obtain ⟨raw, hmem, -⟩ := hack
      cases hmem
  | cons raw frames ih =>
      by_cases hraw : IsAck raw
      · have hhead : u.handlers.onReceive user raw = ⟨user, .threw⟩ :=
          u.onReceive_threw hsupplied hraw user
        simp [Handlers.deliver, hhead]
      · have hhead : u.handlers.onReceive user raw = ⟨u.callAll user [raw], .returned⟩ :=
          u.onReceive_returned (hframes raw List.mem_cons_self) (.inr hraw) user
        rw [Handlers.deliver, hhead, if_pos rfl]
        refine ih (fun m hm => hframes m (List.mem_cons_of_mem _ hm)) ?_ _
        obtain ⟨m, hm, hmack⟩ := hack
        rcases List.mem_cons.mp hm with rfl | hm
        · exact absurd hmack hraw
        · exact ⟨m, hm, hmack⟩

/-! ## The loop -/

/-- The frames that arrive behind `subscribe` cause exactly the calls they are due and leave the
next read armed, if and only if `onSubscribed` was supplied or there is no ACK among them. -/
theorem subscribe_serves_iff (order : ByteOrder) (user : σ) (frames : List Bytes)
    (hframes : ∀ raw ∈ frames, 3 ≤ raw.length ∧ raw.length < 2 ^ 32) :
    (armed ⟨sendAll order frames, none⟩ user).drain order u.handlers =
        armed ⟨[], none⟩ (u.callAll user frames) ↔
      u.onSubscribed.isSome ∨ ∀ raw ∈ frames, ¬ IsAck raw := by
  have hlong : ∀ raw ∈ frames, 3 ≤ raw.length := fun raw hraw => (hframes raw hraw).1
  have hshort : ∀ raw ∈ frames, raw.length < 2 ^ 32 := fun raw hraw => (hframes raw hraw).2
  constructor
  · intro hdrain
    by_contra hnot
    rw [not_or, Option.not_isSome_iff_eq_none] at hnot
    obtain ⟨hsupplied, hack⟩ := hnot
    simp only [not_forall, not_not] at hack
    obtain ⟨raw, hmem, hraw⟩ := hack
    have hstopped := drain_sendAll_stopped order u.handlers [] none hshort
      (u.deliver_threw hlong hsupplied ⟨raw, hmem, hraw⟩ user)
    rw [List.append_nil, hdrain] at hstopped
    cases hstopped.1
  · intro hack
    have hdeliver := u.deliver_returned hlong hack user
    have hdrain := drain_sendAll order u.handlers [] none hshort
      (congrArg Outcome.exit hdeliver)
    rw [List.append_nil] at hdrain
    rw [hdrain, hdeliver]
    exact drain_open order u.handlers (.inl ⟨rfl, rfl⟩) (by simp)

/-- Handlers that keep a list of their calls. -/
def recorder (supplied : Bool) : UserHandlers (List Call) :=
  ⟨fun calls payload => calls ++ [.message payload],
    if supplied then some fun calls => calls ++ [.subscribed] else none⟩

/-- The usual exchange with a handler for the ACK. -/
theorem subscribe_serves_ack_data :
    (armed ⟨sendAll .little [Frame.make 5 Frame.ACK [], Frame.make 5 Frame.DATA [7]], none⟩
        []).drain .little (recorder true).handlers =
      armed ⟨[], none⟩ [.subscribed, .message [7]] :=
  ((recorder true).subscribe_serves_iff .little []
    [Frame.make 5 Frame.ACK [], Frame.make 5 Frame.DATA [7]] (by decide)).mpr (.inl rfl)

/-- With the default for `onSubscribed`, the ACK of the broker is the last frame that is looked
at: `onMessage` is not called for the event behind it. -/
theorem subscribe_default_stops :
    ((armed ⟨sendAll .little [Frame.make 5 Frame.ACK [], Frame.make 5 Frame.DATA [7]], none⟩
        []).drain .little (recorder false).handlers).phase = .stopped ∧
    ((armed ⟨sendAll .little [Frame.make 5 Frame.ACK [], Frame.make 5 Frame.DATA [7]], none⟩
        []).drain .little (recorder false).handlers).user = [] ∧
    (recorder false).callAll [] [Frame.make 5 Frame.ACK [], Frame.make 5 Frame.DATA [7]] =
      [.message [7]] := by
  decide +kernel

end UserHandlers

end CommonLib.AsyncEventTransport
