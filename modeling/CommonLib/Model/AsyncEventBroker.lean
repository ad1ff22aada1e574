import CommonLib.Library.Machine
import CommonLib.Model.AsyncTcp
import CommonLib.Model.Frame
import Mathlib.Data.List.AList

/-! The event broker of `AsyncEventBroker.cpp`: the topic registry, and one session for each
connected client. Registry operations are atomic under `_lock`; the fan-out of `route` holds it
shared, one send after the other, so that several sessions can be routing at a time. -/

namespace CommonLib.AsyncEventBroker

variable {ι : Type*}

/-! ## The registry -/

/-- `TopicRegistry::_sessions`. A weak pointer is the name of its session; whether it can be
locked is up to the life of that session. -/
structure TopicRegistry (ι : Type*) where
  sessions : AList fun _ : UInt16 => List ι

namespace TopicRegistry

def empty : TopicRegistry ι := ⟨∅⟩

/-- The entries of a topic, none when the map has no such key. -/
def entries (r : TopicRegistry ι) (topic : UInt16) : List ι :=
  (r.sessions.lookup topic).getD []

def regist (r : TopicRegistry ι) (topic : UInt16) (session : ι) : TopicRegistry ι :=
  ⟨r.sessions.insert topic (r.entries topic ++ [session])⟩

/-- The loop of `unregist` over the map: entries that `leaves` picks are erased from each list,
and a list that became empty is erased from the map. -/
def unregistLoop (leaves : ι → Bool) :
    List (Σ _ : UInt16, List ι) → List (Σ _ : UInt16, List ι)
  | [] => []
  | ⟨topic, sessions⟩ :: rest =>
      let kept := sessions.filter fun weak => !leaves weak
      if kept.isEmpty then unregistLoop leaves rest
      else ⟨topic, kept⟩ :: unregistLoop leaves rest

theorem keys_unregistLoop_sublist (leaves : ι → Bool) (l : List (Σ _ : UInt16, List ι)) :
    (unregistLoop leaves l).keys.Sublist l.keys := by
  induction l with
  | nil => exact .slnil
  | cons entry rest ih =>
      simp only [unregistLoop]
      split
      · exact ih.cons _
      · exact ih.cons_cons _

/-- `remove_if` picks the weak pointers that can be locked and lock to the given session. -/
def unregist [DecidableEq ι] (alive : ι → Bool) (r : TopicRegistry ι) (session : ι) :
    TopicRegistry ι :=
  let leaves := fun weak => alive weak && decide (weak = session)
  ⟨unregistLoop leaves r.sessions.entries,
    List.Nodup.sublist (keys_unregistLoop_sublist leaves _) r.sessions.nodupKeys⟩

end TopicRegistry

/-! ## Sessions -/

/-- Where a `ClientSession` stands. It handles its frames one at a time, in its receive loop. -/
inductive Session (ι : Type*)
  | absent
  /-- The next read is armed. -/
  | receiving
  /-- Registered under the topic; the ACK is still to be sent. -/
  | acking (topic : UInt16)
  /-- In the loop of `route`, with the shared lock: the sessions served and those to come. -/
  | routing (topic : UInt16) (payload : Bytes) (sentTo rest : List ι)
  /-- In the error handler, behind the call of `_onUnsubscribe`. -/
  | leaving
  /-- The receive loop has let go of the last reference. -/
  | expired
  deriving DecidableEq

/-- Whether a weak pointer to the session can be locked. -/
def Session.alive : Session ι → Bool
  | absent | expired => false
  | receiving | acking _ | routing .. | leaving => true

/-- What the broker has handled; the history of the registry. -/
inductive Event (ι : Type*)
  | regist (session : ι) (topic : UInt16)
  | unregist (session : ι)
  | data (session : ι) (topic : UInt16) (payload : Bytes)
  | disconnected (session : ι)
  deriving DecidableEq

/-- A frame handed to a socket. The session whose handler sent it is not part of the frame, it
is kept for the statements. -/
structure Delivery (ι : Type*) where
  frame : Bytes
  sender : ι
  deriving DecidableEq

structure Broker (ι : Type*) where
  registry : TopicRegistry ι
  session : ι → Session ι
  /-- The sessions that hold `_lock` shared. -/
  readers : List ι
  /-- The frames handed to each session's socket, oldest first. -/
  sent : ι → List (Delivery ι)
  /-- History variable: the frames and disconnections handled so far, oldest first. -/
  handled : List (Event ι)
  /-- The assertion of `Frame::parse` has failed in some session. -/
  aborted : Bool

inductive Action (ι : Type*)
  | accept (s : ι)
  | receive (s : ι) (raw : Bytes)
  | acknowledge (s : ι)
  | forward (s : ι)
  | disconnect (s : ι)
  | release (s : ι)
  deriving DecidableEq

namespace Broker

def init : Broker ι :=
  ⟨.empty, fun _ => .absent, [], fun _ => [], [], false⟩

variable [DecidableEq ι]

def setSession (b : Broker ι) (s : ι) (stage : Session ι) : Broker ι :=
  { b with session := Function.update b.session s stage }

/-- `ClientSession::send`. -/
def send (b : Broker ι) (s : ι) (frame : Bytes) (sender : ι) : Broker ι :=
  { b with sent := Function.update b.sent s (b.sent s ++ [⟨frame, sender⟩]) }

def log (b : Broker ι) (event : Event ι) : Broker ι :=
  { b with handled := b.handled ++ [event] }

def alive (b : Broker ι) (s : ι) : Bool := (b.session s).alive

/-- `_onSubscribe` up to the send of the ACK. -/
def onSubscribe (b : Broker ι) (s : ι) (topic : UInt16) : Broker ι :=
  ({ b with registry := b.registry.regist topic s }.log (.regist s topic)).setSession s
    (.acking topic)

/-- `_onUnsubscribe`. -/
def onUnsubscribe (b : Broker ι) (s : ι) (event : Event ι) : Broker ι :=
  { b with registry := b.registry.unregist b.alive s }.log event

/-- `_onEvent` up to the first iteration of the loop in `route`. -/
def onEvent (b : Broker ι) (s : ι) (topic : UInt16) (payload : Bytes) : Broker ι :=
  ({ b with readers := s :: b.readers }.log (.data s topic payload)).setSession s
    (.routing topic payload [] (b.registry.entries topic))

/-- `ClientSession::onReceive`. A writer waits until no session holds the lock shared. -/
def onReceive (b : Broker ι) (s : ι) (raw : Bytes) : Option (Broker ι) :=
  match Frame.parse raw with
  | none => some { b with aborted := true }
  | some frame =>
      if frame.type = Frame.REGIST then
        if b.readers = [] then some (b.onSubscribe s frame.topic) else none
      else if frame.type = Frame.UNREGIST then
        if b.readers = [] then some (b.onUnsubscribe s (.unregist s)) else none
      else if frame.type = Frame.DATA then some (b.onEvent s frame.topic frame.payload)
      else some b

/-- One iteration of the loop in `route`, or the end of that loop and of the shared lock. -/
def forward (b : Broker ι) (s : ι) : Option (Broker ι) :=
  match b.session s with
  | .routing topic payload sentTo (weak :: rest) =>
      if b.alive weak then
        some ((b.send weak (Frame.make topic Frame.DATA payload) s).setSession s
          (.routing topic payload (sentTo ++ [weak]) rest))
      else some (b.setSession s (.routing topic payload sentTo rest))
  | .routing _ _ _ [] => some ({ b with readers := b.readers.erase s }.setSession s .receiving)
  | _ => none

def step (b : Broker ι) (a : Action ι) : Option (Broker ι) :=
  if b.aborted then none
  else
    match a with
    | .accept s => if b.session s = .absent then some (b.setSession s .receiving) else none
    | .receive s raw => if b.session s = .receiving then b.onReceive s raw else none
    | .acknowledge s =>
        match b.session s with
        | .acking topic =>
            some ((b.send s (Frame.make topic Frame.ACK []) s).setSession s .receiving)
        | _ => none
    | .forward s => b.forward s
    | .disconnect s =>
        if b.session s = .receiving ∧ b.readers = [] then
          some ((b.onUnsubscribe s (.disconnected s)).setSession s .leaving)
        else none
    | .release s => if b.session s = .leaving then some (b.setSession s .expired) else none

variable (ι) in
def machine : Machine (Broker ι) (Action ι) where
  init := init
  step := step

end Broker

/-! ## Sessions on their sockets -/

open AsyncTcp

/-- The broker with what each client has sent and which read of its session is pending. -/
structure Served (ι : Type*) where
  broker : Broker ι
  incoming : ι → Incoming
  phase : ι → Phase

inductive SocketAction (ι : Type*)
  /-- The peer sends more bytes, whatever they are. -/
  | arrive (s : ι) (bytes : Bytes)
  | hangup (s : ι) (ec : ReadError)
  /-- The pending read of the session completes and its handler runs. -/
  | complete (s : ι)
  /-- A connection is accepted, or a handler under way goes on. -/
  | proceed (a : Action ι)
  deriving DecidableEq

namespace Served

def init : Served ι :=
  ⟨.init, fun _ => ⟨[], none⟩, fun _ => .header⟩

variable [DecidableEq ι]

def setPhase (w : Served ι) (s : ι) (phase : Phase) : Served ι :=
  { w with phase := Function.update w.phase s phase }

def setIncoming (w : Served ι) (s : ι) (incoming : Incoming) : Served ι :=
  { w with incoming := Function.update w.incoming s incoming }

/-- The error handler that `establish` gave to `receive`. -/
def onError (w : Served ι) (s : ι) : Option (Served ι) :=
  (w.broker.step (.disconnect s)).map fun b => { w with broker := b }.setPhase s .stopped

/-- The two stages of `AsyncSocketImpl::receive` with the handlers of `establish`. -/
def complete (order : ByteOrder) (w : Served ι) (s : ι) : Option (Served ι) :=
  match w.phase s with
  | .header =>
      match asyncRead 4 (w.incoming s) with
      | .pending => none
      | .ok header rest => some ((w.setIncoming s rest).setPhase s (.payload (order.ofBytes header)))
      | .error _ => w.onError s
  | .payload size =>
      match asyncRead size (w.incoming s) with
      | .pending => none
      | .ok payload rest =>
          (w.broker.step (.receive s payload)).map fun b =>
            ({ w with broker := b }.setIncoming s rest).setPhase s .header
      | .error _ => w.onError s
  | .stopped => none

def step (order : ByteOrder) (w : Served ι) (a : SocketAction ι) : Option (Served ι) :=
  if w.broker.aborted then none
  else
    match a with
    | .arrive s bytes =>
        if (w.incoming s).ended = none then
          some (w.setIncoming s { w.incoming s with bytes := (w.incoming s).bytes ++ bytes })
        else none
    | .hangup s ec =>
        if (w.incoming s).ended = none then
          some (w.setIncoming s { w.incoming s with ended := some ec })
        else none
    | .complete s => if w.broker.session s = .receiving then w.complete order s else none
    | .proceed (.receive ..) | .proceed (.disconnect _) => none
    | .proceed a => (w.broker.step a).map fun b => { w with broker := b }

variable (ι) in
def machine (order : ByteOrder) : Machine (Served ι) (SocketAction ι) where
  init := init
  step := step order

end Served

end CommonLib.AsyncEventBroker
