import CommonLib.Model.AsyncEventTransport

/-! The system of `AsyncEventTransport.cpp` on its sockets: a connection carries bytes, and each
receive loop cuts them up again by the length headers. -/

namespace CommonLib.AsyncEventTransport

open AsyncTcp AsyncEventBroker

/-! ## One direction of a connection -/

/-- The writes of one side and the reads of the other. -/
structure Link where
  sender : Sender
  /-- How many bytes of the wire have reached the receiving socket. -/
  arrived : ℕ
  incoming : Incoming
  phase : Phase
  deriving DecidableEq

inductive LinkAction
  /-- The stream takes bytes of a write. -/
  | accept (i size : ℕ)
  /-- Bytes of the wire reach the receiving socket. -/
  | arrive (size : ℕ)
  /-- The stream ends for the receiving socket. -/
  | fail (ec : ReadError)
  deriving DecidableEq

/-- How the pending read of a receive loop completes. -/
inductive Completion
  | header
  | message (raw : Bytes)
  | failed
  deriving DecidableEq

namespace Link

def init : Link := ⟨⟨[], []⟩, 0, ⟨[], none⟩, .header⟩

/-- A `send` for each of the frames. -/
def send (order : ByteOrder) (l : Link) (frames : List Bytes) : Link :=
  { l with sender := { l.sender with
      writes := l.sender.writes ++ frames.map fun frame => ⟨frame, sendBuffer order frame⟩ } }

def step (order : ByteOrder) (l : Link) : LinkAction → Option Link
  | .accept i size =>
      (l.sender.step order (.accept i size)).map fun sender => { l with sender := sender }
  | .arrive size =>
      if l.incoming.ended = none ∧ l.arrived + size ≤ l.sender.wire.length then
        some { l with
          arrived := l.arrived + size
          incoming := { l.incoming with
            bytes := l.incoming.bytes ++ (l.sender.wire.drop l.arrived).take size } }
      else none
  | .fail ec =>
      if l.incoming.ended = none then
        some { l with incoming := { l.incoming with ended := some ec } }
      else none

/-- The stages of `AsyncSocketImpl::receive`, up to the call of a handler. -/
def complete (order : ByteOrder) (l : Link) : Option (Completion × Link) :=
  match l.phase with
  | .header =>
      match asyncRead 4 l.incoming with
      | .pending => none
      | .ok header rest =>
          some (.header, { l with incoming := rest, phase := .payload (order.ofBytes header) })
      | .error _ => some (.failed, { l with phase := .stopped })
  | .payload size =>
      match asyncRead size l.incoming with
      | .pending => none
      | .ok payload rest => some (.message payload, { l with incoming := rest, phase := .header })
      | .error _ => some (.failed, { l with phase := .stopped })
  | .stopped => none

end Link

/-! ## The system -/

inductive ClientAction
  | connect (subscriber : Bool)
  | onConnected
  | regist
  | publish (payload : Bytes)
  | disconnect
  | runTask
  deriving DecidableEq

def Client.perform {ι : Type*} (topic : UInt16) (c : Client ι) : ClientAction → Option (Client ι)
  | .connect subscriber => c.connect subscriber
  | .onConnected => c.onConnected
  | .regist => c.regist topic
  | .publish payload => some (c.publish payload)
  | .disconnect => some c.disconnect
  | .runTask => c.runTask topic

/-- A client cannot tell which session a message comes from. -/
structure Wire (ι : Type*) where
  client : ι → Client Unit
  broker : Broker ι
  up : ι → Link
  down : ι → Link

inductive WireAction (ι : Type*)
  | client (c : ι) (a : ClientAction)
  | broker (a : AsyncEventBroker.Action ι)
  | up (c : ι) (a : LinkAction)
  | down (c : ι) (a : LinkAction)
  /-- The pending read of the receive loop of a client completes. -/
  | take (c : ι)
  /-- The pending read of the session of a client completes. -/
  | serve (c : ι)
  deriving DecidableEq

namespace Wire

variable {ι : Type*}

def init : Wire ι :=
  ⟨fun _ => .init, .init, fun _ => .init, fun _ => .init⟩

variable [DecidableEq ι]

def setUp (w : Wire ι) (c : ι) (l : Link) : Wire ι :=
  { w with up := Function.update w.up c l }

def setDown (w : Wire ι) (c : ι) (l : Link) : Wire ι :=
  { w with down := Function.update w.down c l }

/-- The frames that the step of a client adds to its log are sent. -/
def setClient (order : ByteOrder) (w : Wire ι) (c : ι) (client : Client Unit) : Wire ι :=
  { w with
    client := Function.update w.client c client
    up := Function.update w.up c
      ((w.up c).send order (client.sent.drop (w.client c).sent.length)) }

/-- The frames that a step of the broker adds to its logs are sent. -/
def setBroker (order : ByteOrder) (w : Wire ι) (b : Broker ι) : Wire ι :=
  { w with
    broker := b
    down := fun s =>
      (w.down s).send order (((b.sent s).drop (w.broker.sent s).length).map Delivery.frame) }

/-- A read of the client's receive loop. A handler that does not return leaves no read armed. -/
def take (order : ByteOrder) (w : Wire ι) (c : ι) : Option (Wire ι) :=
  if (w.client c).listening then
    match (w.down c).complete order with
    | none => none
    | some (.header, l) => some (w.setDown c l)
    | some (.message raw, l) =>
        ((w.client c).receive ⟨raw, ()⟩).map ((w.setDown c l).setClient order c)
    | some (.failed, l) => some ((w.setDown c l).setClient order c (w.client c).hangup)
  else none

/-- A read of the client's session, with the handlers of `establish`. -/
def serve (order : ByteOrder) (w : Wire ι) (c : ι) : Option (Wire ι) :=
  if w.broker.session c = .receiving ∧ w.broker.aborted = false then
    match (w.up c).complete order with
    | none => none
    | some (.header, l) => some (w.setUp c l)
    | some (.message raw, l) =>
        (w.broker.step (.receive c raw)).map ((w.setUp c l).setBroker order)
    | some (.failed, l) => (w.broker.step (.disconnect c)).map ((w.setUp c l).setBroker order)
  else none

def step (order : ByteOrder) (topic : ι → UInt16) (w : Wire ι) : WireAction ι → Option (Wire ι)
  | .client c a => ((w.client c).perform (topic c) a).map (w.setClient order c)
  | .broker (.receive ..) | .broker (.disconnect _) => none
  | .broker a => (w.broker.step a).map (w.setBroker order)
  | .up c a => ((w.up c).step order a).map (w.setUp c)
  | .down c a => ((w.down c).step order a).map (w.setDown c)
  | .take c => w.take order c
  | .serve c => w.serve order c

def machine (order : ByteOrder) (topic : ι → UInt16) : Machine (Wire ι) (WireAction ι) where
  init := init
  step := step order topic

end Wire

end CommonLib.AsyncEventTransport
