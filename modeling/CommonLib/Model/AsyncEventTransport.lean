import CommonLib.Model.AsyncEventBroker

/-! The client side of `AsyncEventTransport.cpp`, and the whole system: transports, the broker
and the links between them. -/

namespace CommonLib.AsyncEventTransport

open AsyncTcp AsyncEventBroker

/-! ## The receive loop of a subscriber -/

/-- The handlers passed to `subscribe`; `onSubscribed` is `nullptr` by default. -/
structure UserHandlers (σ : Type*) where
  onMessage : σ → Bytes → σ
  onSubscribed : Option (σ → σ)

/-- The lambda that `subscribe` gives to `receive`. An empty `std::function` throws when it is
called. -/
def UserHandlers.onReceive {σ : Type*} (u : UserHandlers σ) (user : σ) (raw : Bytes) : Outcome σ :=
  match Frame.parse raw with
  | none => ⟨user, .aborted⟩
  | some frame =>
      if frame.type = Frame.ACK then
        match u.onSubscribed with
        | none => ⟨user, .threw⟩
        | some onSubscribed => ⟨onSubscribed user, .returned⟩
      else if frame.type = Frame.DATA then ⟨u.onMessage user frame.payload, .returned⟩
      else ⟨user, .returned⟩

/-- What `subscribe` passes to `receive`; the error handler only logs. -/
def UserHandlers.handlers {σ : Type*} (u : UserHandlers σ) : Handlers σ :=
  ⟨u.onReceive, some fun user _ => user⟩

/-! ## A transport -/

/-- What `publish` and `disconnect` post to `_strand`. -/
inductive Task
  | publish (payload : Bytes)
  | disconnect
  deriving DecidableEq

/-- How far the one connection of a transport has got. -/
inductive Stage
  | fresh
  /-- `connect` or `subscribe` was called; its completion handler has not run. -/
  | connecting (subscriber : Bool)
  /-- In the completion handler of `subscribe`, behind `_connected.store(true)`. -/
  | registering
  | opened
  deriving DecidableEq

/-- A `TcpTransport`. `_connected` is set in the completion handler of the connection, and both
fields are cleared by the task of `disconnect`. -/
structure Client (ι : Type*) where
  stage : Stage
  socket : Bool
  connected : Bool
  strand : List Task
  /-- The receive loop is armed. -/
  listening : Bool
  /-- The frames handed to the socket, oldest first. -/
  sent : List Bytes
  /-- The payloads passed to `onMessage`, oldest first, each with the session that sent it. -/
  received : List (ι × Bytes)
  /-- History variable: the payloads given to `publish`. -/
  posted : List Bytes
  /-- History variable: the payloads whose task ran while connected. -/
  ran : List Bytes

namespace Client

variable {ι : Type*}

def init : Client ι :=
  ⟨.fresh, false, false, [], false, [], [], [], []⟩

/-- `connect` and `subscribe` up to the asynchronous connect. They return at once while there
is a socket; without one, a second connection is not part of the model. -/
def connect (c : Client ι) (subscriber : Bool) : Option (Client ι) :=
  if c.socket then some c
  else if c.stage = .fresh then some { c with socket := true, stage := .connecting subscriber }
  else none

/-- The completion handler of the connect. -/
def onConnected (c : Client ι) : Option (Client ι) :=
  match c.stage with
  | .connecting true => some { c with connected := true, stage := .registering }
  | .connecting false => some { c with connected := true, stage := .opened }
  | .fresh | .registering | .opened => none

/-- The rest of the completion handler of `subscribe`. Without a socket it reads a null
pointer. -/
def regist (topic : UInt16) (c : Client ι) : Option (Client ι) :=
  if c.stage = .registering ∧ c.socket then
    some { c with sent := c.sent ++ [Frame.make topic Frame.REGIST []], listening := true,
                  stage := .opened }
  else none

def publish (c : Client ι) (payload : Bytes) : Client ι :=
  { c with strand := c.strand ++ [.publish payload], posted := c.posted ++ [payload] }

def disconnect (c : Client ι) : Client ι :=
  { c with strand := c.strand ++ [.disconnect] }

/-- Run the next task of the strand. -/
def runTask (topic : UInt16) (c : Client ι) : Option (Client ι) :=
  match c.strand with
  | [] => none
  | .publish payload :: rest =>
      if c.connected then
        if c.socket then
          some { c with strand := rest, sent := c.sent ++ [Frame.make topic Frame.DATA payload],
                        ran := c.ran ++ [payload] }
        else none
      else some { c with strand := rest }
  | .disconnect :: rest =>
      if c.socket then some { c with strand := rest, socket := false, connected := false }
      else some { c with strand := rest }

/-- Both handlers are supplied; `onMessage` keeps what it is given. -/
def handlers (sender : ι) : UserHandlers (List (ι × Bytes)) :=
  ⟨fun received payload => received ++ [(sender, payload)], some id⟩

/-- The receive loop takes a frame. -/
def receive (c : Client ι) (delivery : Delivery ι) : Option (Client ι) :=
  if c.listening then
    let outcome := (handlers delivery.sender).onReceive c.received delivery.frame
    some { c with received := outcome.user, listening := outcome.exit = .returned }
  else none

/-- The receive loop ends with an error of the socket. -/
def hangup (c : Client ι) : Client ι :=
  { c with listening := false }

end Client

/-! ## The system -/

/-- A link is a FIFO of whole frames: the log of its sender, and how much of it the receiver has
taken. Upwards that log is `Client.sent`, downwards it is `Broker.sent`. -/
structure System (ι : Type*) where
  client : ι → Client ι
  broker : Broker ι
  up : ι → ℕ
  down : ι → ℕ

inductive SystemAction (ι : Type*)
  | connect (c : ι)
  | subscribe (c : ι)
  | onConnected (c : ι)
  | regist (c : ι)
  | publish (c : ι) (payload : Bytes)
  | disconnect (c : ι)
  | runTask (c : ι)
  /-- The receive loop of a client takes the next frame of its link. -/
  | take (c : ι)
  | hangup (c : ι)
  /-- The session of a client takes the next frame of its link. -/
  | serve (c : ι)
  /-- A session is accepted, goes on or ends; a connection can break at any time. -/
  | broker (a : AsyncEventBroker.Action ι)
  deriving DecidableEq

namespace System

variable {ι : Type*}

def init : System ι :=
  ⟨fun _ => .init, .init, fun _ => 0, fun _ => 0⟩

variable [DecidableEq ι]

def setClient (w : System ι) (c : ι) (client : Client ι) : System ι :=
  { w with client := Function.update w.client c client }

def step (topic : ι → UInt16) (w : System ι) : SystemAction ι → Option (System ι)
  | .connect c => ((w.client c).connect false).map (w.setClient c)
  | .subscribe c => ((w.client c).connect true).map (w.setClient c)
  | .onConnected c => (w.client c).onConnected.map (w.setClient c)
  | .regist c => ((w.client c).regist (topic c)).map (w.setClient c)
  | .publish c payload => some (w.setClient c ((w.client c).publish payload))
  | .disconnect c => some (w.setClient c (w.client c).disconnect)
  | .runTask c => ((w.client c).runTask (topic c)).map (w.setClient c)
  | .take c =>
      match (w.broker.sent c)[w.down c]? with
      | none => none
      | some delivery =>
          ((w.client c).receive delivery).map fun client =>
            { w.setClient c client with down := Function.update w.down c (w.down c + 1) }
  | .hangup c => some (w.setClient c (w.client c).hangup)
  | .serve c =>
      match (w.client c).sent[w.up c]? with
      | none => none
      | some raw =>
          (w.broker.step (.receive c raw)).map fun b =>
            { w with broker := b, up := Function.update w.up c (w.up c + 1) }
  | .broker (.receive ..) => none
  | .broker a => (w.broker.step a).map fun b => { w with broker := b }

/-- Clients, each with the topic it was made for, and one broker. -/
def machine (topic : ι → UInt16) : Machine (System ι) (SystemAction ι) where
  init := init
  step := step topic

end System

end CommonLib.AsyncEventTransport
