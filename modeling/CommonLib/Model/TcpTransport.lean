import CommonLib.Model.AsyncEventTransport

/-! `TcpTransport` of `AsyncEventTransport.cpp` over its whole life, and the guards that
`EventSubscriber` and `EventPublisher` put before it. Three parties touch its fields: one calling
thread, the tasks of the strand, and the completion handlers, which run outside the strand. What the
receive loop does with frames is in `AsyncEventTransport`; here it is armed and ends. -/

namespace CommonLib.TcpTransport

open AsyncTcp AsyncEventTransport

variable {η : Type*}

/-- How far the connection attempt of a socket has got. -/
inductive Stage
  /-- `connect` has not been called on the socket. -/
  | unstarted
  | pending
  /-- Completed with an error; the completion handler is still to run. -/
  | failed
  /-- Completed with success; the completion handler is still to run. -/
  | succeeded
  /-- In the handler, about to store `_connected` of the transport. -/
  | storing
  /-- About to send REGIST. -/
  | registering
  /-- About to call `receive`. -/
  | arming
  | done
  deriving DecidableEq

/-- An `AsyncSocketImpl`, numbered in the order of creation. -/
structure Socket (η : Type*) where
  /-- The message handler that `subscribe` captured; `connect` captures none. -/
  handler : Option η
  stage : Stage
  isOpen : Bool
  connected : Bool
  /-- The message handlers of the receive loops that run on the socket and keep it alive. -/
  receiving : List η
  sent : List Bytes
  deriving DecidableEq

namespace Socket

/-- `AsyncTcpSocket::create` -/
def create : Socket η :=
  ⟨none, .unstarted, false, false, [], []⟩

/-- `AsyncSocketImpl::disconnect` -/
def disconnect (k : Socket η) : Socket η :=
  { k with isOpen := false, connected := false }

/-- The transport drops its reference; the destructor disconnects. -/
def release (k : Socket η) : Socket η :=
  if k.receiving.isEmpty then k.disconnect else k

/-- `async_connect` in `AsyncSocketImpl::connect`, which opens the socket. -/
def start (k : Socket η) (handler : Option η) : Socket η :=
  { k with handler := handler, stage := .pending, isOpen := true }

def send (k : Socket η) (frame : Bytes) : Socket η :=
  { k with sent := k.sent ++ [frame] }

def receive (k : Socket η) (handler : Option η) : Socket η :=
  { k with receiving := k.receiving ++ handler.toList }

/-- A receive loop ends with an error. In the header stage a lost connection also disconnects. -/
def hangup (k : Socket η) (loop : ℕ) (header : Bool) (ec : ReadError) : Socket η :=
  let k' := if header && ec.isLoss then k.disconnect else k
  { k' with receiving := k.receiving.eraseIdx loop }

end Socket

/-- Where the calling thread stands. -/
inductive Caller (η : Type*)
  | idle
  /-- `if(_transport->connected())` of `EventSubscriber` or `EventPublisher` -/
  | guarding (handler : Option η)
  /-- `if(_socket)` -/
  | testing (handler : Option η)
  /-- About to assign a new socket to `_socket`. -/
  | creating (handler : Option η)
  /-- `_socket->connect(…)` -/
  | dialing (handler : Option η)
  /-- In `AsyncSocketImpl::connect` of the socket with that number. -/
  | starting (i : ℕ) (handler : Option η)
  deriving DecidableEq

/-- Where the strand stands. -/
inductive Strand
  | idle
  /-- `if(!self->_connected.load())` -/
  | connectedTest (payload : Bytes)
  /-- `self->_socket->send(…)` -/
  | sending (payload : Bytes)
  /-- `if(!self->_socket)` -/
  | socketTest
  /-- `self->_socket->disconnect()` -/
  | closing
  /-- `self->_socket.reset()` -/
  | resetting
  /-- `self->_connected.store(false)` -/
  | clearing
  deriving DecidableEq

inductive Party
  | caller
  | strand
  | handler
  deriving DecidableEq

/-- What was asked of the transport: a connection, with a message handler or without, or its
end. -/
inductive Call (η : Type*)
  | open (handler : Option η)
  | close
  deriving DecidableEq

structure Transport (η : Type*) where
  sockets : List (Socket η)
  socket : Option ℕ
  connected : Bool
  caller : Caller η
  tasks : List Task
  strand : Strand
  /-- Who dereferenced a null pointer, or a socket that is gone. -/
  crashed : Option Party
  /-- History variable: the calls, oldest first. -/
  calls : List (Call η)
  /-- History variable: `_connected` and `_socket` right after each error handler of a connection
  attempt or a receive loop, oldest first. -/
  outcomes : List (Bool × Option ℕ)
  deriving DecidableEq

inductive Action (η : Type*)
  /-- `connect` or `subscribe`, behind the guard of an `EventPublisher` or `EventSubscriber` or
  without one. -/
  | open (guarded : Bool) (handler : Option η)
  | publish (payload : Bytes)
  | disconnect
  /-- The calling thread takes its next step. -/
  | caller
  /-- `resolve` throws. -/
  | throws
  /-- The strand takes its next step. -/
  | strand
  /-- A connection attempt completes with success. -/
  | succeed (i : ℕ)
  /-- A connection attempt completes with an error. -/
  | fail (i : ℕ)
  /-- The completion handler of a connection attempt takes its next step. -/
  | handler (i : ℕ)
  /-- A receive loop of a socket ends with an error, in the header stage or behind it. -/
  | hangup (i loop : ℕ) (header : Bool) (ec : ReadError)
  deriving DecidableEq

namespace Action

/-- `TcpTransport::connect` -/
def connect : Action η := .open false none

/-- `TcpTransport::subscribe` -/
def subscribe (onMessage : η) : Action η := .open false (some onMessage)

/-- `EventPublisher::regist` -/
def regist : Action η := .open true none

/-- `EventPublisher::unregist` -/
def unregist : Action η := .disconnect

/-- `EventSubscriber::subscribe` -/
def subscribeEvent (onMessage : η) : Action η := .open true (some onMessage)

/-- `EventSubscriber::unsubscribe` -/
def unsubscribeEvent : Action η := .disconnect

end Action

namespace Transport

def init : Transport η :=
  ⟨[], none, false, .idle, [], .idle, none, [], []⟩

def setCaller (s : Transport η) (pc : Caller η) : Transport η :=
  { s with caller := pc }

def setStrand (s : Transport η) (pc : Strand) : Transport η :=
  { s with strand := pc }

def setSocket (s : Transport η) (i : ℕ) (f : Socket η → Socket η) : Transport η :=
  { s with sockets := s.sockets.modify i f }

def setStage (s : Transport η) (i : ℕ) (stage : Stage) : Transport η :=
  s.setSocket i fun k => { k with stage := stage }

def crash (s : Transport η) (party : Party) : Transport η :=
  { s with crashed := some party }

/-- An error handler has run. It logs and does nothing else. -/
def onError (s : Transport η) : Transport η :=
  { s with outcomes := s.outcomes ++ [(s.connected, s.socket)] }

/-- Dereference `_socket` and act on the socket. -/
def withSocket (s : Transport η) (party : Party) (f : Socket η → Socket η)
    (next : Transport η → Transport η) : Transport η :=
  match s.socket with
  | none => s.crash party
  | some i => next (s.setSocket i f)

/-- A new socket for `_socket`. -/
def create (s : Transport η) : Transport η :=
  { s with sockets := s.sockets ++ [Socket.create], socket := some s.sockets.length }

/-- `connect` and `subscribe`, with or without the guard before them. -/
def stepCaller (s : Transport η) : Option (Transport η) :=
  match s.caller with
  | .idle => none
  | .guarding handler => some (s.setCaller (if s.connected then .idle else .testing handler))
  | .testing handler => some (s.setCaller (if s.socket.isSome then .idle else .creating handler))
  | .creating handler => some (s.create.setCaller (.dialing handler))
  | .dialing handler =>
      match s.socket with
      | none => some (s.crash .caller)
      | some i => some (s.setCaller (.starting i handler))
  | .starting i handler =>
      match s.sockets[i]? with
      | none => none
      | some k =>
          -- only `_socket` and receive loops keep the object alive
          if s.socket ≠ some i ∧ k.receiving.isEmpty then some (s.crash .caller)
          else if k.connected then some (s.setCaller .idle)
          else some ((s.setSocket i (Socket.start · handler)).setCaller .idle)

/-- The tasks of `publish` and `disconnect`. -/
def stepStrand (topic : UInt16) (s : Transport η) : Option (Transport η) :=
  match s.strand with
  | .idle =>
      match s.tasks with
      | [] => none
      | .publish payload :: rest =>
          some ({ s with tasks := rest }.setStrand (.connectedTest payload))
      | .disconnect :: rest => some ({ s with tasks := rest }.setStrand .socketTest)
  | .connectedTest payload =>
      some (s.setStrand (if s.connected then .sending payload else .idle))
  | .sending payload =>
      some (s.withSocket .strand (Socket.send · (Frame.make topic Frame.DATA payload))
        (setStrand · .idle))
  | .socketTest => some (s.setStrand (if s.socket.isSome then .closing else .idle))
  | .closing => some (s.withSocket .strand Socket.disconnect (setStrand · .resetting))
  | .resetting =>
      match s.socket with
      | none => some (s.setStrand .clearing)
      | some i => some ({ s.setSocket i Socket.release with socket := none }.setStrand .clearing)
  | .clearing => some ({ s with connected := false }.setStrand .idle)

/-- The completion handler of the connection attempt of socket `i`. -/
def stepHandler (topic : UInt16) (s : Transport η) (i : ℕ) : Option (Transport η) :=
  match s.sockets[i]? with
  | none => none
  | some k =>
      match k.stage with
      | .failed => some (s.setStage i .done).onError
      | .succeeded => some (s.setSocket i fun k => { k with connected := true, stage := .storing })
      | .storing =>
          some ({ s with connected := true }.setStage i
            (if k.handler.isSome then .registering else .done))
      | .registering =>
          some (s.withSocket .handler (Socket.send · (Frame.make topic Frame.REGIST []))
            (setStage · i .arming))
      | .arming => some (s.withSocket .handler (Socket.receive · k.handler) (setStage · i .done))
      | .unstarted | .pending | .done => none

def step (topic : UInt16) (s : Transport η) (a : Action η) : Option (Transport η) :=
  if s.crashed.isSome then none
  else
    match a with
    | .open guarded handler =>
        match s.caller with
        | .idle => some ({ s with calls := s.calls ++ [Call.open handler] }.setCaller
            (if guarded then .guarding handler else .testing handler))
        | _ => none
    | .publish payload =>
        match s.caller with
        | .idle => some { s with tasks := s.tasks ++ [Task.publish payload] }
        | _ => none
    | .disconnect =>
        match s.caller with
        | .idle => some { s with
            tasks := s.tasks ++ [Task.disconnect], calls := s.calls ++ [Call.close] }
        | _ => none
    | .caller => s.stepCaller
    | .throws =>
        match s.caller with
        | .starting _ _ => some (s.setCaller .idle)
        | _ => none
    | .strand => s.stepStrand topic
    | .succeed i =>
        match s.sockets[i]? with
        | none => none
        | some k => if k.stage = .pending ∧ k.isOpen then some (s.setStage i .succeeded) else none
    | .fail i =>
        match s.sockets[i]? with
        | none => none
        | some k => if k.stage = .pending then some (s.setStage i .failed) else none
    | .handler i => s.stepHandler topic i
    | .hangup i loop header ec =>
        match s.sockets[i]? with
        | none => none
        | some k => if loop < k.receiving.length then
            some (s.setSocket i (Socket.hangup · loop header ec)).onError else none

variable (η) in
def machine (topic : UInt16) : Machine (Transport η) (Action η) where
  init := init
  step := step topic

end Transport

end CommonLib.TcpTransport
