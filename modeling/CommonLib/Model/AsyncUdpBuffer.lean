import CommonLib.Model.AsyncUdp

/-! The one `_buffer` and the one `_senderEndpoint` of an `AsyncUdpSocketImpl`, on Linux, under the
receive loops that calls of `receive` have started, and such sockets on a network. -/

namespace CommonLib.AsyncUdp

/-- What comes in for a socket, and what `onReceive` is called with. -/
structure Datagram (ι : Type*) where
  data : Bytes
  sender : ι
  deriving DecidableEq

/-- The end of a datagram that does not fit into the buffer is lost. -/
def Datagram.truncate {ι : Type*} (size : ℕ) (d : Datagram ι) : Datagram ι :=
  { d with data := d.data.take size }

/-- An `async_receive_from` and its completion handler. -/
inductive ReceiveLoop
  | pending
  /-- The receive is complete, and its handler waits to be run with an error or a number of bytes. -/
  | completed (result : Except Error ℕ)
  /-- The handler is in one of the user's handlers; `receive` comes next. -/
  | callback
  | stopped
  deriving DecidableEq

structure AsyncUdpSocketImpl (ι : Type*) where
  isOpen : Bool
  /-- `_buffer` -/
  buffer : Bytes
  /-- `_senderEndpoint` -/
  senderEndpoint : ι
  /-- One for each call of `receive` from outside. -/
  loops : List ReceiveLoop
  /-- What the operating system keeps for the socket, oldest first. -/
  queue : List (Datagram ι)
  /-- History variable: the calls of `onReceive`, oldest first. -/
  received : List (Datagram ι)
  /-- History variable: what has come in. -/
  arrived : List (Datagram ι)
  /-- History variable: what went down with the socket. -/
  lost : List (Datagram ι)
  deriving DecidableEq

inductive SocketAction (ι : Type*)
  | receive
  | close
  | arrive (d : Datagram ι)
  /-- The pending receive of a loop takes the oldest datagram. -/
  | complete (k : ℕ)
  | fail (k : ℕ) (ec : Error)
  /-- The completion handler of a loop runs, up to the call of the user's handler. -/
  | handle (k : ℕ)
  /-- The user's handler returns, and the loop is armed again. -/
  | rearm (k : ℕ)
  /-- The user's handler throws. -/
  | throws (k : ℕ)
  deriving DecidableEq

/-- What becomes of the receives when their socket is closed. -/
def ReceiveLoop.abort : ReceiveLoop → ReceiveLoop
  | .pending => .completed (.error .operationAborted)
  | loop => loop

namespace AsyncUdpSocketImpl

variable {ι : Type*}

/-- `AsyncUdpSocketImpl(conn, bufferMaxSize)` and `open`. -/
def init (bufferMaxSize : ℕ) (endpoint : ι) : AsyncUdpSocketImpl ι :=
  ⟨true, List.replicate bufferMaxSize 0, endpoint, [], [], [], [], []⟩

def setLoop (s : AsyncUdpSocketImpl ι) (k : ℕ) (loop : ReceiveLoop) : AsyncUdpSocketImpl ι :=
  { s with loops := s.loops.set k loop }

def close (s : AsyncUdpSocketImpl ι) : AsyncUdpSocketImpl ι :=
  if s.isOpen then
    { s with isOpen := false, loops := s.loops.map ReceiveLoop.abort, queue := [],
             lost := s.lost ++ s.queue }
  else s

/-- `async_receive_from`. On a closed socket it completes with `bad_descriptor`. -/
def armed (s : AsyncUdpSocketImpl ι) : ReceiveLoop :=
  if s.isOpen then .pending else .completed (.error .badDescriptor)

/-- How many bytes of a datagram fit into the buffer. -/
def bytes (s : AsyncUdpSocketImpl ι) (d : Datagram ι) : ℕ :=
  min d.data.length s.buffer.length

/-- The operating system copies a datagram into the buffer. -/
def store (s : AsyncUdpSocketImpl ι) (d : Datagram ι) : AsyncUdpSocketImpl ι :=
  { s with buffer := d.data.take s.buffer.length ++ s.buffer.drop d.data.length
           senderEndpoint := d.sender }

/-- `recvBuffer` and `_senderEndpoint`, as a handler reads them for this number of bytes. -/
def shown (s : AsyncUdpSocketImpl ι) (bytes : ℕ) : Datagram ι :=
  ⟨s.buffer.take bytes, s.senderEndpoint⟩

/-- The completion handler, up to the call of the user's handler. -/
def handler (s : AsyncUdpSocketImpl ι) (k : ℕ) : Except Error ℕ → AsyncUdpSocketImpl ι
  | .ok bytes => { s with received := s.received ++ [s.shown bytes] }.setLoop k .callback
  | .error .operationAborted => s.setLoop k .stopped
  | .error _ => s.setLoop k .callback

def step (s : AsyncUdpSocketImpl ι) : SocketAction ι → Option (AsyncUdpSocketImpl ι)
  | .receive => some { s with loops := s.loops ++ [s.armed] }
  | .close => some s.close
  | .arrive d =>
      if s.isOpen then some { s with queue := s.queue ++ [d], arrived := s.arrived ++ [d] } else none
  | .complete k =>
      match s.loops[k]?, s.queue with
      | some .pending, d :: rest =>
          some ({ s.store d with queue := rest }.setLoop k (.completed (.ok (s.bytes d))))
      | _, _ => none
  | .fail k ec =>
      match s.loops[k]? with
      | some .pending =>
          if ec = .operationAborted then none else some (s.setLoop k (.completed (.error ec)))
      | _ => none
  | .handle k =>
      match s.loops[k]? with
      | some (.completed result) => some (s.handler k result)
      | _ => none
  | .rearm k =>
      match s.loops[k]? with
      | some .callback => some (s.setLoop k s.armed)
      | _ => none
  | .throws k =>
      match s.loops[k]? with
      | some .callback => some (s.setLoop k .stopped)
      | _ => none

def machine (bufferMaxSize : ℕ) (endpoint : ι) : Machine (AsyncUdpSocketImpl ι) (SocketAction ι) where
  init := init bufferMaxSize endpoint
  step := step

end AsyncUdpSocketImpl

/-! ## Sockets on a network -/

structure Network (ι : Type*) where
  socket : ι → AsyncUdpSocketImpl ι
  /-- What `send` has given to the operating system, with the destination. -/
  sent : List (ι × Datagram ι)

inductive NetworkAction (ι : Type*)
  | send (c dest : ι) (data : Bytes)
  /-- A datagram that was sent comes in: late, in another order, more than once or never. -/
  | deliver (dest : ι) (d : Datagram ι)
  /-- A socket takes a step of its own, or its user calls it. -/
  | socket (c : ι) (a : SocketAction ι)
  deriving DecidableEq

namespace Network

variable {ι : Type*} [DecidableEq ι]

def setSocket (w : Network ι) (c : ι) (s : AsyncUdpSocketImpl ι) : Network ι :=
  { w with socket := Function.update w.socket c s }

def step (w : Network ι) : NetworkAction ι → Option (Network ι)
  | .send c dest data =>
      if (w.socket c).isOpen then some { w with sent := w.sent ++ [(dest, ⟨data, c⟩)] } else none
  | .deliver dest d =>
      if (dest, d) ∈ w.sent then ((w.socket dest).step (.arrive d)).map (w.setSocket dest) else none
  | .socket _ (.arrive _) => none
  | .socket c a => ((w.socket c).step a).map (w.setSocket c)

/-- The buffers may have any sizes. -/
def machine (size : ι → ℕ) (endpoint : ι) : Machine (Network ι) (NetworkAction ι) where
  init := ⟨fun c => .init (size c) endpoint, []⟩
  step := step

end Network

end CommonLib.AsyncUdp
