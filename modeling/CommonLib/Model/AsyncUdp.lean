import CommonLib.Library.ByteOrder
import CommonLib.Library.Machine

/-! The receive loop of `AsyncUdp.cpp` against `close`, which any thread may call between any two
of its steps. -/

namespace CommonLib.AsyncUdp

/-- The asio errors that the loop or the socket tells apart. -/
inductive Error
  | operationAborted
  | badDescriptor
  | other (code : ℕ)
  deriving DecidableEq, Repr

/-- How an `async_receive_from` completes. -/
inductive Completion
  | datagram (data : Bytes)
  | error (ec : Error)
  deriving DecidableEq, Repr

/-- A call of one of the handlers given to `receive`. -/
inductive Callback
  | onReceive (data : Bytes)
  | onError (ec : Error)
  deriving DecidableEq, Repr

/-- `late` says that the receive was started after `close`. -/
inductive Phase
  | pending (late : Bool)
  /-- The receive is complete, and its handler waits to be run. -/
  | completed (late : Bool) (result : Completion)
  /-- The handler is in one of the user's handlers; `receive` comes next. -/
  | callback (late : Bool) (call : Callback)
  | stopped
  deriving DecidableEq, Repr

structure AsyncUdpSocket where
  isOpen : Bool
  phase : Phase
  /-- The receives started from the completion of one that was itself started after `close`. -/
  rearms : ℕ
  deriving DecidableEq, Repr

/-- Moves of the loop, of the user's handlers and of whoever closes the socket. -/
inductive Action
  | close
  /-- asio completes the pending receive. -/
  | complete (result : Completion)
  /-- The handler runs up to the call of the user's handler. -/
  | handle
  /-- The user's handler returns, and the loop is armed again. -/
  | rearm
  /-- The user's handler throws. -/
  | throws
  deriving DecidableEq, Repr

namespace AsyncUdpSocket

/-- `_socket.close()`: a pending receive completes with `operation_aborted`. -/
def abort : Phase → Phase
  | .pending late => .completed late (.error .operationAborted)
  | phase => phase

/-- `if(_socket.is_open()) { _socket.close(); }` -/
def close (s : AsyncUdpSocket) : AsyncUdpSocket :=
  if s.isOpen then { s with isOpen := false, phase := abort s.phase } else s

/-- The completion handler, up to the call of the user's handler. -/
def handler (late : Bool) : Completion → Phase
  | .datagram data => .callback late (.onReceive data)
  | .error .operationAborted => .stopped
  | .error ec => .callback late (.onError ec)

/-- On a closed socket a receive completes with `bad_descriptor`. -/
def step (s : AsyncUdpSocket) : Action → Option AsyncUdpSocket
  | .close => some s.close
  | .complete result =>
      match s.phase with
      | .pending late =>
          if s.isOpen ∨ result = .error .badDescriptor then
            some { s with phase := .completed late result }
          else none
      | _ => none
  | .handle =>
      match s.phase with
      | .completed late result => some { s with phase := handler late result }
      | _ => none
  | .rearm =>
      match s.phase with
      | .callback late _ =>
          some { s with phase := .pending !s.isOpen, rearms := s.rearms + late.toNat }
      | _ => none
  | .throws =>
      match s.phase with
      | .callback _ _ => some { s with phase := .stopped }
      | _ => none

/-- `open` and `receive` have been called. -/
def init : AsyncUdpSocket := ⟨true, .pending false, 0⟩

def machine : Machine AsyncUdpSocket Action where
  init := init
  step := step

end AsyncUdpSocket

end CommonLib.AsyncUdp
