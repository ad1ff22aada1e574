import CommonLib.Library.ByteOrder
import CommonLib.Library.Exhaust
import CommonLib.Library.Machine

/-! The asynchronous TCP socket of `AsyncTcp.cpp`: the bytes of a `send` and the self re-arming
`receive` loop. The stream is what asio promises of it: `async_read` of `n` bytes gives exactly
the next `n` bytes, or an error when fewer are left and the stream has ended. -/

namespace CommonLib.AsyncTcp

/-- `ErrorCode::type`. -/
inductive ErrorCode
  | unknown
  | connectionLost
  | receiveFailure
  | sendFailure
  | endOfFile
  deriving DecidableEq, Repr

/-- The asio errors with which a pending read can complete. -/
inductive ReadError
  | eof
  | connectionReset
  | operationAborted
  | other
  deriving DecidableEq, Repr

/-- The bytes that a socket has not read yet, and how the stream ends behind them. -/
structure Incoming where
  bytes : Bytes
  ended : Option ReadError
  deriving DecidableEq, Repr

inductive ReadResult
  | pending
  | ok (data : Bytes) (rest : Incoming)
  | error (ec : ReadError)

def asyncRead (size : ℕ) (incoming : Incoming) : ReadResult :=
  if size ≤ incoming.bytes.length then
    .ok (incoming.bytes.take size) { incoming with bytes := incoming.bytes.drop size }
  else
    match incoming.ended with
    | none => .pending
    | some ec => .error ec

/-! ## Sending -/

/-- The buffer that `send` hands to `async_write`: the size cast to `uint32_t` in the byte order
of the machine, then the data. -/
def sendBuffer (order : ByteOrder) (data : Bytes) : Bytes :=
  order.toBytes 4 (data.length % 2 ^ 32) ++ data

/-- The stream that successive sends produce when their writes do not overlap. -/
def sendAll (order : ByteOrder) (messages : List Bytes) : Bytes :=
  (messages.map (sendBuffer order)).flatten

/-- An `async_write` in progress: its message, and what is left of its buffer. -/
structure Write where
  message : Bytes
  rest : Bytes
  deriving DecidableEq, Repr

/-- The sending side of one connected socket. `send` keeps no queue of its own: every call
starts an `async_write` at once, and asio serves all of them. -/
structure Sender where
  writes : List Write
  wire : Bytes
  deriving DecidableEq, Repr

inductive SendAction
  | send (data : Bytes)
  /-- The stream accepts the next `size` bytes of the write with the given number. -/
  | accept (i size : ℕ)
  deriving DecidableEq, Repr

namespace Sender

def step (order : ByteOrder) (s : Sender) : SendAction → Option Sender
  | .send data => some { s with writes := s.writes ++ [⟨data, sendBuffer order data⟩] }
  | .accept i size =>
      match s.writes[i]? with
      | none => none
      | some w =>
          if 0 < size ∧ size ≤ w.rest.length then
            some ⟨s.writes.set i { w with rest := w.rest.drop size },
              s.wire ++ w.rest.take size⟩
          else none

def machine (order : ByteOrder) : Machine Sender SendAction where
  init := ⟨[], []⟩
  step := step order

end Sender

/-! ## The receive loop -/

/-- How a call ends. An exception leaves the completion handler that made the call; a failed
assertion aborts the process. -/
inductive Exit
  | returned
  | threw
  | aborted
  deriving DecidableEq, Repr

structure Outcome (σ : Type*) where
  user : σ
  exit : Exit
  deriving DecidableEq, Repr

/-- The two handlers given to `receive`, acting on whatever state `σ` they capture. -/
structure Handlers (σ : Type*) where
  onReceive : σ → Bytes → Outcome σ
  onError : Option (σ → ErrorCode → σ)

/-- `if(onError) { onError(cec); }` -/
def Handlers.fail {σ : Type*} (h : Handlers σ) (user : σ) (cec : ErrorCode) : σ :=
  match h.onError with
  | none => user
  | some onError => onError user cec

/-- Which read is pending. In `stopped` none is, and nothing arms another one. -/
inductive Phase
  | header
  | payload (size : ℕ)
  | stopped
  deriving DecidableEq, Repr

structure Receiver (σ : Type*) where
  incoming : Incoming
  connected : Bool
  phase : Phase
  user : σ

/-- Whether the header stage reports the error as a lost connection and disconnects. -/
def ReadError.isLoss : ReadError → Bool
  | eof | connectionReset => true
  | operationAborted | other => false

namespace Receiver

variable {σ : Type*} (order : ByteOrder) (h : Handlers σ)

/-- The completion handler of the header read. -/
def onHeader (r : Receiver σ) : ReadResult → Option (Receiver σ)
  | .pending => none
  | .ok header rest =>
      some { r with incoming := rest, phase := .payload (order.ofBytes header) }
  | .error ec =>
      if ec.isLoss then
        some { r with connected := false, phase := .stopped,
                      user := h.fail r.user .connectionLost }
      else
        some { r with phase := .stopped, user := h.fail r.user .receiveFailure }

/-- The completion handler of the payload read. It arms the next header read after `onReceive`
has returned; an exception skips that. -/
def onPayload (r : Receiver σ) : ReadResult → Option (Receiver σ)
  | .pending => none
  | .ok payload rest =>
      let outcome := h.onReceive r.user payload
      match outcome.exit with
      | .returned => some { r with incoming := rest, phase := .header, user := outcome.user }
      | .threw | .aborted =>
          some { r with incoming := rest, phase := .stopped, user := outcome.user }
  | .error _ => some { r with phase := .stopped, user := h.fail r.user .receiveFailure }

/-- Run the completion handler of the pending read, when that read can complete. -/
def complete (r : Receiver σ) : Option (Receiver σ) :=
  match r.phase with
  | .header => onHeader order h r (asyncRead 4 r.incoming)
  | .payload size => onPayload h r (asyncRead size r.incoming)
  | .stopped => none

/-- Bounds the completions that the present stream allows. -/
def work (r : Receiver σ) : ℕ :=
  match r.phase with
  | .header => 2 * r.incoming.bytes.length + 1
  | .payload _ => 2 * r.incoming.bytes.length + 2
  | .stopped => 0

/-- Run completion handlers until the loop waits for bytes or has stopped. -/
def drain (r : Receiver σ) : Receiver σ :=
  exhaust (complete order h) r.work r

/-- The socket right after `receive` was called on it. -/
def armed (incoming : Incoming) (user : σ) : Receiver σ :=
  ⟨incoming, true, .header, user⟩

end Receiver

end CommonLib.AsyncTcp
