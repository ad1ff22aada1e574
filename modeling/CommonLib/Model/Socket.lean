import CommonLib.Library.ByteOrder

/-! `DetailSocket` of `Socket.cpp` on Linux: what the calls of `read` and `send` make of the answers
of the operating system. -/

namespace CommonLib.Communication

structure CommunicationException where
  detail : String
  deriving DecidableEq, Repr

/-- What `::read` gives for a buffer of `size` bytes. -/
inductive ReadResult (size : ℕ)
  /-- The bytes that it stored: none at the end of the stream. -/
  | stored (bytes : Bytes) (fits : bytes.length ≤ size) (ssize : bytes.length < 2 ^ 63)
  | failed

/-- What `::send` gives for a buffer of `size` bytes. -/
inductive SendResult (size : ℕ)
  /-- The number of bytes that it took. -/
  | accepted (count : ℕ) (fits : count ≤ size) (ssize : count < 2 ^ 63)
  | failed

def ReadResult.bytes {size : ℕ} : ReadResult size → Bytes
  | .stored bytes _ _ => bytes
  | .failed => []

/-- The `ssize_t` that is returned. -/
def ReadResult.value {size : ℕ} : ReadResult size → ℤ
  | .stored bytes _ _ => bytes.length
  | .failed => -1

def SendResult.value {size : ℕ} : SendResult size → ℤ
  | .accepted count _ _ => count
  | .failed => -1

/-- Conversion to `size_t`. -/
def toSizeT (n : ℤ) : ℕ := (n % 2 ^ 64).toNat

section DetailSocket

variable (strerror : ℤ → String) (errno : ℤ) {size : ℕ}

def socketError : CommunicationException := ⟨"Socket error:" ++ strerror errno⟩

/-- `errno` is its value behind the call of `::read`. -/
def DetailSocket.read (result : ReadResult size) : Except CommunicationException ℕ :=
  let readSize := toSizeT result.value
  if readSize = 0 then .error (socketError strerror errno) else .ok readSize

def DetailSocket.send (result : SendResult size) : Except CommunicationException Unit :=
  if result.value < 0 then .error (socketError strerror errno) else .ok ()

/-- The time for which the timed `read` lets `select` wait, in seconds and microseconds. -/
structure Timeval where
  sec : ℤ
  usec : ℤ
  deriving DecidableEq, Repr

/-- `val`; the product is one of `uint32_t` numbers. -/
def timeval (millisecond : UInt32) : Timeval :=
  ⟨0, (millisecond * 1000).toNat⟩

/-- What `select` gives for the one descriptor that it is asked about. -/
inductive SelectResult
  | ready
  | timedOut
  /-- The set of descriptors is as it was before. -/
  | failed
  deriving DecidableEq, Repr

/-- `FD_ISSET(get_conn(), &readFd)` -/
def SelectResult.isSet : SelectResult → Bool
  | .ready | .failed => true
  | .timedOut => false

/-- The timed `read`. -/
def DetailSocket.readTimed (select : SelectResult) (result : ReadResult size) :
    Except CommunicationException ℕ := do
  let readSize := 0
  if select.isSet then
    let _ ← DetailSocket.read strerror errno result
  return readSize

end DetailSocket

/-- A call of a `DetailSocket`, with the answer of the operating system to it. -/
inductive IoCall
  | read (size : ℕ) (result : ReadResult size) (errno : ℤ)
  | send (size : ℕ) (result : SendResult size) (errno : ℤ)

end CommonLib.Communication
