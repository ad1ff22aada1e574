import CommonLib.Library.ByteOrder

/-! The serial port of `Uart.cpp`, on Linux: `readline` over the reads of the device. -/

namespace CommonLib.Uart

inductive EscapeSequence
  | nullEnd
  | lineFeed
  | carriageReturn
  deriving DecidableEq, Repr

/-- `EndOfLine`. -/
def endOfLine : EscapeSequence → Bytes
  | .nullEnd => [0]
  | .lineFeed => [10]
  | .carriageReturn => [13, 10]

/-- What one `Wrapper_Read` with room for 255 bytes gives while there is data. -/
structure Chunk where
  bytes : Bytes
  nonempty : bytes ≠ []
  fits : bytes.length ≤ 255

/-- The bytes that the device still has, cut as its reads will cut them. Behind the last chunk a
read gives no data. -/
abbrev Device := List Chunk

/-- The whole stream of the device. -/
def stream (device : Device) : Bytes :=
  (device.map Chunk.bytes).flatten

/-- The local variables of `readline`. -/
structure LineState where
  endIdx : ℕ
  line : Bytes
  deriving DecidableEq, Repr

inductive Scan
  /-- `return line` in the middle of the chunk. -/
  | returned (line : Bytes)
  | exhausted (state : LineState)
  deriving DecidableEq, Repr

/-- The loop over the bytes of one chunk. -/
def scan (eol : Bytes) (s : LineState) : Bytes → Scan
  | [] => .exhausted s
  | ch :: rest =>
      if eol[s.endIdx]? = some ch then
        if s.endIdx + 1 = eol.length then .returned (s.line ++ [ch])
        else scan eol ⟨s.endIdx + 1, s.line ++ [ch]⟩ rest
      else if 0 < s.endIdx then
        if eol[0]? = some ch then scan eol ⟨1, s.line ++ eol.take s.endIdx⟩ rest
        else scan eol ⟨0, s.line ++ eol.take s.endIdx ++ [ch]⟩ rest
      else scan eol ⟨s.endIdx, s.line ++ [ch]⟩ rest

/-- The loop over the reads. The buffer is a local variable, so that a `return` drops what the
chunk holds behind the terminator. -/
def readLoop (eol : Bytes) (s : LineState) : Device → Bytes × Device
  | [] => (s.line, [])
  | chunk :: device =>
      match scan eol s chunk.bytes with
      | .returned line => (line, device)
      | .exhausted s' => readLoop eol s' device

def readline (escapeSequence : EscapeSequence) (device : Device) : Bytes × Device :=
  readLoop (endOfLine escapeSequence) ⟨0, []⟩ device

/-- The strings that `readline` returns, call after call, until the device has no more data. -/
def readlines (escapeSequence : EscapeSequence) : ℕ → Device → List Bytes
  | 0, _ => []
  | _ + 1, [] => []
  | calls + 1, chunk :: device =>
      let result := readline escapeSequence (chunk :: device)
      result.1 :: readlines escapeSequence calls result.2

/-- Every call takes at least one chunk. -/
def readAll (escapeSequence : EscapeSequence) (device : Device) : List Bytes :=
  readlines escapeSequence device.length device

end CommonLib.Uart
