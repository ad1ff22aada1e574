import CommonLib.Library.Loop
import CommonLib.Model.Uart
import Mathlib.Data.Stream.Defs

/-! The serial port of `Uart.cpp`, on Windows: `read` and `readline` over single-byte calls of
`ReadFile`. -/

namespace CommonLib.Uart.Windows

/-- What one `Wrapper_ReadFile` of one byte gives. -/
inductive ReadFile
  | failed
  /-- Success with `bytesRead == 0`: nothing came until the timeout. -/
  | empty
  | byte (ch : UInt8)
  deriving DecidableEq, Repr

def ReadFile.bytes : ReadFile → Bytes
  | .failed | .empty => []
  | .byte ch => [ch]

/-- The device: what its next reads will give, and what it has handed out. -/
structure Port where
  results : Stream' ReadFile
  consumed : Bytes

def Port.readFile (port : Port) : ReadFile × Port :=
  (port.results.head, ⟨port.results.tail, port.consumed ++ port.results.head.bytes⟩)

/-! ## `read` -/

/-- The local variables of `read` and its buffer; `readSize` is the length. -/
structure Reading where
  port : Port
  buffer : Bytes

/-- `return (readSize > 0)` -/
def Reading.success (r : Reading) : Bool :=
  decide (0 < r.buffer.length)

/-- The loop of `read`. -/
def readTurn (size : ℕ) (s : Reading) : Turn Reading Reading :=
  match s.port.readFile with
  | (.failed, port) => .done { s with port := port }
  | (.empty, port) => .again { s with port := port }
  | (.byte ch, port) =>
      if s.buffer.length < size then .again ⟨port, s.buffer ++ [ch]⟩
      else .done { s with port := port }

/-- `read` returns, and leaves this behind. -/
def Read (size : ℕ) (port : Port) (r : Reading) : Prop :=
  Ends (readTurn size) ⟨port, []⟩ r

/-! ## `readline` -/

/-- The local variables of `readline`. -/
structure Lining where
  port : Port
  state : LineState

/-- One byte of the line. -/
def lineByte (eol : Bytes) (port : Port) (s : LineState) (ch : UInt8) : Turn Lining Lining :=
  if eol[s.endIdx]? = some ch then
    if s.endIdx + 1 = eol.length then .done ⟨port, s.endIdx + 1, s.line ++ [ch]⟩
    else .again ⟨port, s.endIdx + 1, s.line ++ [ch]⟩
  else if 0 < s.endIdx then
    if eol[0]? = some ch then .again ⟨port, 1, s.line ++ eol.take s.endIdx⟩
    else .again ⟨port, 0, s.line ++ eol.take s.endIdx ++ [ch]⟩
  else .again ⟨port, s.endIdx, s.line ++ [ch]⟩

/-- The loop of `readline`. -/
def lineTurn (eol : Bytes) (s : Lining) : Turn Lining Lining :=
  match s.port.readFile with
  | (.failed, port) => .done { s with port := port }
  | (.empty, port) => .again { s with port := port }
  | (.byte ch, port) => lineByte eol port s.state ch

/-- `readline` returns; the string is the line of what it leaves behind. -/
def Readline (escapeSequence : EscapeSequence) (port : Port) (r : Lining) : Prop :=
  Ends (lineTurn (endOfLine escapeSequence)) ⟨port, 0, []⟩ r

end CommonLib.Uart.Windows
