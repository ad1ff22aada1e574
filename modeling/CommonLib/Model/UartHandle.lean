import Mathlib.Data.Nat.Notation
import Mathlib.Tactic.TypeStar

/-! The serial port of `Uart.cpp`: what becomes of the handle of the operating system, in the build
without `STRICT_MODE`. -/

namespace CommonLib.Uart

inductive Platform
  | windows
  | linux
  deriving DecidableEq, Repr

/-- What the calls of the operating system inside one `open` give. The last three are made on
Windows only. -/
structure OpenResults where
  /-- `Wrapper_CreateFile` or `Wrapper_Open` gives a handle. -/
  handle : Bool
  getCommState : Bool
  setCommState : Bool
  setCommTimeouts : Bool
  deriving Repr

/-- Handles are numbered in the order in which the operating system gives them out; `none` is
`INVALID_HANDLE_VALUE` or `-1`. -/
structure UartImpl where
  isOpen : Bool
  handle : Option ℕ
  obtained : ℕ
  /-- The handles passed to `Wrapper_CloseHandle` or `Wrapper_Close`, in order. -/
  closed : List (Option ℕ)
  deriving DecidableEq, Repr

def UartImpl.init : UartImpl := ⟨false, none, 0, []⟩

/-- `_handle = _handler->Wrapper_CreateFile(..)`, or `_fd = _handler->Wrapper_Open(..)` -/
def UartImpl.createFile (succeeds : Bool) (s : UartImpl) : UartImpl :=
  if succeeds then { s with handle := some s.obtained, obtained := s.obtained + 1 }
  else { s with handle := none }

def UartImpl.closeHandle (s : UartImpl) : UartImpl :=
  { s with closed := s.closed ++ [s.handle] }

def UartImpl.opened (s : UartImpl) : Bool × UartImpl :=
  (true, { s with isOpen := true })

/-- The answer of `open`, and the port behind it. -/
def UartImpl.open (platform : Platform) (results : OpenResults) (s : UartImpl) : Bool × UartImpl :=
  if s.isOpen then (false, s)
  else
    let s := s.createFile results.handle
    if s.handle = none then (s.isOpen, s)
    else match platform with
      | .windows =>
          if !results.getCommState then (s.isOpen, s.closeHandle)
          else if !results.setCommState then (s.isOpen, s.closeHandle)
          else if !results.setCommTimeouts then (s.isOpen, s.closeHandle)
          else s.opened
      | .linux => s.opened

def UartImpl.close (s : UartImpl) : UartImpl :=
  if s.isOpen then { s.closeHandle with isOpen := false } else s

/-- `~UartImpl`: only the strict build looks at `_isOpen`. -/
def UartImpl.destroy (s : UartImpl) : UartImpl := s

/-- The calls that a user makes on a port. -/
inductive PortCall
  | open (results : OpenResults)
  | close
  deriving Repr

def PortCall.apply (platform : Platform) (s : UartImpl) : PortCall → UartImpl
  | .open results => (s.open platform results).2
  | .close => s.close

/-- A new port after some calls. -/
def afterCalls (platform : Platform) (calls : List PortCall) : UartImpl :=
  calls.foldl (PortCall.apply platform) .init

end CommonLib.Uart
