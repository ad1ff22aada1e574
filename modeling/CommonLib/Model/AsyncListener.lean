import CommonLib.Library.Machine

/-! `AsyncListenerImpl` of `AsyncTcp.cpp`: the accept loop, against `stop` and the connections that
come in. Any thread may call `listen` and `stop` between any two steps. -/

namespace CommonLib.AsyncTcp

/-- The asio errors that the loop or the acceptor tells apart. -/
inductive AcceptError
  | operationAborted
  | badDescriptor
  | other (code : ℕ)
  deriving DecidableEq

/-- How an `async_accept` completes. -/
inductive Accepted (ι : Type*)
  | connection (c : ι)
  | error (ec : AcceptError)
  deriving DecidableEq

/-- The accept operation of one `listen`, and its completion handler. -/
inductive AcceptLoop (ι : Type*)
  | pending
  /-- The accept is complete, and its handler waits to be run. -/
  | completed (result : Accepted ι)
  /-- The handler is in `onAccept`; `listening` comes next. -/
  | accepting
  | ended
  deriving DecidableEq

structure AsyncListener (ι : Type*) where
  /-- `_acceptor && _acceptor->is_open()` -/
  isOpen : Bool
  /-- Connections that the acceptor has not yet been asked for, oldest first. -/
  backlog : List ι
  /-- One for each `listen`. -/
  loops : List (AcceptLoop ι)
  /-- The connections passed to `onAccept`, oldest first. -/
  handed : List ι
  /-- History variable: the connections that came in. -/
  arrived : List ι
  /-- History variable: the connections that went down with an acceptor. -/
  lost : List ι
  /-- An exception left a `noexcept` function. -/
  terminated : Bool
  deriving DecidableEq

inductive ListenerAction (ι : Type*)
  /-- Whether the endpoint can be bound is up to the system. -/
  | listen (bound : Bool)
  | stop
  | arrive (c : ι)
  /-- The pending accept of a loop takes the oldest connection. -/
  | accept (k : ℕ)
  | fail (k : ℕ) (ec : AcceptError)
  /-- The completion handler of a loop runs, up to the call of `onAccept`. -/
  | handle (k : ℕ)
  /-- `onAccept` returns, and the loop is armed again. -/
  | returns (k : ℕ)
  /-- `onAccept` throws. -/
  | throws (k : ℕ)
  deriving DecidableEq

/-- What becomes of the accept operations when their acceptor is closed. -/
def AcceptLoop.abort {ι : Type*} : AcceptLoop ι → AcceptLoop ι
  | .pending => .completed (.error .operationAborted)
  | loop => loop

namespace AsyncListener

variable {ι : Type*}

def init : AsyncListener ι := ⟨false, [], [], [], [], [], false⟩

def setLoop (s : AsyncListener ι) (k : ℕ) (loop : AcceptLoop ι) : AsyncListener ι :=
  { s with loops := s.loops.set k loop }

/-- The acceptor is closed or destroyed. -/
def close (s : AsyncListener ι) : AsyncListener ι :=
  { s with isOpen := false, backlog := [], loops := s.loops.map AcceptLoop.abort,
           lost := s.lost ++ s.backlog }

/-- `listen`, which puts a new acceptor in the place of the old one. The constructor of the acceptor
throws when it cannot bind. -/
def listen (s : AsyncListener ι) (bound : Bool) : AsyncListener ι :=
  if bound then { s.close with isOpen := true, loops := s.close.loops ++ [.pending] }
  else { s with terminated := true }

def stop (s : AsyncListener ι) : AsyncListener ι :=
  if s.isOpen then s.close else s

/-- `listening` of a loop under way. On a closed acceptor an accept completes with
`bad_descriptor`. -/
def listening (s : AsyncListener ι) (k : ℕ) : AsyncListener ι :=
  s.setLoop k (if s.isOpen then .pending else .completed (.error .badDescriptor))

/-- The completion handler, up to the call of `onAccept`. -/
def handler (s : AsyncListener ι) (k : ℕ) : Accepted ι → AsyncListener ι
  | .connection c => { s with handed := s.handed ++ [c] }.setLoop k .accepting
  | .error .operationAborted => s.setLoop k .ended
  | .error _ => if s.isOpen then s.listening k else s.setLoop k .ended

def step (s : AsyncListener ι) (a : ListenerAction ι) : Option (AsyncListener ι) :=
  if s.terminated then none
  else
    match a with
    | .listen bound => some (s.listen bound)
    | .stop => some s.stop
    | .arrive c => if s.isOpen then
        some { s with backlog := s.backlog ++ [c], arrived := s.arrived ++ [c] } else none
    | .accept k =>
        match s.loops[k]?, s.backlog with
        | some .pending, c :: rest =>
            some ({ s with backlog := rest }.setLoop k (.completed (.connection c)))
        | _, _ => none
    | .fail k ec =>
        match s.loops[k]? with
        | some .pending =>
            if ec = .operationAborted then none else some (s.setLoop k (.completed (.error ec)))
        | _ => none
    | .handle k =>
        match s.loops[k]? with
        | some (.completed result) => some (s.handler k result)
        | _ => none
    | .returns k =>
        match s.loops[k]? with
        | some .accepting => some (s.listening k)
        | _ => none
    | .throws k =>
        match s.loops[k]? with
        | some .accepting => some (s.setLoop k .ended)
        | _ => none

variable (ι) in
def machine : Machine (AsyncListener ι) (ListenerAction ι) where
  init := init
  step := step

end AsyncListener

end CommonLib.AsyncTcp
