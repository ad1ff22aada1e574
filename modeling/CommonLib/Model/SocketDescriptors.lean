import CommonLib.Model.Socket

/-! `Server` and `Client` of `Socket.cpp` on Linux: what becomes of the descriptors of the operating
system. -/

namespace CommonLib.Communication

inductive SocketType
  | server
  | client
  deriving DecidableEq, Repr

/-- What `socket` gives. -/
inductive SocketResult
  | failed
  /-- A descriptor; `zero` says that its number is 0. -/
  | given (zero : Bool)
  deriving DecidableEq, Repr

/-- Which calls of the operating system inside one `open` succeed. The first four are made by a
server, the last two by a client. -/
structure OpenResults where
  setsockopt : Bool
  bind : Bool
  listen : Bool
  accept : Bool
  inetPton : Bool
  connect : Bool
  deriving DecidableEq, Repr

/-- Descriptors are numbered in the order in which the operating system gives them out; `none` is
`-1`. -/
structure DetailSocket where
  fd : Option ℕ
  conn : Option ℕ
  obtained : ℕ
  /-- What has been passed to `::close`, in order. -/
  closed : List (Option ℕ)
  deriving DecidableEq, Repr

def DetailSocket.init : DetailSocket := ⟨none, none, 0, []⟩

def DetailSocket.close (s : DetailSocket) : DetailSocket :=
  { s with closed := s.closed ++ [s.fd] }

/-- A failing `socket` gives `-1`, which is not the 0 that is tested for. -/
def DetailSocket.prepare (result : SocketResult) (s : DetailSocket) :
    Except CommunicationException Unit × DetailSocket :=
  match result with
  | .failed => (.ok (), { s with fd := none })
  | .given zero =>
      let s := { s with fd := some s.obtained, obtained := s.obtained + 1 }
      if zero then (.error ⟨""⟩, s.close) else (.ok (), s)

section Open

variable (strerror : ℤ → String) (errno : ℤ)

/-- `close(); throw CommunicationException(what);` -/
def DetailSocket.fail (what : String) (s : DetailSocket) :
    Except CommunicationException Unit × DetailSocket :=
  (.error ⟨what ++ strerror errno⟩, s.close)

/-- `set_conn(accept(get_socket(), ..))` -/
def DetailSocket.accept (succeeds : Bool) (s : DetailSocket) : DetailSocket :=
  if succeeds then { s with conn := some s.obtained, obtained := s.obtained + 1 }
  else { s with conn := none }

def Server.open (results : OpenResults) (s : DetailSocket) :
    Except CommunicationException Unit × DetailSocket :=
  if !results.setsockopt then s.fail strerror errno "Socket setsockopt error: "
  else if !results.bind then s.fail strerror errno "Server bind error: "
  else if !results.listen then s.fail strerror errno "Server listen error: "
  else
    let s := s.accept results.accept
    if s.conn = none then s.fail strerror errno "Server accept error: " else (.ok (), s)

def Client.open (results : OpenResults) (s : DetailSocket) :
    Except CommunicationException Unit × DetailSocket :=
  if !results.inetPton then (.error ⟨"Client inet_pton error:" ++ strerror errno⟩, s)
  else if !results.connect then s.fail strerror errno "Client connect error:"
  else (.ok (), { s with conn := s.fd })

end Open

/-- The deleter that `Socket::__create` gives to the pointer. -/
def DetailSocket.destroy (s : DetailSocket) : DetailSocket := s.close

/-- The calls that a user makes; `errno` is its value behind the call that fails. -/
inductive SocketCall
  | prepare (result : SocketResult)
  | open (results : OpenResults) (errno : ℤ)
  | close
  deriving DecidableEq, Repr

/-- An exception is caught by the user. -/
def SocketCall.apply (strerror : ℤ → String) (type : SocketType) (s : DetailSocket) :
    SocketCall → DetailSocket
  | .prepare result => (s.prepare result).2
  | .open results errno =>
      match type with
      | .server => (Server.open strerror errno results s).2
      | .client => (Client.open strerror errno results s).2
  | .close => s.close

/-- A socket after some calls, from the state `s` on, and the run of its deleter. -/
def DetailSocket.afterLife (strerror : ℤ → String) (type : SocketType) (s : DetailSocket)
    (calls : List SocketCall) : DetailSocket :=
  (calls.foldl (SocketCall.apply strerror type) s).destroy

end CommonLib.Communication
