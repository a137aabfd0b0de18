import Deps.Net.EpollContainer

/-!
# `TcpSocket`

The methods of `net/tcp_socket.cpp`.  A method gets the object it works on as its
first argument `this`; the fields are read from the object every time the source
reads them after something else could have changed them.
-/

namespace Deps
namespace Net

open Reentrant

/-- `TCP_CONNECT_TIMEOUT` -/
def tcpConnectTimeout : Int := 5

/-- `TCP_ACCESS_TIMEOUT` -/
def tcpAccessTimeout : Int := 60

/-- `MAX_READ_BUFF_SIZE` -/
def maxReadBuffSize : Nat := 65536

/-- `m_handler->HandlePacket(data, size, this)` -/
def handlePacket (this : SocketId) (data : List UInt8) : NetM Int :=
  Prog.callback (.handlePacket this data)

/-- `m_handler->HandleClose(this)` -/
def handleClose (this : SocketId) : NetM Unit := do
  let _ ← Prog.callback (.handleClose this)

/-- `SetLastAccessTime(time(NULL));` -/
def touch (this : SocketId) : NetM Unit := do
  let now ← ask .time
  store this fun s => { s with lastAccessTime := now }

/-- `m_input->append(data, n);` with the outcome of its call of `malloc`; the
result is not used. -/
def appendInput (this : SocketId) (data : List UInt8) : NetM Unit := do
  let malloc ← ask .malloc
  store this fun s => { s with input := (s.input.append malloc data).2 }

/-- `Close`, which is the same in both classes of sockets. -/
def closeSocket (this : SocketId) : NetM Unit := do
  let s ← load this
  -- the handler is told first, while the socket still has its descriptor
  if s.handler then
    handleClose this
  let _ ← EpollContainer.delSocket (some this)
  let s ← load this
  if s.fd ≠ -1 then
    ask (.close s.fd)
  store this fun s =>
    { s with fd := -1, state := .close, createTime := 0, lastAccessTime := 0 }

namespace TcpSocket

/-- The constructor. -/
def construct (handler isResending : Bool) : Socket where
  type := .tcp
  fd := -1
  state := .close
  createTime := 0
  lastAccessTime := 0
  peerAddr := none
  timeout := 0
  handler := handler
  input := BlockBuffer.new socketConfig
  output := BlockBuffer.new socketConfig
  isResending := isResending

/-- `new TcpSocket(pContainer, handler)`, which leaves `m_isResending` unset. -/
def create (handler : Bool) : NetM SocketId := do
  let isResending ← ask .uninitialized
  new (construct handler isResending)

def enableTcpNoDelay (this : SocketId) : NetM Bool := do
  let s ← load this
  ask (.setsockopt s.fd)

def close (this : SocketId) : NetM Unit := closeSocket this

/-- Register for the events, or close. -/
def modOrClose (this : SocketId) (events : Interest) : NetM Unit := do
  let modified ← EpollContainer.modSocket (some this) events
  if !modified then
    close this

def listen (port backlog : Int) (handler : Bool) : NetM Bool := do
  let some fd ← ask (.socket .tcp) | return false
  let nonblock ← ask (.fcntl fd)
  -- here and below the descriptor stays open when the call fails
  if !nonblock then
    return false
  let reuse ← ask (.setsockopt fd)
  if !reuse then
    return false
  let bound ← ask (.bind fd port)
  if !bound then
    return false
  let listening ← ask (.listen fd backlog)
  if !listening then
    return false
  let s ← create handler
  let now ← ask .time
  store s fun s => { s with fd := fd, createTime := now, lastAccessTime := now, state := .listen }
  let added ← EpollContainer.addSocket (some s) .readError
  if added then
    return true
  close s
  return false

def connect (ip : UInt32) (port : UInt16) (handler : Bool) : NetM (Option SocketId) := do
  let some fd ← ask (.socket .tcp) | return none
  let nonblock ← ask (.fcntl fd)
  if !nonblock then
    return none
  let peerAddr : SockAddr := ⟨ip, port⟩
  let ret ← ask (.connect fd peerAddr)
  let s ← create handler
  let now ← ask .time
  store s fun s =>
    { s with fd := fd, createTime := now, lastAccessTime := now, peerAddr := some peerAddr }
  match ret with
  | .ok () =>
      let added ← EpollContainer.addSocket (some s) .readError
      if added then
        -- a socket which is refused gets to `close` in the state of its constructor
        store s fun s => { s with state := .connected }
        return some s
      close s
      return none
  | .error .einprogress =>
      let added ← EpollContainer.addSocket (some s) .readWriteError
      if added then
        store s fun s => ({ s with state := .connecting }).setTimeout tcpConnectTimeout
        return some s
      close s
      return none
  | .error _ =>
      close s
      return none

def accept (this : SocketId) : NetM Unit := do
  let l ← load this
  match ← ask (.accept l.fd) with
  | .error _ => close this
  | .ok (afd, addr) =>
      let nonblock ← ask (.fcntl afd)
      if !nonblock then
        -- `this` is the listening socket; `afd` stays open
        close this
      else
        let s ← create l.handler
        let now ← ask .time
        store s fun s =>
          ({ s with
              fd := afd
              peerAddr := some addr
              createTime := now
              lastAccessTime := now
              state := .accept }).setTimeout tcpAccessTimeout
        let added ← EpollContainer.addSocket (some s) .readError
        if !added then
          close s
        else
          let nodelay ← enableTcpNoDelay s
          if !nodelay then
            close s

/-- The result of `HandlePacket` is not assigned to `pn`. -/
def read (this : SocketId) (maxReadSize : Nat) : NetM Unit := do
  touch this
  let s ← load this
  match ← ask (.recv s.fd maxReadSize) with
  | .error errno =>
      -- only `EAGAIN` closes, every other error is passed over
      if errno ≠ .eagain then
        return ()
      else
        close this
  | .ok [] => close this
  | .ok data =>
      appendInput this data
      let pn : Int := 0
      let s ← load this
      if s.handler then
        let _ ← handlePacket this s.input.content
      if pn > 0 then
        store this fun s => { s with input := s.input.erase 0 pn.toNat false }
      else if pn < 0 then
        close this

/-- The loop of `Write`.  Every turn but the last takes a byte of the output off,
so the size of the output bounds the number of turns. -/
def writeLoop (this : SocketId) : Nat → NetM Unit
  | 0 => .fault .sendLoop
  | turns + 1 => do
      let s ← load this
      match ← ask (.send s.fd s.output.content) with
      | .error errno =>
          if errno = .eagain then
            let modified ← EpollContainer.modSocket (some this) .readWriteError
            if !modified then
              close this
            else
              store this fun s => { s with isResending := true }
          else
            close this
      | .ok n =>
          store this fun s => { s with output := s.output.erase 0 n false }
          let s ← load this
          if s.output.size ≤ 0 then
            if s.isResending then
              -- everything is sent, so the write events are not needed any more
              store this fun s => { s with isResending := false }
              modOrClose this .readError
          else
            writeLoop this turns

def write (this : SocketId) : NetM Unit := do
  touch this
  let s ← load this
  if s.output.size < 1 then
    return ()
  writeLoop this s.output.size

def handleRead (this : SocketId) (maxReadSize : Nat) : NetM Unit := do
  let s ← load this
  match s.state with
  | .listen => accept this
  | .accept | .connecting | .connected => read this maxReadSize
  | .close => return ()

def handleWrite (this : SocketId) : NetM Unit := do
  let s ← load this
  match s.state with
  | .connecting =>
      store this fun s => { s with state := .connected, timeout := 0 }
      modOrClose this .readError
  | .accept | .connected => write this
  | .listen | .close => return ()

def handleError (this : SocketId) : NetM Unit := close this

def handleTimeout (this : SocketId) : NetM Unit := do
  let now ← ask .time
  let s ← load this
  match s.state with
  | .accept | .connected | .connecting =>
      if s.timeout > 0 ∧ s.lastAccessTime > 0 ∧ s.lastAccessTime + s.timeout < now then
        close this
  | .listen | .close => return ()

/-- No bytes stand for a null pointer or a size of 0. -/
def sendPacket (this : SocketId) (data : List UInt8) : NetM Bool := do
  let s ← load this
  if SocketState.accept ≠ s.state ∧ SocketState.connected ≠ s.state then
    return false
  if data.length < 1 then
    return true
  let malloc ← ask .malloc
  let (appended, output) := s.output.append malloc data
  store this fun s => { s with output := output }
  if appended then
    write this
    return true
  return false

end TcpSocket
end Net
end Deps
