import Deps.Net.TcpSocket

/-!
# `UdpSocket`

The methods of `net/udp_socket.cpp`, in the manner of `TcpSocket`.  What
`getsockopt` finds is logged only, and left out.
-/

namespace Deps
namespace Net
namespace UdpSocket

open Reentrant

/-- The constructor.  The last two fields are those of a `TcpSocket`. -/
def construct (handler : Bool) : Socket where
  type := .udp
  fd := -1
  state := .close
  createTime := 0
  lastAccessTime := 0
  peerAddr := none
  timeout := 0
  handler := handler
  input := BlockBuffer.new socketConfig
  output := BlockBuffer.new socketConfig
  isResending := false

/-- `SetRecvBufferSize` and `SetSendBufferSize`, whose failures are logged only. -/
def setBufferSize (this : SocketId) : NetM Unit := do
  let s ← load this
  let _ ← ask (.setsockopt s.fd)

def close (this : SocketId) : NetM Unit := closeSocket this

def listen (port : Int) (handler : Bool) : NetM Bool := do
  let some fd ← ask (.socket .udp) | return false
  let nonblock ← ask (.fcntl fd)
  if !nonblock then
    return false
  let reuse ← ask (.setsockopt fd)
  if !reuse then
    return false
  let bound ← ask (.bind fd port)
  if !bound then
    return false
  let s ← new (construct handler)
  let now ← ask .time
  store s fun s => { s with fd := fd, createTime := now, lastAccessTime := now, state := .listen }
  let added ← EpollContainer.addSocket (some s) .readError
  if added then
    setBufferSize s
    setBufferSize s
    return true
  close s
  return false

def connect (ip : UInt32) (port : UInt16) (handler : Bool) : NetM (Option SocketId) := do
  let some fd ← ask (.socket .udp) | return none
  let nonblock ← ask (.fcntl fd)
  if !nonblock then
    return none
  let peerAddr : SockAddr := ⟨ip, port⟩
  let s ← new (construct handler)
  let now ← ask .time
  store s fun s =>
    { s with
      fd := fd
      createTime := now
      lastAccessTime := now
      peerAddr := some peerAddr
      state := .connected }
  let added ← EpollContainer.addSocket (some s) .readError
  if added then
    return some s
  close s
  return none

def read (this : SocketId) (maxReadSize : Nat) : NetM Unit := do
  touch this
  let s ← load this
  match ← ask (.recvfrom s.fd maxReadSize) with
  | .error errno =>
      if errno ≠ .eagain then
        return ()
      else
        close this
  | .ok ([], _) => close this
  | .ok (data, _) =>
      appendInput this data
      let s ← load this
      let pn ← if s.handler then handlePacket this s.input.content else pure 0
      if pn > 0 then
        store this fun s => { s with input := s.input.erase 0 pn.toNat false }
      else if pn < 0 then
        close this

def handleRead (this : SocketId) (maxReadSize : Nat) : NetM Unit := read this maxReadSize

def handleWrite (this : SocketId) : NetM Unit := do
  let _ ← load this

def handleError (this : SocketId) : NetM Unit := close this

def handleTimeout (this : SocketId) : NetM Unit := do
  let now ← ask .time
  let s ← load this
  if s.state = .connected then
    if s.timeout > 0 ∧ s.lastAccessTime > 0 ∧ s.lastAccessTime + s.timeout < now then
      close this

/-- No bytes stand for a null pointer or a size of 0. -/
def sendPacket (this : SocketId) (data : List UInt8) : NetM Bool := do
  touch this
  let s ← load this
  if SocketState.listen ≠ s.state ∧ SocketState.connected ≠ s.state then
    return false
  if data.length < 1 then
    return true
  match ← ask (.sendto s.fd data s.peerAddr) with
  | none => return false
  | some n => if n = 0 then return false else return true

end UdpSocket
end Net
end Deps
