import Deps.Net.UdpSocket

/-!
# The event loop

`HandleSockets` and `CheckTimeoutSocket` of `EpollContainer`, on the branch for
epoll, and the methods by which an application enters the library.
-/

namespace Deps
namespace Net

open Reentrant

/-! ## Virtual methods of `SocketBase` -/

namespace SocketBase

def handleRead (this : SocketId) (maxReadSize : Nat) : NetM Unit := do
  let s ← load this
  match s.type with
  | .tcp => TcpSocket.handleRead this maxReadSize
  | .udp => UdpSocket.handleRead this maxReadSize

def handleWrite (this : SocketId) : NetM Unit := do
  let s ← load this
  match s.type with
  | .tcp => TcpSocket.handleWrite this
  | .udp => UdpSocket.handleWrite this

def handleError (this : SocketId) : NetM Unit := do
  let s ← load this
  match s.type with
  | .tcp => TcpSocket.handleError this
  | .udp => UdpSocket.handleError this

def handleTimeout (this : SocketId) : NetM Unit := do
  let s ← load this
  match s.type with
  | .tcp => TcpSocket.handleTimeout this
  | .udp => UdpSocket.handleTimeout this

def sendPacket (this : SocketId) (data : List UInt8) : NetM Bool := do
  let s ← load this
  match s.type with
  | .tcp => TcpSocket.sendPacket this data
  | .udp => UdpSocket.sendPacket this data

def close (this : SocketId) : NetM Unit := do
  let s ← load this
  match s.type with
  | .tcp => TcpSocket.close this
  | .udp => UdpSocket.close this

end SocketBase

namespace EpollContainer

/-- An iterator of `m_socketMap`: the element it is at, or `end()`. -/
abbrev Iterator := Option (Fd × SocketId)

/-- `m_socketMap.upper_bound(fd)` -/
def upperBound (fd : Fd) : NetM Iterator := do
  let c ← members
  return (c.socketMap.above fd).head?

/-- `++itr`.  The element must not have been erased, and a socket which was erased
is never inserted again. -/
def advance (fd : Fd) (s : SocketId) : NetM Iterator := do
  let c ← members
  if c.socketMap.find fd = some s then
    return (c.socketMap.above fd).head?
  else
    .fault .invalidIterator

/-- The loop of `CheckTimeoutSocket`, with the number of turns that `checkCnt`
leaves; the pointers in the map are not null. -/
def checkEach : Nat → Iterator → NetM Iterator
  | 0, itr => pure itr
  | _ + 1, none => pure none
  | turns + 1, some (fd, s) => do
      Prog.modify fun w => { w with checkFd := fd }
      -- a timeout which closes the socket erases the element `itr` is at
      SocketBase.handleTimeout s
      let itr ← advance fd s
      checkEach turns itr

def checkTimeoutSocket : NetM Unit := do
  let w ← Prog.read
  let itr ← upperBound w.checkFd
  let itr ← checkEach 1000 itr
  if itr.isNone then
    Prog.modify fun w => { w with checkFd := 0 }

/-- The body of the loop over `m_events`. -/
def handleEvent (e : Ready) : NetM Unit := do
  match ← getSocket e.fd with
  | none => log (.notInContainer e.fd)
  | some s =>
      if e.epollerr then
        log (.epollEvents e.fd s)
        SocketBase.handleError s
      else
        if e.epollin then
          log (.epollReadEvents e.fd s)
          SocketBase.handleRead s maxReadBuffSize
        -- `s` may have been closed meanwhile, but it is not deleted before the next turn
        if e.epollout then
          log (.epollWriteEvents e.fd s)
          SocketBase.handleWrite s

def handleEvents : List Ready → NetM Unit
  | [] => pure ()
  | e :: rest => do
      handleEvent e
      handleEvents rest

def handleSockets : NetM Unit := do
  checkCloseSocket
  checkTimeoutSocket
  let c ← members
  match ← ask (.epollWait c.maxFdCount) with
  | none => return ()
  | some events => handleEvents events

end EpollContainer

/-! ## Methods -/

/-- The entry points of the library. -/
inductive Method where
  | tcpListen (port backlog : Int) (handler : Bool)
  | tcpConnect (ip : UInt32) (port : UInt16) (handler : Bool)
  | udpListen (port : Int) (handler : Bool)
  | udpConnect (ip : UInt32) (port : UInt16) (handler : Bool)
  | handleSockets
  | handleRead (s : SocketId)
  | handleWrite (s : SocketId)
  | handleError (s : SocketId)
  | handleTimeout (s : SocketId)
  | sendPacket (s : SocketId) (data : List UInt8)
  | close (s : SocketId)

/-- What an entry point returns. -/
inductive Value where
  | unit
  | bool (b : Bool)
  | socket (s : Option SocketId)

/-- The object on which a method is called. -/
def Method.target : Method → Option SocketId
  | handleRead s | handleWrite s | handleError s | handleTimeout s | sendPacket s _ | close s =>
      some s
  | _ => none

namespace Method

def returning {α : Type} (x : NetM α) (value : α → Value) : NetM Value := do
  let a ← x
  pure (value a)

def body : Method → NetM Value
  | tcpListen port backlog handler => returning (TcpSocket.listen port backlog handler) .bool
  | tcpConnect ip port handler => returning (TcpSocket.connect ip port handler) .socket
  | udpListen port handler => returning (UdpSocket.listen port handler) .bool
  | udpConnect ip port handler => returning (UdpSocket.connect ip port handler) .socket
  | handleSockets => returning EpollContainer.handleSockets fun _ => .unit
  | handleRead s => returning (SocketBase.handleRead s maxReadBuffSize) fun _ => .unit
  | handleWrite s => returning (SocketBase.handleWrite s) fun _ => .unit
  | handleError s => returning (SocketBase.handleError s) fun _ => .unit
  | handleTimeout s => returning (SocketBase.handleTimeout s) fun _ => .unit
  | sendPacket s data => returning (SocketBase.sendPacket s data) .bool
  | close s => returning (SocketBase.close s) fun _ => .unit

end Method

/-- The configurations of runs of the library. -/
abbrev NetConfig := Config World Question Answer Callback NetFault Method Value

abbrev NetEvent := Event Question Answer Callback Method Value

abbrev NetSpec := Spec World Question Answer Callback NetFault Method Value

abbrev NetEnvironment := Environment World Question Answer Callback Method

end Net
end Deps
