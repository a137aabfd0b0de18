import Deps.Lib.OrderedMap
import Deps.Lib.Reentrant
import Deps.Net.BlockBuffer

/-!
# Sockets, their container and the kernel

The world which the methods of `TcpSocket`, `UdpSocket` and `EpollContainer` work
on: the socket objects on the heap, one container, and the part of the kernel
which they rely on, its open descriptors and the registrations of the epoll
instance.  System calls are questions; `Kernel.answers` says which answers a
question may get and what they change.

Log lines are questions without an answer, as far as `HandleSockets` writes them;
the other log lines are left out.
-/

namespace Deps
namespace Net

open Reentrant

abbrev Fd := Int

/-- The name of a socket object; a name is never used again. -/
abbrev SocketId := Nat

/-- The value of `errno` after a system call which failed. -/
inductive Errno where
  | eagain
  | einprogress
  | econnreset
  | etimedout
  | econnaborted
  | eintr
  | emfile
  | enfile
  | ebadf
  | einval
  | enotsock
  | other (code : Nat)
  deriving DecidableEq, Repr

structure SockAddr where
  ip : UInt32
  port : UInt16
  deriving DecidableEq, Repr

/-- A set of `SOCKET_EVENT_READ`, `SOCKET_EVENT_WRITE` and `SOCKET_EVENT_ERROR`. -/
structure Interest where
  read : Bool
  write : Bool
  error : Bool
  deriving DecidableEq, Repr

namespace Interest

/-- `SOCKET_EVENT_READ|SOCKET_EVENT_ERROR` -/
def readError : Interest := ⟨true, false, true⟩

/-- `SOCKET_EVENT_READ|SOCKET_EVENT_WRITE|SOCKET_EVENT_ERROR` -/
def readWriteError : Interest := ⟨true, true, true⟩

end Interest

/-- An event returned by `epoll_wait`: the descriptor in `data.fd`, and which of
`EPOLLIN`, `EPOLLOUT` and `EPOLLERR` are set in its mask. -/
structure Ready where
  fd : Fd
  epollin : Bool
  epollout : Bool
  epollerr : Bool
  deriving DecidableEq, Repr

inductive SocketType where
  | tcp
  | udp
  deriving DecidableEq, Repr

inductive SocketState where
  | connecting
  | connected
  | listen
  | accept
  | close
  deriving DecidableEq, Repr

/-- `BlockBuffer<def_block_alloc_4k, 1024>` -/
def socketConfig : BlockConfig where
  requestedSize := 4096
  maxBlocks := 1024
  requestedSize_pos := by omega
  requestedSize_lt := by omega
  maxBlocks_pos := by omega
  maxBlocks_lt := by omega

/-- A socket object.  Only a `TcpSocket` has the last two fields. -/
structure Socket where
  type : SocketType
  fd : Fd
  state : SocketState
  createTime : Int
  lastAccessTime : Int
  /-- there is none until an address is assigned -/
  peerAddr : Option SockAddr
  timeout : Int
  /-- whether `m_handler` is not null -/
  handler : Bool
  input : BlockBuffer socketConfig
  output : BlockBuffer socketConfig
  isResending : Bool

namespace Socket

def setTimeout (s : Socket) (timeout : Int) : Socket :=
  { s with timeout := if timeout > 0 then timeout else 0 }

end Socket

structure EpollContainer where
  /-- positive, or `epoll_create` would have refused it -/
  maxFdCount : Nat
  socketMap : OrderedMap KeyOrder.int SocketId
  closeSockets : OrderedSet KeyOrder.nat
  socketNum : Int

structure Kernel where
  isOpen : Fd → Bool
  /-- the registrations of the epoll instance -/
  interest : Fd → Option Interest
  /-- whether the descriptor was handed out since `epoll_wait` returned last -/
  handedOut : Fd → Bool
  /-- whether the descriptor was registered since it was handed out last -/
  enrolled : Fd → Bool

structure World where
  /-- the objects which were created and not deleted -/
  heap : SocketId → Option Socket
  next : SocketId
  /-- how often each object was deleted -/
  deleted : SocketId → Nat
  container : EpollContainer
  /-- the static variable of `CheckTimeoutSocket` -/
  checkFd : Fd
  kernel : Kernel
  /-- `m_socketMap` as it was when `epoll_wait` returned last -/
  polled : OrderedMap KeyOrder.int SocketId
  /-- for the events of the batch whose `EPOLLIN` has had its turn: whether the
  descriptor had been handed out again by then -/
  turns : Fd → Option Bool

/-- The object `s` gets new fields. -/
def World.put (w : World) (s : SocketId) (o : Socket) : World :=
  { w with heap := Function.update w.heap s (some o) }

/-- Whether the descriptor of an event of the batch has been handed out again
before the event had its turn. -/
def World.reused (w : World) (fd : Fd) : Bool := (w.turns fd).getD (w.kernel.handedOut fd)

/-- A new object. -/
def World.born (w : World) (o : Socket) : World :=
  { w with heap := Function.update w.heap w.next (some o), next := w.next + 1 }

/-! ## Questions -/

/-- The log lines of `HandleSockets`. -/
inductive LogLine where
  | notInContainer (fd : Fd)
  | epollEvents (fd : Fd) (s : SocketId)
  | epollReadEvents (fd : Fd) (s : SocketId)
  | epollWriteEvents (fd : Fd) (s : SocketId)
  deriving DecidableEq, Repr

inductive Question where
  | time
  | socket (type : SocketType)
  /-- `fcntl(fd, F_SETFL, flags | O_NONBLOCK)` -/
  | fcntl (fd : Fd)
  | setsockopt (fd : Fd)
  | bind (fd : Fd) (port : Int)
  | listen (fd : Fd) (backlog : Int)
  | connect (fd : Fd) (addr : SockAddr)
  | accept (fd : Fd)
  | recv (fd : Fd) (size : Nat)
  | recvfrom (fd : Fd) (size : Nat)
  | send (fd : Fd) (data : List UInt8)
  | sendto (fd : Fd) (data : List UInt8) (addr : Option SockAddr)
  | close (fd : Fd)
  | epollCtlAdd (fd : Fd) (events : Interest)
  | epollCtlMod (fd : Fd) (events : Interest)
  | epollCtlDel (fd : Fd)
  | epollWait (maxEvents : Nat)
  /-- the call of `malloc` inside an `append` -/
  | malloc
  /-- the value of a field which the constructor does not set -/
  | uninitialized
  | delete (s : SocketId)
  | log (line : LogLine)

def Question.isLog : Question → Bool
  | log _ => true
  | _ => false

/-- A system call which may fail with an `errno`, or with `-1` alone where the
source does not look at `errno`. -/
@[reducible] def Answer : Question → Type
  | .time => Int
  | .socket _ => Option Fd
  | .fcntl _ => Bool
  | .setsockopt _ => Bool
  | .bind _ _ => Bool
  | .listen _ _ => Bool
  | .connect _ _ => Except Errno Unit
  | .accept _ => Except Errno (Fd × SockAddr)
  | .recv _ _ => Except Errno (List UInt8)
  | .recvfrom _ _ => Except Errno (List UInt8 × SockAddr)
  | .send _ _ => Except Errno Nat
  | .sendto _ _ _ => Option Nat
  | .close _ => Unit
  | .epollCtlAdd _ _ => Bool
  | .epollCtlMod _ _ => Bool
  | .epollCtlDel _ => Unit
  | .epollWait _ => Option (List Ready)
  | .malloc => Malloc
  | .uninitialized => Bool
  | .delete _ => Unit
  | .log _ => Unit

/-- The calls of a `PacketHandler`, with the socket they are about. -/
inductive Callback where
  | handlePacket (s : SocketId) (data : List UInt8)
  /-- its return value is not used -/
  | handleClose (s : SocketId)

def Callback.socket : Callback → SocketId
  | handlePacket s _ => s
  | handleClose s => s

inductive NetFault where
  /-- a method of a deleted object was running, or called -/
  | useAfterDelete (s : SocketId)
  | doubleDelete (s : SocketId)
  /-- an iterator was advanced whose element had been erased -/
  | invalidIterator
  /-- the loop of `Write` went on after every byte had been taken -/
  | sendLoop

/-- A program on the world of sockets. -/
abbrev NetM := Prog World Question Answer Callback NetFault

/-! ## The kernel -/

namespace Kernel

/-- Give out the descriptor `fd`. -/
def handOut (k : Kernel) (fd : Fd) : Kernel :=
  { k with
    isOpen := Function.update k.isOpen fd true
    handedOut := Function.update k.handedOut fd true
    enrolled := Function.update k.enrolled fd false }

/-- Closing a descriptor also ends its registration. -/
def closeFd (k : Kernel) (fd : Fd) : Kernel :=
  { k with
    isOpen := Function.update k.isOpen fd false
    interest := Function.update k.interest fd none }

def register (k : Kernel) (fd : Fd) (events : Option Interest) : Kernel :=
  { k with interest := Function.update k.interest fd events }

def enroll (k : Kernel) (fd : Fd) (events : Interest) : Kernel :=
  { k.register fd (some events) with enrolled := Function.update k.enrolled fd true }

/-- A descriptor which the kernel may hand out. -/
def Available (k : Kernel) (fd : Fd) : Prop := 0 ≤ fd ∧ k.isOpen fd = false

/-- The answers which a question may get.  `send` takes at least one byte when it
takes any, `epoll_wait` returns at most one event for each registered descriptor. -/
def permits (w : World) : (q : Question) → Answer q → Prop
  | .socket _, some fd => w.kernel.Available fd
  | .accept _, .ok (fd, _) => w.kernel.Available fd
  | .recv _ size, .ok bytes => bytes.length ≤ size
  | .recvfrom _ size, .ok (bytes, _) => bytes.length ≤ size
  | .send _ data, .ok n => 1 ≤ n ∧ n ≤ data.length
  | .sendto _ data _, some n => n ≤ data.length
  | .epollCtlAdd fd _, true => w.kernel.isOpen fd = true ∧ w.kernel.interest fd = none
  | .epollCtlMod fd _, true => w.kernel.interest fd ≠ none
  | .epollWait maxEvents, some events =>
      events.length ≤ maxEvents ∧ (events.map Ready.fd).Nodup ∧
        ∀ e ∈ events, w.kernel.interest e.fd ≠ none
  | _, _ => True

/-- What a question changes when it gets the answer. -/
def effect (w : World) : (q : Question) → Answer q → World
  | .socket _, some fd => { w with kernel := w.kernel.handOut fd }
  | .accept _, .ok (fd, _) => { w with kernel := w.kernel.handOut fd }
  | .close fd, () => { w with kernel := w.kernel.closeFd fd }
  | .epollCtlAdd fd events, true => { w with kernel := w.kernel.enroll fd events }
  | .epollCtlMod fd events, true => { w with kernel := w.kernel.register fd (some events) }
  | .epollCtlDel fd, () => { w with kernel := w.kernel.register fd none }
  | .epollWait _, some _ =>
      { w with
        polled := w.container.socketMap
        turns := fun _ => none
        kernel := { w.kernel with handedOut := fun _ => false } }
  | .log (.epollReadEvents fd _), () =>
      { w with turns := Function.update w.turns fd (some (w.kernel.handedOut fd)) }
  | .delete s, () =>
      { w with
        heap := Function.update w.heap s none
        deleted := Function.update w.deleted s (w.deleted s + 1) }
  | _, _ => w

def answers (w : World) (q : Question) (a : Answer q) (w' : World) : Prop :=
  permits w q a ∧ w' = effect w q a

end Kernel

/-! ## Objects -/

/-- Ask the kernel. -/
def ask (q : Question) : NetM (Answer q) := Prog.question q

def log (line : LogLine) : NetM Unit := ask (.log line)

/-- The fields of a live object. -/
def load (this : SocketId) : NetM Socket := do
  let w ← Prog.read
  match w.heap this with
  | some s => pure s
  | none => .fault (.useAfterDelete this)

/-- Change the fields of a live object. -/
def store (this : SocketId) (f : Socket → Socket) : NetM Unit := do
  let s ← load this
  Prog.modify fun w => w.put this (f s)

/-- `new`, with the fields the constructor sets. -/
def new (s : Socket) : NetM SocketId := do
  let w ← Prog.read
  Prog.modify fun w => w.born s
  pure w.next

/-- `delete` -/
def delete (this : SocketId) : NetM Unit := do
  let w ← Prog.read
  match w.heap this with
  | some _ => ask (.delete this)
  | none => .fault (.doubleDelete this)

end Net
end Deps
