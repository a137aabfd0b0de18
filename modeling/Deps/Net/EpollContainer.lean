import Deps.Net.World

/-!
# The registry of `EpollContainer`

The methods of `net/epoll_container.cpp` which sockets call: `AddSocket`,
`ModSocket` and `DelSocket`, on the branch for epoll, with `GetSocket` and
`CheckCloseSocket`.  The loop over the events is in `EventLoop`.
-/

namespace Deps
namespace Net
namespace EpollContainer

open Reentrant

/-- The constructor; `epoll_create` refuses a count which is not positive. -/
def new (maxFdCount : Nat) : EpollContainer where
  maxFdCount := maxFdCount
  socketMap := OrderedMap.empty KeyOrder.int SocketId
  closeSockets := OrderedMap.empty KeyOrder.nat Unit
  socketNum := 0

/-- The members of the container. -/
def members : NetM EpollContainer := do
  let w ← Prog.read
  pure w.container

def modifyMembers (f : EpollContainer → EpollContainer) : NetM Unit :=
  Prog.modify fun w => { w with container := f w.container }

/-- `none` is the null pointer. -/
def addSocket (s : Option SocketId) (events : Interest) : NetM Bool := do
  let c ← members
  if c.socketMap.size ≥ c.maxFdCount then
    return false
  match s with
  | none => return false
  | some s =>
      let socket ← load s
      let fd := socket.fd
      if (c.socketMap.find fd).isSome then
        return false
      let added ← ask (.epollCtlAdd fd events)
      if added then
        modifyMembers fun c =>
          { c with socketMap := c.socketMap.insert fd s, socketNum := c.socketNum + 1 }
        return true
      else
        return false

def modSocket (s : Option SocketId) (events : Interest) : NetM Bool := do
  match s with
  | none => return false
  | some s =>
      let socket ← load s
      let fd := socket.fd
      let c ← members
      if (c.socketMap.find fd).isNone then
        return false
      ask (.epollCtlMod fd events)

def delSocket (s : Option SocketId) : NetM Bool := do
  match s with
  | none => return true
  | some s =>
      let socket ← load s
      let fd := socket.fd
      ask (.epollCtlDel fd)
      let c ← members
      -- the entry is found by descriptor, whichever object it holds
      if (c.socketMap.find fd).isSome then
        modifyMembers fun c =>
          { c with socketMap := c.socketMap.erase fd, socketNum := c.socketNum - 1 }
      modifyMembers fun c => { c with closeSockets := c.closeSockets.insert s () }
      return true

def getSocket (fd : Fd) : NetM (Option SocketId) := do
  let c ← members
  return c.socketMap.find fd

/-- The loop of `CheckCloseSocket`; no pointer in the set is null. -/
def deleteEach : List SocketId → NetM Unit
  | [] => pure ()
  | s :: rest => do
      delete s
      deleteEach rest

def checkCloseSocket : NetM Unit := do
  let c ← members
  deleteEach (OrderedSet.elements c.closeSockets)
  modifyMembers fun c => { c with closeSockets := OrderedMap.empty KeyOrder.nat Unit }

end EpollContainer

/-- The world with a new container, before there is any socket. -/
def World.initial (maxFdCount : Nat) (kernel : Kernel) (checkFd : Fd) : World where
  heap _ := none
  next := 0
  deleted _ := 0
  container := EpollContainer.new maxFdCount
  checkFd := checkFd
  kernel := { kernel with interest := fun _ => none }
  polled := OrderedMap.empty KeyOrder.int SocketId
  turns _ := none

end Net
end Deps
