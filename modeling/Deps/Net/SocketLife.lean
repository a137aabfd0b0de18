import Deps.Lib.Endings
import Deps.Lib.Protocols
import Deps.Net.ConnectProgress

/-!
# The life of a `TcpSocket`

A machine with a state, a descriptor and a clock says what a `TcpSocket` does from its
creation on: in which states it reads, writes and hands bytes on, that it uses its own
descriptor only, and none after `Close`, when `HandleTimeout` closes it, and when
`SendPacket` refuses.  Every run follows it, and the fields of the object are those of
the machine.
-/

namespace Deps
namespace Net

open Reentrant

/-! ## The machine -/

/-- What has to come next. -/
inductive Pending where
  | nothing
  /-- `HandleTimeout` looks at the clock -/
  | clock
  /-- `HandleTimeout` has looked -/
  | verdict (late : Bool)
  /-- `SendPacket` answers -/
  | answer (data : List UInt8)
  deriving DecidableEq

structure Life where
  /-- whether the object was created -/
  alive : Bool
  state : SocketState
  fd : Fd
  /-- the time of the last access -/
  last : Int
  /-- the state which registration leads to -/
  promised : SocketState
  pending : Pending

namespace Life

/-- For how many seconds nobody needs to use the socket; 0 stands for any number. -/
def limit : SocketState → Int
  | .connecting => tcpConnectTimeout
  | .accept => tcpAccessTimeout
  | .connected | .listen | .close => 0

def late (l : Life) (now : Int) : Bool :=
  decide (limit l.state > 0 ∧ l.last > 0 ∧ l.last + limit l.state < now)

/-- Where `connect` leads to. -/
def promise : Except Errno Unit → SocketState
  | .ok () => .connected
  | .error errno => if errno = .einprogress then .connecting else .close

def turn (l : Life) : NetEvent → Life
  | .asked (.socket _) fd => { l with alive := false, fd := fd.getD (-1) }
  | .asked (.connect _ _) ret => { l with state := .close, promised := promise ret }
  | .asked (.accept _) (.ok (fd, _)) =>
      { l with alive := false, fd := fd, state := .accept, promised := .accept }
  | .asked (.accept _) (.error _) => { l with alive := false }
  | .asked .uninitialized _ => { l with alive := true }
  | .asked (.epollCtlAdd _ _) true => { l with state := l.promised }
  | .entered (.handleWrite _) =>
      { l with state := if l.state = .connecting then .connected else l.state }
  -- the time is an access, unless `HandleTimeout` asks for it
  | .asked .time now => if l.pending = .clock then l else { l with last := now }
  | .asked (.epollCtlDel _) _ => { l with state := .close, last := 0 }
  | .asked (.close _) _ => { l with fd := -1 }
  | _ => l

def await (l : Life) : NetEvent → Pending
  | .entered (.handleTimeout _) => .clock
  | .entered (.sendPacket _ data) => .answer data
  | .asked .time now => if l.pending = .clock then .verdict (l.late now) else .nothing
  | _ => .nothing

def hear (l : Life) (e : NetEvent) : Life := { l.turn e with pending := l.await e }

/-- Bytes are read in these states, and handed on. -/
def Reads (state : SocketState) : Prop :=
  state = .connecting ∨ state = .accept ∨ state = .connected

def Writes (state : SocketState) : Prop := state = .accept ∨ state = .connected

/-- What is pending comes next. -/
def Due (s : SocketId) (l : Life) (e : NetEvent) : Prop :=
  match l.pending with
  | .nothing => True
  | .clock => ∃ now, e = .asked .time now
  -- the first step of `Close`, with a handler or without one
  | .verdict true => e = .called (.handleClose s) ∨ e = .asked (.epollCtlDel l.fd) ()
  | .verdict false => e = .returned (.handleTimeout s) .unit
  | .answer data =>
      (¬Writes l.state → e = .returned (.sendPacket s data) (.bool false)) ∧
        (Writes l.state → data = [] → e = .returned (.sendPacket s data) (.bool true)) ∧
        (Writes l.state → data ≠ [] → ∃ malloc, e = .asked .malloc malloc)

/-- The state and the descriptor are right for this. -/
def Proper (s : SocketId) (l : Life) : NetEvent → Prop
  | .asked (.recv fd _) _ => fd = l.fd ∧ Reads l.state
  | .called (.handlePacket t _) => t = s ∧ Reads l.state
  | .asked (.send fd _) _ => fd = l.fd ∧ Writes l.state
  | .asked (.epollCtlMod fd _) _ => fd = l.fd ∧ Writes l.state
  | .asked (.close fd) _ => fd = l.fd ∧ fd ≠ -1
  | _ => True

def Allows (s : SocketId) (l : Life) (e : NetEvent) : Prop :=
  l.alive = true → Due s l e ∧ Proper s l e

end Life

/-- The life of the object `s`. -/
def tcpLife (s : SocketId) : Protocol Life NetEvent where
  start := ⟨false, .close, -1, 0, .close, .nothing⟩
  hear := Life.hear
  allows := Life.Allows s

/-- The object is as its life says. -/
structure Mirrors (l : Life) (o : Socket) : Prop where
  type : o.type = .tcp
  alive : l.alive = true
  state : o.state = l.state
  fd : o.fd = l.fd
  last : o.lastAccessTime = l.last
  timeout : o.state ≠ .close → o.timeout = Life.limit o.state
  listen : o.state ≠ .listen

/-- The history follows the machine, also while there is no object, with this pending. -/
structure OnCourse (s : SocketId) (p : Pending) (h : List NetEvent) : Prop where
  follows : (tcpLife s).Follows h
  pending : ((tcpLife s).after h).pending = p

/-- And the object is as it should be. -/
structure Poised (s : SocketId) (p : Pending) (h : List NetEvent) (o : Socket) : Prop
    extends OnCourse s p h where
  mirrors : Mirrors ((tcpLife s).after h) o

abbrev Lives (s : SocketId) (h : List NetEvent) (o : Socket) : Prop := Poised s .nothing h o

/-! ## Events -/

/-- Questions after which the object is what it was. -/
def Question.isQuiet : Question → Bool
  | .time | .socket _ | .connect _ _ | .accept _ | .recv _ _ | .send _ _ | .close _
  | .epollCtlAdd _ _ | .epollCtlMod _ _ | .epollCtlDel _ | .uninitialized => false
  | _ => true

/-- Events which are always allowed when nothing is pending, and change nothing. -/
def isQuiet : NetEvent → Bool
  | .asked q _ => q.isQuiet
  | .called (.handlePacket _ _) => false
  | .entered (.handleWrite _) | .entered (.handleTimeout _) | .entered (.sendPacket _ _) => false
  | _ => true

section

variable {s : SocketId} {h : List NetEvent} {o o' : Socket} {e : NetEvent} {l : Life}

namespace Life

theorem turn_of_isQuiet (he : isQuiet e = true) (l : Life) : l.turn e = l := by
  unfold turn
  split <;> first | rfl | cases he

theorem await_of_isQuiet (he : isQuiet e = true) (l : Life) : l.await e = .nothing := by
  unfold await
  split <;> first | rfl | cases he

theorem proper_of_isQuiet (he : isQuiet e = true) (l : Life) : Proper s l e := by
  unfold Proper
  split
  case h_6 => trivial
  all_goals cases he

theorem due_of_nothing (hl : l.pending = .nothing) : Due s l e := by
  rw [Due, hl]
  trivial

end Life

theorem Mirrors.hear (ho : Mirrors (l.turn e) o) : Mirrors (l.hear e) o :=
  ⟨ho.type, ho.alive, ho.state, ho.fd, ho.last, ho.timeout, ho.listen⟩

/-- The next event. -/
theorem Poised.concat {p p' : Pending} (hh : Poised s p h o)
    (hdue : Life.Due s ((tcpLife s).after h) e) (hproper : Life.Proper s ((tcpLife s).after h) e)
    (hawait : Life.await ((tcpLife s).after h) e = p')
    (hmirrors : Mirrors (Life.turn ((tcpLife s).after h) e) o') : Poised s p' (h ++ [e]) o' where
  follows := hh.follows.concat fun _ => ⟨hdue, hproper⟩
  pending := by
    rw [Protocol.after_concat]
    exact hawait
  mirrors := by
    rw [Protocol.after_concat]
    exact hmirrors.hear

theorem Lives.concat {p : Pending} (hh : Lives s h o)
    (hproper : Life.Proper s ((tcpLife s).after h) e)
    (hawait : Life.await ((tcpLife s).after h) e = p)
    (hmirrors : Mirrors (Life.turn ((tcpLife s).after h) e) o') : Poised s p (h ++ [e]) o' :=
  Poised.concat hh (Life.due_of_nothing hh.pending) hproper hawait hmirrors

theorem Lives.quiet (hh : Lives s h o) (he : isQuiet e = true) : Lives s (h ++ [e]) o := by
  refine hh.concat (Life.proper_of_isQuiet he _) (Life.await_of_isQuiet he _) ?_
  rw [Life.turn_of_isQuiet he]
  exact hh.mirrors

/-- Only other fields change. -/
theorem Lives.put (hh : Lives s h o) (htype : o'.type = o.type) (hstate : o'.state = o.state)
    (hfd : o'.fd = o.fd) (hlast : o'.lastAccessTime = o.lastAccessTime)
    (htimeout : o'.timeout = o.timeout) : Lives s h o' where
  toOnCourse := hh.toOnCourse
  mirrors :=
    ⟨htype.trans hh.mirrors.type, hh.mirrors.alive, hstate.trans hh.mirrors.state,
      hfd.trans hh.mirrors.fd, hlast.trans hh.mirrors.last, fun hopen => by
        rw [htimeout, hstate]
        exact hh.mirrors.timeout (hstate ▸ hopen), hstate ▸ hh.mirrors.listen⟩

/-- An access. -/
theorem Lives.touch (hh : Lives s h o) (now : Int) :
    Lives s (h ++ [.asked .time now]) { o with lastAccessTime := now } := by
  have hclock : ((tcpLife s).after h).pending ≠ .clock := by
    rw [hh.pending]
    exact Pending.noConfusion
  refine hh.concat trivial (if_neg hclock) ?_
  obtain ⟨htype, halive, hstate, hfd, -, htimeout, hlisten⟩ := hh.mirrors
  simp only [Life.turn, if_neg hclock]
  exact ⟨htype, halive, hstate, hfd, rfl, htimeout, hlisten⟩

theorem Lives.recv (hh : Lives s h o) (hstate : Life.Reads o.state) (size : Nat)
    (a : Answer (.recv o.fd size)) : Lives s (h ++ [.asked (.recv o.fd size) a]) o :=
  hh.concat ⟨hh.mirrors.fd, hh.mirrors.state ▸ hstate⟩ rfl hh.mirrors

theorem Lives.send (hh : Lives s h o) (hstate : Life.Writes o.state) (data : List UInt8)
    (a : Answer (.send o.fd data)) : Lives s (h ++ [.asked (.send o.fd data) a]) o :=
  hh.concat ⟨hh.mirrors.fd, hh.mirrors.state ▸ hstate⟩ rfl hh.mirrors

theorem Lives.mod (hh : Lives s h o) (hstate : Life.Writes o.state) (events : Interest)
    (a : Bool) : Lives s (h ++ [.asked (.epollCtlMod o.fd events) a]) o :=
  hh.concat ⟨hh.mirrors.fd, hh.mirrors.state ▸ hstate⟩ rfl hh.mirrors

theorem Lives.handlePacket (hh : Lives s h o) (hstate : Life.Reads o.state) (data : List UInt8) :
    Lives s (h ++ [.called (.handlePacket s data)]) o :=
  hh.concat ⟨rfl, hh.mirrors.state ▸ hstate⟩ rfl hh.mirrors

/-- The system calls of `Close`; `HandleTimeout` may have asked for it. -/
theorem Poised.closing {p : Pending} (hh : Poised s p h o) (hp : p = .nothing ∨ p = .verdict true) :
    Lives s (h ++ closeEvents o.fd) (World.closedFields o) := by
  have hdue : Life.Due s ((tcpLife s).after h) (.asked (.epollCtlDel o.fd) ()) := by
    rcases hp with rfl | rfl
    · exact Life.due_of_nothing hh.pending
    · rw [Life.Due, hh.pending, hh.mirrors.fd]
      exact .inr rfl
  obtain ⟨htype, halive, hstate, hfd, hlast, htimeout, hlisten⟩ := hh.mirrors
  -- the descriptor is still there after the first call
  have hdeleted : Lives s (h ++ [.asked (.epollCtlDel o.fd) ()])
      { World.closedFields o with fd := o.fd } :=
    hh.concat hdue trivial rfl
      ⟨htype, halive, rfl, hfd, rfl, fun hopen => absurd rfl hopen, SocketState.noConfusion⟩
  unfold closeEvents
  split
  · rename_i hopen
    rw [List.append_cons]
    obtain ⟨htype, halive, hstate, hfd, hlast, -, -⟩ := hdeleted.mirrors
    exact hdeleted.concat ⟨hfd, hopen⟩ rfl
      ⟨htype, halive, hstate, rfl, hlast, fun hopen => absurd rfl hopen, SocketState.noConfusion⟩
  · rename_i hnone
    exact hdeleted.put rfl rfl (not_not.mp hnone).symm rfl rfl

end

/-! ## The specification -/

/-- The object exists and lives. -/
def Lasts (s : SocketId) (h : List NetEvent) (w : World) : Prop :=
  ∃ o, w.heap s = some o ∧ Lives s h o

/-- The object lives, in one of these states. -/
def LastsIn (P : SocketState → Prop) (s : SocketId) (h : List NetEvent) (w : World) : Prop :=
  ∃ o, w.heap s = some o ∧ Lives s h o ∧ P o.state

/-- While a callback is about another object, `s` was not created yet. -/
def living (s : SocketId) : NetSpec where
  inv ctx h w :=
    (∀ c ∈ ctx, w.heap c.socket ≠ none) ∧
      ((w.heap s = none ∧ OnCourse s .nothing h ∧
          ((∃ c ∈ ctx, c.socket ≠ s) → ((tcpLife s).after h).alive = false)) ∨
        (∀ c ∈ ctx, c.socket = s) ∧ Lasts s h w)
  rel _ _ _ := True
  check _ _ := True
  tolerated _ := False

theorem plain_living {s : SocketId} : Plain (lifetime tcpCreates s) (living s) :=
  ⟨id, fun _ => trivial⟩

section

variable {s : SocketId} {ctx : List Callback} {h : List NetEvent} {w : World} {o : Socket}
  {P : SocketState → Prop}

theorem LastsIn.lasts (hw : LastsIn P s h w) : Lasts s h w := by
  obtain ⟨o, ho, hlives, -⟩ := hw
  exact ⟨o, ho, hlives⟩

theorem Lasts.quiet (hw : Lasts s h w) {e : NetEvent} (he : isQuiet e = true) :
    Lasts s (h ++ [e]) w := by
  obtain ⟨o, ho, hlives⟩ := hw
  exact ⟨o, ho, hlives.quiet he⟩

theorem Lasts.inv (hctx : ∀ c ∈ ctx, c.socket = s) (hw : Lasts s h w) :
    (living s).inv ctx h w := by
  obtain ⟨o, ho, -⟩ := id hw
  refine ⟨fun c hc => ?_, .inr ⟨hctx, hw⟩⟩
  rw [hctx c hc, ho]
  exact Option.some_ne_none o

/-- The callback was about `s`. -/
theorem Lasts.of_inv {c : Callback} (hc : c.socket = s) (hinv : (living s).inv (c :: ctx) h w) :
    Lasts s h w := by
  obtain ⟨hlive, ⟨hnone, -⟩ | ⟨-, hw⟩⟩ := hinv
  · have halive := hlive c List.mem_cons_self
    rw [hc] at halive
    exact absurd hnone halive
  · exact hw

/-! ## Operations -/

theorem modSocket_living (hw : LastsIn Life.Writes s h w) (events : Interest) :
    wp (lifetime tcpCreates s) (living s) ctx (EpollContainer.modSocket (some s) events)
      (fun _ => LastsIn Life.Writes s) h w := by
  obtain ⟨o, ho, hlives, hstate⟩ := hw
  have hmod := hlives.mod hstate events
  exact EpollContainer.wp_modSocket plain_living ho (fun _ => ⟨o, ho, hlives, hstate⟩)
    ⟨o, ho, hmod false, hstate⟩ fun _ _ => ⟨o, ho, hmod true, hstate⟩

theorem touch_living (hw : LastsIn P s h w) :
    wp (lifetime tcpCreates s) (living s) ctx (touch s) (fun _ => LastsIn P s) h w := by
  obtain ⟨o, ho, hlives, hstate⟩ := hw
  exact wp_touch plain_living ho fun now => ⟨_, w.heap_put s _, hlives.touch now, hstate⟩

theorem appendInput_living (hw : LastsIn P s h w) (data : List UInt8) :
    wp (lifetime tcpCreates s) (living s) ctx (appendInput s data) (fun _ => LastsIn P s) h w := by
  obtain ⟨o, ho, hlives, hstate⟩ := hw
  refine wp_appendInput plain_living ho fun malloc => ⟨_, w.heap_put s _, ?_, hstate⟩
  exact (hlives.quiet rfl).put rfl rfl rfl rfl rfl

section

variable (hctx : ∀ c ∈ ctx, c.socket = s)
include hctx

/-- `Close`, on its own or because of `HandleTimeout`. -/
theorem closeSocket_living {p : Pending} (ho : w.heap s = some o) (hh : Poised s p h o)
    (hp : p = .nothing ∨ p = .verdict true) :
    wp (lifetime tcpCreates s) (living s) ctx (closeSocket s) (fun _ => Lasts s) h w := by
  refine wp_closeSocket plain_living ho (fun _ => ?_) (fun _ => ?_) fun _ r h' w' hinv _ => ?_
  · exact ⟨_, w.heap_closed s o, hh.closing hp⟩
  · have hdue : Life.Due s ((tcpLife s).after h) (.called (.handleClose s)) := by
      rcases hp with rfl | rfl
      · exact Life.due_of_nothing hh.pending
      · rw [Life.Due, hh.pending]
        exact .inl rfl
    exact Lasts.inv (socket_cons hctx rfl) ⟨o, ho, hh.concat hdue trivial rfl hh.mirrors⟩
  · obtain ⟨o', ho', hlives⟩ := Lasts.of_inv rfl hinv
    exact ⟨o', ho', _, w'.heap_closed s o', (hlives.quiet rfl).closing (.inl rfl)⟩

theorem close_living (hw : Lasts s h w) :
    wp (lifetime tcpCreates s) (living s) ctx (closeSocket s) (fun _ => Lasts s) h w := by
  obtain ⟨o, ho, hlives⟩ := hw
  exact closeSocket_living hctx ho hlives (.inl rfl)

theorem modOrClose_living (hw : LastsIn Life.Writes s h w) (events : Interest) :
    wp (lifetime tcpCreates s) (living s) ctx (TcpSocket.modOrClose s events)
      (fun _ => Lasts s) h w := by
  refine wp_seq (modSocket_living hw events) fun modified h w hw => ?_
  split
  · exact close_living hctx hw.lasts
  · exact hw.lasts

theorem handlePacket_living (hw : LastsIn Life.Reads s h w) (data : List UInt8) :
    wp (lifetime tcpCreates s) (living s) ctx (handlePacket s data) (fun _ => Lasts s) h w := by
  obtain ⟨o, ho, hlives, hstate⟩ := hw
  have hcalled : Lasts s (h ++ [.called (.handlePacket s data)]) w :=
    ⟨o, ho, hlives.handlePacket hstate data⟩
  exact ⟨hcalled.inv (socket_cons hctx rfl), fun r h' w' _ hinv _ =>
    (Lasts.of_inv rfl hinv).quiet rfl⟩

/-! ## Methods -/

theorem read_living (hw : LastsIn Life.Reads s h w) (size : Nat) :
    wp (lifetime tcpCreates s) (living s) ctx (TcpSocket.read s size) (fun _ => Lasts s) h w := by
  refine wp_seq (touch_living hw) fun _ h w hw => ?_
  obtain ⟨o, ho, hlives, hstate⟩ := hw
  rw [wp_bind, wp_load ho, wp_bind]
  refine wp_ask_idle plain_living rfl fun a _ _ => ?_
  have hrecv := hlives.recv hstate size a
  rcases a with errno | _ | ⟨b, rest⟩
  · dsimp only
    split
    · exact ⟨o, ho, hrecv⟩
    · exact close_living hctx ⟨o, ho, hrecv⟩
  · exact close_living hctx ⟨o, ho, hrecv⟩
  refine wp_seq (appendInput_living ⟨o, ho, hrecv, hstate⟩ _) fun _ h w hw => ?_
  obtain ⟨o, ho, hlives, hstate⟩ := hw
  rw [wp_bind, wp_load ho]
  cases o.handler with
  | false => exact ⟨o, ho, hlives⟩
  | true =>
      exact wp_seq (handlePacket_living hctx ⟨o, ho, hlives, hstate⟩ _) fun _ _ _ => id

theorem writeLoop_living (hw : w.heap s = some o) (hlives : Lives s h o)
    (hstate : Life.Writes o.state) (hpos : 0 < o.output.size) :
    wp (lifetime tcpCreates s) (living s) ctx (TcpSocket.writeLoop s o.output.size)
      (fun _ => Lasts s) h w := by
  refine TcpSocket.wp_writeLoop plain_living (LastsIn Life.Writes s) (fun hw ho _ _ _ => ?_)
    (fun hw ho _ _ _ => ?_) (fun hw ho _ => ?_) (fun hw ho _ => ?_) ⟨o, hw, hlives, hstate⟩ hw
    hpos le_rfl
  all_goals
    obtain ⟨o₁, ho₁, hlives, hstate⟩ := hw
    cases ho.symm.trans ho₁
    have hsent := hlives.send hstate
  · exact ⟨_, World.heap_put _ s _, (hsent _ _).put rfl rfl rfl rfl rfl, hstate⟩
  · split
    · refine modOrClose_living hctx ?_ _
      exact ⟨_, World.heap_put _ s _, (hsent _ _).put rfl rfl rfl rfl rfl, hstate⟩
    · exact ⟨_, World.heap_put _ s _, (hsent _ _).put rfl rfl rfl rfl rfl⟩
  · refine wp_mono (fun modified h w hw => ?_)
      (modSocket_living ⟨_, ho, hsent _ _, hstate⟩ .readWriteError)
    split
    · obtain ⟨o, ho, hlives, -⟩ := hw
      exact ⟨o, ho, _, World.heap_put _ s _, hlives.put rfl rfl rfl rfl rfl⟩
    · exact close_living hctx hw.lasts
  · exact close_living hctx ⟨_, ho, hsent _ _⟩

theorem write_living (hw : LastsIn Life.Writes s h w) :
    wp (lifetime tcpCreates s) (living s) ctx (TcpSocket.write s) (fun _ => Lasts s) h w := by
  refine wp_seq (touch_living hw) fun _ h w hw => ?_
  obtain ⟨o, ho, hlives, hstate⟩ := hw
  rw [wp_bind, wp_load ho]
  split
  · exact ⟨o, ho, hlives⟩
  · exact writeLoop_living hctx ho hlives hstate (by omega)

theorem handleRead_living (hw : Lasts s h w) (size : Nat) :
    wp (lifetime tcpCreates s) (living s) ctx (SocketBase.handleRead s size) (fun _ => Lasts s)
      h w := by
  obtain ⟨o, ho, hlives⟩ := hw
  rw [SocketBase.handleRead, wp_bind, wp_load ho, hlives.mirrors.type]
  show wp _ _ _ (TcpSocket.handleRead s size) _ h w
  rw [TcpSocket.handleRead, wp_bind, wp_load ho]
  split
  case h_1 hstate => exact absurd hstate hlives.mirrors.listen
  case h_2 hstate => exact read_living hctx ⟨o, ho, hlives, .inr (.inl hstate)⟩ size
  case h_3 hstate => exact read_living hctx ⟨o, ho, hlives, .inl hstate⟩ size
  case h_4 hstate => exact read_living hctx ⟨o, ho, hlives, .inr (.inr hstate)⟩ size
  case h_5 => exact ⟨o, ho, hlives⟩

/-- The call alone makes a connecting socket a connected one. -/
theorem handleWrite_living (hw : Lasts s h w) :
    wp (lifetime tcpCreates s) (living s) ctx (SocketBase.handleWrite s) (fun _ => Lasts s)
      (h ++ [.entered (.handleWrite s)]) w := by
  obtain ⟨o, ho, hlives⟩ := hw
  rw [SocketBase.handleWrite, wp_bind, wp_load ho, hlives.mirrors.type]
  show wp _ _ _ (TcpSocket.handleWrite s) _ _ w
  rw [TcpSocket.handleWrite, wp_bind, wp_load ho]
  have hentered : ∀ {o'}, o'.type = .tcp → o'.fd = o.fd → o'.lastAccessTime = o.lastAccessTime →
      o'.state = (if o.state = .connecting then .connected else o.state) →
      (o'.state ≠ .close → o'.timeout = Life.limit o'.state) →
      Lives s (h ++ [.entered (.handleWrite s)]) o' := by
    intro o' htype hfd hlast hstate htimeout
    refine hlives.concat trivial rfl ⟨htype, hlives.mirrors.alive, ?_, ?_, ?_, htimeout, ?_⟩
    · rw [hstate, hlives.mirrors.state]
      rfl
    · exact hfd.trans hlives.mirrors.fd
    · exact hlast.trans hlives.mirrors.last
    · rw [hstate]
      split
      · exact SocketState.noConfusion
      · exact hlives.mirrors.listen
  -- in every other state the object stays as it is
  have hsame : o.state ≠ .connecting → Lives s (h ++ [.entered (.handleWrite s)]) o := fun hne =>
    hentered hlives.mirrors.type rfl rfl (if_neg hne).symm hlives.mirrors.timeout
  split
  case h_1 hstate =>
    rw [wp_bind, wp_store ho]
    refine modOrClose_living hctx ⟨_, w.heap_put s _, ?_, .inr rfl⟩ _
    exact hentered hlives.mirrors.type rfl rfl (if_pos hstate).symm fun _ => rfl
  case h_2 hstate =>
    exact write_living hctx ⟨o, ho, hsame (by rw [hstate]; decide), .inl hstate⟩
  case h_3 hstate =>
    exact write_living hctx ⟨o, ho, hsame (by rw [hstate]; decide), .inr hstate⟩
  case h_4 hstate => exact ⟨o, ho, hsame (by rw [hstate]; decide)⟩
  case h_5 hstate => exact ⟨o, ho, hsame (by rw [hstate]; decide)⟩

/-- `HandleTimeout` decides as the machine does. -/
theorem handleTimeout_living (hw : Lasts s h w) :
    wp (lifetime tcpCreates s) (living s) ctx (SocketBase.handleTimeout s)
      (fun _ h w => Lasts s (h ++ [.returned (.handleTimeout s) .unit]) w)
      (h ++ [.entered (.handleTimeout s)]) w := by
  obtain ⟨o, ho, hlives⟩ := hw
  have hclock : Poised s .clock (h ++ [.entered (.handleTimeout s)]) o :=
    hlives.concat trivial rfl hlives.mirrors
  rw [SocketBase.handleTimeout, wp_bind, wp_load ho, hlives.mirrors.type]
  show wp _ _ _ (TcpSocket.handleTimeout s) _ _ w
  rw [TcpSocket.handleTimeout, wp_bind]
  refine wp_ask_idle plain_living rfl fun now _ _ => ?_
  rw [wp_bind, wp_load ho]
  have hlate : ((tcpLife s).after (h ++ [.entered (.handleTimeout s)])).late now =
      decide (Life.limit o.state > 0 ∧ o.lastAccessTime > 0 ∧
        o.lastAccessTime + Life.limit o.state < now) := by
    rw [Life.late, ← hclock.mirrors.state, ← hclock.mirrors.last]
  have hasked : Poised s (.verdict (decide (Life.limit o.state > 0 ∧ o.lastAccessTime > 0 ∧
        o.lastAccessTime + Life.limit o.state < now)))
      (h ++ [.entered (.handleTimeout s)] ++ [.asked .time now]) o := by
    refine hclock.concat ?_ trivial ?_ ?_
    · rw [Life.Due, hclock.pending]
      exact ⟨now, rfl⟩
    · rw [Life.await, if_pos hclock.pending, hlate]
    · rw [Life.turn, if_pos hclock.pending]
      exact hclock.mirrors
  -- the socket is not late
  have hreturn : ¬(Life.limit o.state > 0 ∧ o.lastAccessTime > 0 ∧
      o.lastAccessTime + Life.limit o.state < now) →
      Lasts s (h ++ [.entered (.handleTimeout s)] ++ [.asked .time now] ++
        [.returned (.handleTimeout s) .unit]) w := by
    intro hearly
    refine ⟨o, ho, hasked.concat ?_ trivial rfl hasked.mirrors⟩
    rw [Life.Due, hasked.pending, decide_eq_false hearly]
  have hopen : o.state ≠ .close → wp (lifetime tcpCreates s) (living s) ctx
      (if o.timeout > 0 ∧ o.lastAccessTime > 0 ∧ o.lastAccessTime + o.timeout < now then
        TcpSocket.close s
      else pure () : NetM Unit)
      (fun _ h w => Lasts s (h ++ [.returned (.handleTimeout s) .unit]) w)
      (h ++ [.entered (.handleTimeout s)] ++ [.asked .time now]) w := by
    intro hopen
    rw [hlives.mirrors.timeout hopen]
    split
    · rename_i hlate
      refine wp_mono (fun _ h w hw => hw.quiet rfl) (closeSocket_living hctx ho hasked (.inr ?_))
      rw [decide_eq_true hlate]
    · rename_i hearly
      exact hreturn hearly
  split
  case h_1 hstate | h_2 hstate | h_3 hstate => exact hopen (by rw [hstate]; decide)
  case h_4 hstate => exact absurd hstate hlives.mirrors.listen
  case h_5 hstate =>
    refine hreturn fun hlate => ?_
    rw [hstate] at hlate
    exact absurd hlate.1 (lt_irrefl 0)

/-- `SendPacket` refuses when the machine says so. -/
theorem sendPacket_living (hw : Lasts s h w) (data : List UInt8) :
    wp (lifetime tcpCreates s) (living s) ctx (SocketBase.sendPacket s data)
      (fun sent h w => Lasts s (h ++ [.returned (.sendPacket s data) (.bool sent)]) w)
      (h ++ [.entered (.sendPacket s data)]) w := by
  obtain ⟨o, ho, hlives⟩ := hw
  have hasked : Poised s (.answer data) (h ++ [.entered (.sendPacket s data)]) o :=
    hlives.concat trivial rfl hlives.mirrors
  rw [SocketBase.sendPacket, wp_bind, wp_load ho, hlives.mirrors.type]
  show wp _ _ _ (TcpSocket.sendPacket s data) _ _ w
  rw [TcpSocket.sendPacket, wp_bind, wp_load ho]
  split
  · rename_i hstate
    have hrefuses : ¬Life.Writes o.state := fun hwrites =>
      hwrites.elim (fun heq => hstate.1 heq.symm) fun heq => hstate.2 heq.symm
    refine ⟨o, ho, hasked.concat ?_ trivial rfl hasked.mirrors⟩
    rw [Life.Due, hasked.pending, ← hasked.mirrors.state]
    exact ⟨fun _ => rfl, fun hwrites => absurd hwrites hrefuses,
      fun hwrites => absurd hwrites hrefuses⟩
  rename_i hstate
  have hwrites : Life.Writes o.state := by
    rw [not_and_or, not_not, not_not] at hstate
    exact hstate.imp Eq.symm Eq.symm
  split
  · rename_i hshort
    have hnil : data = [] := List.eq_nil_of_length_eq_zero (by omega)
    refine ⟨o, ho, hasked.concat ?_ trivial rfl hasked.mirrors⟩
    rw [Life.Due, hasked.pending, ← hasked.mirrors.state]
    exact ⟨fun hrefuses => absurd hwrites hrefuses, fun _ _ => rfl, fun _ hne => absurd hnil hne⟩
  rename_i hlong
  have hnil : data ≠ [] := fun hnil => hlong (by rw [hnil]; exact Nat.one_pos)
  rw [wp_bind]
  refine wp_ask_idle plain_living rfl fun malloc _ _ => ?_
  have hmalloc : Lives s (h ++ [.entered (.sendPacket s data)] ++ [.asked .malloc malloc]) o := by
    refine hasked.concat ?_ trivial rfl hasked.mirrors
    rw [Life.Due, hasked.pending, ← hasked.mirrors.state]
    exact ⟨fun hrefuses => absurd hwrites hrefuses, fun _ hnil' => absurd hnil' hnil,
      fun _ _ => ⟨malloc, rfl⟩⟩
  rcases o.output.append malloc data with ⟨appended, output⟩
  dsimp only
  rw [wp_bind, wp_store ho]
  have hstored : Lives s _ { o with output := output } := hmalloc.put rfl rfl rfl rfl rfl
  cases appended with
  | false => exact ⟨_, w.heap_put s _, hstored.quiet rfl⟩
  | true =>
      exact wp_seq (write_living hctx ⟨_, w.heap_put s _, hstored, hwrites⟩) fun _ _ _ hw =>
        hw.quiet rfl

/-- A call of a method of the object. -/
theorem body_living (hw : Lasts s h w) {m : Method} (htarget : m.target = some s) :
    wp (lifetime tcpCreates s) (living s) ctx (Method.body m)
      (fun v h w => Lasts s (h ++ [.returned m v]) w) (h ++ [.entered m]) w := by
  cases m with
  | tcpListen | tcpConnect | udpListen | udpConnect | handleSockets => cases htarget
  | handleRead t =>
      cases htarget
      exact wp_seq (handleRead_living hctx (hw.quiet rfl) _) fun _ _ _ hw => hw.quiet rfl
  | handleWrite t =>
      cases htarget
      exact wp_seq (handleWrite_living hctx hw) fun _ _ _ hw => hw.quiet rfl
  | handleError t =>
      cases htarget
      refine wp_seq ?_ fun _ _ _ hw => Lasts.quiet hw rfl
      obtain ⟨o, ho, hlives⟩ := hw.quiet (e := .entered (.handleError s)) rfl
      rw [SocketBase.handleError, wp_bind, wp_load ho, hlives.mirrors.type]
      exact close_living hctx ⟨o, ho, hlives⟩
  | handleTimeout t =>
      cases htarget
      exact wp_seq (handleTimeout_living hctx hw) fun _ _ _ => id
  | sendPacket t data =>
      cases htarget
      exact wp_seq (sendPacket_living hctx hw data) fun _ _ _ => id
  | close t =>
      cases htarget
      refine wp_seq ?_ fun _ _ _ hw => Lasts.quiet hw rfl
      obtain ⟨o, ho, hlives⟩ := hw.quiet (e := .entered (.close s)) rfl
      rw [SocketBase.close, wp_bind, wp_load ho, hlives.mirrors.type]
      exact close_living hctx ⟨o, ho, hlives⟩

end

/-! ## Creation -/

/-- The object does not exist yet, or it lives. -/
def Begun (s : SocketId) (h : List NetEvent) (w : World) : Prop :=
  (w.heap s = none ∧ OnCourse s .nothing h) ∨ Lasts s h w

theorem OnCourse.concat {e : NetEvent} (hh : OnCourse s .nothing h)
    (hproper : Life.Proper s ((tcpLife s).after h) e)
    (hawait : Life.await ((tcpLife s).after h) e = .nothing) : OnCourse s .nothing (h ++ [e]) where
  follows := hh.follows.concat fun _ => ⟨Life.due_of_nothing hh.pending, hproper⟩
  pending := by
    rw [Protocol.after_concat]
    exact hawait

theorem OnCourse.quiet {e : NetEvent} (hh : OnCourse s .nothing h) (he : isQuiet e = true) :
    OnCourse s .nothing (h ++ [e]) :=
  hh.concat (Life.proper_of_isQuiet he _) (Life.await_of_isQuiet he _)

/-- The new object, when its fields are set. -/
theorem OnCourse.born (hh : OnCourse s .nothing h) {l : Life} (hl : (tcpLife s).after h = l)
    {now : Int} (isResending : Bool) (htype : o.type = .tcp) (hstate : o.state = l.state)
    (hfd : o.fd = l.fd) (hlast : o.lastAccessTime = now)
    (htimeout : o.state ≠ .close → o.timeout = Life.limit o.state) (hlisten : o.state ≠ .listen) :
    Lives s (h ++ [.asked .uninitialized isResending] ++ [.asked .time now]) o ∧
      ((tcpLife s).after (h ++ [.asked .uninitialized isResending] ++
        [.asked .time now])).promised = l.promised := by
  have hnew : OnCourse s .nothing (h ++ [.asked .uninitialized isResending]) :=
    hh.concat trivial rfl
  have hclock :
      ((tcpLife s).after (h ++ [.asked .uninitialized isResending])).pending ≠ .clock := by
    rw [hnew.pending]
    exact Pending.noConfusion
  have hafter : (tcpLife s).after (h ++ [.asked .uninitialized isResending] ++
      [.asked .time now]) = { l with alive := true, last := now, pending := .nothing } := by
    rw [Protocol.after_concat]
    show Life.hear _ _ = _
    rw [Life.hear, Life.turn, Life.await, if_neg hclock, if_neg hclock, Protocol.after_concat, hl]
    rfl
  refine ⟨⟨hnew.concat trivial (if_neg hclock), ?_⟩, ?_⟩
  · rw [hafter]
    exact ⟨htype, rfl, hstate, hfd, hlast, htimeout, hlisten⟩
  · rw [hafter]

/-- `new TcpSocket`, and the fields which are set right afterwards. -/
theorem create_living {α : Type} (hnext : w.next = s) (hh : OnCourse s .nothing h) {l : Life}
    (hl : (tcpLife s).after h = l) {handler : Bool} {f : Int → Socket → Socket}
    (hf : ∀ now r, let o := f now (TcpSocket.construct handler r)
      o.type = .tcp ∧ o.state = l.state ∧ o.fd = l.fd ∧ o.lastAccessTime = now ∧
        (o.state ≠ .close → o.timeout = Life.limit o.state) ∧ o.state ≠ .listen)
    {g : SocketId → NetM α} {post : α → List NetEvent → World → Prop}
    (hg : ∀ now r h w o, f now (TcpSocket.construct handler r) = o → w.heap s = some o →
      Lives s h o → ((tcpLife s).after h).promised = l.promised →
      wp (lifetime tcpCreates s) (living s) [] (g s) post h w) :
    wp (lifetime tcpCreates s) (living s) [] (do
      let s ← TcpSocket.create handler
      let now ← ask .time
      store s (f now)
      g s) post h w := by
  refine wp_create plain_living fun isResending now => ?_
  obtain ⟨htype, hstate, hfd, hlast, htimeout, hlisten⟩ := hf now isResending
  obtain ⟨hlives, hpromised⟩ := hh.born hl isResending htype hstate hfd hlast htimeout hlisten
  rw [hnext]
  exact hg now isResending _ _ _ rfl (World.heap_put _ s _) hlives hpromised

theorem close_begun {α : Type} (hw : Lasts s h w) (a : α) :
    wp (lifetime tcpCreates s) (living s) [] (do closeSocket s; return a : NetM α)
      (fun _ => Begun s) h w :=
  wp_seq (close_living (List.forall_mem_nil _) hw) fun _ _ _ => .inr

/-- `AddSocket` in `Connect`. -/
theorem register_living (hlives : Lives s h o) (ho : w.heap s = some o) {events : Interest}
    {f : Socket → Socket} (htype : (f o).type = o.type) (hfd : (f o).fd = o.fd)
    (hlast : (f o).lastAccessTime = o.lastAccessTime)
    (hstate : (f o).state = ((tcpLife s).after h).promised)
    (htimeout : (f o).timeout = Life.limit (f o).state) (hlisten : (f o).state ≠ .listen) :
    wp (lifetime tcpCreates s) (living s) [] (do
        let added ← EpollContainer.addSocket (some s) events
        if added then
          store s f
          return some s
        TcpSocket.close s
        return none : NetM (Option SocketId)) (fun _ => Begun s) h w := by
  have hrefused : Lives s (h ++ [.asked (.epollCtlAdd o.fd events) false]) o :=
    hlives.concat trivial rfl hlives.mirrors
  rw [wp_bind]
  refine EpollContainer.wp_addSocket plain_living ho (close_begun ⟨o, ho, hlives⟩ none)
    (close_begun ⟨o, ho, hrefused⟩ none) fun _ _ => ?_
  have ho' : (w.listed s o.fd events).heap s = some o := ho
  rw [if_pos rfl, wp_bind, wp_store ho']
  refine .inr ⟨_, World.heap_put _ s _, hlives.concat trivial rfl ?_⟩
  exact ⟨htype.trans hlives.mirrors.type, hlives.mirrors.alive, hstate,
    hfd.trans hlives.mirrors.fd, hlast.trans hlives.mirrors.last, fun _ => htimeout, hlisten⟩

theorem connect_living (hheap : w.heap s = none) (hnext : w.next = s) (hh : OnCourse s .nothing h)
    (ip : UInt32) (port : UInt16) (handler : Bool) :
    wp (lifetime tcpCreates s) (living s) [] (TcpSocket.connect ip port handler)
      (fun _ => Begun s) h w := by
  unfold TcpSocket.connect
  rw [wp_bind]
  refine wp_ask plain_living rfl fun fd _ _ => ?_
  have hsocket := hh.concat (e := .asked (.socket .tcp) fd) trivial rfl
  cases fd with
  | none => exact .inl ⟨hheap, hsocket⟩
  | some fd =>
  dsimp only
  rw [wp_bind]
  refine wp_ask_idle plain_living rfl fun nonblock _ _ => ?_
  have hnonblock := hsocket.quiet (e := .asked (.fcntl fd) nonblock) rfl
  split
  · exact .inl ⟨hheap, hnonblock⟩
  rw [wp_bind]
  refine wp_ask_idle plain_living rfl fun ret _ _ => ?_
  have hconnect := hnonblock.concat (e := .asked (.connect fd ⟨ip, port⟩) ret) trivial rfl
  have hafter : (tcpLife s).after (h ++ [.asked (.socket .tcp) (some fd)] ++
      [.asked (.fcntl fd) nonblock] ++ [.asked (.connect fd ⟨ip, port⟩) ret]) =
      { (tcpLife s).after h with
        alive := false, fd := fd, state := .close, promised := Life.promise ret
        pending := .nothing } := by
    simp only [Protocol.after_concat]
    rfl
  have hnext' : (Kernel.effect w (.socket .tcp) (some fd)).next = s := hnext
  refine create_living hnext' hconnect hafter (fun now r => ?_)
    fun now r h w o hfields ho hlives hpromised => ?_
  · exact ⟨rfl, rfl, rfl, rfl, fun hopen => absurd rfl hopen, SocketState.noConfusion⟩
  subst hfields
  rcases ret with errno | _
  · by_cases hprogress : errno = .einprogress
    · subst hprogress
      exact register_living hlives ho rfl rfl rfl hpromised.symm rfl SocketState.noConfusion
    · have hclose := close_begun ⟨_, ho, hlives⟩ (none : Option SocketId)
      cases errno <;> first | exact hclose | exact absurd rfl hprogress
  · exact register_living hlives ho rfl rfl rfl hpromised.symm rfl SocketState.noConfusion

/-- The listening socket is closed when `accept` fails; it is another object. -/
theorem closeListener_living (hheap : w.heap s = none) (hh : OnCourse s .nothing h)
    (halive : ((tcpLife s).after h).alive = false) {t : SocketId} (hl : Listens w t) :
    wp (lifetime tcpCreates s) (living s) [] (TcpSocket.close t) (fun _ => Begun s) h w := by
  obtain ⟨o, ho, -, -⟩ := hl
  have hne : t ≠ s := by
    rintro rfl
    rw [hheap] at ho
    cases ho
  have hclosed : ∀ {h : List NetEvent} {w : World} {o : Socket}, w.heap s = none →
      OnCourse s .nothing h → ((tcpLife s).after h).alive = false →
      Begun s (h ++ closeEvents o.fd) (w.closed t o) := by
    intro h w o hheap hh halive
    refine .inl ⟨(w.heap_closed_of_ne t o (Ne.symm hne)).trans hheap, ?_⟩
    have hdelete : OnCourse s .nothing (h ++ [.asked (.epollCtlDel o.fd) ()]) :=
      hh.concat trivial rfl
    unfold closeEvents
    split
    -- the descriptor which is closed is another one
    · rw [List.append_cons]
      refine ⟨hdelete.follows.concat fun halive' => ?_, ?_⟩
      · rw [Protocol.after_concat] at halive'
        rw [show ((tcpLife s).after h).alive = true from halive'] at halive
        cases halive
      · rw [Protocol.after_concat]
        rfl
    · exact hdelete
  refine wp_closeSocket plain_living ho (fun _ => hclosed hheap hh halive) (fun _ => ?_)
    fun _ r h' w' hinv _ => ?_
  · refine ⟨fun c hc => ?_, .inl ⟨hheap, hh.quiet rfl, fun _ => ?_⟩⟩
    · rw [List.mem_singleton.mp hc]
      exact fun hnone => by simp [Callback.socket, ho] at hnone
    · rw [Protocol.after_concat]
      exact halive
  · obtain ⟨hlive, ⟨hnone, hh', halive'⟩ | ⟨hctx, -⟩⟩ := hinv
    · obtain ⟨o', ho'⟩ := Option.ne_none_iff_exists'.mp (hlive _ List.mem_cons_self)
      refine ⟨o', ho', hclosed hnone (hh'.quiet rfl) ?_⟩
      rw [Protocol.after_concat]
      exact halive' ⟨_, List.mem_cons_self, hne⟩
    · exact absurd (hctx _ List.mem_cons_self) hne

theorem accept_living (hheap : w.heap s = none) (hnext : w.next = s) (hh : OnCourse s .nothing h)
    {t : SocketId} (hl : Listens w t) :
    wp (lifetime tcpCreates s) (living s) [] (TcpSocket.accept t) (fun _ => Begun s) h w := by
  obtain ⟨o, ho, -, -⟩ := id hl
  rw [TcpSocket.accept, wp_bind, wp_load ho, wp_bind]
  refine wp_ask plain_living rfl fun a _ _ => ?_
  have haccept := hh.concat (e := .asked (.accept o.fd) a) trivial rfl
  rcases a with errno | ⟨afd, addr⟩
  · refine closeListener_living hheap haccept ?_ hl
    rw [Protocol.after_concat]
    rfl
  have hl' : Listens (Kernel.effect w (.accept o.fd) (.ok (afd, addr))) t := hl
  have hheap' : (Kernel.effect w (.accept o.fd) (.ok (afd, addr))).heap s = none := hheap
  have hnext' : (Kernel.effect w (.accept o.fd) (.ok (afd, addr))).next = s := hnext
  dsimp only
  rw [wp_bind]
  refine wp_ask_idle plain_living rfl fun nonblock _ _ => ?_
  have hnonblock := haccept.quiet (e := .asked (.fcntl afd) nonblock) rfl
  have hafter : (tcpLife s).after (h ++ [.asked (.accept o.fd) (.ok (afd, addr))] ++
      [.asked (.fcntl afd) nonblock]) =
      { (tcpLife s).after h with
        alive := false, fd := afd, state := .accept, promised := .accept
        pending := .nothing } := by
    simp only [Protocol.after_concat]
    rfl
  split
  · refine closeListener_living hheap' hnonblock ?_ hl'
    rw [hafter]
  refine create_living hnext' hnonblock hafter (fun now r => ?_)
    fun now r h w o hfields ho hlives hpromised => ?_
  · exact ⟨rfl, rfl, rfl, rfl, fun _ => rfl, SocketState.noConfusion⟩
  have hstate : o.state = .accept := by rw [← hfields]; rfl
  have hclose : ∀ {h w}, Lasts s h w → wp (lifetime tcpCreates s) (living s) []
      (TcpSocket.close s) (fun _ => Begun s) h w :=
    fun hw => wp_mono (fun _ _ _ => .inr) (close_living (List.forall_mem_nil _) hw)
  have hrefused : Lives s (h ++ [.asked (.epollCtlAdd o.fd .readError) false]) o :=
    hlives.concat trivial rfl hlives.mirrors
  -- the promised state is the one it is in already
  have hadded : Lives s (h ++ [.asked (.epollCtlAdd o.fd .readError) true]) o := by
    obtain ⟨htype, halive, -, hfd, hlast, htimeout, hlisten⟩ := hlives.mirrors
    exact hlives.concat trivial rfl
      ⟨htype, halive, hstate.trans hpromised.symm, hfd, hlast, htimeout, hlisten⟩
  rw [wp_bind]
  refine EpollContainer.wp_addSocket plain_living ho (hclose ⟨o, ho, hlives⟩)
    (hclose ⟨o, ho, hrefused⟩) fun _ _ => ?_
  have ho' : (w.listed s o.fd .readError).heap s = some o := ho
  show wp _ _ _ (TcpSocket.enableTcpNoDelay s >>= _) _ _ _
  rw [TcpSocket.enableTcpNoDelay, wp_bind, wp_bind, wp_load ho']
  refine wp_ask_idle plain_living rfl fun nodelay _ _ => ?_
  have hnodelay : Lasts s _ (w.listed s o.fd .readError) :=
    ⟨o, ho', hadded.quiet (e := .asked (.setsockopt o.fd) nodelay) rfl⟩
  cases nodelay with
  | false => exact hclose hnodelay
  | true => exact .inr hnodelay

end

/-! ## Runs -/

theorem interferes_living {s : SocketId} {ctx : List Callback} {h : List NetEvent} {w w' : World}
    (henv : (lifetime tcpCreates s).interferes ctx w w') (hinv : (living s).inv ctx h w) :
    (living s).inv ctx h w' := by
  obtain ⟨hlive, hheap⟩ := henv
  obtain ⟨-, ⟨hnone, hh, halive⟩ | ⟨hctx, o, ho, hlives⟩⟩ := hinv
  · exact ⟨hlive, .inl ⟨hheap.elim (fun hheap => hheap.trans hnone) id, hh, halive⟩⟩
  · refine ⟨hlive, ?_⟩
    rcases hheap with hheap | hnone
    · exact .inr ⟨hctx, o, hheap.trans ho, hlives⟩
    · exact .inl ⟨hnone, hlives.toOnCourse, fun ⟨c, hc, hne⟩ => absurd (hctx c hc) hne⟩

theorem sound_living {s : SocketId} : (living s).Sound (lifetime tcpCreates s) Method.body where
  refl _ _ := trivial
  trans _ _ _ _ _ _ := trivial
  interferes _ _ _ _ henv hinv := ⟨interferes_living henv hinv, trivial⟩
  methods := by
    intro ctx h w m henv hinv
    obtain ⟨hctx, hm⟩ := henv
    obtain ⟨hlive, hs⟩ := hinv
    rcases hm with ⟨htarget, hborn⟩ | ⟨hnext, hnone, hcreated⟩
    · have hw : Lasts s h w := hs.elim (fun hs => absurd hs.1 hborn) And.right
      exact wp_mono (fun v h' w' hw' => ⟨hw'.inv hctx, trivial⟩) (body_living hctx hw htarget)
    -- no callback is running while `s` is created
    · obtain rfl : ctx = [] := by
        refine List.eq_nil_iff_forall_not_mem.mpr fun c hc => hlive c hc ?_
        rw [hctx c hc, hnone]
      have hh : OnCourse s .nothing h := by
        obtain ⟨-, hh, -⟩ | ⟨-, o, -, hlives⟩ := hs
        · exact hh
        · exact hlives.toOnCourse
      have hbegun : ∀ {v : Value} {h w}, Begun s h w →
          (living s).inv [] (h ++ [.returned m v]) w ∧ True := by
        intro v h w hw
        refine ⟨⟨List.forall_mem_nil _, ?_⟩, trivial⟩
        rcases hw with ⟨hnone, hh⟩ | hw
        · exact .inl ⟨hnone, hh.quiet rfl, fun ⟨c, hc, _⟩ => absurd hc List.not_mem_nil⟩
        · exact .inr ⟨List.forall_mem_nil _, hw.quiet rfl⟩
      rcases hcreated with ⟨ip, port, handler, rfl⟩ | ⟨t, rfl, hl⟩
      · exact wp_seq (connect_living hnone hnext (hh.quiet rfl) ip port handler) fun _ _ _ hw =>
          hbegun hw
      · obtain ⟨o, ho, htype, hstate⟩ := id hl
        refine wp_seq ?_ fun _ _ _ hw => hbegun hw
        rw [SocketBase.handleRead, wp_bind, wp_load ho, htype]
        show wp _ _ _ (TcpSocket.handleRead t maxReadBuffSize) _ _ w
        rw [TcpSocket.handleRead, wp_bind, wp_load ho, hstate]
        exact accept_living hnone hnext (hh.quiet rfl) hl

/-- **The life of a `TcpSocket`.**  In every run the history of an object follows the
machine, and whenever the application has control its fields are those of the machine. -/
theorem tcp_follows_life {s : SocketId} {w : World} (hs : w.heap s = none) {c : NetConfig}
    (hc : Reaches (lifetime tcpCreates s) Method.body (Config.start w) c) :
    (tcpLife s).Follows c.history ∧
      (c.running = none →
        ∀ o, c.world.heap s = some o → Mirrors ((tcpLife s).after c.history) o) := by
  have hstart : (living s).inv [] [] w :=
    ⟨List.forall_mem_nil _, .inl ⟨hs, ⟨Protocol.follows_nil, rfl⟩, fun _ => rfl⟩⟩
  refine ⟨?_, fun hidle o ho => ?_⟩
  · refine Spec.history_of_reaches sound_living
      (fun w q => ⟨_, _, Obliging.answers ⟨true, [], 0⟩ w q⟩) (fun _ => id)
      Protocol.Follows.of_prefix ?_ hstart hc
    rintro ctx h w ⟨-, ⟨-, hh, -⟩ | ⟨-, o, -, hlives⟩⟩
    · exact hh.follows
    · exact hlives.follows
  · obtain ⟨-, ⟨hnone, -⟩ | ⟨-, o', ho', hlives⟩⟩ :=
      Spec.inv_of_reaches sound_living hstart hc hidle
    · rw [hnone] at ho
      cases ho
    · cases ho.symm.trans ho'
      exact hlives.mirrors

/-- `connect` takes its time, and nobody looks at the clock for a long while. -/
def overslept (w : World) : (q : Question) → Answer q
  | .time => if (w.heap 0).any fun o => decide (o.lastAccessTime > 0) then 200 else 100
  | q => slowly w q

theorem answers_overslept (w : World) (q : Question) :
    Kernel.answers w q (overslept w q) (Kernel.effect w q (overslept w q)) := by
  cases q with
  | time => exact ⟨trivial, rfl⟩
  | _ => exact answers_slowly w _

/-- `HandleTimeout` calls back. -/
def timedOutRun : NetConfig :=
  (Config.start (World.initial 8 Kernel.idle 0)).play Method.body overslept Kernel.effect 100
    [.enter (.tcpConnect 1 2 true), .enter (.handleTimeout 0)]

theorem reaches_timedOutRun : Reaches (lifetime tcpCreates 0) Method.body
    (Config.start (World.initial 8 Kernel.idle 0)) timedOutRun :=
  reaches_play answers_overslept ⟨⟨nofun, .inr ⟨rfl, rfl, .inl ⟨1, 2, true, rfl⟩⟩⟩,
    ⟨nofun, .inl ⟨rfl, Option.isSome_iff_ne_none.mp rfl⟩⟩, trivial⟩

theorem tcp_follows_life_late : ∃ before,
    timedOutRun.history = before ++ [.called (.handleClose 0)] ∧
      ((tcpLife 0).after before).pending = .verdict true ∧
      Life.Allows 0 ((tcpLife 0).after before) (.called (.handleClose 0)) :=
  ⟨timedOutRun.history.take 10, rfl, rfl,
    (tcp_follows_life rfl reaches_timedOutRun).1 _ _ [] rfl⟩

end Net
end Deps
