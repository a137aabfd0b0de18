import Deps.Net.ContainerRuns
import Deps.Net.Outcomes

/-!
# The sweep for sockets which have timed out

`CheckTimeoutSocket` calls `HandleTimeout` on the sockets in the map, and then
advances an iterator whose element `Close` erases when a socket has timed out.
-/

namespace Deps
namespace Net

open Reentrant

/-- Every entry of the map is the descriptor of a live object. -/
def Mapped (w : World) : Prop :=
  ∀ fd s, w.container.socketMap.find fd = some s → w.fdOf s = some fd

theorem Owned.mapped {pending : SocketId → Prop} {w : World} (hw : Owned pending w) : Mapped w :=
  fun fd s hs => (hw.entry fd s hs).2

/-- The condition under which `HandleTimeout` closes. -/
def Socket.timedOut (o : Socket) (now : Int) : Bool :=
  (match o.type with
    | .tcp => decide (o.state = .accept ∨ o.state = .connected ∨ o.state = .connecting)
    | .udp => decide (o.state = .connected)) &&
  decide (o.timeout > 0 ∧ o.lastAccessTime > 0 ∧ o.lastAccessTime + o.timeout < now)

/-- `clock` is the time which is told while `checkFd` is a descriptor. -/
def OnTime (clock : Fd → Int) (w : World) : (q : Question) → Answer q → Prop
  | .time, now => now = clock w.checkFd
  | _, _ => True

/-- A process in which a callback may do anything, as long as no object is deleted
and the entries of the map stay what they are meant to be. -/
def sweeping (clock : Fd → Int) : NetSetting where
  answers w q a w' := Kernel.answers w q a w' ∧ OnTime clock w q a
  handles _ w _ w' := (∀ s, w.heap s ≠ none → w'.heap s ≠ none) ∧ (Mapped w → Mapped w')

theorem exists_outcome_sweeping (clock : Fd → Int) {α : Type} (x : NetM α) (w : World) :
    ∃ t r w', Outcome (sweeping clock) x w t r w' := by
  refine exists_outcome (fun w q => ?_) (fun c w => ?_) x w
  · cases q with
    | time => exact ⟨clock w.checkFd, w, ⟨trivial, rfl⟩, rfl⟩
    | _ => exact ⟨_, _, Obliging.answers ⟨true, [], 0⟩ w _, trivial⟩
  · exact ⟨0, w, fun _ => id, id⟩

/-- The entries whose sockets the sweep has to visit. -/
def toSweep (w : World) : List (Fd × SocketId) :=
  (w.container.socketMap.above w.checkFd).take 1000

/-- The socket under this entry closes when it is visited. -/
def overdue (clock : Fd → Int) (w : World) (e : Fd × SocketId) : Bool :=
  (w.heap e.2).any fun o => o.timedOut (clock e.1)

/-- `HandleTimeout` is called once on each of the sockets, in their order, while the
entry of the socket is in the map. -/
inductive Sweep (env : NetSetting) :
    List (Fd × SocketId) → World → List NetDeed → World → Prop
  | nil {w} : Sweep env [] w [] w
  | cons {fd s rest w t w₁ t' w'} (hmapped : w.container.socketMap.find fd = some s)
      (hturn : Outcome env (SocketBase.handleTimeout s) { w with checkFd := fd } t (.ok ()) w₁)
      (hrest : Sweep env rest w₁ t' w') : Sweep env ((fd, s) :: rest) w (t ++ t') w'

/-- What a sweep should have done when it is over. -/
structure Thorough (clock : Fd → Int) (w : World) (t : List NetDeed) (r : Except NetFault Unit)
    (w' : World) : Prop where
  /-- no iterator is advanced whose element was erased -/
  valid : r = .ok ()
  once : ∃ w₁ fd, Sweep (sweeping clock) (toSweep w) w t w₁ ∧ w' = { w₁ with checkFd := fd }
  entries : w'.container.socketMap.entries = w.container.socketMap.entries.filter fun e =>
    !(decide (e ∈ toSweep w) && overdue clock w e)

section

variable {clock : Fd → Int} {w w' : World} {t : List NetDeed} {s : SocketId} {o : Socket}

/-- `HandleTimeout` closes the socket when it has timed out, and otherwise does nothing. -/
theorem outcome_handleTimeout {env : NetSetting}
    (hkernel : ∀ {w q a w'}, env.answers w q a w' → Kernel.answers w q a w')
    (hs : w.heap s = some o) {r : Except NetFault Unit}
    (h : Outcome env (SocketBase.handleTimeout s) w t r w') :
    ∃ now rest, env.answers w .time now w ∧ t = .asked .time now :: rest ∧
      if o.timedOut now then Outcome env (closeSocket s) w rest r w'
      else rest = [] ∧ r = .ok () ∧ w' = w := by
  -- what follows in both classes, once the state allows it
  have hcheck : ∀ {now : Int} {live : Bool} {rest : List NetDeed},
      Outcome env (if live then
        if o.timeout > 0 ∧ o.lastAccessTime > 0 ∧ o.lastAccessTime + o.timeout < now then
          closeSocket s
        else pure ()
      else pure ()) w rest r w' →
      if live && decide (o.timeout > 0 ∧ o.lastAccessTime > 0 ∧ o.lastAccessTime + o.timeout < now)
      then Outcome env (closeSocket s) w rest r w'
      else rest = [] ∧ r = .ok () ∧ w' = w := by
    intro now live rest h
    cases live with
    | false => exact h
    | true =>
        rw [if_pos rfl] at h
        rw [Bool.true_and]
        split at h
        · rename_i hlate
          rwa [if_pos (decide_eq_true hlate)]
        · rename_i hlate
          rwa [if_neg (by simpa using hlate)]
  rw [SocketBase.handleTimeout, outcome_load hs] at h
  cases htype : o.type with
  | tcp =>
      rw [htype] at h
      obtain ⟨now, rest, -, hnow, rfl, hrest⟩ := outcome_ask_idle hkernel rfl h
      rw [outcome_load hs] at hrest
      refine ⟨now, rest, hnow, rfl, ?_⟩
      simp only [Socket.timedOut, htype]
      refine hcheck ?_
      cases hstate : o.state <;> rw [hstate] at hrest <;> exact hrest
  | udp =>
      rw [htype] at h
      obtain ⟨now, rest, -, hnow, rfl, hrest⟩ := outcome_ask_idle hkernel rfl h
      rw [outcome_load hs] at hrest
      refine ⟨now, rest, hnow, rfl, ?_⟩
      simp only [Socket.timedOut, htype]
      refine hcheck ?_
      cases hstate : o.state <;> rw [hstate] at hrest <;> exact hrest

theorem handleTimeout_sweeping (hs : w.heap s = some o) {r : Except NetFault Unit}
    (h : Outcome (sweeping clock) (SocketBase.handleTimeout s) w t r w') :
    ∃ rest, t = .asked .time (clock w.checkFd) :: rest ∧
      if o.timedOut (clock w.checkFd) then Outcome (sweeping clock) (closeSocket s) w rest r w'
      else rest = [] ∧ r = .ok () ∧ w' = w := by
  obtain ⟨now, rest, ⟨-, rfl⟩, rfl, hrest⟩ := outcome_handleTimeout And.left hs h
  exact ⟨rest, rfl, hrest⟩

/-- `Close` takes the entry of the socket out of the map, whatever the handler does. -/
theorem closeSocket_sweeping (hw : Mapped w) (hs : w.heap s = some o)
    {r : Except NetFault Unit} (h : Outcome (sweeping clock) (closeSocket s) w t r w') :
    r = .ok () ∧ ∀ fd, w'.container.socketMap.find fd ≠ some s := by
  have hlive : ∀ n w₁, (sweeping clock).handles (.handleClose s) w n w₁ → w₁.heap s ≠ none := by
    intro n w₁ hn
    exact hn.1 s (by rw [hs]; exact Option.some_ne_none o)
  obtain ⟨told, w₁, o₁, htold, ho₁, -, rfl, rfl⟩ := outcome_closeSocket And.left hs hlive h
  have hw₁ : Mapped w₁ := by
    cases htold with
    | silent => exact hw
    | told _ hn => exact hn.2 hw
  refine ⟨rfl, fun fd hfd => ?_⟩
  obtain ⟨hne, hfind⟩ := (w₁.find_closed s o₁).mp hfd
  have hfdOf := hw₁ fd s hfind
  rw [World.fdOf_eq_some ho₁] at hfdOf
  exact hne (Option.some.inj hfdOf).symm

section Advance

variable {env : NetSetting} {fd : Fd} {β : Type} {f : EpollContainer.Iterator → NetM β}
  {r : Except NetFault β}

theorem advance_of_mapped (hfind : w.container.socketMap.find fd = some s) :
    Outcome env (EpollContainer.advance fd s >>= f) w t r w' ↔
      Outcome env (f (w.container.socketMap.above fd).head?) w t r w' := by
  rw [EpollContainer.advance, outcome_assoc, outcome_members, if_pos hfind]
  exact Iff.rfl

theorem advance_of_erased (hfind : w.container.socketMap.find fd ≠ some s) :
    Outcome env (EpollContainer.advance fd s >>= f) w t r w' ↔
      t = [] ∧ r = .error .invalidIterator ∧ w' = w := by
  rw [EpollContainer.advance, outcome_assoc, outcome_members, if_neg hfind]
  exact Iff.rfl

end Advance

/-- The turn of one socket: if it has timed out, `Close` erases its entry and the
iterator cannot be advanced; if it has not, nothing has changed when the loop goes on. -/
theorem turn_sweeping (hw : Mapped w) (hs : w.heap s = some o) {fd : Fd}
    (hfind : w.container.socketMap.find fd = some s)
    {f : EpollContainer.Iterator → NetM EpollContainer.Iterator}
    {r : Except NetFault EpollContainer.Iterator}
    (h : Outcome (sweeping clock) (SocketBase.handleTimeout s >>= fun _ =>
      EpollContainer.advance fd s >>= f) w t r w') :
    (o.timedOut (clock w.checkFd) = true ∧ r = .error .invalidIterator) ∨
      (o.timedOut (clock w.checkFd) = false ∧ ∃ t₁ t₂,
        Outcome (sweeping clock) (SocketBase.handleTimeout s) w t₁ (.ok ()) w ∧
        Outcome (sweeping clock) (f (w.container.socketMap.above fd).head?) w t₂ r w' ∧
        t = t₁ ++ t₂) := by
  rcases outcome_bind.mp h with ⟨_, w₁, t₁, t₂, hturn, hnext, rfl⟩ | ⟨why, hturn, -⟩
  · obtain ⟨closing, -, hclosing⟩ := handleTimeout_sweeping hs hturn
    cases hlate : o.timedOut (clock w.checkFd) with
    | true =>
        rw [if_pos hlate] at hclosing
        obtain ⟨-, hgone⟩ := closeSocket_sweeping hw hs hclosing
        rw [advance_of_erased (hgone fd)] at hnext
        exact .inl ⟨rfl, hnext.2.1⟩
    | false =>
        rw [if_neg (by rw [hlate]; exact Bool.false_ne_true)] at hclosing
        obtain ⟨-, -, rfl⟩ := hclosing
        rw [advance_of_mapped hfind] at hnext
        exact .inr ⟨rfl, t₁, t₂, hturn, hnext, rfl⟩
  -- neither the check nor `Close` faults
  · obtain ⟨closing, -, hclosing⟩ := handleTimeout_sweeping hs hturn
    split at hclosing
    · cases (closeSocket_sweeping hw hs hclosing).1
    · cases hclosing.2.1

/-- The loop goes on as long as no socket has timed out, and faults at the first
one which has. -/
theorem checkEach_sweeping (hw : Mapped w) {turns : Nat} {c : Fd}
    {r : Except NetFault EpollContainer.Iterator}
    (h : Outcome (sweeping clock)
      (EpollContainer.checkEach turns (w.container.socketMap.above c).head?) w t r w')
    {es : List (Fd × SocketId)} (hes : (w.container.socketMap.above c).take turns = es) :
    ((∀ e ∈ es, overdue clock w e = false) ∧ (∃ itr, r = .ok itr) ∧
        Sweep (sweeping clock) es w t w' ∧ ∃ fd, w' = { w with checkFd := fd }) ∨
      (∃ e ∈ es, overdue clock w e = true) ∧ r = .error .invalidIterator := by
  subst hes
  induction turns generalizing w c t with
  | zero =>
      obtain ⟨rfl, rfl, rfl⟩ := h
      exact .inl ⟨List.forall_mem_nil _, ⟨_, rfl⟩, .nil, w'.checkFd, rfl⟩
  | succ turns ih =>
      cases habove : w.container.socketMap.above c with
      | nil =>
          rw [habove] at h
          obtain ⟨rfl, rfl, rfl⟩ := h
          exact .inl ⟨List.forall_mem_nil _, ⟨_, rfl⟩, .nil, w'.checkFd, rfl⟩
      | cons e rest =>
          obtain ⟨fd, s⟩ := e
          rw [habove] at h
          have hfind : w.container.socketMap.find fd = some s :=
            OrderedMap.find_of_mem_above KeyOrder.int_total (habove ▸ List.mem_cons_self)
          obtain ⟨o, ho, -⟩ := Option.map_eq_some_iff.mp (hw fd s hfind)
          have hoverdue : overdue clock w (fd, s) = o.timedOut (clock fd) := by
            simp [overdue, ho]
          -- the turn of this socket
          let w₀ : World := { w with checkFd := fd }
          have hw₀ : Mapped w₀ := hw
          have ho₀ : w₀.heap s = some o := ho
          have hfind₀ : w₀.container.socketMap.find fd = some s := hfind
          have hvisit : Outcome (sweeping clock) (SocketBase.handleTimeout s >>= fun _ =>
              EpollContainer.advance fd s >>= EpollContainer.checkEach turns) w₀ t r w' := h
          rw [List.take_succ_cons, List.forall_mem_cons, List.exists_mem_cons_iff, hoverdue]
          rcases turn_sweeping hw₀ ho₀ hfind₀ hvisit with
            ⟨hlate, hr⟩ | ⟨hlate, t₁, t₂, hturn, hnext, rfl⟩
          · exact .inr ⟨.inl hlate, hr⟩
          · have hrest := ih hw₀ hnext
            rw [show w₀.container.socketMap.above fd = rest from
              OrderedMap.above_of_above habove] at hrest
            rcases hrest with ⟨hnone, hr, hsweep, fd', rfl⟩ | ⟨hsome, hr⟩
            · exact .inl ⟨⟨hlate, hnone⟩, hr, .cons hfind hturn hsweep, fd', rfl⟩
            · exact .inr ⟨.inr hsome, hr⟩

theorem entries_eq_filter (hnone : ∀ e ∈ toSweep w, overdue clock w e = false) :
    w.container.socketMap.entries = w.container.socketMap.entries.filter fun e =>
      !(decide (e ∈ toSweep w) && overdue clock w e) := by
  refine (List.filter_eq_self.mpr fun e _ => ?_).symm
  by_cases he : e ∈ toSweep w
  · rw [hnone e he, Bool.and_false]
    rfl
  · rw [decide_eq_false he]
    rfl

theorem checkTimeoutSocket_sweeping (hw : Mapped w) {r : Except NetFault Unit}
    (h : Outcome (sweeping clock) EpollContainer.checkTimeoutSocket w t r w') :
    ((∀ e ∈ toSweep w, overdue clock w e = false) ∧ Thorough clock w t r w') ∨
      (∃ e ∈ toSweep w, overdue clock w e = true) ∧ r = .error .invalidIterator := by
  have hloop : Outcome (sweeping clock)
      (EpollContainer.checkEach 1000 (w.container.socketMap.above w.checkFd).head? >>= fun itr =>
        if itr.isNone then Prog.modify fun w => { w with checkFd := 0 } else pure ()) w t r w' := h
  rcases outcome_bind.mp hloop with ⟨itr, w₁, t₁, t₂, heach, hend, rfl⟩ | ⟨why, heach, hr⟩
  · rcases checkEach_sweeping hw heach rfl with ⟨hnone, -, hsweep, fd, rfl⟩ | ⟨-, hitr⟩
    · refine .inl ⟨hnone, ?_⟩
      split at hend
      · obtain ⟨rfl, rfl, rfl⟩ := hend
        rw [List.append_nil]
        exact ⟨rfl, ⟨_, 0, hsweep, rfl⟩, entries_eq_filter hnone⟩
      · obtain ⟨rfl, rfl, rfl⟩ := hend
        rw [List.append_nil]
        exact ⟨rfl, ⟨_, fd, hsweep, rfl⟩, entries_eq_filter hnone⟩
    · cases hitr
  · rcases checkEach_sweeping hw heach rfl with ⟨-, ⟨itr, hitr⟩, -⟩ | ⟨hsome, hwhy⟩
    · cases hitr
    · cases hwhy
      exact .inr ⟨hsome, hr⟩

/-- **The sweep and the closes it causes.**  Whatever the map, the descriptor where
the sweep starts, the sockets and their handlers are: the sweep advances iterators
of present elements only, calls `HandleTimeout` exactly once on each of the first
1000 sockets above `checkFd`, and leaves the map without the sockets which timed out,
if and only if none of these sockets has timed out when its turn comes. -/
theorem timeout_sweep_thorough_iff (clock : Fd → Int) {w w' : World} (hw : Mapped w)
    {t : List NetDeed} {r : Except NetFault Unit}
    (h : Outcome (sweeping clock) EpollContainer.checkTimeoutSocket w t r w') :
    Thorough clock w t r w' ↔ ∀ e ∈ toSweep w, overdue clock w e = false := by
  rcases checkTimeoutSocket_sweeping hw h with ⟨hnone, hthorough⟩ | ⟨⟨e, he, hlate⟩, hr⟩
  · exact iff_of_true hthorough hnone
  · refine iff_of_false (fun hthorough => ?_) fun hnone => ?_
    · cases hr.symm.trans hthorough.valid
    · exact Bool.false_ne_true ((hnone e he).symm.trans hlate)

end

/-! ## A socket which was idle too long -/

/-- A connection which was accepted at the time 1 and may be idle for a minute. -/
def idleSocket : Socket :=
  { TcpSocket.construct false false with
    fd := 3, state := .accept, timeout := tcpAccessTimeout, lastAccessTime := 1 }

def idleWorld : World :=
  ((World.initial 8 Kernel.idle 0).born idleSocket).listed 0 3 .readError

theorem mapped_idleWorld : Mapped idleWorld := by
  intro fd s hs
  have habsent : (World.initial 8 Kernel.idle 0).container.socketMap.find 3 = none := rfl
  rcases (OrderedMap.find_insert_of_absent KeyOrder.int_total habsent fd s).mp hs with
    ⟨rfl, rfl⟩ | hfind
  · rfl
  · cases hfind

/-- After a minute the sweep advances an iterator which its own call of `Close` has
made invalid. -/
theorem timeout_sweep_not_thorough :
    ∃ t r w', Outcome (sweeping fun _ => 100) EpollContainer.checkTimeoutSocket idleWorld t r w' ∧
      ¬Thorough (fun _ => 100) idleWorld t r w' := by
  obtain ⟨t, r, w', h⟩ := exists_outcome_sweeping (fun _ => 100)
    EpollContainer.checkTimeoutSocket idleWorld
  rcases checkTimeoutSocket_sweeping mapped_idleWorld h with ⟨hnone, -⟩ | ⟨-, hr⟩
  · exact absurd hnone (by decide)
  · exact ⟨t, r, w', h, fun hthorough => by cases hr.symm.trans hthorough.valid⟩

/-- The theorem half a minute earlier. -/
theorem timeout_sweep_thorough_iff_idle :
    ∃ t r w', Outcome (sweeping fun _ => 50) EpollContainer.checkTimeoutSocket idleWorld t r w' ∧
      Thorough (fun _ => 50) idleWorld t r w' := by
  obtain ⟨t, r, w', h⟩ := exists_outcome_sweeping (fun _ => 50)
    EpollContainer.checkTimeoutSocket idleWorld
  exact ⟨t, r, w', h, (timeout_sweep_thorough_iff _ mapped_idleWorld h).mpr (by decide)⟩

end Net
end Deps
