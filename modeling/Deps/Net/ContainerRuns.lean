import Deps.Net.OwnershipRuns

/-!
# What holds of a container in every run

`Consistent` says what the map, the set of closed sockets, the counter and the
registrations have to do with each other and with the objects, in the terms of
the container alone.  It follows from `Owned` whenever the application has
control; two runs show a descriptor used again and a socket which is refused.
-/

namespace Deps
namespace Net

open Reentrant

/-- The state of a container and of its sockets which every run keeps, while the
callbacks `ctx` have not returned. -/
structure Consistent (ctx : List Callback) (w : World) : Prop where
  socketNum : w.container.socketNum = w.container.socketMap.size
  size_le : w.container.socketMap.size ≤ w.container.maxFdCount
  /-- an entry has the descriptor of its socket as its key -/
  entry : ∀ fd s, w.container.socketMap.find fd = some s → ∃ o, w.heap s = some o ∧ o.fd = fd
  registered : ∀ fd, w.kernel.interest fd ≠ none ↔ w.container.socketMap.find fd ≠ none
  disjoint : ∀ fd s, w.container.socketMap.find fd = some s →
    s ∉ OrderedSet.elements w.container.closeSockets
  /-- the descriptor of an object in neither of the two was never registered, and the
  object is being closed -/
  held : ∀ s o, w.heap s = some o → w.container.socketMap.find o.fd = some s ∨
    s ∈ OrderedSet.elements w.container.closeSockets ∨
      (Callback.handleClose s ∈ ctx ∧ w.kernel.enrolled o.fd = false)
  /-- an object is deleted once -/
  deleted : ∀ s, w.deleted s = if s < w.next ∧ w.heap s = none then 1 else 0
  /-- what refers to an object refers to a live one -/
  referred : ∀ s, w.heap s = none → (∀ fd, w.container.socketMap.find fd ≠ some s) ∧
    s ∉ OrderedSet.elements w.container.closeSockets

theorem Owned.consistent {ctx : List Callback} {w : World} (hw : Owned (closing ctx) w) :
    Consistent ctx w := by
  have hdead : ∀ s, w.fdOf s = none ↔ w.heap s = none := by
    intro s
    simp [World.fdOf]
  constructor
  case socketNum => exact hw.socketNum
  case size_le => exact hw.size_le
  case entry =>
    intro fd s hs
    obtain ⟨o, ho, hfd⟩ := Option.map_eq_some_iff.mp (hw.entry fd s hs).2
    exact ⟨o, ho, hfd⟩
  case registered => exact fun fd => (hw.registered fd).not
  case disjoint =>
    intro fd s hs hclosed
    obtain ⟨hnonneg, hfd⟩ := hw.entry fd s hs
    rw [(hw.closed s).mp hclosed] at hfd
    exact ne_neg_of_nonneg hnonneg (Option.some.inj hfd).symm
  case held =>
    intro s o ho
    have hfd := World.fdOf_eq_some ho
    by_cases hneg : o.fd = -1
    · exact .inr (.inl ((hw.closed s).mpr (hneg ▸ hfd)))
    -- an object is pending only while its `HandleClose` has not returned
    · rcases hw.listed s o.fd hfd hneg with hpending | hmapped
      · exact .inr (.inr hpending)
      · exact .inl hmapped
  case deleted =>
    exact fun s => (hw.deleted s).trans (if_congr (and_congr_right' (hdead s)) rfl rfl)
  case referred =>
    intro s hs
    have hfd := (hdead s).mpr hs
    refine ⟨fun fd hmapped => ?_, fun hclosed => ?_⟩
    · rw [(hw.entry fd s hmapped).2] at hfd
      cases hfd
    · rw [(hw.closed s).mp hclosed] at hfd
      cases hfd

theorem Owned.initial (maxFdCount : Nat) (kernel : Kernel) (checkFd : Fd) :
    Owned (closing []) (World.initial maxFdCount kernel checkFd) where
  unborn _ _ := rfl
  socketNum := rfl
  size_le := Nat.zero_le _
  entry _ _ hs := nomatch hs
  isOpen _ _ hs := nomatch hs
  unique _ _ _ hs := nomatch hs
  registered _ := iff_of_true rfl rfl
  listed _ _ hs := nomatch hs
  closed _ := iff_of_false List.not_mem_nil fun hs => nomatch hs
  deleted s := (if_neg fun h => absurd h.1 (Nat.not_lt_zero s)).symm
  fresh _ _ hs := nomatch hs
  polled _ _ hs := nomatch hs

/-- A specification under which a program may neither call back nor fail. -/
def quiet : NetSpec where
  inv _ _ _ := False
  rel _ _ _ := True
  check _ _ := True
  tolerated _ := False

/-- What `CheckCloseSocket` does: the objects in the set are deleted, each of them
once, and nothing refers to a deleted object afterwards. -/
structure Swept (w w' : World) : Prop where
  heap : ∀ s, w'.heap s =
    if s ∈ OrderedSet.elements w.container.closeSockets then none else w.heap s
  deleted : ∀ s, w'.deleted s =
    if s ∈ OrderedSet.elements w.container.closeSockets then w.deleted s + 1 else w.deleted s
  closeSockets : OrderedSet.elements w'.container.closeSockets = []
  socketMap : w'.container.socketMap = w.container.socketMap
  entry : ∀ fd s, w'.container.socketMap.find fd = some s → w'.heap s ≠ none

theorem Owned.swept {pending : SocketId → Prop} {w : World} (hw : Owned pending w) :
    Swept w w.swept where
  heap := w.reaped_heap _
  deleted := w.reaped_deleted (OrderedSet.nodup_elements _)
  closeSockets := rfl
  socketMap := by
    show (w.reaped _).container.socketMap = _
    rw [(w.reaped_rest _).2.1]
  entry _ _ hs := hw.sweep.live hs

/-- In every run the container is consistent whenever the application has
control, no method fails except by advancing an iterator whose element is gone,
and `CheckCloseSocket` deletes what waits for it. -/
theorem container_consistent (maxFdCount : Nat) (kernel : Kernel) (checkFd : Fd) {c : NetConfig}
    (hc : Reaches managed Method.body (Config.start (World.initial maxFdCount kernel checkFd)) c) :
    (c.running = none → Consistent (context c.suspended) c.world) ∧
      (∀ m why, c.running = some (m, .fault why) → why = .invalidIterator) ∧
      (c.running = none → ∀ h, wp managed quiet (context c.suspended)
        EpollContainer.checkCloseSocket (fun _ _ => Swept c.world) h c.world) := by
  have hinit : ownership.inv [] [] (World.initial maxFdCount kernel checkFd) :=
    ⟨.initial maxFdCount kernel checkFd, EpollContainer.alive_nil _⟩
  refine ⟨fun hidle => ?_, fun m why hfault => ?_, fun hidle h => ?_⟩
  · exact (ownership.inv_of_reaches sound_ownership hinit hc hidle).1.consistent
  · exact ownership.tolerated_of_reaches sound_ownership hinit hc hfault
  · have hw := (ownership.inv_of_reaches sound_ownership hinit hc hidle).1
    have hplain : Plain managed quiet := ⟨id, fun _ => trivial⟩
    exact EpollContainer.wp_checkCloseSocket hplain hw fun _ => hw.swept

/-! ## Two runs -/

/-- A kernel without open descriptors. -/
def Kernel.idle : Kernel where
  isOpen _ := false
  interest _ := none
  handedOut _ := false
  enrolled _ := false

/-- The configuration after the moves of the application. -/
def played (k : Obliging) (moves : List (Move Method)) : NetConfig :=
  (Config.start (World.initial 8 Kernel.idle 0)).play Method.body k.answer Kernel.effect 100 moves

theorem reaches_played (k : Obliging) {moves : List (Move Method)}
    (hmoves : (Config.start (World.initial 8 Kernel.idle 0)).Plays managed Method.body k.answer
      Kernel.effect 100 moves) :
    Reaches managed Method.body (Config.start (World.initial 8 Kernel.idle 0)) (played k moves) :=
  reaches_play k.answers hmoves

theorem managed_close {ctx : List Callback} {w : World} {s : SocketId}
    (hs : (w.heap s).isSome = true) : managed.enters ctx w (.close s) := by
  refine ⟨nofun, fun t ht => ?_⟩
  cases ht
  exact Option.isSome_iff_ne_none.mp hs

/-- The descriptor 3 is used again before the object which had it is deleted. -/
def reuseMoves : List (Move Method) :=
  [.enter (.tcpConnect 1 2 false), .enter (.close 0), .enter (.tcpConnect 1 2 false),
    .enter .handleSockets]

theorem reaches_reuse :
    Reaches managed Method.body (Config.start (World.initial 8 Kernel.idle 0))
      (played ⟨true, [1], 4⟩ reuseMoves) := by
  refine reaches_played _ ⟨⟨nofun, nofun⟩, managed_close rfl, ⟨nofun, nofun⟩, ⟨fun _ => rfl, nofun⟩,
    trivial⟩

/-- The first object was deleted once, and the second is what the entry refers to. -/
theorem container_consistent_reuse :
    Consistent [] (played ⟨true, [1], 4⟩ reuseMoves).world ∧
      (played ⟨true, [1], 4⟩ reuseMoves).world.deleted 0 = 1 ∧
      (played ⟨true, [1], 4⟩ reuseMoves).world.container.socketMap.entries = [(3, 1)] :=
  ⟨(container_consistent 8 Kernel.idle 0 reaches_reuse).1 rfl, by rfl, by rfl⟩

/-- When `epoll_ctl` refuses the descriptor, the object is in neither of the two
while its `HandleClose` runs. -/
theorem refused_socket_unheld :
    ∃ c, Reaches managed Method.body (Config.start (World.initial 8 Kernel.idle 0)) c ∧
      c.running = none ∧ c.world.heap 0 ≠ none ∧
      (∀ fd, c.world.container.socketMap.find fd = none) ∧
      OrderedSet.elements c.world.container.closeSockets = [] := by
  refine ⟨played ⟨false, [1], 4⟩ [.enter (.tcpConnect 1 2 true)], ?_, rfl, ?_, fun _ => rfl, rfl⟩
  · exact reaches_played _ ⟨⟨nofun, nofun⟩, trivial⟩
  · exact Option.isSome_iff_ne_none.mp rfl

end Net
end Deps
