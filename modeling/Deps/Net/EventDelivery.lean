import Deps.Net.ContainerRuns

/-!
# Which socket an event reaches

`HandleSockets` looks up every event of a batch by its descriptor when the event
has its turn.  By then a handler may have closed the socket for which the event
was raised, and the kernel may have given the descriptor to a new socket.
-/

namespace Deps
namespace Net

open Reentrant

/-- In every run: an event which `HandleSockets` drops was raised for a socket
which has been closed since, and an event which it delivers reaches the socket
that was registered for the descriptor when `epoll_wait` returned if and only if
the kernel had not handed the descriptor out again when the event had its turn. -/
theorem event_reaches_polled_socket_iff (maxFdCount : Nat) (kernel : Kernel) (checkFd : Fd)
    {c : NetConfig}
    (hc : Reaches managed Method.body (Config.start (World.initial maxFdCount kernel checkFd)) c)
    {m : Method} {line : LogLine} {k : Unit → NetM Value}
    (hasks : c.running = some (m, .ask (.log line) k)) :
    match line with
    | .notInContainer fd =>
        ∃ s, c.world.polled.find fd = some s ∧
          (c.world.heap s = none ∨ ∃ o, c.world.heap s = some o ∧ o.fd = -1)
    | .epollEvents fd s | .epollReadEvents fd s | .epollWriteEvents fd s =>
        c.world.polled.find fd = some s ↔ c.world.reused fd = false := by
  have htreats := ownership.check_of_reaches sound_ownership
    ⟨.initial maxFdCount kernel checkFd, EpollContainer.alive_nil _⟩ hc hasks
  cases line with
  | notInContainer fd =>
      obtain ⟨s, hs, hgone⟩ := htreats
      refine ⟨s, hs, hgone.imp ?_ ?_⟩
      · exact Option.map_eq_none_iff.mp
      · exact Option.map_eq_some_iff.mp
  | epollEvents fd s => exact htreats
  | epollReadEvents fd s => exact htreats
  | epollWriteEvents fd s => exact htreats

/-- Two sockets are readable.  The handler of the first one closes the second one
and connects again. -/
def crossCloseMoves : List (Move Method) :=
  [.enter (.tcpConnect 1 2 true), .enter (.tcpConnect 1 2 true), .enter .handleSockets,
    .enter (.close 1), .resume 0, .enter (.tcpConnect 1 2 true)]

/-- Control is back in the loop, at the second event. -/
def crossClose : NetConfig :=
  ((played ⟨true, [1], 4⟩ crossCloseMoves).move Method.body (.resume 0)).advance
    (Obliging.answer ⟨true, [1], 4⟩) Kernel.effect 1

theorem reaches_crossClose :
    Reaches managed Method.body (Config.start (World.initial 8 Kernel.idle 0)) crossClose := by
  have hmoves : Reaches managed Method.body (Config.start (World.initial 8 Kernel.idle 0))
      (played ⟨true, [1], 4⟩ crossCloseMoves) :=
    reaches_played _ ⟨⟨nofun, nofun⟩, ⟨nofun, nofun⟩, ⟨fun _ => rfl, nofun⟩, managed_close rfl,
      fun _ _ => trivial, ⟨nofun, nofun⟩, trivial⟩
  have hresume : Move.Legal managed (.resume 0) (played ⟨true, [1], 4⟩ crossCloseMoves) :=
    fun _ _ => trivial
  exact (hmoves.trans (reaches_move hresume)).trans (reaches_advance (Obliging.answers _) 1 _)

/-- The event was raised for the socket 1, and goes to the socket 2. -/
theorem event_reaches_new_socket :
    ∃ c, Reaches managed Method.body (Config.start (World.initial 8 Kernel.idle 0)) c ∧
      (∃ m k, c.running = some (m, .ask (.log (.epollReadEvents 4 2)) k)) ∧
      c.world.polled.entries = [(3, 0), (4, 1)] :=
  ⟨crossClose, reaches_crossClose, ⟨_, _, rfl⟩, by rfl⟩

/-- The theorem at this event: the descriptor 4 was handed out again. -/
theorem event_reaches_polled_socket_iff_crossClose :
    crossClose.world.polled.find 4 = some 2 ↔ crossClose.world.reused 4 = false := by
  obtain ⟨m, k, hasks⟩ : ∃ m k, crossClose.running =
      some (m, .ask (.log (.epollReadEvents 4 2)) k) := ⟨_, _, rfl⟩
  exact event_reaches_polled_socket_iff 8 Kernel.idle 0 reaches_crossClose hasks

end Net
end Deps
