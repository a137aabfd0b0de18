import Deps.Lib.CursorSweep
import Deps.Net.TimeoutSweep

/-!
# Sweeps one after the other

Every turn of `HandleSockets` calls `CheckTimeoutSocket` once, and the sweep goes on
where the static variable `checkFd` says.  `checkTimeoutVisits` is the same program,
which also returns the entries whose sockets it has visited; what a call does are the
calls of `HandleTimeout` on these sockets (`SweepCall.spec`).
-/

namespace Deps
namespace Net

open Reentrant CursorSweep

namespace EpollContainer

/-- `checkEach`, with the entries on whose sockets it called `HandleTimeout`. -/
def checkEachVisits : Nat → Iterator → NetM (List (Fd × SocketId) × Iterator)
  | 0, itr => pure ([], itr)
  | _ + 1, none => pure ([], none)
  | turns + 1, some (fd, s) => do
      Prog.modify fun w => { w with checkFd := fd }
      SocketBase.handleTimeout s
      let itr ← advance fd s
      let r ← checkEachVisits turns itr
      pure ((fd, s) :: r.1, r.2)

def checkTimeoutVisits : NetM (List (Fd × SocketId)) := do
  let w ← Prog.read
  let itr ← upperBound w.checkFd
  let r ← checkEachVisits 1000 itr
  if r.2.isNone then
    Prog.modify fun w => { w with checkFd := 0 }
  pure r.1

theorem checkEach_eq (turns : Nat) (itr : Iterator) :
    checkEach turns itr = checkEachVisits turns itr >>= fun r => pure r.2 := by
  induction turns generalizing itr with
  | zero => rfl
  | succ turns ih =>
      cases itr with
      | none => rfl
      | some e =>
          rw [checkEach, checkEachVisits]
          simp only [ih, Prog.bind_assoc]
          rfl

theorem checkTimeoutSocket_eq :
    checkTimeoutSocket = checkTimeoutVisits >>= fun _ => pure () := by
  rw [checkTimeoutSocket, checkTimeoutVisits]
  simp only [checkEach_eq, Prog.bind_assoc]
  congr 1
  funext w
  congr 1
  funext itr
  congr 1
  funext r
  show (if r.2.isNone then _ else _ : NetM Unit) = _
  cases r.2.isNone <;> rfl

end EpollContainer

/-- A process in which a callback may do anything. -/
def lawless : NetSetting where
  answers := Kernel.answers
  handles _ _ _ _ := True

/-- Every `Close` ends the registration of its descriptor. -/
def NoneClosed (t : List NetDeed) : Prop := ∀ fd, .asked (.epollCtlDel fd) () ∉ t

/-- A call of `CheckTimeoutSocket` during which no socket is closed. -/
structure SweepCall where
  before : World
  deeds : List NetDeed
  visited : List (Fd × SocketId)
  after : World
  completes : Outcome lawless EpollContainer.checkTimeoutVisits before deeds (.ok visited) after
  noneClosed : NoneClosed deeds

section

variable {w w' : World} {t : List NetDeed} {s : SocketId}

theorem heap_of_load {α : Type} {f : Socket → NetM α} {a : α}
    (h : Outcome lawless (load s >>= f) w t (.ok a) w') : ∃ o, w.heap s = some o := by
  cases hs : w.heap s with
  | some o => exact ⟨o, rfl⟩
  | none =>
      rw [load, outcome_assoc, outcome_read, hs] at h
      cases h.2.1

theorem closeSocket_not_noneClosed (h : Outcome lawless (closeSocket s) w t (.ok ()) w') :
    ¬NoneClosed t := by
  -- what follows the callback
  have hrest : ∀ {w : World} {t : List NetDeed}, Outcome lawless (do
      let _ ← EpollContainer.delSocket (some s)
      let o ← load s
      if o.fd ≠ -1 then
        ask (.close o.fd)
      store s World.closedFields : NetM Unit) w t (.ok ()) w' → ¬NoneClosed t := by
    intro w t h ht
    obtain ⟨_, w₁, t₁, t₂, hdel, -, rfl⟩ := outcome_bind_ok h
    obtain ⟨o, ho⟩ := heap_of_load hdel
    obtain ⟨rfl, -⟩ := EpollContainer.outcome_delSocket id ho hdel
    apply ht o.fd
    simp
  obtain ⟨o, hs⟩ := heap_of_load h
  simp only [closeSocket, outcome_load hs] at h
  cases hhandler : o.handler with
  | false =>
      rw [hhandler] at h
      exact hrest h
  | true =>
      rw [hhandler] at h
      obtain ⟨n, w₁, rest, -, rfl, h⟩ := h
      intro ht
      exact hrest h fun fd hmem => ht fd (List.mem_cons_of_mem _ hmem)

/-- A check which closes nothing changes nothing. -/
theorem handleTimeout_noneClosed
    (h : Outcome lawless (SocketBase.handleTimeout s) w t (.ok ()) w') (ht : NoneClosed t) :
    w' = w := by
  obtain ⟨o, hs⟩ := heap_of_load h
  obtain ⟨now, rest, -, rfl, hrest⟩ := outcome_handleTimeout id hs h
  split at hrest
  · have hclosed := closeSocket_not_noneClosed hrest
    exact absurd (fun fd hmem => ht fd (List.mem_cons_of_mem _ hmem)) hclosed
  · exact hrest.2.2

/-- The key of the last entry. -/
def lastKey (es : List (Fd × SocketId)) (c : Fd) : Fd := (es.getLast?.map Prod.fst).getD c

theorem lastKey_cons (e : Fd × SocketId) (es : List (Fd × SocketId)) (c : Fd) :
    lastKey (e :: es) c = lastKey es e.1 := by
  cases es with
  | nil => rfl
  | cons e' es =>
      rw [lastKey, lastKey, List.getLast?_cons_cons, List.getLast?_cons]
      rfl

/-- The loop visits the entries above `checkFd`, as far as there are turns for them, and
does what `HandleTimeout` does on their sockets. -/
theorem checkEachVisits_noneClosed {turns : Nat}
    {r : List (Fd × SocketId) × EpollContainer.Iterator}
    (h : Outcome lawless (EpollContainer.checkEachVisits turns
      (w.container.socketMap.above w.checkFd).head?) w t (.ok r) w') (ht : NoneClosed t) :
    r.1 = (w.container.socketMap.above w.checkFd).take turns ∧
      r.2 = ((w.container.socketMap.above w.checkFd).drop turns).head? ∧
      w' = { w with checkFd := lastKey r.1 w.checkFd } ∧ Sweep lawless r.1 w t w' := by
  induction turns generalizing w t r with
  | zero =>
      obtain ⟨rfl, hr, rfl⟩ := h
      cases hr
      exact ⟨rfl, rfl, rfl, .nil⟩
  | succ turns ih =>
      cases habove : w.container.socketMap.above w.checkFd with
      | nil =>
          rw [habove] at h
          obtain ⟨rfl, hr, rfl⟩ := h
          cases hr
          exact ⟨rfl, rfl, rfl, .nil⟩
      | cons e rest =>
          obtain ⟨fd, s⟩ := e
          rw [habove] at h
          -- the turn of this socket
          let w₀ : World := { w with checkFd := fd }
          have hfind : w₀.container.socketMap.find fd = some s :=
            OrderedMap.find_of_mem_above KeyOrder.int_total (habove ▸ List.mem_cons_self)
          have hrest : w₀.container.socketMap.above fd = rest := OrderedMap.above_of_above habove
          have hvisit : Outcome lawless (SocketBase.handleTimeout s >>= fun _ =>
              EpollContainer.advance fd s >>= fun itr =>
                EpollContainer.checkEachVisits turns itr >>= fun r => pure ((fd, s) :: r.1, r.2))
              w₀ t (.ok r) w' := h
          obtain ⟨_, w₁, t₁, t₂, hturn, hnext, rfl⟩ := outcome_bind_ok hvisit
          have hw₁ : w₁ = w₀ :=
            handleTimeout_noneClosed hturn fun fd hmem => ht fd (List.mem_append_left _ hmem)
          rw [hw₁, advance_of_mapped hfind] at hnext
          obtain ⟨r', w₂, t₃, t₄, heach, hend, rfl⟩ := outcome_bind_ok hnext
          obtain ⟨rfl, hr, rfl⟩ := hend
          cases hr
          obtain ⟨hvisited, hitr, rfl, hsweep⟩ := ih heach fun fd hmem => ht fd (by simp [hmem])
          rw [show w₀.container.socketMap.above w₀.checkFd = rest from hrest] at hvisited hitr
          refine ⟨congrArg _ hvisited, hitr, ?_, ?_⟩
          · rw [lastKey_cons]
          · rw [hw₁] at hturn
            rw [List.append_nil]
            exact .cons hfind hturn hsweep

/-- The deeds of the call are those of `HandleTimeout` on one visited socket after the
other, and nothing else. -/
def SweepCall.Handles (c : SweepCall) : Prop :=
  ∃ w₁ fd, Sweep lawless c.visited c.before c.deeds w₁ ∧ c.after = { w₁ with checkFd := fd }

/-- **One call.**  It visits one batch, calls `HandleTimeout` on each socket of it, and
changes nothing but the cursor. -/
theorem SweepCall.spec (c : SweepCall) :
    c.visited = batch 1000 c.before.checkFd c.before.container.socketMap ∧
      c.after = { c.before with
        checkFd := next 1000 c.before.checkFd c.before.container.socketMap } ∧
      c.Handles := by
  have hloop : Outcome lawless (EpollContainer.checkEachVisits 1000
      (c.before.container.socketMap.above c.before.checkFd).head? >>= fun r =>
        if r.2.isNone then Prog.modify (fun w => { w with checkFd := 0 }) >>= fun _ => pure r.1
        else pure r.1) c.before c.deeds (.ok c.visited) c.after := c.completes
  obtain ⟨r, w₁, t₁, t₂, heach, hend, ht⟩ := outcome_bind_ok hloop
  obtain ⟨hvisited, hitr, hw₁, hsweep⟩ := checkEachVisits_noneClosed heach fun fd hmem =>
    c.noneClosed fd (ht ▸ List.mem_append_left _ hmem)
  have hmore : r.2.isNone = true ↔
      (c.before.container.socketMap.above c.before.checkFd).length ≤ 1000 := by
    rw [hitr, Option.isNone_iff_eq_none, List.head?_eq_none_iff, List.drop_eq_nil_iff]
  -- behind the loop there is at most the reset of the cursor
  have hdone : t₂ = [] ∧ c.visited = r.1 ∧
      c.after = { w₁ with checkFd := if r.2.isNone then 0 else w₁.checkFd } := by
    split at hend
    · next hnone =>
      obtain ⟨ht₂, hr, hafter⟩ := hend
      exact ⟨ht₂, Except.ok.inj hr, by rw [if_pos hnone]; exact hafter⟩
    · next hsome =>
      obtain ⟨ht₂, hr, hafter⟩ := hend
      exact ⟨ht₂, Except.ok.inj hr, by rw [if_neg hsome]; exact hafter⟩
  obtain ⟨rfl, hr, hafter⟩ := hdone
  rw [List.append_nil] at ht
  refine ⟨hr.trans hvisited, ?_, w₁, _, ?_, hafter⟩
  · rw [hafter, hw₁]
    by_cases hnone : r.2.isNone = true
    · rw [if_pos hnone, next_of_end (hmore.mp hnone)]
    · rw [if_neg hnone, next, if_neg (mt hmore.mpr hnone), batch, ← hvisited]
      rfl
  · rw [hr, ht]
    exact hsweep

/-- Where a call leaves the cursor. -/
theorem SweepCall.checkFd_after (c : SweepCall) :
    c.after.checkFd = next 1000 c.before.checkFd c.before.container.socketMap := by
  obtain ⟨-, hafter, -⟩ := c.spec
  rw [hafter]

/-! ## Nobody is missed -/

/-- The next call finds `checkFd` as the last one left it, and any map. -/
def Continues (a b : SweepCall) : Prop := b.before.checkFd = a.after.checkFd

/-- The cursor and the map which a call finds. -/
def SweepCall.meets (c : SweepCall) : Fd × OrderedMap KeyOrder.int SocketId :=
  (c.before.checkFd, c.before.container.socketMap)

theorem sweeps_of_isChain {calls : List SweepCall} (hcalls : calls.IsChain Continues) :
    Sweeps 1000 (calls.map SweepCall.meets) := by
  rw [Sweeps, List.isChain_map]
  refine hcalls.imp fun a b hcontinues => ?_
  show b.before.checkFd = _
  rw [hcontinues, a.checkFd_after]
  rfl

/-- **The sweep misses nobody.**  While the descriptors are not above `M`, one of any
`2 * (M / 1000) + 2` consecutive calls visits a socket which stays in the map, and calls
`HandleTimeout` on all it visits. -/
theorem sweep_misses_nobody {M : Nat} {earlier window later : List SweepCall} {fd : Fd}
    {s : SocketId} (hcalls : (earlier ++ window ++ later).IsChain Continues)
    (hstart : ∀ c ∈ (earlier ++ window ++ later).head?,
      0 ≤ c.before.checkFd ∧ c.before.checkFd ≤ M)
    (hkeys : ∀ c ∈ earlier ++ window ++ later, ∀ e ∈ c.before.container.socketMap.entries, e.1 ≤ M)
    (hwindow : window.length = 2 * (M / 1000) + 2) (hfd : 0 < fd)
    (hmapped : ∀ c ∈ window, c.before.container.socketMap.find fd = some s) :
    ∃ c ∈ window, (fd, s) ∈ c.visited ∧ c.Handles := by
  have hsweeps := sweeps_of_isChain hcalls
  have hbounds := hsweeps.bounds (M := M) (by omega) (Int.natCast_nonneg M)
    (by
      intro a ha
      rw [List.head?_map, Option.mem_map] at ha
      obtain ⟨c, hc, rfl⟩ := ha
      exact hstart c hc)
    (by
      intro a ha
      obtain ⟨c, hc, rfl⟩ := List.mem_map.mp ha
      exact hkeys c hc)
  have hinside : ∀ c ∈ window, c ∈ earlier ++ window ++ later := fun c hc => by simp [hc]
  have hsub : Sweeps 1000 (window.map SweepCall.meets) :=
    sweeps_of_isChain (hcalls.left_of_append.right_of_append)
  have hlen : 2 * ((M : Int) / (1000 : Nat)) + 2 ≤ (window.map SweepCall.meets).length := by
    rw [List.length_map, hwindow]
    omega
  obtain ⟨a, ha, hvisit⟩ := hsub.mem_batch (e := (fd, s)) (by omega) (Int.natCast_nonneg M)
    (by
      intro a ha
      obtain ⟨c, hc, rfl⟩ := List.mem_map.mp ha
      exact hbounds _ (List.mem_map_of_mem (hinside c hc)))
    (by
      intro a ha
      obtain ⟨c, hc, rfl⟩ := List.mem_map.mp ha
      exact hkeys c (hinside c hc))
    (by
      intro a ha
      obtain ⟨c, hc, rfl⟩ := List.mem_map.mp ha
      exact (OrderedMap.find_eq_some_iff KeyOrder.int_total).mp (hmapped c hc))
    hfd hlen
  obtain ⟨c, hc, rfl⟩ := List.mem_map.mp ha
  obtain ⟨hvisited, -, hhandles⟩ := c.spec
  refine ⟨c, hc, ?_, hhandles⟩
  rw [hvisited]
  exact hvisit

/-! ## Containers which share the cursor -/

/-- Turns of the containers of a process, each with the sweep of this turn.  There is one
`checkFd` for all of them, and its initial value is 0. -/
structure Interleaving (Container : Type) where
  turns : List (Container × SweepCall)
  chain : (turns.map Prod.snd).IsChain Continues
  start : ∀ c ∈ (turns.map Prod.snd).head?, c.before.checkFd = 0

namespace Interleaving

variable {Container : Type} [DecidableEq Container]

/-- The sweeps of one container. -/
def sweepsOf (r : Interleaving Container) (a : Container) : List SweepCall :=
  (r.turns.filter fun turn => turn.1 = a).map Prod.snd

/-- The maps which they meet. -/
def mapsOf (r : Interleaving Container) (a : Container) :
    List (OrderedMap KeyOrder.int SocketId) :=
  (r.sweepsOf a).map fun c => c.before.container.socketMap

/-- The sockets on which each of them calls `HandleTimeout` (`SweepCall.spec`). -/
def visitsOf (r : Interleaving Container) (a : Container) : List (List (Fd × SocketId)) :=
  (r.sweepsOf a).map SweepCall.visited

end Interleaving

/-- No socket of the map has its descriptor between the two values of `checkFd`, the
higher one included. -/
def NoneBetween (c c' : SweepCall) : Prop :=
  ∀ e ∈ c.before.container.socketMap.entries,
    ¬(min c.before.checkFd c'.before.checkFd < e.1 ∧ e.1 ≤ max c.before.checkFd c'.before.checkFd)

theorem visited_eq_visited_iff {c c' : SweepCall}
    (hmap : c.before.container.socketMap = c'.before.container.socketMap) :
    c.visited = c'.visited ↔ NoneBetween c c' := by
  rw [c.spec.1, c'.spec.1, ← hmap, batch_eq_batch_iff (by omega)]
  rfl

/-- Two lists of sweeps with the same maps. -/
theorem map_visited_eq_iff {calls calls' : List SweepCall}
    (hmaps : calls.map (fun c => c.before.container.socketMap) =
      calls'.map fun c => c.before.container.socketMap) :
    calls.map SweepCall.visited = calls'.map SweepCall.visited ↔
      ∀ p ∈ calls.zip calls', NoneBetween p.1 p.2 := by
  induction calls generalizing calls' with
  | nil =>
      rw [List.map_nil, eq_comm, List.map_eq_nil_iff] at hmaps
      rw [hmaps]
      simp
  | cons c calls ih =>
      cases calls' with
      | nil => cases hmaps
      | cons c' calls' =>
          obtain ⟨hmap, hrest⟩ := List.cons.inj hmaps
          rw [List.zip_cons_cons, List.forall_mem_cons, ← ih hrest, ← visited_eq_visited_iff hmap]
          exact List.cons_eq_cons

/-- **When containers do not interfere.**  In two interleavings in which a container has
the same maps its sweeps visit the same sockets if and only if, turn by turn, none of its
sockets lies between the values of `checkFd` which the other containers have left. -/
theorem containers_noninterfering_iff {Container : Type} [DecidableEq Container]
    (r r' : Interleaving Container) (a : Container) (hmaps : r.mapsOf a = r'.mapsOf a) :
    r.visitsOf a = r'.visitsOf a ↔
      ∀ p ∈ (r.sweepsOf a).zip (r'.sweepsOf a), NoneBetween p.1 p.2 :=
  map_visited_eq_iff hmaps

/-! ## A thousand sockets -/

/-- No socket in the map times out. -/
def Idle (w : World) : Prop :=
  ∀ fd s, w.container.socketMap.find fd = some s →
    ∃ o, w.heap s = some o ∧ ∀ now, o.timedOut now = false

theorem handleTimeout_idle {o : Socket} (hs : w.heap s = some o)
    (hidle : ∀ now, o.timedOut now = false) {r : Except NetFault Unit}
    (h : Outcome lawless (SocketBase.handleTimeout s) w t r w') :
    NoneClosed t ∧ r = .ok () ∧ w' = w := by
  obtain ⟨now, rest, -, rfl, hrest⟩ := outcome_handleTimeout id hs h
  rw [if_neg (by rw [hidle]; exact Bool.false_ne_true)] at hrest
  obtain ⟨rfl, rfl, rfl⟩ := hrest
  exact ⟨fun fd hmem => by simp at hmem, rfl, rfl⟩

theorem checkEachVisits_idle {turns : Nat}
    {r : Except NetFault (List (Fd × SocketId) × EpollContainer.Iterator)} (hw : Idle w)
    (h : Outcome lawless (EpollContainer.checkEachVisits turns
      (w.container.socketMap.above w.checkFd).head?) w t r w') :
    NoneClosed t ∧ ∃ a, r = .ok a := by
  induction turns generalizing w t r with
  | zero =>
      obtain ⟨rfl, rfl, rfl⟩ := h
      exact ⟨fun _ => List.not_mem_nil, _, rfl⟩
  | succ turns ih =>
      cases habove : w.container.socketMap.above w.checkFd with
      | nil =>
          rw [habove] at h
          obtain ⟨rfl, rfl, rfl⟩ := h
          exact ⟨fun _ => List.not_mem_nil, _, rfl⟩
      | cons e rest =>
          obtain ⟨fd, s⟩ := e
          rw [habove] at h
          let w₀ : World := { w with checkFd := fd }
          have hfind : w₀.container.socketMap.find fd = some s :=
            OrderedMap.find_of_mem_above KeyOrder.int_total (habove ▸ List.mem_cons_self)
          have hrest : w₀.container.socketMap.above fd = rest := OrderedMap.above_of_above habove
          obtain ⟨o, ho, hidle⟩ := hw fd s hfind
          have ho₀ : w₀.heap s = some o := ho
          have hw₀ : Idle w₀ := hw
          have hvisit : Outcome lawless (SocketBase.handleTimeout s >>= fun _ =>
              EpollContainer.advance fd s >>= fun itr =>
                EpollContainer.checkEachVisits turns itr >>= fun r => pure ((fd, s) :: r.1, r.2))
              w₀ t r w' := h
          rcases outcome_bind.mp hvisit with ⟨_, w₁, t₁, t₂, hturn, hnext, rfl⟩ | ⟨why, hturn, -⟩
          · obtain ⟨ht₁, -, rfl⟩ := handleTimeout_idle ho₀ hidle hturn
            rw [advance_of_mapped hfind] at hnext
            have hboth : ∀ {t₃ t₄ : List NetDeed}, NoneClosed t₃ → NoneClosed t₄ →
                NoneClosed (t₃ ++ t₄) := by
              intro t₃ t₄ h₃ h₄ fd hmem
              rcases List.mem_append.mp hmem with hmem | hmem
              · exact h₃ fd hmem
              · exact h₄ fd hmem
            rcases outcome_bind.mp hnext with ⟨a, w₂, t₃, t₄, heach, hend, rfl⟩ | ⟨why, heach, rfl⟩
            · obtain ⟨rfl, rfl, rfl⟩ := hend
              obtain ⟨ht₃, -⟩ := ih hw₀ heach
              exact ⟨hboth ht₁ (hboth ht₃ fun _ => List.not_mem_nil), _, rfl⟩
            · obtain ⟨-, a, ha⟩ := ih hw₀ heach
              cases ha
          · obtain ⟨-, hr, -⟩ := handleTimeout_idle ho₀ hidle hturn
            cases hr

/-- So a sweep of such sockets completes. -/
theorem exists_sweepCall (hw : Idle w) : ∃ c : SweepCall, c.before = w := by
  have hanswers : ∀ w q, ∃ a w', lawless.answers w q a w' :=
    fun w q => ⟨_, _, Obliging.answers ⟨true, [], 0⟩ w q⟩
  have hhandles : ∀ c w, ∃ n w', lawless.handles c w n w' := fun _ w => ⟨0, w, trivial⟩
  obtain ⟨t, r, w₁, heach⟩ := exists_outcome hanswers hhandles
    (EpollContainer.checkEachVisits 1000 (w.container.socketMap.above w.checkFd).head?) w
  obtain ⟨ht, a, hr⟩ := checkEachVisits_idle hw heach
  rw [hr] at heach
  have hend : ∃ w', Outcome lawless (if a.2.isNone then
      Prog.modify (fun w => { w with checkFd := 0 }) >>= fun _ => pure a.1
      else pure a.1 : NetM (List (Fd × SocketId))) w₁ [] (.ok a.1) w' := by
    split
    · exact ⟨_, rfl, rfl, rfl⟩
    · exact ⟨_, rfl, rfl, rfl⟩
  obtain ⟨w', hend⟩ := hend
  have hall : Outcome lawless (EpollContainer.checkEachVisits 1000
      (w.container.socketMap.above w.checkFd).head? >>= fun r =>
        if r.2.isNone then Prog.modify (fun w => { w with checkFd := 0 }) >>= fun _ => pure r.1
        else pure r.1) w t (.ok a.1) w' :=
    outcome_bind.mpr (.inl ⟨a, w₁, t, [], heach, hend, (List.append_nil t).symm⟩)
  exact ⟨⟨w, t, a.1, w', hall, ht⟩, rfl⟩

theorem sorted_crowd (k : Nat) :
    ((List.range k).map fun s : Nat => ((s : Int) + 1, s)).Pairwise
      fun a b => KeyOrder.int.lt a.1 b.1 = true := by
  rw [List.pairwise_map]
  refine List.pairwise_lt_range.imp fun hlt => ?_
  simp only [KeyOrder.int, decide_eq_true_eq]
  omega

/-- A process with `k` sockets, at the descriptors from 1 on, which have no timeout. -/
def crowd (k : Nat) (checkFd : Fd) : World :=
  { World.initial 2000 Kernel.idle checkFd with
    heap := fun _ => some (TcpSocket.construct false false)
    container := { EpollContainer.new 2000 with
      socketMap :=
        { entries := (List.range k).map fun s : Nat => ((s : Int) + 1, s)
          sorted := sorted_crowd k } } }

theorem exists_sweep_crowd (k : Nat) (checkFd : Fd) :
    ∃ c : SweepCall, c.before = crowd k checkFd := by
  refine exists_sweepCall fun fd s _ => ⟨_, rfl, fun now => ?_⟩
  simp [TcpSocket.construct, Socket.timedOut]

/-- The theorem for one socket and two calls. -/
theorem sweep_misses_nobody_two :
    ∃ c c' : SweepCall, ∃ x ∈ [c, c'], (1, 0) ∈ x.visited ∧ x.Handles := by
  obtain ⟨c, hc⟩ := exists_sweep_crowd 1 1
  obtain ⟨c', hc'⟩ := exists_sweep_crowd 1 0
  have hnext : c.after.checkFd = 0 := by
    rw [c.checkFd_after, hc]
    rfl
  have hmapped : ∀ k, (crowd 1 k).container.socketMap.find 1 = some 0 := fun _ => rfl
  have hcalls : ([] ++ [c, c'] ++ []).IsChain Continues := by
    have hcontinues : c'.before.checkFd = c.after.checkFd := by
      rw [hnext, hc']
      rfl
    simpa [Continues] using hcontinues
  refine ⟨c, c', @sweep_misses_nobody 1 [] [c, c'] [] 1 0 hcalls ?_ ?_ rfl (by decide) ?_⟩
  · rintro x ⟨⟩
    rw [hc]
    decide
  · intro x hx e he
    have hentries : e ∈ (crowd 1 0).container.socketMap.entries := by
      simp only [List.nil_append, List.append_nil, List.mem_cons, List.not_mem_nil,
        or_false] at hx
      rcases hx with rfl | rfl
      · rw [hc] at he
        exact he
      · rw [hc'] at he
        exact he
    simp [crowd] at hentries
    rw [hentries]
    decide
  · intro x hx
    simp only [List.mem_cons, List.not_mem_nil, or_false] at hx
    rcases hx with rfl | rfl
    · rw [hc]
      exact hmapped 1
    · rw [hc']
      exact hmapped 0

/-- More than a thousand sockets leave the cursor at the last one of a batch. -/
theorem next_crowd {k : Nat} (hk : 1000 < k) :
    1000 ≤ next 1000 0 (crowd k 0).container.socketMap := by
  have hall : (crowd k 0).container.socketMap.above 0 =
      (crowd k 0).container.socketMap.entries := by
    refine List.filter_eq_self.mpr fun e he => ?_
    obtain ⟨s, -, rfl⟩ := List.mem_map.mp he
    show decide ((0 : Int) < (s : Int) + 1) = true
    rw [decide_eq_true_eq]
    omega
  have hmore : 1000 < ((crowd k 0).container.socketMap.above 0).length := by
    rw [hall, crowd, List.length_map, List.length_range]
    exact hk
  obtain ⟨e, -, hnext, hle⟩ := next_of_more (by omega) hmore
  rw [hnext]
  omega

/-- A sweep of more than a thousand sockets makes another container leave its socket out. -/
theorem containers_interfere :
    ∃ r r' : Interleaving Bool, r.mapsOf true = r'.mapsOf true ∧
      r.visitsOf true ≠ r'.visitsOf true := by
  obtain ⟨k, hk⟩ : ∃ k, 1000 < k := ⟨1001, by omega⟩
  obtain ⟨alone, halone⟩ := exists_sweep_crowd 1 0
  obtain ⟨other, hother⟩ := exists_sweep_crowd k 0
  obtain ⟨late, hlate⟩ := exists_sweep_crowd 1 (next 1000 0 (crowd k 0).container.socketMap)
  have hcontinues : Continues other late := by
    rw [Continues, other.checkFd_after, hother, hlate]
    rfl
  let r : Interleaving Bool :=
    { turns := [(true, alone)]
      chain := List.isChain_singleton _
      start := by
        rintro _ ⟨⟩
        rw [halone]
        rfl }
  let r' : Interleaving Bool :=
    { turns := [(false, other), (true, late)]
      chain := by simpa using hcontinues
      start := by
        rintro _ ⟨⟩
        rw [hother]
        rfl }
  have hmap : alone.before.container.socketMap = late.before.container.socketMap := by
    rw [halone, hlate]
    rfl
  refine ⟨r, r', ?_, fun hsame => ?_⟩
  · show [alone.before.container.socketMap] = [late.before.container.socketMap]
    rw [hmap]
  · have hvisited : [alone.visited] = [late.visited] := hsame
    have hnone := (visited_eq_visited_iff hmap).mp (List.cons.inj hvisited).1
    have hmem : ((1, 0) : Fd × SocketId) ∈ alone.before.container.socketMap.entries := by
      rw [halone]
      decide
    have hcursor := next_crowd hk
    have hstart : alone.before.checkFd = 0 := by
      rw [halone]
      rfl
    have hstopped : late.before.checkFd = next 1000 0 (crowd k 0).container.socketMap := by
      rw [hlate]
      rfl
    apply hnone _ hmem
    rw [hstart, hstopped]
    show min 0 _ < (1 : Int) ∧ (1 : Int) ≤ max 0 _
    omega

/-- The theorem where the other container has as few sockets. -/
theorem containers_noninterfering_iff_few :
    ∃ r r' : Interleaving Bool, r.turns.length = 1 ∧ r'.turns.length = 2 ∧
      r.visitsOf true = r'.visitsOf true := by
  obtain ⟨c, hc⟩ := exists_sweep_crowd 1 0
  have hstart : c.before.checkFd = 0 := by
    rw [hc]
    rfl
  have hcontinues : Continues c c := by
    rw [Continues, c.checkFd_after, hc]
    rfl
  let r : Interleaving Bool :=
    { turns := [(true, c)]
      chain := List.isChain_singleton _
      start := by
        rintro _ ⟨⟩
        exact hstart }
  let r' : Interleaving Bool :=
    { turns := [(false, c), (true, c)]
      chain := by simpa using hcontinues
      start := by
        rintro _ ⟨⟩
        exact hstart }
  refine ⟨r, r', rfl, rfl, (containers_noninterfering_iff r r' true rfl).mpr ?_⟩
  intro p hp
  have hp : p = (c, c) := List.mem_singleton.mp hp
  rw [hp]
  intro e _ hbetween
  rw [min_self, max_self] at hbetween
  exact hbetween.1.not_ge hbetween.2

end

end Net
end Deps
