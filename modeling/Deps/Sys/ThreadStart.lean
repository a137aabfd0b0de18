import Deps.Lib.Locking

/-!
# `Thread::start`

`start` in `sys/thread.cpp`, with a step for every access to the members of the object.
Its comment says that callers at the same time all get the thread which was really
created.  `m_running` is never cleared, so there is one thread in the life of the
object.
-/

namespace Deps
namespace Sys

open Runs Monitor Locking

/-- The members of a `Thread`, and what the kernel has made of it. -/
structure ThreadMembers (Tid : Type) where
  running : Bool
  tid : Tid
  /-- the ids which `pthread_create` has given, in this order -/
  created : List Tid

namespace ThreadMembers

variable {Tid : Type}

/-- The constructor; `noTid` is `-1`. -/
def construct (noTid : Tid) : ThreadMembers Tid := ⟨false, noTid, []⟩

/-- `pthread_create(&m_tid, ...)`; `fresh n` is the id of the `n`-th thread.  When the
call fails, the assertion behind it ends the process. -/
def create (fresh : Nat → Tid) (m : ThreadMembers Tid) : ThreadMembers Tid :=
  { m with tid := fresh m.created.length, created := m.created ++ [fresh m.created.length] }

end ThreadMembers

section

variable {Tid Thread : Type} {fresh : Nat → Tid} {noTid : Tid}

/-- `return m_tid;` and the destructor of the `Locker`. -/
def returnTid : Code (ThreadMembers Tid) Tid := .get fun m => .unlock (.ret m.tid)

/-- `start` after the constructor of the `Locker`. -/
def startScope (fresh : Nat → Tid) : Code (ThreadMembers Tid) Tid :=
  .get fun m =>
    if m.running then
      returnTid
    else
      .modify (fun m => { m with running := true }) (.modify (.create fresh) returnTid)

/-- `start` is the only method which takes `m_lock`. -/
def startPrograms (fresh : Nat → Tid) : Programs (ThreadMembers Tid) Unit Tid where
  enter _ := .lock (startScope fresh)
  resume _ _ := startScope fresh
  timed _ := false

theorem inside_startScope : (startScope fresh).Inside := by
  intro m
  dsimp only
  split <;> exact fun _ => trivial

theorem scoped_startPrograms : (startPrograms fresh).Scoped :=
  ⟨fun _ => inside_startScope, fun _ _ => inside_startScope⟩

/-- What a call of `start` does, as far as others can tell. -/
theorem turn_startScope (m : ThreadMembers Tid) :
    (startScope fresh).turn m =
      if m.running then ⟨m, false, some m.tid⟩
      else ⟨.create fresh { m with running := true }, false, some (fresh m.created.length)⟩ := by
  rw [startScope, Code.turn]
  split <;> rfl

/-- There is no thread yet, or the first one. -/
structure StartedOnce (fresh : Nat → Tid) (c : System Thread (ThreadMembers Tid) Unit Tid) :
    Prop where
  unstarted : c.shared.running = false → c.shared.created = []
  started : c.shared.running = true → c.shared.created = [fresh 0] ∧ c.shared.tid = fresh 0
  returning : ∀ t op r, c.phase t = .returning op r → r = fresh 0

theorem startedOnce_start :
    StartedOnce fresh (.start (.construct noTid) : System Thread (ThreadMembers Tid) Unit Tid) :=
  ⟨fun _ => rfl, fun hrunning => (by cases hrunning), fun t op r ht => (by cases ht)⟩

variable [DecidableEq Thread] {c c' : System Thread (ThreadMembers Tid) Unit Tid}

theorem StartedOnce.move (h : StartedOnce fresh c) (t : Thread) {ph : Monitor.Phase Unit Tid}
    (hph : ∀ op r, ph = .returning op r → r = fresh 0) : StartedOnce fresh (c.move t ph) where
  unstarted := h.unstarted
  started := h.started
  returning u op r hu := by
    by_cases hut : u = t
    · subst hut
      exact hph op r ((c.move_phase_self u ph).symm.trans hu)
    · exact h.returning u op r ((c.move_phase_of_ne hut ph).symm.trans hu)

/-- A call of `start` creates the first thread, or returns its id. -/
theorem StartedOnce.turn (h : StartedOnce fresh c) (t : Thread) (op : Unit) :
    StartedOnce fresh (c.after t op ((startScope fresh).turn c.shared)) := by
  rw [turn_startScope]
  cases hrunning : c.shared.running with
  | true =>
      obtain ⟨-, htid⟩ := h.started hrunning
      refine StartedOnce.move (c := c) h t fun op r hr => ?_
      cases hr
      exact htid
  | false =>
      have hcreated := h.unstarted hrunning
      have hnew : StartedOnce fresh
          { c with shared := ThreadMembers.create fresh { c.shared with running := true } } := by
        refine ⟨fun hno => (by cases hno), fun _ => ?_, h.returning⟩
        simp [ThreadMembers.create, hcreated]
      refine hnew.move t fun op r hr => ?_
      cases hr
      rw [hcreated]
      rfl

theorem StartedOnce.step {l : Monitor.Label Thread Unit} (h : StartedOnce fresh c)
    (hstep : Monitor.Step (startPrograms fresh).methods c l c') : StartedOnce fresh c' := by
  have hturn : ∀ {t op turn},
      (c.phase t).turn (startPrograms fresh).methods c.shared = some (op, turn) →
      turn = (startScope fresh).turn c.shared := by
    intro t op turn ht
    cases hphase : c.phase t with
    | entering op' | woken op' =>
        rw [hphase] at ht
        cases ht
        rfl
    | idle | blocked | returning =>
        rw [hphase] at ht
        cases ht
  cases hstep with
  | call t op ht => exact h.move t fun _ _ heq => by cases heq
  | @turn t op turn ht hsignals =>
      rw [hturn ht]
      exact h.turn t op
  | @signal t op turn u c' ht hsignals hu =>
      rw [hturn ht, turn_startScope] at hsignals
      split at hsignals <;> cases hsignals
  | wake ht => exact h.move _ fun _ _ heq => by cases heq
  | ret ht => exact h.move _ fun _ _ heq => by cases heq

/-- What `start` has returned in a run of turns. -/
theorem returned_of_turns
    {turns : List (System Thread (ThreadMembers Tid) Unit Tid × Monitor.Label Thread Unit)}
    (hturns : Run (Monitor.Step (startPrograms fresh).methods) (.start (.construct noTid))
      turns c) :
    StartedOnce fresh c ∧
      ∀ t op r, .returned t op r ∈ traceOfTurns turns → r = fresh 0 := by
  induction hturns with
  | start => exact ⟨startedOnce_start, fun t op r hmem => (by cases hmem)⟩
  | @snoc turns c l c' _ hstep ih =>
      obtain ⟨honce, hreturned⟩ := ih
      refine ⟨honce.step hstep, fun t op r hmem => ?_⟩
      rw [traceOfTurns, filterMap_snoc, List.mem_append] at hmem
      rcases hmem with hmem | hmem
      · exact hreturned t op r hmem
      cases hstep with
      | @ret u op' r' hu =>
          simp only [observesTurn, hu, Option.toList_some, List.mem_singleton] at hmem
          cases hmem
          exact honce.returning _ _ _ hu
      | call | turn | signal | wake => simp [observesTurn] at hmem

/-- **One thread in the life of the object.**  However many threads call `start`, and however
their steps interleave: every call returns the id of the first thread which
`pthread_create` made, and whenever `m_lock` is free there is no other one. -/
theorem thread_started_once
    {past : List (State Thread (ThreadMembers Tid) Unit Tid × Locking.Label Thread Unit)}
    {s : State Thread (ThreadMembers Tid) Unit Tid}
    (hrun : Run (Locking.Step (startPrograms fresh)) (.start (.construct noTid)) past s) :
    (∀ t op r, .returned t op r ∈ trace past → r = fresh 0) ∧
      (s.owner = none → s.shared.created = if s.shared.running then [fresh 0] else []) := by
  obtain ⟨turns, c, hturns, hsim, htrace⟩ := refines scoped_startPrograms hrun
  obtain ⟨honce, hreturned⟩ := returned_of_turns hturns
  rw [htrace] at hreturned
  refine ⟨hreturned, fun hfree => ?_⟩
  rw [← hsim.free hfree]
  cases hrunning : c.shared.running with
  | true => exact (honce.started hrunning).1
  | false => exact honce.unstarted hrunning

/-- Two threads call `start`, the second one while the first is inside; both get the id 5. -/
theorem exists_run_started :
    ∃ past, ∃ s : State Nat (ThreadMembers Nat) Unit Nat,
      Run (Locking.Step (startPrograms fun n => n + 5)) (.start (.construct 0)) past s ∧
        trace past = [.called 0 (), .called 1 (), .returned 0 () 5, .returned 1 () 5] ∧
        s.owner = none := by
  let start : State Nat (ThreadMembers Nat) Unit Nat := .start (.construct 0)
  have hstart : Run (Locking.Step (startPrograms fun n => n + 5)) start [] start := .start
  have hlocked := (hstart.snoc (.call 0 () rfl)).snoc (.lock (t := 0) rfl rfl)
  have hmarked := (hlocked.snoc (.get (t := 0) rfl)).snoc (.modify (t := 0) rfl)
  have hsecond := hmarked.snoc (.call 1 () rfl)
  have hread := (hsecond.snoc (.modify (t := 0) rfl)).snoc (.get (t := 0) rfl)
  have hunlocked := hread.snoc (.unlock (t := 0) rfl rfl)
  -- the second one finds `m_running` set
  have htested := (hunlocked.snoc (.lock (t := 1) rfl rfl)).snoc (.get (t := 1) rfl)
  have hreturned := htested.snoc (.ret (t := 0) rfl)
  have hleft := (hreturned.snoc (.get (t := 1) rfl)).snoc (.unlock (t := 1) rfl rfl)
  exact ⟨_, _, hleft.snoc (.ret (t := 1) rfl), rfl, rfl⟩

theorem thread_started_once_two :
    ∃ (past : List (State Nat (ThreadMembers Nat) Unit Nat × Locking.Label Nat Unit))
      (s : State Nat (ThreadMembers Nat) Unit Nat),
      trace past = [.called 0 (), .called 1 (), .returned 0 () 5, .returned 1 () 5] ∧
        s.owner = none ∧ (∀ t op r, .returned t op r ∈ trace past → r = 0 + 5) ∧
        (s.owner = none → s.shared.created = if s.shared.running then [0 + 5] else []) := by
  obtain ⟨past, s, hrun, htrace, hfree⟩ := exists_run_started
  exact ⟨past, s, htrace, hfree, thread_started_once hrun⟩

end

end Sys
end Deps
