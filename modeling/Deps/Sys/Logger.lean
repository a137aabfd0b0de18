import Deps.Lib.Runs
import Mathlib.Logic.Function.Basic

/-!
# `Logger::maybeRotate`

The rotation of the log file in `sys/logger.cpp`, as the steps which a thread
takes: reads of the clock, operations on the atomic `m_realRotate` and file
operations.  Any number of threads take such steps in any order.  The seconds of
`time_t` and `long` are integers.
-/

namespace Deps
namespace Sys

/-- The members which the rotation reads and does not change, with the global
`timezone`. -/
structure Logger where
  rotateInterval : Int
  /-- the rotation divides by it -/
  rotateInterval_pos : 0 < rotateInterval
  filename : String
  timezone : Int

/-- What `rename` returns. -/
inductive Renamed where
  | renamed
  /-- `-1` with `ENOENT` -/
  | enoent
  | failed
  deriving DecidableEq, Repr

/-- What a thread does next in `maybeRotate`, with the local variables it needs. -/
inductive Rotating where
  /-- it is not in the function -/
  | idle
  /-- `m_realRotate.load()` -/
  | load (now : Int)
  /-- `m_realRotate.exchange(now)` -/
  | exchange (now : Int)
  /-- `rename(oldname, newname)` -/
  | rename (now lastRotateBackup : Int)
  /-- `open(m_filename.c_str(), ...)` -/
  | openFile (lastRotateBackup : Int)
  /-- `dup2(fd, m_fd)` -/
  | dup2 (lastRotateBackup : Int)
  /-- `m_realRotate.exchange(lastRotateBackup)` -/
  | restore (lastRotateBackup : Int)
  deriving DecidableEq, Repr

namespace Logger

variable (l : Logger)

/-- `(t - timezone) / m_rotateInterval`, which rounds towards zero. -/
def period (t : Int) : Int := (t - l.timezone).tdiv l.rotateInterval

/-- The test after the load. -/
def afterLoad (now lastRotate : Int) : Rotating :=
  if l.filename.isEmpty || l.period now == l.period lastRotate then .idle
  else .exchange now

/-- The test after the exchange. -/
def afterExchange (now lastRotateBackup : Int) : Rotating :=
  -- another thread has rotated in the meantime
  if l.period now == l.period lastRotateBackup then .idle
  else .rename now lastRotateBackup

def afterRename (lastRotateBackup : Int) : Renamed → Rotating
  | .renamed | .enoent => .openFile lastRotateBackup
  | .failed => .restore lastRotateBackup

def afterOpen (lastRotateBackup : Int) (opened : Bool) : Rotating :=
  if opened then .dup2 lastRotateBackup else .restore lastRotateBackup

/-- When `dup2` succeeds, another thread closes the descriptor later. -/
def afterDup2 (lastRotateBackup : Int) (duplicated : Bool) : Rotating :=
  if duplicated then .idle else .restore lastRotateBackup

end Logger

structure LogState (Thread : Type) where
  realRotate : Int
  /-- what `time` returned last -/
  clock : Int
  rotating : Thread → Rotating

inductive LogLabel (Thread : Type)
  /-- `time(NULL)` at the start of the function -/
  | time (t : Thread) (now : Int)
  | load (t : Thread)
  | exchange (t : Thread)
  | rename (t : Thread) (r : Renamed)
  | openFile (t : Thread) (opened : Bool)
  | dup2 (t : Thread) (duplicated : Bool)
  | restore (t : Thread)

namespace LogState

variable {Thread : Type} [DecidableEq Thread]

/-- The constructor sets `m_realRotate` to the time. -/
def start (t₀ : Int) : LogState Thread := ⟨t₀, t₀, fun _ => .idle⟩

def move (s : LogState Thread) (t : Thread) (r : Rotating) : LogState Thread :=
  { s with rotating := Function.update s.rotating t r }

@[simp] theorem move_rotating_self (s : LogState Thread) (t : Thread) (r : Rotating) :
    (s.move t r).rotating t = r := Function.update_self ..

theorem move_rotating_of_ne (s : LogState Thread) {t u : Thread} (hut : u ≠ t) (r : Rotating) :
    (s.move t r).rotating u = s.rotating u := Function.update_of_ne hut ..

end LogState

/-- One step of a thread.  The clock does not go backwards. -/
inductive LogStep {Thread : Type} [DecidableEq Thread] (l : Logger) :
    LogState Thread → LogLabel Thread → LogState Thread → Prop
  | time {s} (t now) (ht : s.rotating t = .idle) (hnow : s.clock ≤ now) :
      LogStep l s (.time t now) (({ s with clock := now } : LogState Thread).move t (.load now))
  | load {s now} (t) (ht : s.rotating t = .load now) :
      LogStep l s (.load t) (s.move t (l.afterLoad now s.realRotate))
  | exchange {s now} (t) (ht : s.rotating t = .exchange now) :
      LogStep l s (.exchange t) (({ s with realRotate := now } : LogState Thread).move t
        (l.afterExchange now s.realRotate))
  | rename {s now b} (t r) (ht : s.rotating t = .rename now b) :
      LogStep l s (.rename t r) (s.move t (Logger.afterRename b r))
  | openFile {s b} (t o) (ht : s.rotating t = .openFile b) :
      LogStep l s (.openFile t o) (s.move t (Logger.afterOpen b o))
  | dup2 {s b} (t d) (ht : s.rotating t = .dup2 b) :
      LogStep l s (.dup2 t d) (s.move t (Logger.afterDup2 b d))
  | restore {s b} (t) (ht : s.rotating t = .restore b) :
      LogStep l s (.restore t) (({ s with realRotate := b } : LogState Thread).move t .idle)

end Sys
end Deps
