import Deps.Lib.Files
import Deps.Sys.Logger
import Deps.Sys.LogLine

/-!
# The logger and its files

All of the logger of `sys/logger.cpp` down to its system calls: threads which call
`vlog`, the rotation on the way, the threads which close a descriptor later, and
the descriptors and names which they work on.  `setFileName`, `setLogLevel` and the
destructor touch members which `vlog` reads without a lock, so they run while no
thread is in `vlog`.  The rest of the process opens and closes descriptors of its
own at any time.
-/

namespace Deps
namespace Sys

open Files

namespace LogLevel

/-- The levels in the order of `m_levelStrs`. -/
def levels : List LogLevel := [.fatal, .error, .uerr, .warn, .info, .debug, .trace, .all]

/-- `strcasecmp(a, b) == 0` -/
def equalIgnoringCase (a b : String) : Bool :=
  a.toList.map Char.toLower == b.toList.map Char.toLower

/-- The level which `setLogLevel(const std::string&)` finds; it changes nothing when
there is none. -/
def ofName (level : String) : Option LogLevel :=
  levels.find? fun l => equalIgnoringCase l.levelStr level

/-- What `getLogLevelStr` returns is the name of the level. -/
theorem ofName_levelStr (level : LogLevel) : ofName level.levelStr = some level := by
  cases level <;> decide

end LogLevel

/-- `struct tm`, as `localtime_r` fills it in. -/
structure Tm where
  /-- since 1900, and not before -/
  year : Nat
  mon : Fin 12
  mday : Fin 32
  hour : Fin 24
  min : Fin 60
  /-- with leap seconds -/
  sec : Fin 61
  deriving DecidableEq, Repr

/-- `%02d` of a number below 100. -/
def twoDigits (n : Nat) : List Char := n.repr.toList.leftpad 2 '0'

/-- `"%d_%02d_%02d_%02d_%02d_%02d"` -/
def Tm.stamp (ntm : Tm) : List Char :=
  (ntm.year + 1900).repr.toList ++ '_' :: (twoDigits (ntm.mon.val + 1) ++
    '_' :: (twoDigits ntm.mday.val ++ '_' :: (twoDigits ntm.hour.val ++
      '_' :: (twoDigits ntm.min.val ++ '_' :: twoDigits ntm.sec.val))))

/-- What the logger does not change while threads use it, and `localtime_r`. -/
structure LogConfig where
  rotateInterval : Int
  /-- the rotation divides by it -/
  rotateInterval_pos : 0 < rotateInterval
  timezone : Int
  localtime : Int → Tm

namespace LogConfig

variable (c : LogConfig)

/-- The logger while it has this file name. -/
def logger (filename : String) : Logger :=
  ⟨c.rotateInterval, c.rotateInterval_pos, filename, c.timezone⟩

/-- `snprintf(newname, sizeof(newname), ...)` with `char newname[4096]` -/
def newname (filename : String) (now : Int) : String :=
  String.ofList ((filename.toList ++ '.' :: (c.localtime now).stamp).take 4095)

end LogConfig

/-- What a thread does next in `vlog`, with the line which it is going to write. -/
inductive Logging where
  /-- it is not in the function -/
  | idle
  /-- it calls `maybeRotate` -/
  | entered (line : List UInt8)
  /-- it is in `maybeRotate` and has no descriptor there -/
  | rotating (line : List UInt8) (r : Rotating)
  /-- `dup2(fd, m_fd)` -/
  | dup2 (line : List UInt8) (lastRotateBackup : Int) (fd : Nat)
  /-- `close(fd)` when `dup2` has failed -/
  | closeFd (line : List UInt8) (lastRotateBackup : Int) (fd : Nat)
  /-- `std::thread t(...)` -/
  | spawn (line : List UInt8) (fd : Nat)
  /-- `::write(fd, buffer, p - buffer)` -/
  | write (line : List UInt8)
  deriving DecidableEq, Repr

namespace Logging

/-- Where `vlog` is when `maybeRotate` goes on with `r`: behind the call if that has
returned. -/
def rotate (line : List UInt8) : Rotating → Logging
  | .idle => .write line
  | r => .rotating line r

/-- What `maybeRotate` does after `open`, which returns -1 or a descriptor. -/
def afterOpen (line : List UInt8) (lastRotateBackup : Int) : Option Nat → Logging
  | none => .rotating line (.restore lastRotateBackup)
  | some fd => .dup2 line lastRotateBackup fd

def afterDup2 (line : List UInt8) (lastRotateBackup : Int) (fd : Nat) (duplicated : Bool) :
    Logging :=
  if duplicated then .spawn line fd else .closeFd line lastRotateBackup fd

/-- When the thread cannot be created, `std::thread` throws out of `vlog`. -/
def afterSpawn (line : List UInt8) (created : Bool) : Logging :=
  if created then .write line else .idle

/-- The descriptor in the local variable `fd`. -/
def fd : Logging → Option Nat
  | .dup2 _ _ fd | .closeFd _ _ fd | .spawn _ fd => some fd
  | _ => none

@[simp] theorem fd_rotate (line : List UInt8) (r : Rotating) : (rotate line r).fd = none := by
  cases r <;> rfl

@[simp] theorem fd_afterOpen (line : List UInt8) (lastRotateBackup : Int) (fd : Option Nat) :
    (afterOpen line lastRotateBackup fd).fd = fd := by
  cases fd <;> rfl

@[simp] theorem fd_afterDup2 (line : List UInt8) (lastRotateBackup : Int) (fd : Nat)
    (duplicated : Bool) : (afterDup2 line lastRotateBackup fd duplicated).fd = some fd := by
  cases duplicated <;> rfl

@[simp] theorem fd_afterSpawn (line : List UInt8) (created : Bool) :
    (afterSpawn line created).fd = none := by
  cases created <;> rfl

end Logging

structure LogSystem (Thread : Type) where
  table : Table String (List UInt8)
  /-- `m_fd`; there is none when it is -1 -/
  mFd : Option Nat
  filename : String
  logLevel : LogLevel
  realRotate : Int
  /-- what `time` returned last -/
  clock : Int
  logging : Thread → Logging
  /-- what the detached threads have not closed yet, by their order -/
  detached : Nat → Option Nat
  /-- the descriptors which no thread could be created for -/
  abandoned : Nat → Option Nat
  /-- how often a thread was to be created -/
  spawned : Nat
  destroyed : Bool

inductive LogAction (Thread : Type)
  | call (t : Thread) (level : LogLevel) (text buffer : List UInt8)
  | time (t : Thread) (now : Int)
  | load (t : Thread)
  | exchange (t : Thread)
  | rename (t : Thread) (r : Renamed)
  /-- the descriptor which `open` returns; there is none when it fails -/
  | openFile (t : Thread) (fd : Option Nat)
  | dup2 (t : Thread) (duplicated : Bool)
  | closeFd (t : Thread)
  | spawn (t : Thread) (created : Bool)
  | restore (t : Thread)
  /-- how many bytes `write` takes; there is no number when it fails -/
  | write (t : Thread) (written : Option Nat)
  | setFileName (filename : String) (fd : Option Nat) (duplicated : Bool)
  | setLogLevel (level : LogLevel)
  /-- with the name of a level -/
  | setLogLevelName (level : String)
  /-- a detached thread has slept, and closes its descriptor -/
  | expire (k : Nat)
  /-- `~Logger` -/
  | destroy
  /-- the rest of the process -/
  | openOther (fd : Nat)
  | closeOther (fd : Nat)

namespace LogSystem

variable {Thread : Type}

/-- The logger is constructed; the process and the directory are as `table` says. -/
def start (table : Table String (List UInt8)) (t₀ : Int) : LogSystem Thread where
  table := table
  mFd := none
  filename := ""
  logLevel := .info
  realRotate := t₀
  clock := t₀
  logging _ := .idle
  detached _ := none
  abandoned _ := none
  spawned := 0
  destroyed := false

/-- No thread is in `vlog`. -/
def Quiet (s : LogSystem Thread) : Prop := ∀ t, s.logging t = .idle

def withTable (s : LogSystem Thread) (table : Table String (List UInt8)) : LogSystem Thread :=
  { s with table := table }

/-- `setFileName`, whose `open` returns `fd` and whose `dup2`, if it is called,
succeeds as `duplicated` says.  A `dup2` which fails is reported only. -/
def setFileName (s : LogSystem Thread) (filename : String) (fd : Nat) (duplicated : Bool) :
    LogSystem Thread :=
  let table := s.table.openFile filename fd
  match s.mFd with
  | none => { s with table := table, filename := filename, mFd := some fd }
  | some mFd =>
      let table := if duplicated then table.dup2 fd mFd else table
      { s with table := table.close fd, filename := filename }

/-- `~Logger` -/
def destroy (s : LogSystem Thread) : LogSystem Thread :=
  match s.mFd with
  | none => { s with destroyed := true }
  | some mFd => { s with table := s.table.close mFd, mFd := none, destroyed := true }

/-- The descriptor goes to a thread, or is lost. -/
def spawn (s : LogSystem Thread) (fd : Nat) (created : Bool) : LogSystem Thread :=
  if created then
    { s with
      detached := Function.update s.detached s.spawned (some fd)
      spawned := s.spawned + 1 }
  else
    { s with
      abandoned := Function.update s.abandoned s.spawned (some fd)
      spawned := s.spawned + 1 }

/-- The descriptor which `vlog` writes to. -/
def outFd (s : LogSystem Thread) : Nat := s.mFd.getD 1

variable [DecidableEq Thread]

def move (s : LogSystem Thread) (t : Thread) (p : Logging) : LogSystem Thread :=
  { s with logging := Function.update s.logging t p }

@[simp] theorem move_logging_self (s : LogSystem Thread) (t : Thread) (p : Logging) :
    (s.move t p).logging t = p := Function.update_self ..

theorem move_logging_of_ne (s : LogSystem Thread) {t u : Thread} (hut : u ≠ t) (p : Logging) :
    (s.move t p).logging u = s.logging u := Function.update_of_ne hut ..

end LogSystem

/-- One step of the logger or of the rest of the process.  The clock may be set. -/
inductive LoggerStep {Thread : Type} [DecidableEq Thread] (c : LogConfig) :
    LogSystem Thread → LogAction Thread → LogSystem Thread → Prop
  | above {s} (t level text buffer) (ht : s.logging t = .idle) (halive : s.destroyed = false)
      (hlevel : s.logLevel.toNat < level.toNat) : LoggerStep c s (.call t level text buffer) s
  | call {s} (t level text buffer) (ht : s.logging t = .idle) (halive : s.destroyed = false)
      (hlevel : level.toNat ≤ s.logLevel.toNat) :
      LoggerStep c s (.call t level text buffer)
        (s.move t (.entered (formatLine level text buffer).passed))
  | time {s line} (t now) (ht : s.logging t = .entered line) :
      LoggerStep c s (.time t now)
        (({ s with clock := now } : LogSystem Thread).move t (.rotating line (.load now)))
  | load {s line now} (t) (ht : s.logging t = .rotating line (.load now)) :
      LoggerStep c s (.load t)
        (s.move t (.rotate line ((c.logger s.filename).afterLoad now s.realRotate)))
  | exchange {s line now} (t) (ht : s.logging t = .rotating line (.exchange now)) :
      LoggerStep c s (.exchange t)
        (({ s with realRotate := now } : LogSystem Thread).move t
          (.rotate line ((c.logger s.filename).afterExchange now s.realRotate)))
  | renamed {s line now b} (t) (ht : s.logging t = .rotating line (.rename now b))
      (hname : (s.table.directory s.filename).isSome) :
      LoggerStep c s (.rename t .renamed)
        ((s.withTable (s.table.rename s.filename (c.newname s.filename now))).move t
          (.rotate line (Logger.afterRename b .renamed)))
  | enoent {s line now b} (t) (ht : s.logging t = .rotating line (.rename now b))
      (hname : s.table.directory s.filename = none) :
      LoggerStep c s (.rename t .enoent) (s.move t (.rotate line (Logger.afterRename b .enoent)))
  | renameFails {s line now b} (t) (ht : s.logging t = .rotating line (.rename now b)) :
      LoggerStep c s (.rename t .failed) (s.move t (.rotate line (Logger.afterRename b .failed)))
  | openFile {s line b} (t fd) (ht : s.logging t = .rotating line (.openFile b))
      (hfd : s.table.descriptors fd = none) :
      LoggerStep c s (.openFile t (some fd))
        ((s.withTable (s.table.openFile s.filename fd)).move t (.afterOpen line b (some fd)))
  | openFails {s line b} (t) (ht : s.logging t = .rotating line (.openFile b)) :
      LoggerStep c s (.openFile t none) (s.move t (.afterOpen line b none))
  | dup2 {s line b fd mFd} (t) (ht : s.logging t = .dup2 line b fd) (hmFd : s.mFd = some mFd) :
      LoggerStep c s (.dup2 t true)
        ((s.withTable (s.table.dup2 fd mFd)).move t (.afterDup2 line b fd true))
  | dup2Fails {s line b fd} (t) (ht : s.logging t = .dup2 line b fd) :
      LoggerStep c s (.dup2 t false) (s.move t (.afterDup2 line b fd false))
  | closeFd {s line b fd} (t) (ht : s.logging t = .closeFd line b fd) :
      LoggerStep c s (.closeFd t)
        ((s.withTable (s.table.close fd)).move t (.rotating line (.restore b)))
  | spawn {s line fd} (t created) (ht : s.logging t = .spawn line fd) :
      LoggerStep c s (.spawn t created) ((s.spawn fd created).move t (.afterSpawn line created))
  | restore {s line b} (t) (ht : s.logging t = .rotating line (.restore b)) :
      LoggerStep c s (.restore t)
        (({ s with realRotate := b } : LogSystem Thread).move t (.write line))
  | write {s line} (t n) (ht : s.logging t = .write line) (hn : n ≤ line.length) :
      LoggerStep c s (.write t (some n))
        ((s.withTable (s.table.append s.outFd (line.take n))).move t .idle)
  | writeFails {s line} (t) (ht : s.logging t = .write line) :
      LoggerStep c s (.write t none) (s.move t .idle)
  | setFileName {s} (filename fd duplicated) (hquiet : s.Quiet) (halive : s.destroyed = false)
      (hfilename : filename ≠ "") (hfd : s.table.descriptors fd = none) :
      LoggerStep c s (.setFileName filename (some fd) duplicated)
        (s.setFileName filename fd duplicated)
  | setFileNameFails {s} (filename duplicated) (hquiet : s.Quiet) (halive : s.destroyed = false) :
      LoggerStep c s (.setFileName filename none duplicated) s
  | setLogLevel {s} (level) (hquiet : s.Quiet) (halive : s.destroyed = false) :
      LoggerStep c s (.setLogLevel level) { s with logLevel := level }
  | setLogLevelName {s} (level) (hquiet : s.Quiet) (halive : s.destroyed = false) :
      LoggerStep c s (.setLogLevelName level)
        { s with logLevel := (LogLevel.ofName level).getD s.logLevel }
  | expire {s fd} (k) (hk : s.detached k = some fd) :
      LoggerStep c s (.expire k)
        { s with table := s.table.close fd, detached := Function.update s.detached k none }
  | destroy {s} (hquiet : s.Quiet) (halive : s.destroyed = false) :
      LoggerStep c s .destroy s.destroy
  | openOther {s} (fd) (hfd : s.table.descriptors fd = none) :
      LoggerStep c s (.openOther fd) (s.withTable (s.table.openOther fd))
  | closeOther {s} (fd) (hfd : s.table.descriptors fd = some .other) :
      LoggerStep c s (.closeOther fd) (s.withTable (s.table.close fd))

/-- A logger which rotates every two minutes, far away from any clock change. -/
def twoMinutes : LogConfig where
  rotateInterval := 120
  rotateInterval_pos := by decide
  timezone := 0
  localtime now := ⟨70, 0, 1, 0, Fin.ofNat 60 (now.toNat / 60), Fin.ofNat 61 (now.toNat % 60)⟩

/-- A process with its three standard descriptors and an empty directory. -/
def emptyTable : Table String (List UInt8) where
  descriptors fd := if fd < 3 then some .other else none
  directory _ := none
  files := []

theorem not_isFile_emptyTable (fd : Nat) : ¬ emptyTable.IsFile fd := by
  rintro ⟨f, hf⟩
  rw [emptyTable] at hf
  dsimp only at hf
  split at hf <;> cases hf

theorem wf_emptyTable : emptyTable.Wf where
  directory_lt h := by cases h
  descriptors_lt h := absurd ⟨_, h⟩ (not_isFile_emptyTable _)
  unique h := by cases h

end Sys
end Deps
