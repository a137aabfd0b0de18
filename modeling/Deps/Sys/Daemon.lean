import Deps.Lib.Processes
import Mathlib.Logic.Function.Basic

/-!
# `daemonize`

`daemonize` in `sys/tool.cpp`, as the code of a process which forks twice.  The kernel
may let every call fail which can fail there; a process becomes the leader of a
session unless it leads a process group, and a child gets an id which no process,
group or session has.
-/

namespace Deps
namespace Sys

open Processes

/-! ## The kernel -/

/-- What the kernel knows of a process. -/
structure ProcessState (File : Type) where
  pid : Nat
  pgid : Nat
  sid : Nat
  /-- the controlling terminal -/
  terminal : Option Nat
  umask : Nat
  cwd : String
  /-- `rlim_max` of `RLIMIT_NOFILE` -/
  openMax : UInt64
  /-- the open descriptors -/
  files : Nat → Option File

inductive Syscall where
  | umask (mask : Nat)
  | setsid
  | chdir (path : String)
  | getrlimit
  | close (fd : Int)
  /-- `open(path, O_RDWR)` -/
  | openFile (path : String)
  | dup2 (fd fd' : Nat)

/-- What a call returns; `false` and `none` stand for -1. -/
abbrev Syscall.Result : Syscall → Type
  | .umask _ => Unit
  | .getrlimit => UInt64
  | .openFile _ => Option Nat
  | .setsid | .chdir _ | .close _ | .dup2 _ _ => Bool

variable {File : Type}

/-- The descriptor is closed, if it is one. -/
def ProcessState.closed (s : ProcessState File) (fd : Int) : ProcessState File :=
  { s with files := fun d => if (d : Int) = fd then none else s.files d }

theorem ProcessState.files_closed (s : ProcessState File) (fd : Int) (d : Nat) :
    (s.closed fd).files d = if (d : Int) = fd then none else s.files d := rfl

/-- `lookup` gives what is opened under a path. -/
def posix (lookup : String → File) : Kernel (ProcessState File) Syscall Syscall.Result where
  answers s
    | .umask mask, _, s' => s' = { s with umask := mask }
    | .setsid, done, s' =>
        if s.pid = s.pgid then done = false ∧ s' = s
        else done = true ∧ s' = { s with sid := s.pid, pgid := s.pid, terminal := none }
    | .chdir path, done, s' => s' = if done then { s with cwd := path } else s
    | .getrlimit, max, s' => max = s.openMax ∧ s' = s
    | .close fd, _, s' => s' = s.closed fd
    | .openFile path, fd, s' =>
        match fd with
        | none => s' = s
        | some fd =>
            -- the lowest descriptor which is not in use
            s.files fd = none ∧ (∀ d, d < fd → s.files d ≠ none) ∧
              s' = { s with files := Function.update s.files fd (some (lookup path)) }
    | .dup2 fd fd', done, s' =>
        s' = if done then { s with files := Function.update s.files fd' (s.files fd) } else s
  spawns s s' := s'.pid ∉ [s.pid, s.pgid, s.sid] ∧ s' = { s with pid := s'.pid }

/-! ## The code -/

abbrev ToolCode := Code Syscall Syscall.Result

def sys (call : Syscall) : ToolCode call.Result := Code.ask call

def fork : ToolCode Role := Code.split

/-- `RLIM_INFINITY` -/
def rlimInfinity : UInt64 := 0xFFFFFFFFFFFFFFFF

/-- The limit of the loop over the descriptors. -/
def descriptorLimit (rlimMax : UInt64) : UInt64 :=
  if rlimMax = rlimInfinity then 1024 else rlimMax

/-- The conversion of a `size_t` to `int`. -/
def intOfSize (i : UInt64) : Int := Int.bmod i.toNat (2 ^ 32)

/-- The loop over the descriptors from `i` on, with as many turns left. -/
def closeEach : Nat → UInt64 → ToolCode Unit
  | 0, _ => pure ()
  | turns + 1, i => do
      let _ ← sys (.close (intOfSize i))
      closeEach turns (i + 1)

/-- `daemonize` from `dup2` on. -/
def redirect (fd : Nat) : ToolCode Int := do
  if !(← sys (.dup2 fd 0)) then
    return -5
  if !(← sys (.dup2 fd 1)) then
    return -6
  if !(← sys (.dup2 fd 2)) then
    return -7
  if fd > 2 then
    if !(← sys (.close fd)) then
      return -8
  return 0

/-- `daemonize` from `chdir` on. -/
def cutLoose : ToolCode Int := do
  let _ ← sys (.chdir "/")
  let rlimMax ← sys .getrlimit
  closeEach (descriptorLimit rlimMax).toNat 0
  match ← sys (.openFile "/dev/null") with
  | none => return -4
  | some fd => redirect fd

def daemonize : ToolCode Int := do
  sys (.umask 0)
  match ← fork with
  | .failed => return -1
  | .parent => .exit 0
  | .child =>
      if !(← sys .setsid) then
        return -2
      match ← fork with
      | .failed => return -3
      | .parent => .exit 0
      | .child => cutLoose

/-! ## What becomes of the caller -/

/-- A process in a session of its own, without a terminal. -/
structure Detached (caller s : ProcessState File) : Prop where
  umask : s.umask = 0
  terminal : s.terminal = none
  session : s.sid ∉ [caller.pid, caller.pgid, caller.sid]

/-- What `daemonize` is for.  A process which does not lead its session never gets a
terminal again. -/
structure Daemon (lookup : String → File) (caller s : ProcessState File) : Prop
    extends Detached caller s where
  not_leader : s.pid ≠ s.sid ∧ s.pid ≠ s.pgid
  /-- `chdir` is not checked -/
  cwd : s.cwd = "/" ∨ s.cwd = caller.cwd
  standard : ∀ d : Nat, d < 3 → s.files d = some (lookup "/dev/null")
  others : ∀ d : Nat, 3 ≤ d → d < 2 ^ 31 → s.files d =
    if d < (descriptorLimit caller.openMax).toNat then none else caller.files d

/-- How `daemonize` returns: in the caller when the first `fork` fails, and otherwise in a
descendant. -/
def Outcome (lookup : String → File) (caller : ProcessState File) (r : Int)
    (s : ProcessState File) : Prop :=
  (r = -1 ∧ s = { caller with umask := 0 }) ∨ (r = -3 ∧ Detached caller s) ∨
    (r ∈ [-4, -5, -6, -7] ∧ Detached caller s) ∨
    (r = -8 ∧ Detached caller s ∧ descriptorLimit caller.openMax = 0) ∨
    (r = 0 ∧ Daemon lookup caller s)

section

variable {lookup : String → File} {caller s s' : ProcessState File}

/-- A process after both forks. -/
structure Apart (caller s : ProcessState File) : Prop extends Detached caller s where
  not_leader : s.pid ≠ s.sid ∧ s.pid ≠ s.pgid
  cwd : s.cwd = "/" ∨ s.cwd = caller.cwd
  openMax : s.openMax = caller.openMax

theorem Apart.withFiles (h : Apart caller s) (files : Nat → Option File) :
    Apart caller { s with files := files } :=
  ⟨⟨h.umask, h.terminal, h.session⟩, h.not_leader, h.cwd, h.openMax⟩

theorem Apart.daemon (h : Apart caller s)
    (hstandard : ∀ d : Nat, d < 3 → s.files d = some (lookup "/dev/null"))
    (hothers : ∀ d : Nat, 3 ≤ d → d < 2 ^ 31 → s.files d =
      if d < (descriptorLimit caller.openMax).toNat then none else caller.files d) :
    Daemon lookup caller s :=
  ⟨h.toDetached, h.not_leader, h.cwd, hstandard, hothers⟩

/-! ## The loop over the descriptors -/

theorem intOfSize_of_lt {i : UInt64} (hi : i.toNat < 2 ^ 31) : intOfSize i = i.toNat :=
  Int.bmod_eq_of_le (by omega) (by omega)

/-- What the loop from `i` on with as many turns does to the descriptors. -/
structure ClosesFrom (i turns : Nat) (before after : Nat → Option File) : Prop where
  closes : ∀ d : Nat, d < 2 ^ 31 → i ≤ d → d < i + turns → after d = none
  keeps : ∀ d : Nat, d < 2 ^ 31 → i + turns ≤ d → after d = before d
  closed : ∀ d, before d = none → after d = none

/-- The first turn, and the other ones. -/
theorem ClosesFrom.head {i : UInt64} {turns : Nat} {after : Nat → Option File}
    (h : ClosesFrom (i.toNat + 1) turns (s.closed (intOfSize i)).files after) :
    ClosesFrom i.toNat (turns + 1) s.files after where
  closes d hd hle hlt := by
    rcases Nat.eq_or_lt_of_le hle with heq | hmore
    · have hint : (d : Int) = intOfSize i := by
        rw [intOfSize_of_lt (heq ▸ hd), heq]
      exact h.closed d (by rw [ProcessState.files_closed, if_pos hint])
    · exact h.closes d hd hmore (by omega)
  keeps d hd hle := by
    -- the descriptor of this turn is below `d`
    have hne : (d : Int) ≠ intOfSize i := by
      rw [intOfSize_of_lt (by omega)]
      omega
    rw [h.keeps d hd (by omega), ProcessState.files_closed, if_neg hne]
  closed d hnone := by
    exact h.closed d (by rw [ProcessState.files_closed, hnone, ite_self])

theorem closeEach_closes (turns : Nat) {i : UInt64} (hi : i.toNat + turns < 2 ^ 64)
    (s : ProcessState File) :
    wp (posix lookup) (closeEach turns i)
      (fun _ s' => ∃ files, s' = { s with files := files } ∧
        ClosesFrom i.toNat turns s.files files) s := by
  induction turns generalizing i s with
  | zero =>
      refine ⟨s.files, rfl, fun d _ hle hlt => ?_, fun _ _ _ => rfl, fun _ h => h⟩
      omega
  | succ turns ih =>
      have hnext : (i + 1).toNat = i.toNat + 1 := by
        rw [UInt64.toNat_add]
        exact Nat.mod_eq_of_lt (by simpa using by omega)
      refine wp_bind (wp_ask fun _ s' hs' => ?_)
      obtain rfl : s' = s.closed (intOfSize i) := hs'
      refine wp_mono (fun _ s'' hs'' => ?_) (ih (by omega) (s.closed (intOfSize i)))
      obtain ⟨files, rfl, hfiles⟩ := hs''
      rw [hnext] at hfiles
      have hhead : ClosesFrom i.toNat (turns + 1) s.files files := hfiles.head
      refine ⟨files, ?_, hhead⟩
      rw [ProcessState.closed]

/-- The loop of `daemonize`. -/
theorem closeEach_limit (max : UInt64) (s : ProcessState File) :
    wp (posix lookup) (closeEach max.toNat 0)
      (fun _ s' => ∃ files, s' = { s with files := files } ∧ ∀ d : Nat, d < 2 ^ 31 →
        files d = if d < max.toNat then none else s.files d) s := by
  have hmax : (0 : UInt64).toNat + max.toNat < 2 ^ 64 := by
    rw [UInt64.toNat_zero, Nat.zero_add]
    exact max.toNat_lt
  refine wp_mono (fun _ s' hs' => ?_) (closeEach_closes max.toNat hmax s)
  obtain ⟨files, rfl, hfiles⟩ := hs'
  rw [UInt64.toNat_zero] at hfiles
  refine ⟨files, rfl, fun d hd => ?_⟩
  split
  · rename_i hlt
    exact hfiles.closes d hd (Nat.zero_le d) (by simpa using hlt)
  · rename_i hle
    exact hfiles.keeps d hd (by simpa using hle)

/-! ## The standard descriptors -/

/-- The descriptors below `n` stand for `/dev/null`, as `fd` does, and the other ones are
as the loop has left them. -/
structure Standing (lookup : String → File) (caller : ProcessState File) (fd n : Nat)
    (files : Nat → Option File) : Prop where
  null : files fd = some (lookup "/dev/null")
  standard : ∀ d, d < n → files d = some (lookup "/dev/null")
  others : ∀ d : Nat, 3 ≤ d → d ≠ fd → d < 2 ^ 31 → files d =
    if d < (descriptorLimit caller.openMax).toNat then none else caller.files d

theorem Standing.dup2 {fd n : Nat} {files : Nat → Option File}
    (h : Standing lookup caller fd n files) (hn : n < 3) :
    Standing lookup caller fd (n + 1) (Function.update files n (files fd)) where
  null := by
    by_cases heq : fd = n
    · rw [heq, Function.update_self, ← heq]
      exact h.null
    · rw [Function.update_of_ne heq]
      exact h.null
  standard d hd := by
    by_cases heq : d = n
    · rw [heq, Function.update_self]
      exact h.null
    · rw [Function.update_of_ne heq]
      exact h.standard d (by omega)
  others d hle hne hlt := by
    rw [Function.update_of_ne (by omega)]
    exact h.others d hle hne hlt

/-- `dup2` onto the next standard descriptor. -/
theorem wp_dup2 {fd n : Nat} {files : Nat → Option File} {e : Int} (h : Apart caller s)
    (hs : Standing lookup caller fd n files) (hn : n < 3) (he : e ∈ [-4, -5, -6, -7])
    {rest : ToolCode Int}
    (hrest : ∀ files, Standing lookup caller fd (n + 1) files →
      wp (posix lookup) rest (Outcome lookup caller) { s with files := files }) :
    wp (posix lookup) (do
      if !(← sys (.dup2 fd n)) then
        return e
      rest) (Outcome lookup caller) { s with files := files } := by
  refine wp_bind (wp_ask fun done s' hs' => ?_)
  cases done with
  | false =>
      obtain rfl : s' = { s with files := files } := hs'
      exact .inr (.inr (.inl ⟨he, (h.withFiles files).toDetached⟩))
  | true =>
      obtain rfl : s' = { s with files := Function.update files n (files fd) } := hs'
      exact hrest _ (hs.dup2 hn)

theorem redirect_outcome {fd : Nat} {files : Nat → Option File} (h : Apart caller s)
    (hs : Standing lookup caller fd 0 files)
    (hfree : fd < 2 ^ 31 → (if fd < (descriptorLimit caller.openMax).toNat then none
      else caller.files fd) = none)
    (hzero : fd ≠ 0 → descriptorLimit caller.openMax = 0) :
    wp (posix lookup) (redirect fd) (Outcome lookup caller) { s with files := files } := by
  refine wp_dup2 h hs (by omega) (by decide) fun files hs => ?_
  refine wp_dup2 h hs (by omega) (by decide) fun files hs => ?_
  refine wp_dup2 h hs (by omega) (by decide) fun files hs => ?_
  show wp (posix lookup) ((if fd > 2 then _ else _) : ToolCode Int) _ _
  by_cases hbig : 2 < fd
  · rw [if_pos hbig]
    refine wp_bind (wp_ask fun done s' hs' => ?_)
    obtain rfl : s' = ProcessState.closed _ (fd : Int) := hs'
    have hclosed : Apart caller (ProcessState.closed { s with files := files } (fd : Int)) :=
      h.withFiles _
    cases done with
    | false =>
        exact .inr (.inr (.inr (.inl ⟨rfl, hclosed.toDetached, hzero (by omega)⟩)))
    | true =>
        refine .inr (.inr (.inr (.inr ⟨rfl, hclosed.daemon (fun d hd => ?_) fun d hle hlt => ?_⟩)))
        · rw [ProcessState.files_closed, if_neg (by omega)]
          exact hs.standard d hd
        · rw [ProcessState.files_closed]
          by_cases heq : d = fd
          · -- nobody has used this descriptor before
            rw [if_pos (congrArg _ heq), heq]
            exact (hfree (heq ▸ hlt)).symm
          · rw [if_neg (by omega)]
            exact hs.others d hle heq hlt
  · rw [if_neg hbig]
    refine .inr (.inr (.inr (.inr ⟨rfl, (h.withFiles files).daemon hs.standard
      fun d hle hlt => ?_⟩)))
    exact hs.others d hle (by omega) hlt

/-- `daemonize` after the second `fork`. -/
theorem cutLoose_outcome (h : Apart caller s) (hfiles : s.files = caller.files) :
    wp (posix lookup) cutLoose (Outcome lookup caller) s := by
  refine wp_bind (wp_ask fun done s₁ hs₁ => ?_)
  have h₁ : Apart caller s₁ ∧ s₁.files = caller.files := by
    obtain rfl : s₁ = if done then { s with cwd := "/" } else s := hs₁
    cases done with
    | false => exact ⟨h, hfiles⟩
    | true =>
        exact ⟨⟨⟨h.umask, h.terminal, h.session⟩, h.not_leader, .inl rfl, h.openMax⟩, hfiles⟩
  obtain ⟨h₁, hfiles₁⟩ := h₁
  refine wp_bind (wp_ask fun max _ hmax => ?_)
  obtain ⟨rfl, rfl⟩ := hmax
  rw [h₁.openMax]
  refine wp_bind (wp_mono (fun _ s₂ hs₂ => ?_) (closeEach_limit _ _))
  obtain ⟨files, rfl, hclosed⟩ := hs₂
  rw [hfiles₁] at hclosed
  have h₂ := h₁.withFiles files
  refine wp_bind (wp_ask fun fd s₃ hs₃ => ?_)
  cases fd with
  | none =>
      obtain rfl : s₃ = _ := hs₃
      exact .inr (.inr (.inl ⟨by decide, h₂.toDetached⟩))
  | some fd =>
      obtain ⟨hfree, hlowest, rfl⟩ := hs₃
      refine redirect_outcome h₂ ⟨Function.update_self .., fun d hd => ?_, fun d _ hne hlt => ?_⟩
        (fun hlt => ?_) fun hne => ?_
      · omega
      · exact (Function.update_of_ne hne ..).trans (hclosed d hlt)
      · rw [← hclosed fd hlt]
        exact hfree
      · -- the lowest descriptor has not been closed
        by_contra hlimit
        have hpos : 0 < (descriptorLimit caller.openMax).toNat := by
          refine Nat.pos_of_ne_zero fun hzero => hlimit ?_
          exact UInt64.toNat_inj.mp hzero
        refine hlowest 0 (Nat.pos_of_ne_zero hne) ?_
        exact (hclosed 0 (by omega)).trans (if_pos hpos)

/-! ## `daemonize` -/

theorem setsid_leader (h : s.pid = s.pgid) (done : Bool) :
    (posix lookup).answers s .setsid done s' ↔ done = false ∧ s' = s := by
  show (if s.pid = s.pgid then _ else _) ↔ _
  rw [if_pos h]

theorem setsid_member (h : s.pid ≠ s.pgid) (done : Bool) :
    (posix lookup).answers s .setsid done s' ↔
      done = true ∧ s' = { s with sid := s.pid, pgid := s.pid, terminal := none } := by
  show (if s.pid = s.pgid then _ else _) ↔ _
  rw [if_neg h]

theorem posix_answers (s : ProcessState File) (call : Syscall) :
    ∃ a s', (posix lookup).answers s call a s' := by
  cases call with
  | umask mask => exact ⟨(), _, rfl⟩
  | setsid =>
      by_cases hleader : s.pid = s.pgid
      · exact ⟨false, s, (setsid_leader hleader false).mpr ⟨rfl, rfl⟩⟩
      · exact ⟨true, _, (setsid_member hleader true).mpr ⟨rfl, rfl⟩⟩
  | chdir path => exact ⟨true, _, rfl⟩
  | getrlimit => exact ⟨s.openMax, s, rfl, rfl⟩
  | close fd => exact ⟨true, _, rfl⟩
  | openFile path => exact ⟨none, s, rfl⟩
  | dup2 fd fd' => exact ⟨true, _, rfl⟩

/-- What `fork` hands down. -/
theorem child_of (h : s' = { s with pid := s'.pid }) :
    s'.pgid = s.pgid ∧ s'.umask = s.umask ∧ s'.cwd = s.cwd ∧ s'.openMax = s.openMax ∧
      s'.files = s.files := by
  rw [h]
  exact ⟨rfl, rfl, rfl, rfl, rfl⟩

/-- `daemonize` as a relay.  `setsid` cannot fail: the child of a `fork` does not lead a
process group. -/
theorem daemonize_outcome (lookup : String → File) (caller : ProcessState File) :
    wp (posix lookup) daemonize (Outcome lookup caller) caller := by
  refine wp_bind (wp_ask fun _ s hs => ?_)
  obtain rfl : s = { caller with umask := 0 } := hs
  refine ⟨.inl ⟨rfl, rfl⟩, rfl, fun child hspawn => ?_⟩
  obtain ⟨hnew, hchild⟩ := hspawn
  obtain ⟨hpgid, humask, hcwd, hmax, hfiles⟩ := child_of hchild
  have hgroup : child.pid ≠ child.pgid := by
    refine fun heq => hnew ?_
    rw [heq, hpgid]
    exact .tail _ (.head _)
  refine wp_bind (wp_ask fun done s hs => ?_)
  obtain ⟨rfl, rfl⟩ := (setsid_member hgroup done).mp hs
  refine ⟨.inr (.inl ⟨rfl, humask, rfl, hnew⟩), rfl, fun daemon hspawn => ?_⟩
  obtain ⟨hother, hdaemon⟩ := hspawn
  have hne : daemon.pid ≠ child.pid := fun heq => hother (heq ▸ .head _)
  refine cutLoose_outcome ?_ ((child_of hdaemon).2.2.2.2.trans hfiles)
  rw [hdaemon]
  exact ⟨⟨humask, rfl, hnew⟩, ⟨hne, hne⟩, .inr hcwd, hmax⟩

/-- **One process comes out of `daemonize`.**  However the steps interleave, and whatever
fails, all processes but the last one exit with 0.  That one does not exit, it comes to
its `return`, and then it is what the returned value says. -/
theorem daemonize_detaches (lookup : String → File) (caller : ProcessState File)
    (procs : List (Proc (ProcessState File) Syscall Syscall.Result Int))
    (h : Reaches (posix lookup) caller daemonize procs) :
    (∃ front p, procs = front ++ [p] ∧ (∀ q ∈ front, q.code = .exit 0) ∧
      (∀ status, p.code ≠ .exit status) ∧
      ∀ r, p.code = .ret r → Outcome lookup caller r p.state) ∧
    ((∃ front s r, procs = front ++ [⟨s, .ret r⟩]) ∨
      ∃ procs', Step (posix lookup) procs procs') ∧
    Acc (fun procs' procs => Step (posix lookup) procs procs') procs := by
  have hrelay := relay_of_reaches (daemonize_outcome lookup caller) h
  refine ⟨?_, hrelay.progress posix_answers, hrelay.ends⟩
  obtain ⟨front, p, rfl, hfront, hwp⟩ := hrelay
  refine ⟨front, p, rfl, hfront, fun status hexit => ?_, fun r hret => ?_⟩
  · rw [hexit] at hwp
    exact hwp
  · rw [hret] at hwp
    exact hwp

/-- A shell, which may have three descriptors only. -/
def shell : ProcessState String :=
  ⟨7, 7, 5, some 1, 18, "/home", 3, fun d => if d < 3 then some "/dev/tty" else none⟩

/-- After the first `fork` and `setsid`. -/
def leader : ProcessState String :=
  { shell with pid := 8, pgid := 8, sid := 8, terminal := none, umask := 0 }

/-- After the second `fork`. -/
def grandchild : ProcessState String := { leader with pid := 9 }

def atRoot : ProcessState String := { grandchild with cwd := "/" }

/-- After the loop. -/
def bare : ProcessState String := ((atRoot.closed 0).closed 1).closed 2

def withNull : ProcessState String :=
  { bare with files := Function.update bare.files 0 (some "/dev/null") }

/-- `dup2` onto each standard descriptor. -/
def daemonized : ProcessState String :=
  { withNull with
    files := Function.update (Function.update (Function.update withNull.files 0
      (some "/dev/null")) 1 (some "/dev/null")) 2 (some "/dev/null") }

/-- `daemonize` from `chdir` on, when nothing fails. -/
theorem cutLoose_runs (front : List (Proc (ProcessState String) Syscall Syscall.Result Int)) :
    Relation.ReflTransGen (Step (posix id)) (front ++ [⟨grandchild, cutLoose⟩])
      (front ++ [⟨daemonized, .ret 0⟩]) := by
  refine runs_call front true atRoot rfl ?_
  refine runs_call front (3 : UInt64) atRoot ⟨rfl, rfl⟩ ?_
  have hlimit : (descriptorLimit 3).toNat = 3 := by decide
  change Relation.ReflTransGen _
    (front ++ [⟨atRoot, (closeEach (descriptorLimit 3).toNat 0).bind _⟩]) _
  rw [hlimit]
  -- the turns of the loop
  have hzero : (0 : Int) = intOfSize 0 := by decide
  have hone : (1 : Int) = intOfSize (0 + 1) := by decide
  have htwo : (2 : Int) = intOfSize (0 + 1 + 1) := by decide
  refine runs_call front true _ (congrArg atRoot.closed hzero) ?_
  refine runs_call front true _ (congrArg (ProcessState.closed _) hone) ?_
  refine runs_call front true bare (congrArg (ProcessState.closed _) htwo) ?_
  refine runs_call front (some 0) withNull ⟨rfl, fun d hd => (by cases hd), rfl⟩ ?_
  refine runs_call front true _ rfl ?_
  refine runs_call front true _ rfl ?_
  refine runs_call front true _ rfl ?_
  exact .refl

theorem daemonize_runs : ∃ front,
    Reaches (posix id) shell daemonize (front ++ [⟨daemonized, .ret 0⟩]) := by
  refine ⟨[⟨{ shell with umask := 0 }, .exit 0⟩, ⟨leader, .exit 0⟩], ?_⟩
  refine runs_call [] () _ rfl ?_
  refine runs_fork [] { shell with pid := 8, umask := 0 } ⟨by decide, rfl⟩ ?_
  refine runs_call [_] true leader ⟨rfl, rfl⟩ ?_
  refine runs_fork [_] grandchild ⟨by decide, rfl⟩ ?_
  exact cutLoose_runs [_, _]

/-- A run in which nothing fails. -/
theorem daemonize_detaches_shell :
    ∃ front, Reaches (posix id) shell daemonize (front ++ [⟨daemonized, .ret 0⟩]) ∧
      (∀ q ∈ front, q.code = .exit 0) ∧ Outcome id shell 0 daemonized := by
  obtain ⟨front, hrun⟩ := daemonize_runs
  obtain ⟨⟨front', p, heq, hfront, -, hret⟩, -, -⟩ := daemonize_detaches id shell _ hrun
  obtain ⟨rfl, hp⟩ := List.append_inj' heq rfl
  obtain rfl := (List.cons.inj hp).1
  exact ⟨front, hrun, hfront, hret 0 rfl⟩

end

end Sys
end Deps
