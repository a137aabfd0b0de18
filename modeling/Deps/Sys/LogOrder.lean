import Deps.Sys.LogDescriptors
import Deps.Sys.LogLines

/-!
# The order of the lines

As long as one rotation at a time has the new log file open and `m_fd` not yet
on it, `m_fd` never goes back to an older file.  Then the backups, in the order in
which they were created, and the log file behind them have the lines in the order
in which they were written.
-/

namespace Deps
namespace Sys

open Runs Ledger Files

variable {Thread : Type} {c : LogConfig} {s s' : LogSystem Thread} {a : LogAction Thread}
  {past : List (LogSystem Thread × LogAction Thread)} {mFd : Nat}

/-! ## Sorted lists -/

/-- A list which is sorted by its keys has the small keys first. -/
theorem eq_filter_append_filter {α : Type} {l : List (Nat × α)} (n : Nat)
    (hl : l.Pairwise (·.1 ≤ ·.1)) :
    l = l.filter (·.1 < n) ++ l.filter (fun e => ¬ e.1 < n) := by
  induction l with
  | nil => rfl
  | cons e l ih =>
      obtain ⟨he, hl⟩ := List.pairwise_cons.mp hl
      by_cases hn : e.1 < n
      · simpa [hn] using ih hl
      -- the rest has large keys only
      · have hsmall : l.filter (·.1 < n) = [] := by
          refine List.filter_eq_nil_iff.mpr fun x hx => ?_
          have := he x hx
          simp only [decide_eq_true_eq]
          omega
        have hlarge : l.filter (fun e => ¬ e.1 < n) = l := by
          refine List.filter_eq_self.mpr fun x hx => ?_
          have := he x hx
          simp only [decide_eq_true_eq]
          omega
        rw [List.filter_cons_of_neg (by simpa using hn), hsmall,
          List.filter_cons_of_pos (by simpa using hn), hlarge]
        rfl

/-- A list which is sorted by its keys is the concatenation of its parts. -/
theorem eq_flatMap_filter {α : Type} {n : Nat} {l : List (Nat × α)}
    (hl : l.Pairwise (·.1 ≤ ·.1)) (hlt : ∀ e ∈ l, e.1 < n) :
    l = (List.range n).flatMap fun k => l.filter (·.1 = k) := by
  induction n generalizing l with
  | zero =>
      exact List.eq_nil_iff_forall_not_mem.mpr fun e he => absurd (hlt e he) (Nat.not_lt_zero _)
  | succ n ih =>
      have hparts := eq_filter_append_filter n hl
      have hsmall := ih (hl.filter _) (l := l.filter (·.1 < n)) fun e he => by
        simpa using (List.mem_filter.mp he).2
      have hlast : l.filter (fun e => ¬ e.1 < n) = l.filter (·.1 = n) := by
        refine List.filter_congr fun e he => ?_
        have := hlt e he
        simp only [decide_eq_decide]
        omega
      rw [List.range_succ, List.flatMap_append, List.flatMap_singleton, ← hlast]
      refine hparts.trans (congrArg (· ++ _) (hsmall.trans ?_))
      refine List.flatMap_congr fun k hk => ?_
      rw [List.filter_filter]
      refine List.filter_congr fun e _ => ?_
      have := List.mem_range.mp hk
      by_cases hek : e.1 = k
      · simp [hek, this]
      · simp [hek]

/-! ## The invariant -/

/-- A rotation opens the log file while no other one has it open; the file name stays. -/
def Separate (s : LogSystem Thread) : LogAction Thread → Prop
  | .openFile _ (some _) => ∀ u line b fd, s.logging u ≠ .dup2 line b fd
  | .setFileName _ (some _) _ => False
  | .destroy => False
  | _ => True

/-- The log file is not older than the file `f`. -/
def LogSystem.NoNewer (s : LogSystem Thread) (f : Nat) : Prop :=
  ∀ g, s.table.directory s.filename = some g → f ≤ g

/-- `f` is the file of `m_fd`, and it comes before the file which a rotation has
opened, and that before the log file. -/
structure Current (mFd : Nat) (s : LogSystem Thread) (f : Nat) : Prop where
  member : s.mFd = some mFd
  file : s.table.descriptors mFd = some (.file f)
  noNewer : s.NoNewer f
  opened : ∀ t line b fd, s.logging t = .dup2 line b fd →
    ∃ g, s.table.descriptors fd = some (.file g) ∧ f ≤ g ∧ s.NoNewer g
  alone : ∀ t u line b fd line' b' fd', s.logging t = .dup2 line b fd →
    s.logging u = .dup2 line' b' fd' → t = u

/-- The file of `m_fd`. -/
def LogSystem.currentFile (s : LogSystem Thread) : Option Nat :=
  match s.mFd.bind s.table.descriptors with
  | some (.file f) => some f
  | _ => none

/-- `m_fd` is on a file in both states, and not on an older one in the second. -/
def NotOlder (s s' : LogSystem Thread) : Prop :=
  ∃ f g, s.currentFile = some f ∧ s'.currentFile = some g ∧ f ≤ g

theorem NotOlder.trans {s s' s'' : LogSystem Thread} (h : NotOlder s s')
    (h' : NotOlder s' s'') : NotOlder s s'' := by
  obtain ⟨f, g, hf, hg, hle⟩ := h
  obtain ⟨g', k, hg', hk, hle'⟩ := h'
  cases hg.symm.trans hg'
  exact ⟨f, k, hf, hk, hle.trans hle'⟩

theorem Current.currentFile {f : Nat} (h : Current mFd s f) : s.currentFile = some f := by
  rw [LogSystem.currentFile, h.member, Option.bind_some, h.file]

/-- The logger between two steps; `f` is the file of `m_fd`. -/
structure Settled (mFd : Nat) (s : LogSystem Thread) (f : Nat) : Prop where
  exact : Exact s.holds s.IsLog
  numbered : s.Numbered
  wf : s.table.Wf
  current : Current mFd s f

/-- The lines so far are in order, and the next one goes behind them. -/
structure InOrder (mFd : Nat) (past : List (LogSystem Thread × LogAction Thread))
    (s : LogSystem Thread) : Prop where
  sorted : (written past).Pairwise (·.1 ≤ ·.1)
  lt : ∀ e ∈ written past, e.1 < s.table.files.length
  settled : ∃ f, Settled mFd s f ∧ ∀ e ∈ written past, e.1 ≤ f

/-- A step which changes neither `m_fd` nor the files which rotations have opened. -/
theorem Current.keep {f : Nat} (h : Current mFd s f) (hmFd : s'.mFd = s.mFd)
    (hfile : s'.table.descriptors mFd = s.table.descriptors mFd)
    (hnoNewer : ∀ g, s.NoNewer g → s'.NoNewer g)
    (hdup2 : ∀ t line b fd, s'.logging t = .dup2 line b fd → s.logging t = .dup2 line b fd ∧
      s'.table.descriptors fd = s.table.descriptors fd) : Current mFd s' f where
  member := hmFd.trans h.member
  file := hfile.trans h.file
  noNewer := hnoNewer f h.noNewer
  opened := by
    intro t line b fd ht
    obtain ⟨ht, hfd⟩ := hdup2 t line b fd ht
    obtain ⟨g, hg, hle, hnewer⟩ := h.opened t line b fd ht
    exact ⟨g, hfd.trans hg, hle, hnoNewer g hnewer⟩
  alone := by
    intro t u line b fd line' b' fd' ht hu
    exact h.alone t u line b fd line' b' fd' (hdup2 _ _ _ _ ht).1 (hdup2 _ _ _ _ hu).1

variable [DecidableEq Thread]

/-- Another thread, or one which is not about to call `dup2`. -/
theorem logging_of_move {t u : Thread} {p : Logging} {line : List UInt8} {b : Int} {fd : Nat}
    (hp : ∀ line b fd, p ≠ .dup2 line b fd) (hu : (s.move t p).logging u = .dup2 line b fd) :
    s.logging u = .dup2 line b fd := by
  by_cases hut : u = t
  · subst hut
    rw [s.move_logging_self] at hu
    exact absurd hu (hp line b fd)
  · rwa [s.move_logging_of_ne hut] at hu

omit [DecidableEq Thread] in
/-- A descriptor whose holder is not `m_fd` and not a rotation which has opened the
file, or which is not a log file. -/
theorem Current.update {f : Nat} {target : Option Target} (h : Current mFd s f) (fd : Nat)
    (hmFd : s'.mFd = s.mFd) (hdirectory : s'.table.directory = s.table.directory)
    (hfilename : s'.filename = s.filename)
    (hdescriptors : s'.table.descriptors = Function.update s.table.descriptors fd target)
    (hfd : fd ≠ mFd) (hdup2 : ∀ t line b fd', s'.logging t = .dup2 line b fd' →
      s.logging t = .dup2 line b fd' ∧ fd' ≠ fd) : Current mFd s' f := by
  refine h.keep hmFd ?_ (fun g hg => ?_) fun t line b fd' ht => ?_
  · rw [hdescriptors, Function.update_of_ne hfd.symm]
  · rw [LogSystem.NoNewer, hdirectory, hfilename]
    exact hg
  · obtain ⟨ht, hne⟩ := hdup2 t line b fd' ht
    exact ⟨ht, by rw [hdescriptors, Function.update_of_ne hne]⟩

omit [DecidableEq Thread] in
theorem rotate_ne_dup2 (line : List UInt8) (r : Rotating) (line' : List UInt8) (b : Int)
    (fd : Nat) : Logging.rotate line r ≠ .dup2 line' b fd := by
  cases r <;> nofun

omit [DecidableEq Thread] in
theorem holds_of_dup2 {t : Thread} {line : List UInt8} {b : Int} {fd : Nat}
    (ht : s.logging t = .dup2 line b fd) : s.holds (.rotation t) = some fd := by
  rw [LogSystem.holds, ht]
  rfl

/-- A rotation opens the log file. -/
theorem Current.openFile {f fd : Nat} {t : Thread} {line : List UInt8} {b : Int}
    (h : Current mFd s f) (hwf : s.table.Wf) (hfd : s.table.descriptors fd = none)
    (halone : ∀ u line b fd, s.logging u ≠ .dup2 line b fd) :
    Current mFd ((s.withTable (s.table.openFile s.filename fd)).move t (.dup2 line b fd)) f := by
  have hself : (s.table.openFile s.filename fd).directory s.filename =
      some (s.table.target s.filename) := Table.directory_create_self
  have hle : f ≤ s.table.target s.filename := by
    rw [Table.target]
    cases hname : s.table.directory s.filename with
    | some g => exact h.noNewer g hname
    | none => exact (hwf.descriptors_lt h.file).le
  -- the thread `t` is the only one
  have honly : ∀ {u line' b' fd'},
      ((s.withTable (s.table.openFile s.filename fd)).move t (.dup2 line b fd)).logging u =
        .dup2 line' b' fd' → u = t ∧ fd' = fd := by
    intro u line' b' fd' hu
    by_cases hut : u = t
    · subst hut
      rw [LogSystem.move_logging_self] at hu
      cases hu
      exact ⟨rfl, rfl⟩
    · rw [LogSystem.move_logging_of_ne _ hut] at hu
      exact absurd hu (halone u _ _ _)
  constructor
  case member => exact h.member
  case file =>
    have hne : mFd ≠ fd := by
      rintro rfl
      rw [h.file] at hfd
      cases hfd
    exact (Function.update_of_ne hne ..).trans h.file
  case noNewer =>
    intro g hg
    cases hself.symm.trans hg
    exact hle
  case opened =>
    intro u line' b' fd' hu
    obtain ⟨-, rfl⟩ := honly hu
    refine ⟨s.table.target s.filename, Function.update_self .., hle, fun g hg => ?_⟩
    cases hself.symm.trans hg
    exact le_rfl
  case alone =>
    intro u u' _ _ _ _ _ _ hu hu'
    exact (honly hu).1.trans (honly hu').1.symm

/-- `m_fd` goes on to the file which the rotation has opened. -/
theorem Current.dup2 {f fd : Nat} {t : Thread} {line : List UInt8} {b : Int}
    (h : Current mFd s f) (ht : s.logging t = .dup2 line b fd) :
    ∃ g, f ≤ g ∧ Current mFd ((s.withTable (s.table.dup2 fd mFd)).move t (.spawn line fd)) g := by
  obtain ⟨g, hg, hle, hnewer⟩ := h.opened t line b fd ht
  have hnone : ∀ u line' b' fd',
      ((s.withTable (s.table.dup2 fd mFd)).move t (.spawn line fd)).logging u ≠
        .dup2 line' b' fd' := by
    intro u line' b' fd' hu
    have hbefore := logging_of_move (s := s.withTable (s.table.dup2 fd mFd))
      (fun _ _ _ hp => by cases hp) hu
    have hut := h.alone u t _ _ _ _ _ _ hbefore ht
    subst hut
    rw [LogSystem.move_logging_self] at hu
    cases hu
  refine ⟨g, hle, h.member, ?_, hnewer, fun u _ _ _ hu => absurd hu (hnone u _ _ _),
    fun u _ _ _ _ _ _ _ hu => absurd hu (hnone u _ _ _)⟩
  exact (Function.update_self ..).trans hg

/-- `m_fd` does not go back to an older file. -/
theorem current_step {f : Nat} (h : Current mFd s f) (hexact : Exact s.holds s.IsLog)
    (hwf : s.table.Wf) (hstep : LoggerStep c s a s') (hseparate : Separate s a) :
    ∃ g, f ≤ g ∧ Current mFd s' g := by
  -- a step of a thread which opens nothing
  have hmove : ∀ {s₁ : LogSystem Thread} {t : Thread} {p : Logging}, s₁.mFd = s.mFd →
      s₁.table = s.table → s₁.filename = s.filename → s₁.logging = s.logging →
      (∀ line b fd, p ≠ .dup2 line b fd) → ∃ g, f ≤ g ∧ Current mFd (s₁.move t p) g := by
    intro s₁ t p hmFd htable hfilename hlogging hp
    refine ⟨f, le_rfl, h.keep hmFd (congrArg (Table.descriptors · mFd) htable) (fun g hg => ?_)
      fun u line b fd hu => ?_⟩
    · show ∀ g', s₁.table.directory s₁.filename = some g' → g ≤ g'
      rw [htable, hfilename]
      exact hg
    · rw [← hlogging]
      exact ⟨logging_of_move hp hu, congrArg (Table.descriptors · fd) htable⟩
  have hmember : s.holds .member = some mFd := h.member
  -- a descriptor which is not a log file
  have hforeign : ∀ {fd : Nat} {table : Table String (List UInt8)} {target : Option Target},
      ¬ s.IsLog fd →
      table = { s.table with descriptors := Function.update s.table.descriptors fd target } →
      Current mFd (s.withTable table) f := by
    rintro fd table target hlog rfl
    refine h.update fd rfl rfl rfl rfl ?_ fun u _ _ fd' hu => ⟨hu, ?_⟩
    · rintro rfl
      exact hlog (hexact.inUse hmember)
    · rintro rfl
      exact hlog (hexact.inUse (holds_of_dup2 hu))
  cases hstep with
  | above | setFileNameFails => exact ⟨f, le_rfl, h⟩
  | setLogLevel | setLogLevelName =>
      exact ⟨f, le_rfl, h.keep rfl rfl (fun _ hg => hg) fun _ _ _ _ ht => ⟨ht, rfl⟩⟩
  | call | time | openFails | restore | writeFails => exact hmove rfl rfl rfl rfl nofun
  | load | exchange | enoent | renameFails => exact hmove rfl rfl rfl rfl (rotate_ne_dup2 _ _)
  | dup2Fails => exact hmove rfl rfl rfl rfl nofun
  | spawn t created => cases created <;> exact hmove rfl rfl rfl rfl nofun
  | @renamed line now b t ht hname =>
      refine ⟨f, le_rfl, h.keep rfl (congrFun Table.descriptors_rename _) (fun g hg => ?_)
        fun u line b fd hu => ?_⟩
      · -- the log file has no name until it is opened again
        by_cases hne : s.filename = c.newname s.filename now
        · have heq : s.table.rename s.filename (c.newname s.filename now) = s.table := by
            rw [Table.rename, if_pos hne]
          intro g' hg'
          exact hg g' ((congrArg (Table.directory · s.filename) heq).symm.trans hg')
        · intro g' hg'
          cases (Table.directory_rename_old hne).symm.trans hg'
      · exact ⟨logging_of_move (s := s.withTable _) (rotate_ne_dup2 _ _) hu,
          congrFun Table.descriptors_rename _⟩
  | openFile t fd ht hfd => exact ⟨f, le_rfl, h.openFile hwf hfd hseparate⟩
  | dup2 t ht hmFd =>
      cases hmFd.symm.trans h.member
      exact h.dup2 ht
  | @closeFd line b fd t ht =>
      have hfd : s.holds (.rotation t) = some fd := by
        rw [LogSystem.holds, ht]
        rfl
      refine ⟨f, le_rfl, h.update fd rfl rfl rfl rfl ?_ fun u _ _ fd' hu => ?_⟩
      · rintro rfl
        cases hexact.unique hmember hfd
      · have hu := logging_of_move (s := s.withTable (s.table.close fd))
          (fun _ _ _ hp => by cases hp) hu
        refine ⟨hu, ?_⟩
        rintro rfl
        cases hexact.unique (holds_of_dup2 hu) hfd
        cases ht.symm.trans hu
  | write t n ht hn =>
      refine ⟨f, le_rfl, h.keep rfl (congrFun Table.descriptors_append _) (fun g hg => ?_)
        fun u line b fd hu => ?_⟩
      · intro g' hg'
        exact hg g' ((congrFun Table.directory_append _).symm.trans hg')
      · exact ⟨logging_of_move (s := s.withTable _) (fun _ _ _ hp => by cases hp) hu,
          congrFun Table.descriptors_append _⟩
  | setFileName => exact hseparate.elim
  | @expire fd k hk =>
      have hdetached : s.holds (.detached k) = some fd := hk
      refine ⟨f, le_rfl, h.update fd rfl rfl rfl rfl ?_ fun u _ _ fd' hu => ⟨hu, ?_⟩⟩
      · rintro rfl
        cases hexact.unique hmember hdetached
      · rintro rfl
        cases hexact.unique (holds_of_dup2 hu) hdetached
  | destroy => exact hseparate.elim
  | openOther fd hfd =>
      have hlog : ¬ s.IsLog fd := by
        rintro ⟨g, hg⟩
        rw [hfd] at hg
        cases hg
      exact ⟨f, le_rfl, hforeign hlog rfl⟩
  | closeOther fd hfd =>
      have hlog : ¬ s.IsLog fd := by
        rintro ⟨g, hg⟩
        rw [hfd] at hg
        cases hg
      exact ⟨f, le_rfl, hforeign hlog rfl⟩

theorem Settled.step {f : Nat} (h : Settled mFd s f) (hstep : LoggerStep c s a s')
    (hseparate : Separate s a) : ∃ g, f ≤ g ∧ Settled mFd s' g := by
  obtain ⟨g, hle, hcurrent⟩ := current_step h.current h.exact h.wf hstep hseparate
  exact ⟨g, hle, exact_step h.exact h.numbered hstep, numbered_step h.numbered hstep,
    wf_step h.wf hstep, hcurrent⟩

theorem InOrder.step (h : InOrder mFd past s) (hstep : LoggerStep c s a s')
    (hseparate : Separate s a) : InOrder mFd (past ++ [(s, a)]) s' := by
  obtain ⟨f, hsettled, hlast⟩ := h.settled
  obtain ⟨g, hle, hsettled'⟩ := hsettled.step hstep hseparate
  -- a step which writes nothing
  have hkeep : s.table.files.length ≤ s'.table.files.length → appends (s, a) = none →
      InOrder mFd (past ++ [(s, a)]) s' := by
    intro hlength happends
    have hwritten : written (past ++ [(s, a)]) = written past := by
      rw [written_snoc, happends]
      exact List.append_nil _
    constructor
    case sorted => rw [hwritten]; exact h.sorted
    case lt => rw [hwritten]; exact fun e he => (h.lt e he).trans_le hlength
    case settled => rw [hwritten]; exact ⟨g, hsettled', fun e he => (hlast e he).trans hle⟩
  cases touches_of_step hstep with
  | nothing hdirectory hfiles happends => exact hkeep (by rw [hfiles]) happends
  | creates name hdirectory hfiles happends =>
      exact hkeep (by rw [hfiles]; exact Table.length_files_create_le) happends
  | renames new hold hdirectory hfiles happends => exact hkeep (by rw [hfiles]) happends
  | appends k chunk hfd hdirectory hfiles happends =>
      have hwritten : written (past ++ [(s, a)]) = written past ++ [(k, chunk)] := by
        rw [written_snoc, happends]
        rfl
      have hk : k = f := by
        have hout : s.outFd = mFd := by
          rw [LogSystem.outFd, hsettled.current.member, Option.getD_some]
        rw [hout] at hfd
        cases hfd.symm.trans hsettled.current.file
        rfl
      subst hk
      have hlength : s'.table.files.length = s.table.files.length := by
        rw [hfiles, Table.length_files_append]
      refine ⟨?_, ?_, g, hsettled', ?_⟩ <;> rw [hwritten]
      · refine List.pairwise_append.mpr ⟨h.sorted, List.pairwise_singleton _ _, ?_⟩
        rintro e he e' he'
        rw [List.mem_singleton.mp he']
        exact hlast e he
      · rw [List.forall_mem_append, List.forall_mem_singleton, hlength]
        exact ⟨h.lt, hsettled.wf.descriptors_lt hfd⟩
      · rw [List.forall_mem_append, List.forall_mem_singleton]
        exact ⟨fun e he => (hlast e he).trans hle, hle⟩

omit [DecidableEq Thread] in
/-- The logger has its first file name. -/
theorem settled_setFileName {table : Table String (List UInt8)} {t₀ : Int} {filename : String}
    (htable : ∀ fd, ¬ table.IsFile fd) (hwf : table.Wf) (hmFd : table.descriptors mFd = none)
    (hs : s = (LogSystem.start table t₀).setFileName filename mFd true) :
    Settled mFd s (table.target filename) := by
  have hquiet : ∀ t line b fd, s.logging t ≠ .dup2 line b fd := by
    rintro t line b fd ht
    rw [hs] at ht
    cases ht
  subst hs
  constructor
  case exact => exact exact_setFileName (exact_start rfl htable) hmFd true
  case numbered => exact ⟨fun _ _ => rfl, fun _ _ => rfl⟩
  case wf => exact hwf.openFile ..
  case current =>
    refine ⟨rfl, Function.update_self .., fun g hg => ?_,
      fun t line b fd ht => absurd ht (hquiet t line b fd),
      fun t _ line b fd _ _ _ ht => absurd ht (hquiet t line b fd)⟩
    have hself : (table.openFile filename mFd).directory filename = some (table.target filename) :=
      Table.directory_create_self
    cases hself.symm.trans hg
    exact le_rfl

/-- When rotations do not overlap and the file name stays, `m_fd` never goes back to an
older file, and the files in the order of their creation have the lines in the order in
which they were written, behind what was there before. -/
theorem lines_in_order {s₀ : LogSystem Thread} {table : Table String (List UInt8)} {t₀ : Int}
    {filename : String} (htable : ∀ fd, ¬ table.IsFile fd) (hwf : table.Wf)
    (hmFd : table.descriptors mFd = none)
    (hs₀ : s₀ = (LogSystem.start table t₀).setFileName filename mFd true)
    (hrun : Run (LoggerStep c) s₀ past s) (hseparate : Meets Separate past) :
    (past.map Prod.fst ++ [s]).Pairwise NotOlder ∧
      (written past).map Prod.snd = (List.range s.table.files.length).flatMap (writtenTo past) := by
  have hstart := settled_setFileName htable hwf hmFd hs₀
  constructor
  · refine hrun.pairwise_of_meets (fun s => ∃ f, Settled mFd s f) (fun _ _ _ => NotOlder.trans)
      ⟨_, hstart⟩ ?_ hseparate
    rintro s a s' ⟨f, hsettled⟩ hallowed hstep
    obtain ⟨g, hle, hsettled'⟩ := hsettled.step hstep hallowed
    exact ⟨⟨g, hsettled'⟩, f, g, hsettled.current.currentFile, hsettled'.current.currentFile, hle⟩
  · have hinorder : InOrder mFd past s := by
      induction hrun with
      | start => exact ⟨List.Pairwise.nil, List.forall_mem_nil _, _, hstart, List.forall_mem_nil _⟩
      | snoc _ hstep ih =>
          obtain ⟨hpast, hlast⟩ := meets_snoc.mp hseparate
          exact (ih hpast).step hstep hlast
    conv_lhs => rw [eq_flatMap_filter hinorder.sorted hinorder.lt]
    rw [List.map_flatMap]
    rfl

/-- A line, a rotation, and another line. -/
theorem exists_two_lines :
    ∃ past, ∃ s : LogSystem Nat, Run (LoggerStep twoMinutes)
        ((LogSystem.start emptyTable 50).setFileName "log" 3 true) past s ∧
      Meets Separate past ∧ written past = [(0, [91]), (1, [91, 32])] ∧
      s.table.files.length = 2 := by
  refine ⟨_, _, .snoc (.snoc (.snoc (.snoc (.snoc (.snoc (.snoc (.snoc (.snoc (.snoc (.snoc (.snoc
    (.snoc .start
    (.call 0 .info [] [] rfl rfl (by decide))) (.time 0 60 rfl)) (.load 0 rfl))
    (.write 0 1 rfl (by decide)))
    (.call 1 .info [] [] rfl rfl (by decide))) (.time 1 150 rfl)) (.load 1 rfl))
    (.exchange 1 rfl)) (.renamed 1 rfl rfl)) (.openFile 1 4 rfl rfl)) (.dup2 1 rfl rfl))
    (.spawn 1 true rfl)) (.write 1 2 rfl (by decide)), ?_, rfl, rfl⟩
  simp only [meets_snoc, meets_nil, Separate, and_true, true_and]
  -- the thread 1 is the first to open the file
  intro u line b fd hu
  by_cases hu1 : u = 1
  · subst hu1
    cases hu
  by_cases hu0 : u = 0
  · subst hu0
    cases hu
  have hidle : Logging.idle = .dup2 line b fd := by
    refine Eq.trans (Eq.symm ?_) hu
    repeat refine (Function.update_of_ne ‹_› ..).trans ?_
    rfl
  cases hidle

theorem lines_in_order_two :
    ∃ past, ∃ s : LogSystem Nat, Run (LoggerStep twoMinutes)
        ((LogSystem.start emptyTable 50).setFileName "log" 3 true) past s ∧
      (past.map Prod.fst ++ [s]).Pairwise NotOlder ∧
      [[91], [91, 32]] = (List.range 2).flatMap (writtenTo past) := by
  obtain ⟨past, s, hrun, hseparate, hwritten, hlength⟩ := exists_two_lines
  refine ⟨past, s, hrun, ?_⟩
  have horder := lines_in_order not_isFile_emptyTable wf_emptyTable rfl rfl hrun hseparate
  rwa [hwritten, hlength] at horder

end Sys
end Deps
