import Deps.Sys.LogLines
import Deps.Sys.Rotation

/-!
# The names of the backups

The rotation of `Deps.Sys.Logger` is what is seen of the logger when its files are
left out.  So what holds of the times of a rotation holds here too: where no period
has two rotations, the backups get different names, and none of them is replaced.
-/

namespace Deps
namespace Sys

open Runs Files

variable {Thread : Type} {c : LogConfig} {s₀ s s' : LogSystem Thread} {a : LogAction Thread}
  {past : List (LogSystem Thread × LogAction Thread)} {filename : String}

/-! ## The rotation alone -/

def Logging.project : Logging → Rotating
  | .idle | .entered _ | .spawn _ _ | .write _ => .idle
  | .rotating _ r => r
  | .dup2 _ b _ => .dup2 b
  -- the descriptor is closed on the way
  | .closeFd _ b _ => .restore b

def LogSystem.project (s : LogSystem Thread) : LogState Thread :=
  ⟨s.realRotate, s.clock, fun t => (s.logging t).project⟩

def LogAction.project : LogAction Thread → Option (LogLabel Thread)
  | .time t now => some (.time t now)
  | .load t => some (.load t)
  | .exchange t => some (.exchange t)
  | .rename t r => some (.rename t r)
  | .openFile t fd => some (.openFile t fd.isSome)
  | .dup2 t duplicated => some (.dup2 t duplicated)
  | .restore t => some (.restore t)
  | _ => none

def projectPast (past : List (LogSystem Thread × LogAction Thread)) :
    List (LogState Thread × LogLabel Thread) :=
  past.filterMap fun e => e.2.project.map (e.1.project, ·)

/-- The file name stays. -/
def KeepsName (_ : LogSystem Thread) : LogAction Thread → Prop
  | .setFileName _ (some _) _ => False
  | _ => True

/-- The clock is not set back. -/
def ClockForward (s : LogSystem Thread) : LogAction Thread → Prop
  | .time _ now => s.clock ≤ now
  | _ => True

@[simp] theorem projectPast_nil :
    projectPast ([] : List (LogSystem Thread × LogAction Thread)) = [] := rfl

theorem projectPast_snoc : projectPast (past ++ [(s, a)]) =
    projectPast past ++ (a.project.map (s.project, ·)).toList :=
  filterMap_snoc ..

@[simp] theorem Logging.project_rotate (line : List UInt8) (r : Rotating) :
    (Logging.rotate line r).project = r := by
  cases r <;> rfl

theorem Logging.project_afterOpen (line : List UInt8) (b : Int) (fd : Option Nat) :
    (Logging.afterOpen line b fd).project = Logger.afterOpen b fd.isSome := by
  cases fd <;> rfl

theorem Logging.project_afterDup2 (line : List UInt8) (b : Int) (fd : Nat) (duplicated : Bool) :
    (Logging.afterDup2 line b fd duplicated).project = Logger.afterDup2 b duplicated := by
  cases duplicated <;> rfl

variable [DecidableEq Thread]

theorem LogSystem.project_move (s : LogSystem Thread) (t : Thread) (p : Logging) :
    (s.move t p).project = s.project.move t p.project := by
  rw [project, LogState.move, LogState.mk.injEq]
  refine ⟨rfl, rfl, ?_⟩
  funext u
  by_cases hut : u = t
  · subst hut
    rw [move_logging_self, Function.update_self]
  · rw [s.move_logging_of_ne hut, Function.update_of_ne hut]
    rfl

/-- A thread which moves on outside of the rotation. -/
theorem LogSystem.project_move_eq (s : LogSystem Thread) {t : Thread} {p : Logging}
    (hp : p.project = (s.logging t).project) : (s.move t p).project = s.project := by
  rw [project_move, hp, LogState.move, project, LogState.mk.injEq]
  exact ⟨rfl, rfl, Function.update_eq_self ..⟩

/-- A step is a step of the rotation, or none at all. -/
theorem project_step (hstep : LoggerStep c s a s') (hname : KeepsName s a)
    (hclock : ClockForward s a) :
    s'.filename = s.filename ∧
      match a.project with
      | none => s'.project = s.project
      | some l => LogStep (c.logger s.filename) s.project l s'.project := by
  have hrotating : ∀ {t p}, s.logging t = p → s.project.rotating t = p.project := by
    rintro t p rfl
    rfl
  cases hstep with
  | above | setFileNameFails | setLogLevel | setLogLevelName | expire | openOther | closeOther =>
      exact ⟨rfl, rfl⟩
  | setFileName => exact hname.elim
  | destroy =>
      rw [LogSystem.destroy]
      split <;> exact ⟨rfl, rfl⟩
  | call t _ _ _ ht => exact ⟨rfl, s.project_move_eq (by rw [ht]; rfl)⟩
  | spawn t created ht =>
      cases created <;> exact ⟨rfl, LogSystem.project_move_eq _ (by
        show _ = (s.logging t).project
        rw [ht]
        rfl)⟩
  | closeFd t ht =>
      exact ⟨rfl, LogSystem.project_move_eq _ (by
        show _ = (s.logging t).project
        rw [ht]
        rfl)⟩
  | write t n ht =>
      exact ⟨rfl, LogSystem.project_move_eq _ (by
        show _ = (s.logging t).project
        rw [ht]
        rfl)⟩
  | writeFails t ht => exact ⟨rfl, s.project_move_eq (by rw [ht]; rfl)⟩
  | time t now ht =>
      refine ⟨rfl, ?_⟩
      rw [LogAction.project, LogSystem.project_move]
      exact .time t now (hrotating ht) hclock
  | load t ht =>
      refine ⟨rfl, ?_⟩
      rw [LogAction.project, LogSystem.project_move, Logging.project_rotate]
      exact .load t (hrotating ht)
  | exchange t ht =>
      refine ⟨rfl, ?_⟩
      rw [LogAction.project, LogSystem.project_move, Logging.project_rotate]
      exact .exchange t (hrotating ht)
  | renamed t ht hname =>
      refine ⟨rfl, ?_⟩
      rw [LogAction.project, LogSystem.project_move, Logging.project_rotate]
      exact .rename t .renamed (hrotating ht)
  | enoent t ht =>
      refine ⟨rfl, ?_⟩
      rw [LogAction.project, LogSystem.project_move, Logging.project_rotate]
      exact .rename t .enoent (hrotating ht)
  | renameFails t ht =>
      refine ⟨rfl, ?_⟩
      rw [LogAction.project, LogSystem.project_move, Logging.project_rotate]
      exact .rename t .failed (hrotating ht)
  | openFile t fd ht hfd =>
      refine ⟨rfl, ?_⟩
      rw [LogAction.project, LogSystem.project_move, Logging.project_afterOpen]
      exact .openFile t true (hrotating ht)
  | openFails t ht =>
      refine ⟨rfl, ?_⟩
      rw [LogAction.project, LogSystem.project_move, Logging.project_afterOpen]
      exact .openFile t false (hrotating ht)
  | dup2 t ht hmFd =>
      refine ⟨rfl, ?_⟩
      rw [LogAction.project, LogSystem.project_move, Logging.project_afterDup2]
      exact .dup2 t true (hrotating ht)
  | dup2Fails t ht =>
      refine ⟨rfl, ?_⟩
      rw [LogAction.project, LogSystem.project_move, Logging.project_afterDup2]
      exact .dup2 t false (hrotating ht)
  | restore t ht =>
      refine ⟨rfl, ?_⟩
      rw [LogAction.project, LogSystem.project_move]
      exact .restore t (hrotating ht)

/-- What is seen of a run of the logger is a run of the rotation. -/
theorem project_run (hfilename : s₀.filename = filename) (hrun : Run (LoggerStep c) s₀ past s)
    (hname : Meets KeepsName past) (hclock : Meets ClockForward past) :
    s.filename = filename ∧
      Run (LogStep (c.logger filename)) s₀.project (projectPast past) s.project := by
  induction hrun with
  | start => exact ⟨hfilename, .start⟩
  | @snoc past s a s' _ hstep ih =>
      obtain ⟨hname, hlast⟩ := meets_snoc.mp hname
      obtain ⟨hclock, hnow⟩ := meets_snoc.mp hclock
      obtain ⟨hs, hrun⟩ := ih hname hclock
      obtain ⟨hs', hstep'⟩ := project_step hstep hlast hnow
      refine ⟨hs'.trans hs, ?_⟩
      rw [projectPast_snoc]
      cases ha : a.project with
      | none =>
          rw [ha] at hstep'
          simpa [show s'.project = s.project from hstep'] using hrun
      | some l =>
          rw [ha] at hstep'
          rw [← hs]
          exact .snoc (hs ▸ hrun) hstep'

/-! ## The names -/

omit [DecidableEq Thread] in
/-- The time for which the log file gets a new name in this step. -/
def renameTime : LogSystem Thread × LogAction Thread → Option Int
  | (s, .rename t .renamed) =>
      match s.logging t with
      | .rotating _ (.rename now _) => some now
      | _ => none
  | _ => none

def renameTimes (past : List (LogSystem Thread × LogAction Thread)) : List Int :=
  past.filterMap renameTime

theorem twoDigits_injective {m n : Nat} (hm : m < 100) (hn : n < 100)
    (h : twoDigits m = twoDigits n) : m = n := by
  have hdigits : ∀ k : Fin 100,
      twoDigits k = [(k / 10 : Nat).digitChar, (k % 10 : Nat).digitChar] := by
    decide +kernel
  have hchar : ∀ i j : Fin 10, Nat.digitChar i = Nat.digitChar j → i = j := by decide
  have hm' := hdigits ⟨m, hm⟩
  have hn' := hdigits ⟨n, hn⟩
  dsimp only at hm' hn'
  rw [hm', hn', List.cons.injEq, List.cons.injEq] at h
  have htens := hchar ⟨m / 10, by omega⟩ ⟨n / 10, by omega⟩ h.1
  have hones := hchar ⟨m % 10, by omega⟩ ⟨n % 10, by omega⟩ h.2.1
  rw [Fin.mk.injEq] at htens hones
  omega

theorem length_twoDigits {n : Nat} (hn : n < 100) : (twoDigits n).length = 2 := by
  have hlength : ∀ k : Fin 100, (twoDigits k).length = 2 := by decide +kernel
  exact hlength ⟨n, hn⟩

/-- A field of two digits, and what follows it. -/
theorem twoDigits_append_inj {m n : Nat} (hm : m < 100) (hn : n < 100) {rest rest' : List Char}
    (h : twoDigits m ++ '_' :: rest = twoDigits n ++ '_' :: rest') : m = n ∧ rest = rest' := by
  have hlength : (twoDigits m).length = (twoDigits n).length := by
    rw [length_twoDigits hm, length_twoDigits hn]
  obtain ⟨hdigits, hrest⟩ := List.append_inj h hlength
  exact ⟨twoDigits_injective hm hn hdigits, (List.cons.inj hrest).2⟩

theorem Tm.length_stamp (ntm : Tm) :
    ntm.stamp.length = (ntm.year + 1900).repr.toList.length + 15 := by
  obtain ⟨year, mon, mday, hour, min, sec⟩ := ntm
  simp only [Tm.stamp, List.length_append, List.length_cons,
    length_twoDigits (show mon.val + 1 < 100 by omega),
    length_twoDigits (show mday.val < 100 by omega),
    length_twoDigits (show hour.val < 100 by omega), length_twoDigits (show min.val < 100 by omega),
    length_twoDigits (show sec.val < 100 by omega)]

/-- Different times have different stamps. -/
theorem Tm.stamp_injective {a b : Tm} (h : a.stamp = b.stamp) : a = b := by
  obtain ⟨year, mon, mday, hour, min, sec⟩ := a
  obtain ⟨year', mon', mday', hour', min', sec'⟩ := b
  have hsec : ∀ k : Fin 61, k.val < 100 := fun k => k.isLt.trans (by decide)
  have hmin : ∀ k : Fin 60, k.val < 100 := fun k => k.isLt.trans (by decide)
  have hhour : ∀ k : Fin 24, k.val < 100 := fun k => k.isLt.trans (by decide)
  have hmday : ∀ k : Fin 32, k.val < 100 := fun k => k.isLt.trans (by decide)
  have hmon : ∀ k : Fin 12, k.val + 1 < 100 := fun k => by omega
  -- behind the year both have the same length
  obtain ⟨hyear, hrest⟩ := List.append_inj' h (by
    simp [length_twoDigits, hsec, hmin, hhour, hmday, hmon])
  obtain ⟨hmonth, hrest⟩ := twoDigits_append_inj (hmon _) (hmon _) (List.cons.inj hrest).2
  obtain ⟨hday, hrest⟩ := twoDigits_append_inj (hmday _) (hmday _) hrest
  obtain ⟨hhours, hrest⟩ := twoDigits_append_inj (hhour _) (hhour _) hrest
  obtain ⟨hminutes, hrest⟩ := twoDigits_append_inj (hmin _) (hmin _) hrest
  have hseconds := twoDigits_injective (hsec _) (hsec _) hrest
  rw [Nat.toList_repr, Nat.toList_repr] at hyear
  have hyears := congrArg (Nat.ofDigitChars 10 · 0) hyear
  dsimp only at hyears
  rw [Nat.ofDigitChars_ten_toDigits, Nat.ofDigitChars_ten_toDigits] at hyears
  rw [Tm.mk.injEq]
  exact ⟨Nat.add_right_cancel hyears, Fin.ext (Nat.add_right_cancel hmonth), Fin.ext hday,
    Fin.ext hhours, Fin.ext hminutes, Fin.ext hseconds⟩

section

variable {filename : String} {now now' : Int}

/-- The whole name fits into `newname`. -/
def LogConfig.Fits (c : LogConfig) (filename : String) (now : Int) : Prop :=
  (filename.toList ++ '.' :: (c.localtime now).stamp).length < 4096

theorem LogConfig.toList_newname (h : c.Fits filename now) :
    (c.newname filename now).toList = filename.toList ++ '.' :: (c.localtime now).stamp := by
  rw [newname, String.toList_ofList, List.take_of_length_le (Nat.le_of_lt_succ h)]

theorem LogConfig.newname_ne (h : c.Fits filename now) : filename ≠ c.newname filename now := by
  intro heq
  have htoList := c.toList_newname h
  rw [← heq] at htoList
  have hlength := congrArg List.length htoList
  simp at hlength

theorem LogConfig.localtime_eq_of_newname (h : c.Fits filename now) (h' : c.Fits filename now')
    (heq : c.newname filename now = c.newname filename now') :
    c.localtime now = c.localtime now' := by
  have htoList := congrArg String.toList heq
  rw [c.toList_newname h, c.toList_newname h'] at htoList
  exact Tm.stamp_injective (List.cons.inj (List.append_cancel_left htoList)).2

end

/-! ## The times -/

/-- The time with which a rotation goes on. -/
def Rotating.now : Rotating → Option Int
  | .load now | .exchange now | .rename now _ => some now
  | _ => none

/-- The rotations have read the clock after `t₀`. -/
structure Recent (t₀ : Int) (s : LogState Thread) : Prop where
  clock : t₀ ≤ s.clock
  rotating : ∀ t now, (s.rotating t).now = some now → t₀ ≤ now

theorem Recent.step {l : Logger} {t₀ : Int} {s s' : LogState Thread} {a : LogLabel Thread}
    (h : Recent t₀ s) (hstep : LogStep l s a s') : Recent t₀ s' := by
  -- a thread goes on with the time which it had, or with none
  have hmove : ∀ {s₁ : LogState Thread} {t : Thread} {r : Rotating}, t₀ ≤ s₁.clock →
      s₁.rotating = s.rotating → (∀ now, r.now = some now → t₀ ≤ now) →
      Recent t₀ (s₁.move t r) := by
    intro s₁ t r hclock hrotating hr
    refine ⟨hclock, fun u now hu => ?_⟩
    by_cases hut : u = t
    · subst hut
      rw [s₁.move_rotating_self] at hu
      exact hr now hu
    · rw [s₁.move_rotating_of_ne hut, hrotating] at hu
      exact h.rotating u now hu
  have hnow : ∀ {t r now}, s.rotating t = r → r.now = some now → t₀ ≤ now := by
    rintro t r now rfl hr
    exact h.rotating t now hr
  cases hstep with
  | time t now ht hle =>
      refine hmove (h.clock.trans hle) rfl fun now' hnow' => ?_
      cases hnow'
      exact h.clock.trans hle
  | load t ht =>
      refine hmove h.clock rfl fun now' hnow' => ?_
      rw [Logger.afterLoad] at hnow'
      split at hnow' <;> cases hnow'
      exact hnow ht rfl
  | exchange t ht =>
      refine hmove h.clock rfl fun now' hnow' => ?_
      rw [Logger.afterExchange] at hnow'
      split at hnow' <;> cases hnow'
      exact hnow ht rfl
  | rename t r ht => exact hmove h.clock rfl fun now' hnow' => by cases r <;> cases hnow'
  | openFile t o ht => exact hmove h.clock rfl fun now' hnow' => by cases o <;> cases hnow'
  | dup2 t d ht => exact hmove h.clock rfl fun now' hnow' => by cases d <;> cases hnow'
  | restore t ht => exact hmove h.clock rfl fun now' hnow' => by cases hnow'

omit [DecidableEq Thread] in
/-- The periods of the renamings, as the rotation alone sees them. -/
theorem renamed_projectPast (l : Logger) :
    renamed l (projectPast past) = (renameTimes past).map l.period := by
  rw [renamed, projectPast, renameTimes, List.filterMap_filterMap, List.map_filterMap]
  refine List.filterMap_congr fun e _ => ?_
  obtain ⟨s, a⟩ := e
  cases a with
  | rename t r =>
      cases r with
      | renamed =>
          show renames l (s.project, .rename t .renamed) = _
          simp only [renames, renameTime, LogSystem.project]
          cases hlogging : s.logging t with
          | rotating line r => cases r <;> simp [Logging.project]
          | _ => simp [Logging.project]
      | enoent | failed => rfl
  | _ => rfl

/-- Every name is the file name, was there before, or belongs to a backup. -/
def NamesKnown (c : LogConfig) (filename : String) (table : Table String (List UInt8))
    (past : List (LogSystem Thread × LogAction Thread)) (s : LogSystem Thread) : Prop :=
  ∀ name, (s.table.directory name).isSome → name = filename ∨ (table.directory name).isSome ∨
    ∃ now ∈ renameTimes past, name = c.newname filename now

omit [DecidableEq Thread] in
theorem mem_renameTimes_snoc {now : Int} : now ∈ renameTimes (past ++ [(s, a)]) ↔
    now ∈ renameTimes past ∨ renameTime (s, a) = some now := by
  rw [renameTimes, filterMap_snoc, List.mem_append, Option.mem_toList]
  exact Iff.rfl

theorem NamesKnown.step {table : Table String (List UInt8)}
    (h : NamesKnown c filename table past s) (hfilename : s.filename = filename)
    (hstep : LoggerStep c s a s') (hname : KeepsName s a) :
    NamesKnown c filename table (past ++ [(s, a)]) s' := by
  have hbefore : ∀ {name}, (s.table.directory name).isSome → name = filename ∨
      (table.directory name).isSome ∨
        ∃ now ∈ renameTimes (past ++ [(s, a)]), name = c.newname filename now := by
    intro name hsome
    rcases h name hsome with hname | htable | ⟨now, hnow, hname⟩
    · exact .inl hname
    · exact .inr (.inl htable)
    · exact .inr (.inr ⟨now, mem_renameTimes_snoc.mpr (.inl hnow), hname⟩)
  -- most steps leave the directory alone
  have hkeep : s'.table.directory = s.table.directory →
      NamesKnown c filename table (past ++ [(s, a)]) s' := by
    intro hdirectory name hsome
    rw [hdirectory] at hsome
    exact hbefore hsome
  cases hstep with
  | @renamed line now b t ht hold =>
      intro name hsome
      by_cases hnew : name = c.newname s.filename now
      · refine .inr (.inr ⟨now, mem_renameTimes_snoc.mpr (.inr ?_), hfilename ▸ hnew⟩)
        simp only [renameTime, ht]
      by_cases hname : name = s.filename
      · exact .inl (hname.trans hfilename)
      · have hother := Table.directory_rename_of_ne (k := s.table) hname hnew
        exact hbefore (hother ▸ hsome)
  | openFile =>
      intro name hsome
      by_cases hname : name = s.filename
      · exact .inl (hname.trans hfilename)
      · have hother := Table.directory_create_of_ne (k := s.table) hname
        exact hbefore (hother ▸ hsome)
  | setFileName => exact hname.elim
  | write => exact hkeep Table.directory_append
  | spawn t created => cases created <;> exact hkeep rfl
  | destroy =>
      apply hkeep
      rw [LogSystem.destroy]
      split <;> rfl
  | _ => exact hkeep rfl

omit [DecidableEq Thread] in
/-- The name of a backup is not taken when the log file gets it. -/
theorem directory_newname_eq_none {table : Table String (List UInt8)} {t₀ now b : Int} {t : Thread}
    {line : List UInt8} (hnames : NamesKnown c filename table past s)
    (hrotated : Rotated (c.logger filename) (projectPast past) s.project)
    (hrecent : Recent t₀ s.project) (ht : s.logging t = .rotating line (.rename now b))
    (hfree : ∀ now, t₀ ≤ now → table.directory (c.newname filename now) = none)
    (hfits : ∀ now, c.Fits filename now)
    (hlocal : ∀ now' ∈ renameTimes past, c.localtime now = c.localtime now' → now = now') :
    s.table.directory (c.newname filename now) = none := by
  have hrotating : s.project.rotating t = .rename now b := by
    show (s.logging t).project = _
    rw [ht]
    rfl
  by_contra hsome
  rcases hnames _ (Option.isSome_iff_ne_none.mpr hsome) with heq | hbefore | ⟨now', hnow', heq⟩
  · exact LogConfig.newname_ne (hfits now) heq.symm
  · have hnow : t₀ ≤ now := hrecent.rotating t now (by rw [hrotating]; rfl)
    rw [hfree now hnow] at hbefore
    cases hbefore
  -- an earlier backup, for the same time and so for the same period
  · obtain rfl := hlocal now' hnow' (LogConfig.localtime_eq_of_newname (hfits now) (hfits now') heq)
    refine (hrotated.pending t now b hrotating).2 ?_
    rw [renamed_projectPast]
    exact List.mem_map_of_mem hnow'

/-- Where no period has two rotations and no two rotations have the same local time, no
backup is replaced, if there was no file with the name of a backup before. -/
theorem backups_kept {table : Table String (List UInt8)} {t₀ : Int} {mFd : Nat}
    (hs₀ : s₀ = (LogSystem.start table t₀).setFileName filename mFd true)
    (hfree : ∀ now, t₀ ≤ now → table.directory (c.newname filename now) = none)
    (hfits : ∀ now, c.Fits filename now) (hrun : Run (LoggerStep c) s₀ past s)
    (hname : Meets KeepsName past) (hclock : Meets ClockForward past)
    (hfiles : Meets FilesSucceed (projectPast past))
    (htimely : Meets (Timely (c.logger filename)) (projectPast past))
    (hlocal : ∀ now ∈ renameTimes past, ∀ now' ∈ renameTimes past,
      c.localtime now = c.localtime now' → now = now') : replacedFiles c past = [] := by
  have hfilename : s₀.filename = filename := by
    rw [hs₀]
    rfl
  have hproject₀ : s₀.project = .start t₀ := by
    rw [hs₀]
    rfl
  -- the names on the way
  have hnames : ∀ {past s}, Run (LoggerStep c) s₀ past s → Meets KeepsName past →
      Meets ClockForward past → NamesKnown c filename table past s := by
    intro past s hrun hname hclock
    induction hrun with
    | start =>
        intro name hsome
        rw [hs₀] at hsome
        by_cases heq : name = filename
        · exact .inl heq
        · have hother := Table.directory_create_of_ne (k := table) heq
          exact .inr (.inl (hother ▸ hsome))
    | snoc hrun hstep ih =>
        obtain ⟨hpast, hlast⟩ := meets_snoc.mp hname
        have hforward := hclock.of_append
        exact (ih hpast hforward).step (project_run hfilename hrun hpast hforward).1 hstep hlast
  induction hrun with
  | start => rfl
  | @snoc past s a s' hrun hstep ih =>
      have hpast := hname.of_append
      have hforward := hclock.of_append
      rw [projectPast_snoc] at hfiles htimely
      have hkept := ih hpast hforward hfiles.of_append htimely.of_append
        fun now hnow now' hnow' => hlocal now (mem_renameTimes_snoc.mpr (.inl hnow)) now'
          (mem_renameTimes_snoc.mpr (.inl hnow'))
      suffices hreplaces : replaces c (s, a) = none by
        rw [replacedFiles, filterMap_snoc, ← replacedFiles, hkept, hreplaces]
        rfl
      obtain ⟨hs, hproject⟩ := project_run hfilename hrun hpast hforward
      rw [hproject₀] at hproject
      cases hstep with
      | @renamed line now b t ht hold =>
          have hrotated := rotated_of_run hproject hfiles.of_append htimely.of_append
          have hrecent : Recent t₀ s.project :=
            hproject.inv ⟨le_rfl, fun _ _ h => by cases h⟩ fun _ _ _ h hstep => h.step hstep
          have hnone := directory_newname_eq_none (hnames hrun hpast hforward) hrotated hrecent ht
            hfree hfits fun now' hnow' => hlocal now
              (mem_renameTimes_snoc.mpr (.inr (by simp only [renameTime, ht]))) now'
              (mem_renameTimes_snoc.mpr (.inl hnow'))
          simp only [replaces, ht, hs, Table.replaced, hnone, ite_self]
      | _ => rfl

/-- Two rotations of a file name which fits. -/
theorem exists_backups :
    ∃ past, ∃ s : LogSystem Nat, Run (LoggerStep twoMinutes)
        ((LogSystem.start emptyTable 50).setFileName "log" 3 true) past s ∧
      Meets KeepsName past ∧ Meets ClockForward past ∧ Meets FilesSucceed (projectPast past) ∧
      Meets (Timely (twoMinutes.logger "log")) (projectPast past) ∧
      renameTimes past = [150, 280] := by
  refine ⟨_, _, .snoc (.snoc (.snoc (.snoc (.snoc (.snoc (.snoc (.snoc (.snoc
    (.snoc (.snoc (.snoc (.snoc (.snoc (.snoc (.snoc (.snoc (.snoc .start
    (.call 1 .info [] [] rfl rfl (by decide))) (.time 1 150 rfl)) (.load 1 rfl))
    (.exchange 1 rfl)) (.renamed 1 rfl rfl)) (.openFile 1 4 rfl rfl)) (.dup2 1 rfl rfl))
    (.spawn 1 true rfl)) (.write 1 2 rfl (by decide)))
    (.call 2 .info [] [] rfl rfl (by decide))) (.time 2 280 rfl)) (.load 2 rfl))
    (.exchange 2 rfl)) (.renamed 2 rfl rfl)) (.openFile 2 5 rfl rfl)) (.dup2 2 rfl rfl))
    (.spawn 2 true rfl)) (.write 2 2 rfl (by decide)), ?_, ?_, ?_, ?_, rfl⟩
  · simp only [meets_snoc, meets_nil, KeepsName, and_self]
  · simp only [meets_snoc, meets_nil, ClockForward, and_true, true_and]
    exact ⟨(by decide : (50 : Int) ≤ 150), (by decide : (150 : Int) ≤ 280)⟩
  · simp only [projectPast_snoc, LogAction.project, Option.map_some, Option.map_none,
      Option.toList_some, Option.toList_none, List.append_nil, projectPast_nil, meets_snoc,
      meets_nil, FilesSucceed, Option.isSome_some, and_self]
  · simp only [projectPast_snoc, LogAction.project, Option.map_some, Option.map_none,
      Option.toList_some, Option.toList_none, List.append_nil, projectPast_nil, meets_snoc,
      meets_nil, Timely, and_true, true_and]
    constructor
    · rintro now hnow
      cases hnow
      decide
    · rintro now hnow
      cases hnow
      decide

theorem backups_kept_two :
    ∃ past, ∃ s : LogSystem Nat, Run (LoggerStep twoMinutes)
        ((LogSystem.start emptyTable 50).setFileName "log" 3 true) past s ∧
      renameTimes past = [150, 280] ∧ replacedFiles twoMinutes past = [] := by
  obtain ⟨past, s, hrun, hname, hclock, hfiles, htimely, htimes⟩ := exists_backups
  refine ⟨past, s, hrun, htimes, backups_kept rfl (fun _ _ => rfl) (fun now => ?_) hrun hname hclock
    hfiles htimely ?_⟩
  · have hyear : (twoMinutes.localtime now).year = 70 := rfl
    rw [LogConfig.Fits, List.length_append, List.length_cons, Tm.length_stamp, hyear]
    decide
  · rw [htimes]
    decide

end Sys
end Deps
