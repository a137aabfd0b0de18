import Deps.Sys.Logger
import Mathlib.Tactic

/-!
# One rotation in a period

A call of `maybeRotate` renames the log file when its exchange takes the place of
a time from another period.  As long as no exchange takes the place of a time
from a later period, every period has one such call at most.
-/

namespace Deps
namespace Sys

open Runs

variable {Thread : Type} {l : Logger} {t₀ : Int} {s s' : LogState Thread} {a : LogLabel Thread}
  {past : List (LogState Thread × LogLabel Thread)}

/-- The file operation, if the step is one, succeeds. -/
def FilesSucceed (_ : LogState Thread) : LogLabel Thread → Prop
  | .rename _ r => r = .renamed
  | .openFile _ opened => opened = true
  | .dup2 _ duplicated => duplicated = true
  | _ => True

/-- An exchange does not take the place of a time from a later period. -/
def Timely (l : Logger) (s : LogState Thread) : LogLabel Thread → Prop
  | .exchange t => ∀ now, s.rotating t = .exchange now → l.period s.realRotate ≤ l.period now
  | _ => True

/-- The period in which the thread read the clock which renames the file in this step. -/
def renames (l : Logger) : LogState Thread × LogLabel Thread → Option Int
  | (s, .rename t .renamed) =>
      match s.rotating t with
      | .rename now _ => some (l.period now)
      | _ => none
  | _ => none

/-- The periods for which the file was renamed. -/
def renamed (l : Logger) (past : List (LogState Thread × LogLabel Thread)) : List Int :=
  past.filterMap (renames l)

/-- The periods of `m_realRotate` in the states of a run. -/
def periods (l : Logger) (past : List (LogState Thread × LogLabel Thread))
    (s : LogState Thread) : List Int :=
  (past.map fun e => l.period e.1.realRotate) ++ [l.period s.realRotate]

/-- At most one call renames the file in each period but the initial one, and
`m_realRotate` does not move back to an earlier period. -/
structure RotatesOnce (l : Logger) (t₀ : Int) (past : List (LogState Thread × LogLabel Thread))
    (s : LogState Thread) : Prop where
  renamed : ∀ p, p ≠ l.period t₀ → (renamed l past).count p ≤ 1
  periods : (periods l past s).Pairwise (· ≤ ·)

/-- The invariant of runs whose exchanges are timely. -/
structure Rotated (l : Logger) (past : List (LogState Thread × LogLabel Thread))
    (s : LogState Thread) : Prop where
  periods : (periods l past s).Pairwise (· ≤ ·)
  nodup : (renamed l past).Nodup
  le : ∀ p ∈ renamed l past, p ≤ l.period s.realRotate
  /-- a thread which is about to rename the file is the only one for its period -/
  pending : ∀ t now b, s.rotating t = .rename now b →
    l.period now ≤ l.period s.realRotate ∧ l.period now ∉ renamed l past
  distinct : ∀ t t' now now' b b', s.rotating t = .rename now b →
    s.rotating t' = .rename now' b' → l.period now = l.period now' → t = t'
  restored : ∀ t b, s.rotating t ≠ .restore b

theorem periods_snoc :
    periods l (past ++ [(s, a)]) s' = periods l past s ++ [l.period s'.realRotate] := by
  simp [periods]

theorem pairwise_periods_snoc (h : (periods l past s).Pairwise (· ≤ ·))
    (hle : l.period s.realRotate ≤ l.period s'.realRotate) :
    (periods l (past ++ [(s, a)]) s').Pairwise (· ≤ ·) := by
  rw [periods_snoc, List.pairwise_append]
  refine ⟨h, List.pairwise_singleton _ _, fun p hp q hq => ?_⟩
  rw [List.mem_singleton.mp hq]
  refine le_trans ?_ hle
  -- the last state has the latest period
  rw [periods, List.pairwise_append] at h
  rcases List.mem_append.mp hp with hp | hp
  · exact h.2.2 p hp _ (List.mem_singleton.mpr rfl)
  · exact (List.mem_singleton.mp hp).le

theorem renamed_snoc :
    renamed l (past ++ [(s, a)]) = renamed l past ++ (renames l (s, a)).toList := by
  rw [renamed, List.filterMap_append]
  cases h : renames l (s, a) <;> simp [h, renamed]

variable [DecidableEq Thread]

/-- A step in which the file is not renamed and the thread `t` goes on to `r`, with a
later period if it is about to rename the file. -/
theorem Rotated.goOn (h : Rotated l past s) {t : Thread} {r : Rotating}
    (ha : renames l (s, a) = none) (hrotating : s'.rotating = Function.update s.rotating t r)
    (hle : l.period s.realRotate ≤ l.period s'.realRotate)
    (hrename : ∀ now b, r = .rename now b →
      l.period s.realRotate < l.period now ∧ l.period now ≤ l.period s'.realRotate)
    (hrestore : ∀ b, r ≠ .restore b) : Rotated l (past ++ [(s, a)]) s' := by
  have hself : s'.rotating t = r := by rw [hrotating, Function.update_self]
  have hother : ∀ {u}, u ≠ t → s'.rotating u = s.rotating u := fun hu => by
    rw [hrotating, Function.update_of_ne hu]
  have hrenamed : renamed l (past ++ [(s, a)]) = renamed l past := by
    rw [renamed_snoc, ha]
    exact List.append_nil _
  -- the threads which were about to rename the file before have earlier periods
  have hearlier : ∀ {u now b now' b'}, r = .rename now b → u ≠ t →
      s'.rotating u = .rename now' b' → l.period now' < l.period now := by
    intro u now b now' b' hr hu hrename'
    rw [hother hu] at hrename'
    exact (h.pending u now' b' hrename').1.trans_lt (hrename now b hr).1
  constructor
  case periods => exact pairwise_periods_snoc h.periods hle
  case nodup => exact hrenamed ▸ h.nodup
  case le =>
    rw [hrenamed]
    exact fun p hp => (h.le p hp).trans hle
  case pending =>
    rw [hrenamed]
    intro u now b hu
    by_cases hut : u = t
    · subst hut
      have hr := hself.symm.trans hu
      refine ⟨(hrename now b hr).2, fun hmem => ?_⟩
      exact absurd (h.le _ hmem) (not_le.mpr (hrename now b hr).1)
    · rw [hother hut] at hu
      exact ⟨(h.pending u now b hu).1.trans hle, (h.pending u now b hu).2⟩
  case distinct =>
    intro u u' now now' b b' hu hu' heq
    by_cases hut : u = t <;> by_cases hut' : u' = t
    · exact hut.trans hut'.symm
    · subst hut
      exact absurd heq.symm (hearlier (hself.symm.trans hu) hut' hu').ne
    · subst hut'
      exact absurd heq (hearlier (hself.symm.trans hu') hut hu).ne
    · rw [hother hut] at hu
      rw [hother hut'] at hu'
      exact h.distinct u u' now now' b b' hu hu' heq
  case restored =>
    intro u b hu
    by_cases hut : u = t
    · subst hut
      exact hrestore b (hself.symm.trans hu)
    · rw [hother hut] at hu
      exact h.restored u b hu

/-- The step in which the file is renamed. -/
theorem Rotated.rename (h : Rotated l past s) {t : Thread} {now b : Int}
    (ht : s.rotating t = .rename now b) :
    Rotated l (past ++ [(s, .rename t .renamed)]) (s.move t (.openFile b)) := by
  have hrenamed : renamed l (past ++ [(s, .rename t .renamed)]) =
      renamed l past ++ [l.period now] := by
    rw [renamed_snoc]
    simp only [renames, ht, Option.toList]
  obtain ⟨hle, hmem⟩ := h.pending t now b ht
  have hother : ∀ {u now' b'}, (s.move t (.openFile b)).rotating u = .rename now' b' →
      u ≠ t ∧ s.rotating u = .rename now' b' := by
    intro u now' b' hu
    have hut : u ≠ t := by
      rintro rfl
      rw [s.move_rotating_self] at hu
      cases hu
    exact ⟨hut, (s.move_rotating_of_ne hut _).symm.trans hu⟩
  constructor
  case periods => exact pairwise_periods_snoc h.periods le_rfl
  case nodup =>
    rw [hrenamed]
    exact List.nodup_append.mpr ⟨h.nodup, List.nodup_singleton _, fun p hp q hq => by
      rw [List.mem_singleton.mp hq]
      rintro rfl
      exact hmem hp⟩
  case le =>
    rw [hrenamed]
    intro p hp
    rcases List.mem_append.mp hp with hp | hp
    · exact h.le p hp
    · rw [List.mem_singleton.mp hp]
      exact hle
  case pending =>
    rw [hrenamed]
    intro u now' b' hu
    obtain ⟨hut, hu⟩ := hother hu
    refine ⟨(h.pending u now' b' hu).1, fun hmem' => ?_⟩
    rcases List.mem_append.mp hmem' with hmem' | hmem'
    · exact (h.pending u now' b' hu).2 hmem'
    · exact hut (h.distinct u t now' now b' b hu ht (List.mem_singleton.mp hmem'))
  case distinct =>
    intro u u' now' now'' b' b'' hu hu'
    exact h.distinct u u' now' now'' b' b'' (hother hu).2 (hother hu').2
  case restored =>
    intro u b' hu
    by_cases hut : u = t
    · subst hut
      rw [s.move_rotating_self] at hu
      cases hu
    · rw [s.move_rotating_of_ne hut] at hu
      exact h.restored u b' hu

theorem Rotated.step (h : Rotated l past s) (hstep : LogStep l s a s') (hfiles : FilesSucceed s a)
    (htimely : Timely l s a) : Rotated l (past ++ [(s, a)]) s' := by
  cases hstep with
  | time t now => exact h.goOn rfl rfl le_rfl nofun nofun
  | load t ht =>
      refine h.goOn rfl rfl le_rfl ?_ ?_ <;> rw [Logger.afterLoad] <;> split <;> nofun
  | exchange t ht =>
      have hle := htimely _ ht
      refine h.goOn rfl rfl hle ?_ ?_ <;> rw [Logger.afterExchange] <;> split
      · nofun
      · rename_i hperiod
        rintro now' b ⟨⟩
        exact ⟨lt_of_le_of_ne hle fun heq => hperiod (by rw [heq]; exact BEq.rfl), le_rfl⟩
      · nofun
      · nofun
  | rename t r ht =>
      cases hfiles
      exact h.rename ht
  | openFile t o ht =>
      cases hfiles
      exact h.goOn rfl rfl le_rfl nofun nofun
  | dup2 t d ht =>
      cases hfiles
      exact h.goOn rfl rfl le_rfl nofun nofun
  | restore t ht => exact absurd ht (h.restored t _)

omit [DecidableEq Thread] in
theorem rotated_start : Rotated l [] (.start t₀ : LogState Thread) where
  periods := List.pairwise_singleton _ _
  nodup := List.nodup_nil
  le := List.forall_mem_nil _
  pending _ _ _ h := nomatch h
  distinct _ _ _ _ _ _ h := nomatch h
  restored _ _ h := nomatch h

theorem rotated_of_run (hrun : Run (LogStep l) (.start t₀) past s)
    (hfiles : Meets FilesSucceed past) (htimely : Meets (Timely l) past) : Rotated l past s := by
  induction hrun with
  | start => exact rotated_start
  | snoc _ hstep ih =>
      obtain ⟨hfiles, hfile⟩ := meets_snoc.mp hfiles
      obtain ⟨htimely, htime⟩ := meets_snoc.mp htimely
      exact (ih hfiles htimely).step hstep hfile htime

/-- An exchange which is not timely moves `m_realRotate` back. -/
theorem timely_of_periods (hrun : Run (LogStep l) (.start t₀) past s)
    (hperiods : (periods l past s).Pairwise (· ≤ ·)) : Meets (Timely l) past := by
  induction hrun with
  | start => exact meets_nil
  | @snoc past s a s' _ hstep ih =>
      rw [periods_snoc, List.pairwise_append] at hperiods
      obtain ⟨hpast, -, hlast⟩ := hperiods
      refine meets_snoc.mpr ⟨ih hpast, ?_⟩
      have hle : l.period s.realRotate ≤ l.period s'.realRotate :=
        hlast _ (List.mem_append_right _ (List.mem_singleton.mpr rfl)) _
          (List.mem_singleton.mpr rfl)
      cases hstep with
      | exchange t ht =>
          intro now' ht'
          cases ht.symm.trans ht'
          exact hle
      | _ => trivial

/-- In every run in which the file operations succeed: the file is renamed once at
most in each period but the initial one and `m_realRotate` does not move back, if and
only if no exchange takes the place of a time from a later period. -/
theorem rotates_once_iff (hrun : Run (LogStep l) (.start t₀) past s)
    (hfiles : Meets FilesSucceed past) :
    RotatesOnce l t₀ past s ↔ Meets (Timely l) past := by
  refine ⟨fun h => timely_of_periods hrun h.periods, fun htimely => ?_⟩
  have hrotated := rotated_of_run hrun hfiles htimely
  exact ⟨fun p _ => List.nodup_iff_count_le_one.mp hrotated.nodup p, hrotated.periods⟩

/-- A period of 100 seconds. -/
def hundred : Logger where
  rotateInterval := 100
  rotateInterval_pos := by decide
  filename := "log"
  timezone := 0

/-- The thread 0 reads the clock just before the boundary at 100, and goes on after
the thread 1 has rotated. -/
theorem exists_late_exchange :
    ∃ past, ∃ s : LogState Nat, Run (LogStep hundred) (.start 50) past s ∧
      Meets FilesSucceed past ∧ renamed hundred past = [1, 0, 1] ∧
      periods hundred past s = [0, 0, 0, 0, 1, 1, 1, 1, 1, 0, 0, 0, 0, 0, 0, 1, 1] := by
  refine ⟨_, _, .snoc (.snoc (.snoc (.snoc (.snoc (.snoc (.snoc (.snoc (.snoc (.snoc (.snoc (.snoc
    (.snoc (.snoc (.snoc (.snoc .start
    (.time 0 99 rfl (by decide))) (.time 1 100 rfl (by decide)))
    (.load 1 rfl)) (.exchange 1 rfl)) (.rename 1 .renamed rfl)) (.openFile 1 true rfl))
    (.dup2 1 true rfl)) (.load 0 rfl)) (.exchange 0 rfl)) (.rename 0 .renamed rfl))
    (.openFile 0 true rfl)) (.dup2 0 true rfl)) (.time 2 101 rfl (by decide)))
    (.load 2 rfl)) (.exchange 2 rfl)) (.rename 2 .renamed rfl), ?_, rfl, rfl⟩
  simp only [meets_snoc, meets_nil, FilesSucceed, and_self]

/-- The period 1 has two rotations, and `m_realRotate` moves back. -/
theorem rotates_twice :
    ∃ past, ∃ s : LogState Nat, Run (LogStep hundred) (.start 50) past s ∧
      Meets FilesSucceed past ∧ (renamed hundred past).count 1 = 2 ∧
      ¬ (periods hundred past s).Pairwise (· ≤ ·) := by
  obtain ⟨past, s, hrun, hfiles, hrenamed, hperiods⟩ := exists_late_exchange
  refine ⟨past, s, hrun, hfiles, ?_, ?_⟩
  · rw [hrenamed]
    decide
  · rw [hperiods]
    decide

/-- The theorem for this run, which has an exchange that is not timely. -/
theorem rotates_once_iff_late_exchange :
    ∃ past, ∃ s : LogState Nat, Run (LogStep hundred) (.start 50) past s ∧
      ¬ Meets (Timely hundred) past := by
  obtain ⟨past, s, hrun, hfiles, hrenamed, -⟩ := exists_late_exchange
  refine ⟨past, s, hrun, fun htimely => ?_⟩
  have hcount := ((rotates_once_iff hrun hfiles).mpr htimely).renamed 1 (by decide)
  rw [hrenamed] at hcount
  exact absurd hcount (by decide)

end Sys
end Deps
