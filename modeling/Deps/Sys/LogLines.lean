import Deps.Sys.LogFiles

/-!
# Where the lines are

What `write` has taken is in the file which `m_fd` stood for, behind what was
written to that file before, and the file goes on to have a name: the log file or
one of its backups.  The only lines which are lost are those in a file whose name
was taken by a later backup.
-/

namespace Deps
namespace Sys

open Runs Files

variable {Thread : Type} {c : LogConfig} {s₀ s s' : LogSystem Thread} {a : LogAction Thread}
  {past : List (LogSystem Thread × LogAction Thread)}

/-- The bytes of a line which the step appends to a file. -/
def appends : LogSystem Thread × LogAction Thread → Option (Nat × List UInt8)
  | (s, .write t (some n)) =>
      match s.logging t, s.table.descriptors s.outFd with
      | .write line, some (.file f) => some (f, line.take n)
      | _, _ => none
  | _ => none

/-- What has been written, and to which file. -/
def written (past : List (LogSystem Thread × LogAction Thread)) : List (Nat × List UInt8) :=
  past.filterMap appends

/-- What has been written to the file `f`. -/
def writtenTo (past : List (LogSystem Thread × LogAction Thread)) (f : Nat) : List (List UInt8) :=
  ((written past).filter (·.1 = f)).map Prod.snd

/-- The backup whose name the step gives to the log file. -/
def replaces (c : LogConfig) : LogSystem Thread × LogAction Thread → Option Nat
  | (s, .rename t .renamed) =>
      match s.logging t with
      | .rotating _ (.rename now _) => s.table.replaced s.filename (c.newname s.filename now)
      | _ => none
  | _ => none

/-- The backups which have lost their name to a later one. -/
def replacedFiles (c : LogConfig) (past : List (LogSystem Thread × LogAction Thread)) : List Nat :=
  past.filterMap (replaces c)

theorem written_snoc : written (past ++ [(s, a)]) = written past ++ (appends (s, a)).toList :=
  filterMap_snoc ..

theorem writtenTo_snoc (f : Nat) : writtenTo (past ++ [(s, a)]) f =
    writtenTo past f ++ ((appends (s, a)).toList.filter (·.1 = f)).map Prod.snd := by
  rw [writtenTo, written_snoc, List.filter_append, List.map_append]
  rfl

theorem mem_replacedFiles_snoc {f : Nat} : f ∈ replacedFiles c (past ++ [(s, a)]) ↔
    f ∈ replacedFiles c past ∨ replaces c (s, a) = some f := by
  simp only [replacedFiles, List.filterMap_append, List.mem_append, List.mem_filterMap,
    List.mem_singleton, exists_eq_left]

/-- What a step does to names and files: nothing, or one of the three operations. -/
inductive Touches (c : LogConfig) (s : LogSystem Thread) (a : LogAction Thread)
    (s' : LogSystem Thread) : Prop
  | nothing (hdirectory : s'.table.directory = s.table.directory)
      (hfiles : s'.table.files = s.table.files) (happends : appends (s, a) = none)
      (hreplaces : replaces c (s, a) = none)
  | creates (name : String) (hdirectory : s'.table.directory = (s.table.create name).directory)
      (hfiles : s'.table.files = (s.table.create name).files) (happends : appends (s, a) = none)
      (hreplaces : replaces c (s, a) = none)
  | renames (new : String) (hold : (s.table.directory s.filename).isSome)
      (hdirectory : s'.table.directory = (s.table.rename s.filename new).directory)
      (hfiles : s'.table.files = s.table.files) (happends : appends (s, a) = none)
      (hreplaces : replaces c (s, a) = s.table.replaced s.filename new)
  | appends (f : Nat) (chunk : List UInt8) (hfd : s.table.descriptors s.outFd = some (.file f))
      (hdirectory : s'.table.directory = s.table.directory)
      (hfiles : s'.table.files = (s.table.append s.outFd chunk).files)
      (happends : appends (s, a) = some (f, chunk)) (hreplaces : replaces c (s, a) = none)

variable [DecidableEq Thread]

theorem touches_of_step (hstep : LoggerStep c s a s') : Touches c s a s' := by
  cases hstep with
  | renamed t ht hname =>
      exact .renames _ hname rfl Table.files_rename rfl (by simp only [replaces, ht])
  | openFile => exact .creates s.filename rfl rfl rfl rfl
  | @write line t n ht hn =>
      by_cases hfile : ∃ f, s.table.descriptors s.outFd = some (.file f)
      · obtain ⟨f, hf⟩ := hfile
        exact .appends f (line.take n) hf Table.directory_append rfl
          (by simp only [Sys.appends, ht, hf]) rfl
      -- somebody else's descriptor, or none
      · have hne : ∀ f, s.table.descriptors s.outFd ≠ some (.file f) := not_exists.mp hfile
        refine .nothing Table.directory_append ?_ ?_ rfl
        · exact congrArg Table.files (Table.append_of_ne_file hne)
        · simp only [Sys.appends, ht]
          split
          · next hf => exact absurd hf (hne _)
          · rfl
  | setFileName filename fd duplicated =>
      rw [LogSystem.setFileName]
      split
      · exact .creates filename rfl rfl rfl rfl
      · cases duplicated <;> exact .creates filename rfl rfl rfl rfl
  | spawn t created => cases created <;> exact .nothing rfl rfl rfl rfl
  | destroy =>
      rw [LogSystem.destroy]
      split <;> exact .nothing rfl rfl rfl rfl
  | _ => exact .nothing rfl rfl rfl rfl

theorem wf_step (hwf : s.table.Wf) (hstep : LoggerStep c s a s') : s'.table.Wf := by
  cases hstep with
  | renamed => exact hwf.rename ..
  | openFile => exact hwf.openFile ..
  | dup2 => exact hwf.dup2 ..
  | closeFd | expire | closeOther => exact hwf.close _
  | write => exact hwf.append ..
  | openOther => exact hwf.openOther _
  | setFileName filename fd duplicated =>
      rw [LogSystem.setFileName]
      split
      · exact hwf.openFile ..
      · refine Table.Wf.close ?_ _
        split
        · exact (hwf.openFile ..).dup2 ..
        · exact hwf.openFile ..
  | spawn t created => cases created <;> exact hwf
  | destroy =>
      rw [LogSystem.destroy]
      split
      · exact hwf
      · exact hwf.close _
  | _ => exact hwf

/-- The lines which were written since `s₀`. -/
structure Conserved (c : LogConfig) (s₀ : LogSystem Thread)
    (past : List (LogSystem Thread × LogAction Thread)) (s : LogSystem Thread) : Prop where
  /-- no file has two names -/
  wf : s.table.Wf
  /-- every file has what was written to it, in this order, and nothing else -/
  content : ∀ f, s.table.content f = s₀.table.content f ++ writtenTo past f
  /-- the replaced backups, and only they, have no name any more -/
  named : ∀ f, f < s.table.files.length → (s.table.Named f ↔ f ∉ replacedFiles c past)
  replaced_lt : ∀ f ∈ replacedFiles c past, f < s.table.files.length

theorem Conserved.step (h : Conserved c s₀ past s) (hstep : LoggerStep c s a s') :
    Conserved c s₀ (past ++ [(s, a)]) s' := by
  have hwf := wf_step h.wf hstep
  have hsnoc : ∀ {f}, replaces c (s, a) = none →
      (f ∈ replacedFiles c (past ++ [(s, a)]) ↔ f ∈ replacedFiles c past) := by
    intro f hreplaces
    rw [mem_replacedFiles_snoc, hreplaces]
    simp
  have hcontent : appends (s, a) = none → (∀ f, s'.table.content f = s.table.content f) →
      ∀ f, s'.table.content f = s₀.table.content f ++ writtenTo (past ++ [(s, a)]) f := by
    intro happends heq f
    rw [heq, h.content, writtenTo_snoc, happends]
    simp
  cases touches_of_step hstep with
  | nothing hdirectory hfiles happends hreplaces =>
      refine ⟨hwf, hcontent happends fun f => ?_, fun f hf => ?_, fun f hf => ?_⟩
      · rw [Table.content, hfiles, Table.content]
      · rw [hfiles] at hf
        rw [hsnoc hreplaces, Table.Named, hdirectory]
        exact h.named f hf
      · rw [hfiles]
        exact h.replaced_lt f ((hsnoc hreplaces).mp hf)
  | creates name hdirectory hfiles happends hreplaces =>
      refine ⟨hwf, hcontent happends fun f => ?_, fun f hf => ?_, fun f hf => ?_⟩
      · rw [Table.content, hfiles]
        exact Table.content_create
      · rw [hfiles] at hf
        rw [hsnoc hreplaces, Table.Named, hdirectory]
        refine Table.named_create_iff.trans ?_
        by_cases hold : f < s.table.files.length
        · rw [← h.named f hold]
          exact or_iff_left fun hnew => absurd hold (not_lt.mpr hnew.1)
        -- the new file has a name, and has not been there before
        · refine iff_of_true (.inr ⟨not_lt.mp hold, hf⟩) fun hmem => ?_
          exact hold (h.replaced_lt f hmem)
      · rw [hfiles]
        exact (h.replaced_lt f ((hsnoc hreplaces).mp hf)).trans_le Table.length_files_create_le
  | renames new hold hdirectory hfiles happends hreplaces =>
      refine ⟨hwf, hcontent happends fun f => ?_, fun f hf => ?_, fun f hf => ?_⟩
      · rw [Table.content, hfiles, Table.content]
      · rw [hfiles] at hf
        rw [mem_replacedFiles_snoc, hreplaces, not_or, ← h.named f hf, Table.Named, hdirectory]
        exact Table.named_rename_iff h.wf hold
      · rw [hfiles]
        rcases mem_replacedFiles_snoc.mp hf with hf | hf
        · exact h.replaced_lt f hf
        · rw [hreplaces, Table.replaced] at hf
          split at hf
          · cases hf
          · exact h.wf.directory_lt hf
  | appends g chunk hfd hdirectory hfiles happends hreplaces =>
      have hlength : s'.table.files.length = s.table.files.length := by
        rw [hfiles, Table.length_files_append]
      refine ⟨hwf, fun f => ?_, fun f hf => ?_, fun f hf => ?_⟩
      · rw [Table.content, hfiles]
        refine (Table.content_append_of_file hfd (h.wf.descriptors_lt hfd)).trans ?_
        rw [h.content, writtenTo_snoc, happends, List.append_assoc]
        by_cases hfg : f = g
        · simp [hfg]
        · simp [hfg, Ne.symm hfg]
      · rw [hlength] at hf
        rw [hsnoc hreplaces, Table.Named, hdirectory]
        exact h.named f hf
      · rw [hlength]
        exact h.replaced_lt f ((hsnoc hreplaces).mp hf)

theorem conserved_of_run (hwf : s₀.table.Wf)
    (hnamed : ∀ f, f < s₀.table.files.length → s₀.table.Named f)
    (hrun : Run (LoggerStep c) s₀ past s) : Conserved c s₀ past s := by
  induction hrun with
  | start =>
      refine ⟨hwf, fun f => (List.append_nil _).symm, fun f hf => ?_, List.forall_mem_nil _⟩
      exact iff_of_true (hnamed f hf) List.not_mem_nil
  | snoc _ hstep ih => exact ih.step hstep

/-- In every interleaving, what has been written to a file is there behind what it held
before, in this order, and the file has one name, unless it is a backup whose name
was given to a later one. -/
theorem lines_conserved (hwf : s₀.table.Wf)
    (hnamed : ∀ f, f < s₀.table.files.length → s₀.table.Named f)
    (hrun : Run (LoggerStep c) s₀ past s) (f : Nat) (hf : f < s.table.files.length) :
    s.table.content f = s₀.table.content f ++ writtenTo past f ∧
      (f ∉ replacedFiles c past → ∃! name, s.table.directory name = some f) ∧
      (f ∈ replacedFiles c past → ∀ name, s.table.directory name ≠ some f) := by
  have h := conserved_of_run hwf hnamed hrun
  refine ⟨h.content f, fun hkept => ?_, fun hreplaced name hname => ?_⟩
  · obtain ⟨name, hname⟩ := (h.named f hf).mpr hkept
    exact ⟨name, hname, fun name' hname' => h.wf.unique hname' hname⟩
  · exact (h.named f hf).mp ⟨name, hname⟩ hreplaced

/-- A thread writes a line, and another one after a rotation. -/
theorem exists_rotated_line :
    ∃ past, ∃ s : LogSystem Nat, Run (LoggerStep twoMinutes) (.start emptyTable 50) past s ∧
      s.table.files.length = 2 ∧ replacedFiles twoMinutes past = [] ∧
      writtenTo past 0 = [[91]] ∧ writtenTo past 1 = [[91, 32]] := by
  refine ⟨_, _, .snoc (.snoc (.snoc (.snoc (.snoc (.snoc (.snoc (.snoc (.snoc (.snoc (.snoc (.snoc
    (.snoc (.snoc .start
    (.setFileName "log" 3 true (fun _ => rfl) rfl (by decide) rfl))
    (.call 0 .info [] [] rfl rfl (by decide))) (.time 0 60 rfl)) (.load 0 rfl))
    (.write 0 1 rfl (by decide)))
    (.call 1 .info [] [] rfl rfl (by decide))) (.time 1 150 rfl)) (.load 1 rfl))
    (.exchange 1 rfl)) (.renamed 1 rfl rfl)) (.openFile 1 4 rfl rfl)) (.dup2 1 rfl rfl))
    (.spawn 1 true rfl)) (.write 1 2 rfl (by decide)), rfl, ?_, rfl, rfl⟩
  decide

theorem lines_conserved_rotated :
    ∃ past, ∃ s : LogSystem Nat, Run (LoggerStep twoMinutes) (.start emptyTable 50) past s ∧
      s.table.content 0 = [[91]] ∧ s.table.content 1 = [[91, 32]] ∧
      ∀ f < 2, ∃! name, s.table.directory name = some f := by
  obtain ⟨past, s, hrun, hlength, hnone, hbackup, hlog⟩ := exists_rotated_line
  have hnamed : ∀ f, f < emptyTable.files.length → emptyTable.Named f :=
    fun f hf => absurd hf (Nat.not_lt_zero f)
  have hlines := lines_conserved wf_emptyTable hnamed hrun
  rw [hlength, hnone] at hlines
  refine ⟨past, s, hrun, ?_, ?_, fun f hf => (hlines f hf).2.1 List.not_mem_nil⟩
  · exact (hlines 0 (by decide)).1.trans hbackup
  · exact (hlines 1 (by decide)).1.trans hlog

end Sys
end Deps
