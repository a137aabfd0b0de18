import Deps.Lib.Ledger
import Deps.Sys.LogFiles

/-!
# The descriptors of the logger

Every descriptor which the logger has opened is in one place: `m_fd`, the local
variable of a rotation, a detached thread which is going to close it, or lost
because no thread could be created.  So nothing is closed twice, no descriptor of
the rest of the process is closed or redirected, even when its number has been
used by the logger before, and no other descriptor stays open.
-/

namespace Deps
namespace Sys

open Runs Ledger Files

variable {Thread : Type} {c : LogConfig} {s s' : LogSystem Thread} {a : LogAction Thread}
  {past : List (LogSystem Thread × LogAction Thread)}

/-- Where a descriptor of the logger can be. -/
inductive Holder (Thread : Type)
  | member
  /-- the local variable of `maybeRotate` -/
  | rotation (t : Thread)
  | detached (k : Nat)
  | abandoned (k : Nat)

namespace LogSystem

def holds (s : LogSystem Thread) : Holder Thread → Option Nat
  | .member => s.mFd
  | .rotation t => (s.logging t).fd
  | .detached k => s.detached k
  | .abandoned k => s.abandoned k

/-- The descriptor stands for a log file. -/
def IsLog (s : LogSystem Thread) (fd : Nat) : Prop := s.table.IsFile fd

/-- No detached thread has been created from this number on. -/
structure Numbered (s : LogSystem Thread) : Prop where
  detached : ∀ k, s.spawned ≤ k → s.detached k = none
  abandoned : ∀ k, s.spawned ≤ k → s.abandoned k = none

end LogSystem

/-- The descriptor whose number the step changes, but for those of the others. -/
def LogAction.closes (s : LogSystem Thread) : LogAction Thread → Option Nat
  | .dup2 _ true => s.mFd
  | .closeFd t => (s.logging t).fd
  | .setFileName _ (some _) true => s.mFd
  | .expire k => s.detached k
  | .destroy => s.mFd
  | _ => none

/-- A thread could be created for the descriptor. -/
def Spawns (_ : LogSystem Thread) : LogAction Thread → Prop
  | .spawn _ created => created = true
  | _ => True

/-- What the others have opened is theirs to close. -/
def Spares (s : LogSystem Thread) (a : LogAction Thread) (s' : LogSystem Thread) : Prop :=
  ∀ fd, s.table.descriptors fd = some .other →
    s'.table.descriptors fd = some .other ∨ a = .closeOther fd

/-- The ledger of the descriptors of the logger, in the state and along the run. -/
structure Accounted (past : List (LogSystem Thread × LogAction Thread)) (s : LogSystem Thread) :
    Prop where
  exact : Exact s.holds s.IsLog
  /-- what is closed or redirected is an open log file -/
  closes : ∀ e ∈ past, ∀ fd, e.2.closes e.1 = some fd → e.1.IsLog fd
  spares : ∀ e ∈ transitions past s, Spares e.1 e.2.1 e.2.2
  /-- when all is done, `m_fd` is all that is open -/
  released : Meets Spawns past → s.Quiet → (∀ k, s.detached k = none) →
    ∀ fd, s.IsLog fd ↔ s.mFd = some fd

namespace LogSystem

/-- Who holds what is a matter of these fields. -/
theorem holds_congr (hmFd : s'.mFd = s.mFd) (hlogging : s'.logging = s.logging)
    (hdetached : s'.detached = s.detached) (habandoned : s'.abandoned = s.abandoned)
    (h : Holder Thread) : s'.holds h = s.holds h := by
  cases h with
  | member => exact hmFd
  | rotation t => exact congrArg (fun logging => (logging t).fd) hlogging
  | detached k => exact congrFun hdetached k
  | abandoned k => exact congrFun habandoned k

variable [DecidableEq Thread]

@[simp] theorem holds_move_rotation (s : LogSystem Thread) (t : Thread) (p : Logging) :
    (s.move t p).holds (.rotation t) = p.fd := by
  rw [holds, move_logging_self]

theorem holds_move_of_ne (s : LogSystem Thread) {t : Thread} (p : Logging) {h : Holder Thread}
    (hh : h ≠ .rotation t) : (s.move t p).holds h = s.holds h := by
  cases h with
  | rotation u =>
      have hut : u ≠ t := fun hut => hh (congrArg Holder.rotation hut)
      exact congrArg Logging.fd (s.move_logging_of_ne hut p)
  | member | detached | abandoned => rfl

/-- A thread goes on with the descriptor which it had. -/
theorem holds_move (s : LogSystem Thread) {t : Thread} {p : Logging}
    (hp : p.fd = (s.logging t).fd) (h : Holder Thread) : (s.move t p).holds h = s.holds h := by
  by_cases hh : h = .rotation t
  · subst hh
    rw [holds_move_rotation, hp]
    rfl
  · exact s.holds_move_of_ne p hh

end LogSystem

/-! ## What a step does to the ledger -/

theorem exact_setFileName {filename : String} {fd : Nat} (hexact : Exact s.holds s.IsLog)
    (hfd : s.table.descriptors fd = none) (duplicated : Bool) :
    Exact (s.setFileName filename fd duplicated).holds
      (s.setFileName filename fd duplicated).IsLog := by
  have hunused : ¬ s.IsLog fd := by
    rintro ⟨f, hf⟩
    rw [hfd] at hf
    cases hf
  cases hmFd : s.mFd with
  | none =>
      -- the first file
      have heq : s.setFileName filename fd duplicated =
          { s with
            table := s.table.openFile filename fd
            filename := filename
            mFd := some fd } := by
        rw [LogSystem.setFileName, hmFd]
      rw [heq]
      refine hexact.acquire (a := .member) (r := fd) hmFd hunused rfl (fun h hh => ?_)
        fun _ => Table.isFile_openFile_iff
      cases h with
      | member => exact absurd rfl hh
      | rotation | detached | abandoned => rfl
  | some mFd =>
      have hmember : s.IsLog mFd := hexact.inUse (h := .member) hmFd
      have hne : mFd ≠ fd := by
        rintro rfl
        exact hunused hmember
      refine hexact.congr (LogSystem.holds_congr ?_ ?_ ?_ ?_) fun q => ?_
      all_goals rw [LogSystem.setFileName, hmFd]
      -- the new descriptor is closed again
      have hopened : ∀ {q}, (s.table.openFile filename fd).IsFile q ↔ q = fd ∨ s.IsLog q :=
        Table.isFile_openFile_iff
      have hclosed : ∀ {k : Table String (List UInt8)}, (∀ q, k.IsFile q ↔ q = fd ∨ s.IsLog q) →
          ((k.close fd).IsFile q ↔ s.IsLog q) := by
        intro k hk
        rw [Table.isFile_close_iff, hk]
        by_cases hq : q = fd
        · subst hq
          simp [hunused]
        · simp [hq]
      refine hclosed fun q => ?_
      split
      · rw [Table.isFile_dup2_iff (hopened.mpr (.inl rfl)), hopened]
        constructor
        · rintro (rfl | hq)
          · exact .inr hmember
          · exact hq
        · exact .inr
      · exact hopened

/-- The other descriptors stay what they are when the number which changes is not one
of them. -/
theorem spares_of_update {fd : Nat} {target : Option Target}
    (hfd : s.table.descriptors fd ≠ some .other)
    (hs' : s'.table.descriptors = Function.update s.table.descriptors fd target) :
    Spares s a s' := by
  intro q hq
  refine .inl ?_
  have hne : q ≠ fd := by
    rintro rfl
    exact hfd hq
  rw [hs', Function.update_of_ne hne, hq]

theorem spares_of_eq (hs' : s'.table.descriptors = s.table.descriptors) : Spares s a s' :=
  fun q hq => .inl (by rw [hs', hq])

/-- No log file is open when the logger is constructed. -/
theorem exact_start {table : Table String (List UInt8)} {t₀ : Int} (hs : s = .start table t₀)
    (htable : ∀ fd, ¬ table.IsFile fd) : Exact s.holds s.IsLog := by
  subst hs
  exact exact_none (fun h => by cases h <;> rfl) htable

/-- When threads can be created and all of them are done, `m_fd` is what is open. -/
theorem isLog_iff_of_quiet (hexact : Exact s.holds s.IsLog) (hquiet : s.Quiet)
    (hdetached : ∀ k, s.detached k = none) (habandoned : ∀ k, s.abandoned k = none) (fd : Nat) :
    s.IsLog fd ↔ s.mFd = some fd := by
  refine ⟨fun hfd => ?_, fun hfd => hexact.inUse (h := .member) hfd⟩
  obtain ⟨h, hh⟩ := hexact.held hfd
  cases h with
  | member => exact hh
  | rotation t =>
      rw [LogSystem.holds, hquiet t] at hh
      cases hh
  | detached k =>
      rw [LogSystem.holds, hdetached k] at hh
      cases hh
  | abandoned k =>
      rw [LogSystem.holds, habandoned k] at hh
      cases hh

section

variable [DecidableEq Thread]

/-- The descriptor goes from the rotation to a thread, or is lost. -/
theorem exact_spawn {t : Thread} {fd : Nat} (hexact : Exact s.holds s.IsLog)
    (hnumbered : s.Numbered) (ht : (s.logging t).fd = some fd) (created : Bool) {p : Logging}
    (hp : p.fd = none) :
    Exact ((s.spawn fd created).move t p).holds ((s.spawn fd created).move t p).IsLog := by
  have hself : ∀ {holder : Nat → Option Nat},
      Function.update holder s.spawned (some fd) s.spawned = some fd := Function.update_self ..
  have hother : ∀ {holder : Nat → Option Nat} {k}, k ≠ s.spawned →
      Function.update holder s.spawned (some fd) k = holder k :=
    fun hk => Function.update_of_ne hk ..
  cases created with
  | true =>
      refine hexact.transfer (a := .rotation t) (b := .detached s.spawned) (r := fd) nofun ht
        (hnumbered.detached _ le_rfl) ?_ hself (fun h hrotation hh => ?_) fun _ => Iff.rfl
      · rw [LogSystem.holds_move_rotation, hp]
      · rw [LogSystem.holds_move_of_ne _ _ hrotation]
        cases h with
        | detached k => exact hother fun hk => hh (congrArg Holder.detached hk)
        | member | rotation | abandoned => rfl
  | false =>
      refine hexact.transfer (a := .rotation t) (b := .abandoned s.spawned) (r := fd) nofun ht
        (hnumbered.abandoned _ le_rfl) ?_ hself (fun h hrotation hh => ?_) fun _ => Iff.rfl
      · rw [LogSystem.holds_move_rotation, hp]
      · rw [LogSystem.holds_move_of_ne _ _ hrotation]
        cases h with
        | abandoned k => exact hother fun hk => hh (congrArg Holder.abandoned hk)
        | member | rotation | detached => rfl

/-- One step keeps the ledger exact. -/
theorem exact_step (hexact : Exact s.holds s.IsLog) (hnumbered : s.Numbered)
    (hstep : LoggerStep c s a s') : Exact s'.holds s'.IsLog := by
  -- a step which concerns no descriptors
  have hkeep : ∀ {s₁ : LogSystem Thread} {t : Thread} {p : Logging},
      (∀ h, s₁.holds h = s.holds h) → (∀ fd, s₁.IsLog fd ↔ s.IsLog fd) →
      p.fd = (s₁.logging t).fd → Exact (s₁.move t p).holds (s₁.move t p).IsLog := by
    intro s₁ t p hholds hlog hp
    exact hexact.congr (fun h => (s₁.holds_move hp h).trans (hholds h)) hlog
  cases hstep with
  | above | setFileNameFails => exact hexact
  | setLogLevel | setLogLevelName =>
      exact hexact.congr (LogSystem.holds_congr rfl rfl rfl rfl) fun _ => Iff.rfl
  | call t _ _ _ ht =>
      exact hkeep (fun _ => rfl) (fun _ => Iff.rfl) (by rw [ht]; rfl)
  | time t now ht =>
      exact hkeep (LogSystem.holds_congr rfl rfl rfl rfl) (fun _ => Iff.rfl) (by
        show none = (s.logging t).fd
        rw [ht]
        rfl)
  | load t ht =>
      exact hkeep (fun _ => rfl) (fun _ => Iff.rfl) (by rw [ht, Logging.fd_rotate]; rfl)
  | exchange t ht =>
      exact hkeep (LogSystem.holds_congr rfl rfl rfl rfl) (fun _ => Iff.rfl) (by
        show _ = (s.logging t).fd
        rw [ht, Logging.fd_rotate]
        rfl)
  | renamed t ht hname =>
      refine hkeep (LogSystem.holds_congr rfl rfl rfl rfl) (fun fd => ?_) (by
        show _ = (s.logging t).fd
        rw [ht, Logging.fd_rotate]
        rfl)
      show (Table.rename _ _ _).IsFile fd ↔ _
      rw [Table.IsFile, Table.descriptors_rename]
      exact Iff.rfl
  | enoent t ht | renameFails t ht =>
      exact hkeep (fun _ => rfl) (fun _ => Iff.rfl) (by rw [ht, Logging.fd_rotate]; rfl)
  | openFile t fd ht hfd =>
      refine hexact.acquire (a := .rotation t) ?_ ?_ (LogSystem.holds_move_rotation ..)
        (fun h hh => ?_) fun _ => Table.isFile_openFile_iff
      · rw [LogSystem.holds, ht]
        rfl
      · rintro ⟨f, hf⟩
        rw [hfd] at hf
        cases hf
      · exact (LogSystem.holds_move_of_ne _ _ hh).trans (LogSystem.holds_congr rfl rfl rfl rfl h)
  | openFails t ht => exact hkeep (fun _ => rfl) (fun _ => Iff.rfl) (by rw [ht]; rfl)
  | @dup2 line b fd mFd t ht hmFd =>
      have hfd : s.IsLog fd := hexact.inUse (h := .rotation t) (by rw [LogSystem.holds, ht]; rfl)
      refine hkeep (LogSystem.holds_congr rfl rfl rfl rfl) (fun q => ?_) (by
        show _ = (s.logging t).fd
        rw [ht]
        rfl)
      refine (Table.isFile_dup2_iff hfd).trans (or_iff_right_of_imp ?_)
      rintro rfl
      exact hexact.inUse (h := .member) hmFd
  | dup2Fails t ht => exact hkeep (fun _ => rfl) (fun _ => Iff.rfl) (by rw [ht]; rfl)
  | @closeFd line b fd t ht =>
      refine hexact.release (a := .rotation t) (r := fd) (by rw [LogSystem.holds, ht]; rfl)
        (LogSystem.holds_move_rotation ..) (fun h hh => ?_) fun _ => Table.isFile_close_iff
      exact (LogSystem.holds_move_of_ne _ _ hh).trans (LogSystem.holds_congr rfl rfl rfl rfl h)
  | spawn t created ht =>
      exact exact_spawn hexact hnumbered (by rw [ht]; rfl) created (Logging.fd_afterSpawn ..)
  | restore t ht =>
      exact hkeep (LogSystem.holds_congr rfl rfl rfl rfl) (fun _ => Iff.rfl) (by
        show none = (s.logging t).fd
        rw [ht]
        rfl)
  | write t n ht =>
      refine hkeep (LogSystem.holds_congr rfl rfl rfl rfl) (fun fd => ?_) (by
        show none = (s.logging t).fd
        rw [ht]
        rfl)
      show (Table.append _ _ _).IsFile fd ↔ _
      rw [Table.IsFile, Table.descriptors_append]
      exact Iff.rfl
  | writeFails t ht => exact hkeep (fun _ => rfl) (fun _ => Iff.rfl) (by rw [ht]; rfl)
  | setFileName filename fd duplicated _ _ _ hfd => exact exact_setFileName hexact hfd duplicated
  | @expire fd k hk =>
      refine hexact.release (a := .detached k) (r := fd) hk (Function.update_self ..)
        (fun h hh => ?_) fun _ => Table.isFile_close_iff
      cases h with
      | detached j => exact Function.update_of_ne (fun hj => hh (congrArg Holder.detached hj)) ..
      | member | rotation | abandoned => rfl
  | destroy =>
      rw [LogSystem.destroy]
      split
      · exact hexact.congr (LogSystem.holds_congr rfl rfl rfl rfl) fun _ => Iff.rfl
      · next mFd hmFd =>
          refine hexact.release (a := .member) (r := mFd) hmFd rfl (fun h hh => ?_)
            fun _ => Table.isFile_close_iff
          cases h with
          | member => exact absurd rfl hh
          | rotation | detached | abandoned => rfl
  | openOther fd hfd =>
      exact hexact.congr (LogSystem.holds_congr rfl rfl rfl rfl) fun _ =>
        Table.isFile_openOther_iff hfd
  | closeOther fd hfd =>
      refine hexact.congr (LogSystem.holds_congr rfl rfl rfl rfl) fun q => ?_
      refine Table.isFile_close_iff.trans (and_iff_right_of_imp ?_)
      rintro ⟨f, hf⟩ rfl
      rw [hfd] at hf
      cases hf

theorem numbered_step (hnumbered : s.Numbered) (hstep : LoggerStep c s a s') : s'.Numbered := by
  -- most steps leave these fields alone
  have hkeep : ∀ {s₁ : LogSystem Thread}, s₁.detached = s.detached →
      s₁.abandoned = s.abandoned → s₁.spawned = s.spawned → s₁.Numbered := by
    intro s₁ hdetached habandoned hspawned
    constructor
    · rw [hdetached, hspawned]
      exact hnumbered.detached
    · rw [habandoned, hspawned]
      exact hnumbered.abandoned
  have hfresh : ∀ {holder : Nat → Option Nat} {fd : Nat}, (∀ k, s.spawned ≤ k → holder k = none) →
      ∀ k, s.spawned + 1 ≤ k → Function.update holder s.spawned (some fd) k = none := by
    intro holder fd hnone k hk
    rw [Function.update_of_ne (by omega)]
    exact hnone k (by omega)
  cases hstep with
  | spawn t created ht =>
      cases created with
      | true => exact ⟨hfresh hnumbered.detached, fun k hk => hnumbered.abandoned k (by
          exact (Nat.le_succ _).trans hk)⟩
      | false => exact ⟨fun k hk => hnumbered.detached k ((Nat.le_succ _).trans hk),
          hfresh hnumbered.abandoned⟩
  | expire k hk =>
      refine ⟨fun j hj => ?_, hnumbered.abandoned⟩
      by_cases hjk : j = k
      · subst hjk
        exact Function.update_self ..
      · exact (Function.update_of_ne hjk ..).trans (hnumbered.detached j hj)
  | setFileName =>
      apply hkeep <;> rw [LogSystem.setFileName] <;> split <;> rfl
  | destroy =>
      apply hkeep <;> rw [LogSystem.destroy] <;> split <;> rfl
  | _ => exact hkeep rfl rfl rfl

/-- Only `abandoned` descriptors are lost, and there are none as long as threads can be
created. -/
theorem abandoned_step (hnone : ∀ k, s.abandoned k = none) (hstep : LoggerStep c s a s')
    (hspawns : Spawns s a) : ∀ k, s'.abandoned k = none := by
  cases hstep with
  | spawn t created ht =>
      cases hspawns
      exact hnone
  | setFileName =>
      rw [LogSystem.setFileName]
      split <;> exact hnone
  | destroy =>
      rw [LogSystem.destroy]
      split <;> exact hnone
  | _ => exact hnone

omit [DecidableEq Thread] in
/-- What the step closes or redirects is held by the logger. -/
theorem isLog_of_closes (hexact : Exact s.holds s.IsLog) {fd : Nat} (ha : a.closes s = some fd) :
    s.IsLog fd := by
  cases a with
  | dup2 t duplicated =>
      cases duplicated with
      | true => exact hexact.inUse (h := .member) ha
      | false => cases ha
  | closeFd t => exact hexact.inUse (h := .rotation t) ha
  | setFileName filename opened duplicated =>
      cases opened with
      | none => cases ha
      | some q =>
          cases duplicated with
          | true => exact hexact.inUse (h := .member) ha
          | false => cases ha
  | expire k => exact hexact.inUse (h := .detached k) ha
  | destroy => exact hexact.inUse (h := .member) ha
  | _ => cases ha

theorem spares_step (hexact : Exact s.holds s.IsLog) (hstep : LoggerStep c s a s') :
    Spares s a s' := by
  have hlog : ∀ {fd}, s.IsLog fd → s.table.descriptors fd ≠ some .other := by
    rintro fd ⟨f, hf⟩ hother
    rw [hf] at hother
    cases hother
  have hunused : ∀ {fd}, s.table.descriptors fd = none → s.table.descriptors fd ≠ some .other := by
    intro fd hfd hother
    rw [hfd] at hother
    cases hother
  cases hstep with
  | above | call | time | load | exchange | enoent | renameFails | openFails | dup2Fails | restore
    | writeFails | setFileNameFails | setLogLevel | setLogLevelName => exact spares_of_eq rfl
  | spawn t created => cases created <;> exact spares_of_eq rfl
  | renamed => exact spares_of_eq Table.descriptors_rename
  | write => exact spares_of_eq Table.descriptors_append
  | openFile t fd ht hfd => exact spares_of_update (hunused hfd) rfl
  | dup2 t ht hmFd => exact spares_of_update (hlog (hexact.inUse (h := .member) hmFd)) rfl
  | @closeFd line b fd t ht =>
      have hfd : s.holds (.rotation t) = some fd := by
        rw [LogSystem.holds, ht]
        rfl
      exact spares_of_update (hlog (hexact.inUse hfd)) rfl
  | setFileName filename fd duplicated _ _ _ hfd =>
      rw [LogSystem.setFileName]
      split
      · exact spares_of_update (hunused hfd) rfl
      · next mFd hmFd =>
          -- neither the new descriptor nor `m_fd` is one of the others
          intro q hq
          have hqfd : q ≠ fd := by
            rintro rfl
            exact hunused hfd hq
          have hqmFd : q ≠ mFd := by
            rintro rfl
            exact hlog (hexact.inUse (h := .member) hmFd) hq
          refine .inl ((Function.update_of_ne hqfd ..).trans ?_)
          split
          · exact (Function.update_of_ne hqmFd ..).trans ((Function.update_of_ne hqfd ..).trans hq)
          · exact (Function.update_of_ne hqfd ..).trans hq
  | expire k hk => exact spares_of_update (hlog (hexact.inUse (h := .detached k) hk)) rfl
  | destroy =>
      rw [LogSystem.destroy]
      split
      · exact spares_of_eq rfl
      · next mFd hmFd => exact spares_of_update (hlog (hexact.inUse (h := .member) hmFd)) rfl
  | openOther fd hfd => exact spares_of_update (hunused hfd) rfl
  | closeOther fd hfd =>
      intro q hq
      by_cases hqfd : q = fd
      · exact .inr (by rw [hqfd])
      · exact .inl ((Function.update_of_ne hqfd ..).trans hq)

/-! ## Runs -/

theorem exact_of_run {table : Table String (List UInt8)} {t₀ : Int}
    (htable : ∀ fd, ¬ table.IsFile fd) (hrun : Run (LoggerStep c) (.start table t₀) past s) :
    Exact s.holds s.IsLog ∧ s.Numbered := by
  induction hrun with
  | start => exact ⟨exact_start rfl htable, fun _ _ => rfl, fun _ _ => rfl⟩
  | snoc _ hstep ih => exact ⟨exact_step ih.1 ih.2 hstep, numbered_step ih.2 hstep⟩

/-- In every interleaving of threads in `vlog`, of the threads which close descriptors
later and of the rest of the process, the descriptors of the logger are accounted
for. -/
theorem descriptors_accounted {table : Table String (List UInt8)} {t₀ : Int}
    (htable : ∀ fd, ¬ table.IsFile fd) (hrun : Run (LoggerStep c) (.start table t₀) past s) :
    Accounted past s := by
  have hexact := (exact_of_run htable hrun).1
  refine ⟨hexact, ?_, ?_, fun hspawns hquiet hdetached fd => ?_⟩
  · clear hexact
    induction hrun with
    | start => exact List.forall_mem_nil _
    | @snoc past s a s' hrun hstep ih =>
        rw [List.forall_mem_append, List.forall_mem_singleton]
        exact ⟨ih, fun fd => isLog_of_closes (exact_of_run htable hrun).1⟩
  · clear hexact
    induction hrun with
    | start => exact List.forall_mem_nil _
    | @snoc past s a s' hrun hstep ih =>
        rw [transitions_snoc, List.forall_mem_append, List.forall_mem_singleton]
        exact ⟨ih, spares_step (exact_of_run htable hrun).1 hstep⟩
  · have habandoned : ∀ k, s.abandoned k = none :=
      hrun.inv_of_meets (fun _ => rfl)
        (fun _ _ _ hnone hspawn hstep => abandoned_step hnone hstep hspawn) hspawns
    exact isLog_iff_of_quiet hexact hquiet hdetached habandoned fd

/-- A run with one rotation; afterwards the detached thread has closed its
descriptor. -/
theorem exists_rotation :
    ∃ past, ∃ s : LogSystem Nat, Run (LoggerStep twoMinutes) (.start emptyTable 50) past s ∧
      Meets Spawns past ∧ s.Quiet ∧ (∀ k, s.detached k = none) ∧ s.mFd = some 3 := by
  refine ⟨_, _, .snoc (.snoc (.snoc (.snoc (.snoc (.snoc (.snoc (.snoc (.snoc (.snoc (.snoc .start
    (.setFileName "log" 3 true (fun _ => rfl) rfl (by decide) rfl))
    (.call 0 .info [] [] rfl rfl (by decide))) (.time 0 150 rfl))
    (.load 0 rfl)) (.exchange 0 rfl)) (.renamed 0 rfl rfl)) (.openFile 0 4 rfl rfl))
    (.dup2 0 rfl rfl)) (.spawn 0 true rfl)) (.writeFails 0 rfl)) (.expire 0 rfl),
    ?_, fun t => ?_, fun k => ?_, rfl⟩
  · simp only [meets_snoc, meets_nil, Spawns, and_self]
  · by_cases ht : t = 0
    · subst ht
      rfl
    -- only the thread 0 has moved
    · repeat refine (Function.update_of_ne ht ..).trans ?_
      rfl
  · by_cases hk : k = 0
    · subst hk
      rfl
    · exact (Function.update_of_ne hk ..).trans (Function.update_of_ne hk ..)

theorem descriptors_accounted_rotation :
    ∃ past, ∃ s : LogSystem Nat, Run (LoggerStep twoMinutes) (.start emptyTable 50) past s ∧
      ∀ fd, s.IsLog fd ↔ fd = 3 := by
  obtain ⟨past, s, hrun, hspawns, hquiet, hdetached, hmFd⟩ := exists_rotation
  refine ⟨past, s, hrun, fun fd => ?_⟩
  have haccounted := descriptors_accounted not_isFile_emptyTable hrun
  rw [haccounted.released hspawns hquiet hdetached fd, hmFd, Option.some.injEq]
  exact eq_comm

end

end Sys
end Deps
