import Mathlib.Logic.Function.Basic
import Mathlib.Data.List.GetD
import Mathlib.Tactic

/-!
# Descriptors, names and files

The open descriptors of a process, the names of a directory and the files which
they stand for.  A file is the number under which it was created, and its content
the chunks which have been appended to it.  `rename` onto a name which is taken
removes the file which had it, and this is the only way in which a file can lose
its name here.
-/

namespace Deps
namespace Files

open Function

/-- What an open descriptor stands for. -/
inductive Target where
  /-- a file, opened for appending -/
  | file (f : Nat)
  | other
  deriving DecidableEq, Repr

structure Table (Name Chunk : Type) where
  descriptors : Nat → Option Target
  directory : Name → Option Nat
  /-- the contents, in the order in which the files were created -/
  files : List (List Chunk)

namespace Table

variable {Name Chunk : Type}

/-- The file which opening `name` gives. -/
def target (k : Table Name Chunk) (name : Name) : Nat :=
  (k.directory name).getD k.files.length

/-- Another descriptor is opened by somebody else. -/
def openOther (k : Table Name Chunk) (fd : Nat) : Table Name Chunk :=
  { k with descriptors := update k.descriptors fd (some .other) }

def close (k : Table Name Chunk) (fd : Nat) : Table Name Chunk :=
  { k with descriptors := update k.descriptors fd none }

def dup2 (k : Table Name Chunk) (fd fd' : Nat) : Table Name Chunk :=
  { k with descriptors := update k.descriptors fd' (k.descriptors fd) }

/-- `write(fd, chunk)` to a file. -/
def append (k : Table Name Chunk) (fd : Nat) (chunk : Chunk) : Table Name Chunk :=
  match k.descriptors fd with
  | some (.file f) => { k with files := k.files.modify f (· ++ [chunk]) }
  | _ => k

/-- What the file holds; there is nothing in a file which does not exist. -/
def content (k : Table Name Chunk) (f : Nat) : List Chunk := k.files.getD f []

/-- The file has a name. -/
def Named (k : Table Name Chunk) (f : Nat) : Prop := ∃ name, k.directory name = some f

/-- The descriptor stands for a file. -/
def IsFile (k : Table Name Chunk) (fd : Nat) : Prop := ∃ f, k.descriptors fd = some (.file f)

/-- Names and descriptors stand for files which exist, and no file has two names. -/
structure Wf (k : Table Name Chunk) : Prop where
  directory_lt : ∀ {name f}, k.directory name = some f → f < k.files.length
  descriptors_lt : ∀ {fd f}, k.descriptors fd = some (.file f) → f < k.files.length
  unique : ∀ {name name' f}, k.directory name = some f → k.directory name' = some f → name = name'

section

variable {k : Table Name Chunk} {fd fd' f : Nat} {chunk : Chunk}

theorem descriptors_openOther :
    (k.openOther fd).descriptors = update k.descriptors fd (some .other) := rfl

theorem descriptors_close : (k.close fd).descriptors = update k.descriptors fd none := rfl

theorem descriptors_dup2 :
    (k.dup2 fd fd').descriptors = update k.descriptors fd' (k.descriptors fd) := rfl

@[simp] theorem directory_openOther : (k.openOther fd).directory = k.directory := rfl

@[simp] theorem directory_close : (k.close fd).directory = k.directory := rfl

@[simp] theorem directory_dup2 : (k.dup2 fd fd').directory = k.directory := rfl

@[simp] theorem directory_append : (k.append fd chunk).directory = k.directory := by
  rw [append]
  split <;> rfl

@[simp] theorem files_openOther : (k.openOther fd).files = k.files := rfl

@[simp] theorem files_close : (k.close fd).files = k.files := rfl

@[simp] theorem files_dup2 : (k.dup2 fd fd').files = k.files := rfl

@[simp] theorem descriptors_append : (k.append fd chunk).descriptors = k.descriptors := by
  rw [append]
  split <;> rfl

theorem isFile_openOther_iff (hfd : k.descriptors fd = none) :
    (k.openOther fd).IsFile fd' ↔ k.IsFile fd' := by
  rw [IsFile, descriptors_openOther]
  by_cases hne : fd' = fd
  · subst hne
    simp [IsFile, hfd]
  · rw [update_of_ne hne]
    rfl

theorem isFile_close_iff : (k.close fd).IsFile fd' ↔ fd' ≠ fd ∧ k.IsFile fd' := by
  rw [IsFile, descriptors_close]
  by_cases hne : fd' = fd
  · subst hne
    simp
  · rw [update_of_ne hne]
    exact (and_iff_right hne).symm

theorem isFile_dup2_iff (hfd : k.IsFile fd) :
    (k.dup2 fd fd').IsFile f ↔ f = fd' ∨ k.IsFile f := by
  rw [IsFile, descriptors_dup2]
  by_cases hne : f = fd'
  · subst hne
    rw [update_self]
    exact iff_of_true hfd (.inl rfl)
  · rw [update_of_ne hne]
    exact (or_iff_right hne).symm

theorem append_of_file (hfd : k.descriptors fd = some (.file f)) :
    k.append fd chunk = { k with files := k.files.modify f (· ++ [chunk]) } := by
  rw [append, hfd]

theorem content_append_of_file {g : Nat} (hk : k.descriptors fd = some (.file f))
    (hf : f < k.files.length) :
    (k.append fd chunk).content g = k.content g ++ if g = f then [chunk] else [] := by
  rw [append_of_file hk, content, content]
  by_cases hg : g = f
  · subst hg
    simp [hf]
  · simp [List.getElem?_modify_ne, Ne.symm hg, hg]

theorem append_of_ne_file (hk : ∀ f, k.descriptors fd ≠ some (.file f)) :
    k.append fd chunk = k := by
  rw [append]
  split
  · next hf => exact absurd hf (hk _)
  · rfl

@[simp] theorem length_files_append : (k.append fd chunk).files.length = k.files.length := by
  rw [append]
  split
  · exact List.length_modify ..
  · rfl

namespace Wf

/-- A change of descriptors, which go on to stand for files. -/
theorem withDescriptors {descriptors : Nat → Option Target} (hk : k.Wf)
    (hlt : ∀ {fd f}, descriptors fd = some (.file f) → f < k.files.length) :
    ({ k with descriptors := descriptors } : Table Name Chunk).Wf :=
  ⟨hk.directory_lt, hlt, hk.unique⟩

theorem openOther (hk : k.Wf) (fd : Nat) : (k.openOther fd).Wf := by
  refine hk.withDescriptors fun {fd' f} hfd' => ?_
  by_cases hne : fd' = fd
  · subst hne
    rw [update_self] at hfd'
    cases hfd'
  · rw [update_of_ne hne] at hfd'
    exact hk.descriptors_lt hfd'

theorem close (hk : k.Wf) (fd : Nat) : (k.close fd).Wf := by
  refine hk.withDescriptors fun {fd' f} hfd' => ?_
  by_cases hne : fd' = fd
  · subst hne
    rw [update_self] at hfd'
    cases hfd'
  · rw [update_of_ne hne] at hfd'
    exact hk.descriptors_lt hfd'

theorem dup2 (hk : k.Wf) (fd fd' : Nat) : (k.dup2 fd fd').Wf := by
  refine hk.withDescriptors fun {fd'' f} hfd'' => ?_
  by_cases hne : fd'' = fd'
  · subst hne
    rw [update_self] at hfd''
    exact hk.descriptors_lt hfd''
  · rw [update_of_ne hne] at hfd''
    exact hk.descriptors_lt hfd''

theorem append (hk : k.Wf) (fd : Nat) (chunk : Chunk) : (k.append fd chunk).Wf where
  directory_lt := by
    intro name f hname
    rw [directory_append] at hname
    rw [length_files_append]
    exact hk.directory_lt hname
  descriptors_lt := by
    intro fd' f hfd'
    rw [descriptors_append] at hfd'
    rw [length_files_append]
    exact hk.descriptors_lt hfd'
  unique := by
    rw [directory_append]
    exact hk.unique

end Wf
end

/-! ## Operations on names -/

section

variable [DecidableEq Name]

/-- `O_CREAT`: there is a file with this name. -/
def create (k : Table Name Chunk) (name : Name) : Table Name Chunk :=
  if (k.directory name).isSome then k
  else { k with
    directory := update k.directory name (some k.files.length)
    files := k.files ++ [[]] }

/-- `open(name, O_APPEND | O_CREAT | O_WRONLY)`, which returns `fd`. -/
def openFile (k : Table Name Chunk) (name : Name) (fd : Nat) : Table Name Chunk :=
  { k.create name with
    descriptors := update k.descriptors fd (some (.file (k.target name))) }

/-- `rename(old, new)`, where `old` exists. -/
def rename (k : Table Name Chunk) (old new : Name) : Table Name Chunk :=
  if old = new then k
  else { k with directory := update (update k.directory new (k.directory old)) old none }

/-- The file which loses its name when `old` becomes `new`. -/
def replaced (k : Table Name Chunk) (old new : Name) : Option Nat :=
  if old = new then none else k.directory new

variable {k : Table Name Chunk} {name old new : Name} {fd fd' f : Nat} {chunk : Chunk}

@[simp] theorem descriptors_create : (k.create name).descriptors = k.descriptors := by
  rw [create]
  split <;> rfl

theorem descriptors_openFile :
    (k.openFile name fd).descriptors = update k.descriptors fd (some (.file (k.target name))) := rfl

@[simp] theorem descriptors_rename : (k.rename old new).descriptors = k.descriptors := by
  rw [rename]
  split <;> rfl

theorem isFile_openFile_iff {q : Nat} : (k.openFile name fd).IsFile q ↔ q = fd ∨ k.IsFile q := by
  rw [IsFile, descriptors_openFile]
  by_cases hne : q = fd
  · subst hne
    simp
  · rw [update_of_ne hne]
    exact (or_iff_right hne).symm

theorem directory_create_of_some (hname : k.directory name = some f) : k.create name = k := by
  rw [create, if_pos (by rw [hname]; rfl)]

theorem create_of_none (hname : k.directory name = none) :
    k.create name = { k with
      directory := update k.directory name (some k.files.length)
      files := k.files ++ [[]] } := by
  rw [create, if_neg (by rw [hname]; exact Bool.false_ne_true)]

theorem directory_create_self : (k.create name).directory name = some (k.target name) := by
  cases hname : k.directory name with
  | none => rw [create_of_none hname, target, hname]; exact update_self ..
  | some f => rw [directory_create_of_some hname, target, hname]; rfl

theorem directory_create_of_ne {other : Name} (hne : other ≠ name) :
    (k.create name).directory other = k.directory other := by
  cases hname : k.directory name with
  | none => rw [create_of_none hname]; exact update_of_ne hne ..
  | some f => rw [directory_create_of_some hname]

@[simp] theorem directory_openFile : (k.openFile name fd).directory = (k.create name).directory :=
  rfl

theorem directory_rename_old (hne : old ≠ new) : (k.rename old new).directory old = none := by
  rw [rename, if_neg hne]
  exact update_self ..

theorem directory_rename_new (hne : old ≠ new) :
    (k.rename old new).directory new = k.directory old := by
  rw [rename, if_neg hne]
  exact (update_of_ne (Ne.symm hne) ..).trans (update_self ..)

theorem directory_rename_of_ne {other : Name} (hold : other ≠ old) (hnew : other ≠ new) :
    (k.rename old new).directory other = k.directory other := by
  rw [rename]
  split
  · rfl
  · exact (update_of_ne hold ..).trans (update_of_ne hnew ..)

theorem length_files_create_le : k.files.length ≤ (k.create name).files.length := by
  rw [create]
  split
  · exact le_rfl
  · simp

@[simp] theorem content_create : (k.create name).content f = k.content f := by
  cases hname : k.directory name with
  | some g => rw [directory_create_of_some hname]
  | none =>
      rw [create_of_none hname, content, content]
      -- a file which is created is empty
      rcases lt_trichotomy f k.files.length with hf | rfl | hf
      · simp [List.getElem?_append_left hf]
      · simp
      · rw [List.getD_eq_default _ _ (by simpa using hf), List.getD_eq_default _ _ hf.le]

theorem target_lt (hk : k.Wf) : k.target name < (k.create name).files.length := by
  cases hname : k.directory name with
  | none => simp [create_of_none hname, target, hname]
  | some f =>
      rw [directory_create_of_some hname, target, hname]
      exact hk.directory_lt hname

@[simp] theorem files_openFile : (k.openFile name fd).files = (k.create name).files := rfl

@[simp] theorem files_rename : (k.rename old new).files = k.files := by
  rw [rename]
  split <;> rfl

namespace Wf

theorem create (hk : k.Wf) (name : Name) : (k.create name).Wf where
  directory_lt := by
    intro other f hother
    by_cases hne : other = name
    · subst hne
      rw [directory_create_self] at hother
      cases hother
      exact target_lt hk
    · rw [directory_create_of_ne hne] at hother
      exact (hk.directory_lt hother).trans_le length_files_create_le
  descriptors_lt := by
    intro fd f hfd
    rw [descriptors_create] at hfd
    exact (hk.descriptors_lt hfd).trans_le length_files_create_le
  unique := by
    cases hname : k.directory name with
    | some g =>
        rw [directory_create_of_some hname]
        exact hk.unique
    | none =>
        -- a new file has a new number
        have hself : ∀ {other}, (k.create name).directory other = some k.files.length →
            other = name := by
          intro other hother
          by_contra hne
          rw [directory_create_of_ne hne] at hother
          exact absurd (hk.directory_lt hother) (lt_irrefl _)
        have htarget : k.target name = k.files.length := by rw [target, hname]; rfl
        intro a b f ha hb
        by_cases hane : a = name
        · subst hane
          rw [directory_create_self, htarget] at ha
          cases ha
          exact (hself hb).symm
        · by_cases hbne : b = name
          · subst hbne
            rw [directory_create_self, htarget] at hb
            cases hb
            exact hself ha
          · rw [directory_create_of_ne hane] at ha
            rw [directory_create_of_ne hbne] at hb
            exact hk.unique ha hb

theorem openFile (hk : k.Wf) (name : Name) (fd : Nat) : (k.openFile name fd).Wf := by
  refine (hk.create name).withDescriptors fun {fd' f} hfd' => ?_
  by_cases hne : fd' = fd
  · subst hne
    rw [update_self] at hfd'
    cases hfd'
    exact target_lt hk
  · rw [update_of_ne hne] at hfd'
    exact (hk.descriptors_lt hfd').trans_le length_files_create_le

theorem rename (hk : k.Wf) (old new : Name) : (k.rename old new).Wf := by
  by_cases hne : old = new
  · rw [Table.rename, if_pos hne]
    exact hk
  -- where a name stood before
  have hbefore : ∀ {name f}, (k.rename old new).directory name = some f →
      (name = new ∧ k.directory old = some f) ∨
        (name ≠ old ∧ name ≠ new ∧ k.directory name = some f) := by
    intro name f hname
    by_cases hold : name = old
    · subst hold
      rw [directory_rename_old hne] at hname
      cases hname
    by_cases hnew : name = new
    · subst hnew
      rw [directory_rename_new hne] at hname
      exact .inl ⟨rfl, hname⟩
    · rw [directory_rename_of_ne hold hnew] at hname
      exact .inr ⟨hold, hnew, hname⟩
  constructor
  case directory_lt =>
    intro name f hname
    rw [files_rename]
    rcases hbefore hname with ⟨-, hold⟩ | ⟨-, -, hname⟩
    · exact hk.directory_lt hold
    · exact hk.directory_lt hname
  case descriptors_lt =>
    intro fd f hfd
    rw [descriptors_rename] at hfd
    rw [files_rename]
    exact hk.descriptors_lt hfd
  case unique =>
    intro a b f ha hb
    rcases hbefore ha with ⟨hanew, hafile⟩ | ⟨haold, -, hafile⟩ <;>
      rcases hbefore hb with ⟨hbnew, hbfile⟩ | ⟨hbold, -, hbfile⟩
    · exact hanew.trans hbnew.symm
    · exact absurd (hk.unique hbfile hafile) hbold
    · exact absurd (hk.unique hafile hbfile) haold
    · exact hk.unique hafile hbfile

end Wf

/-! ## Which files have names -/

theorem named_create_iff :
    (k.create name).Named f ↔
      k.Named f ∨ (k.files.length ≤ f ∧ f < (k.create name).files.length) := by
  cases hname : k.directory name with
  | some g =>
      rw [directory_create_of_some hname]
      refine ⟨.inl, fun h => h.resolve_right fun hlt => ?_⟩
      omega
  | none =>
      have htarget : k.target name = k.files.length := by rw [target, hname]; rfl
      have hlen : (k.create name).files.length = k.files.length + 1 := by
        simp [create_of_none hname]
      rw [hlen]
      constructor
      · rintro ⟨other, hother⟩
        by_cases hne : other = name
        · subst hne
          rw [directory_create_self, htarget] at hother
          cases hother
          exact .inr ⟨le_rfl, Nat.lt_succ_self _⟩
        · rw [directory_create_of_ne hne] at hother
          exact .inl ⟨other, hother⟩
      · rintro (⟨other, hother⟩ | hlt)
        · have hne : other ≠ name := by
            rintro rfl
            rw [hname] at hother
            cases hother
          exact ⟨other, (directory_create_of_ne hne).trans hother⟩
        · obtain rfl : f = k.files.length := by omega
          exact ⟨name, directory_create_self.trans (congrArg some htarget)⟩

/-- Only the file whose name is taken loses it. -/
theorem named_rename_iff (hk : k.Wf) (hold : (k.directory old).isSome) :
    (k.rename old new).Named f ↔ k.Named f ∧ k.replaced old new ≠ some f := by
  by_cases hne : old = new
  · rw [rename, if_pos hne, replaced, if_pos hne]
    simp
  rw [replaced, if_neg hne]
  constructor
  · rintro ⟨name, hname⟩
    by_cases hnold : name = old
    · subst hnold
      rw [directory_rename_old hne] at hname
      cases hname
    by_cases hnnew : name = new
    · subst hnnew
      rw [directory_rename_new hne] at hname
      exact ⟨⟨old, hname⟩, fun hnew => hne (hk.unique hname hnew)⟩
    · rw [directory_rename_of_ne hnold hnnew] at hname
      exact ⟨⟨name, hname⟩, fun hnew => hnnew (hk.unique hname hnew)⟩
  · rintro ⟨⟨name, hname⟩, hnew⟩
    by_cases hnold : name = old
    · subst hnold
      exact ⟨new, (directory_rename_new hne).trans hname⟩
    have hnnew : name ≠ new := by
      rintro rfl
      exact hnew hname
    exact ⟨name, (directory_rename_of_ne hnold hnnew).trans hname⟩

end
end Table
end Files
end Deps
