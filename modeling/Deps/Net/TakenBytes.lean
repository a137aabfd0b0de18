import Deps.Net.WireReading

/-!
# How far a reading gets

A reading takes at least the bytes of the shortest encoding, and moves the cursor over
bytes of the input only.
-/

namespace Deps
namespace Net
namespace Wire

open Unpack

/-! ## The bytes of a reading -/

/-- A reading which returns `v` has moved the cursor by `size v` bytes at least. -/
def Takes {β : Type} (read : UnpackM β) (size : β → Nat) : Prop :=
  ∀ u v mid, read u = (.ok v, mid) → u.data + size v ≤ mid.data

/-- The number of bytes of the shortest encoding. -/
def minLength : {α : Type} → Wire α → Nat
  | _, .bool | _, .uint8 => 1
  | _, .uint16 | _, .string => 2
  | _, .uint32 | _, .vector _ | _, .map _ _ _ | _, .set _ _ => 4
  | _, .uint64 | _, .int64 | _, .double => 8
  | _, .voidmable => 0
  | _, .pair x y | _, .record x y => minLength x + minLength y

section

variable {α β : Type} {read : UnpackM α} {size : α → Nat}

theorem takes_require_access {k : Nat} {what : String} {rest : List UInt8 → UnpackM α}
    (hrest : ∀ bytes u v mid, rest bytes u = (.ok v, mid) → u.data + k ≤ mid.data) :
    Takes (do
      require k what
      let bytes ← access k
      rest bytes) fun _ => k := by
  intro u v mid h
  rw [require_access_eq] at h
  split at h
  · cases h
  split at h
  · exact hrest _ u v mid h
  · cases h

theorem takes_fixed (k : Nat) (what : String) (decode : List UInt8 → α) :
    Takes (do
      require k what
      let bytes ← access k
      advance k
      pure (decode bytes)) fun _ => k := by
  refine takes_require_access fun bytes u v mid h => ?_
  cases h
  exact le_rfl

theorem takes_popDouble (h : Host) : Takes (popDouble h) fun _ => 8 := by
  refine takes_require_access fun bytes u v mid h => ?_
  cases h
  exact le_rfl

theorem takes_popVarstr (h : Host) : Takes (popVarstr h) fun _ => 2 := by
  intro u v fin hread
  obtain ⟨len, mid, hlen, hfetch⟩ := Throwing.of_bind_ok hread
  have htwo : u.data + 2 ≤ mid.data := takes_fixed 2 _ _ u len mid hlen
  have hrest : mid.data + len.toNat ≤ fin.data := takes_fixed _ _ _ mid v fin hfetch
  show u.data + 2 ≤ fin.data
  omega

theorem Takes.mono {size' : α → Nat} (h : Takes read size) (hsize : ∀ v, size' v ≤ size v) :
    Takes read size' := by
  intro u v fin hread
  have htaken := h u v fin hread
  have hle := hsize v
  omega

theorem Takes.map (h : Takes read size) {f : α → β} {size' : β → Nat}
    (hsize : ∀ v, size' (f v) ≤ size v) : Takes (do let v ← read; pure (f v)) size' := by
  intro u v fin hread
  obtain ⟨x, _, hx, hpure⟩ := Throwing.of_bind_ok hread
  cases hpure
  have htaken := h u x fin hx
  have hle := hsize x
  omega

theorem Takes.pair {read' : UnpackM β} {size' : β → Nat} (h : Takes read size)
    (h' : Takes read' size') : Takes (readPair read read') fun p => size p.1 + size' p.2 := by
  intro u p fin hread
  obtain ⟨x, mid, hx, hrest⟩ := Throwing.of_bind_ok hread
  obtain ⟨y, _, hy, hpure⟩ := Throwing.of_bind_ok hrest
  cases hpure
  have hfirst := h u x mid hx
  have hsecond := h' mid y _ hy
  dsimp only
  omega

theorem Takes.each (h : Takes read size) (count : Nat) :
    Takes (readEach read count) fun l => (l.map size).sum := by
  induction count with
  | zero =>
      intro u l fin hread
      cases hread
      exact le_rfl
  | succ count ih =>
      intro u l fin hread
      obtain ⟨x, mid, hx, hrest⟩ := Throwing.of_bind_ok hread
      obtain ⟨xs, _, hxs, hpure⟩ := Throwing.of_bind_ok hrest
      cases hpure
      have hfirst := h u x mid hx
      have hothers := ih mid xs _ hxs
      simp only [List.map_cons, List.sum_cons] at hothers ⊢
      omega

theorem Takes.counted (host : Host) (h : Takes read size) :
    Takes (readCounted host read) fun l => 4 + (l.map size).sum := by
  intro u l fin hread
  obtain ⟨count, mid, hcount, heach⟩ := Throwing.of_bind_ok hread
  have hfour : u.data + 4 ≤ mid.data := takes_fixed 4 _ _ u count mid hcount
  have hrest := h.each count.toNat mid l fin heach
  dsimp only at hrest ⊢
  omega

end

/-- A value takes the bytes of its shortest encoding. -/
theorem read_takes_minLength (h : Host) {α : Type} (w : Wire α) :
    Takes (w.read h) fun _ => w.minLength := by
  have hcount : ∀ {β : Type} {read : UnpackM β}, Takes read (fun _ => 0) →
      Takes (readCounted h read) fun _ => 4 := fun hread =>
    (hread.counted h).mono fun _ => Nat.le_add_right _ _
  induction w with
  | bool => exact (takes_fixed 1 _ _).map fun _ => le_rfl
  | uint8 => exact takes_fixed 1 _ _
  | uint16 => exact takes_fixed 2 _ _
  | uint32 => exact takes_fixed 4 _ _
  | uint64 => exact takes_fixed 8 _ _
  | int64 => exact (takes_fixed 8 _ _).map fun _ => le_rfl
  | double => exact takes_popDouble h
  | string => exact takes_popVarstr h
  | pair a b iha ihb | record a b iha ihb => exact iha.pair ihb
  | vector a ih => exact hcount (ih.mono fun _ => Nat.zero_le _)
  | map order a b iha ihb =>
      exact (hcount ((iha.pair ihb).mono fun _ => Nat.zero_le _)).map fun _ => le_rfl
  | set order a ih => exact (hcount (ih.mono fun _ => Nat.zero_le _)).map fun _ => le_rfl
  | voidmable =>
      intro u v fin hread
      cases hread
      exact le_rfl

/-! ## Where the cursor stays -/

/-- What stays when the cursor is moved over bytes of the input. -/
def Carried (P : Unpack → Prop) : Prop :=
  ∀ u k size, P u → u.data + k ≤ u.input.length → P ⟨u.input, u.data + k, size⟩

theorem carried_behind (n : Nat) : Carried fun u => n ≤ u.data :=
  fun _ _ _ hu _ => hu.trans (Nat.le_add_right _ _)

theorem carried_inside (input : List UInt8) :
    Carried fun u => u.input = input ∧ u.data ≤ input.length := by
  rintro u k size ⟨rfl, -⟩ hinside
  exact ⟨rfl, hinside⟩

section

variable {α β : Type} {P : Unpack → Prop} (hP : Carried P)
include hP

theorem keeps_require_access {k : Nat} {what : String} {rest : List UInt8 → UnpackM α}
    (hrest : ∀ bytes u, ∃ size, (rest bytes u).2 = ⟨u.input, u.data + k, size⟩) :
    Throwing.Keeps P (do
      require k what
      let bytes ← access k
      rest bytes) := by
  intro u hu
  rw [require_access_eq]
  split
  · exact hu
  split
  · rename_i hinside
    obtain ⟨size, heq⟩ := hrest ((u.input.drop u.data).take k) u
    rw [heq]
    exact hP u k size hu hinside
  · exact hu

theorem keeps_fixed (k : Nat) (what : String) (decode : List UInt8 → α) :
    Throwing.Keeps P (do
      require k what
      let bytes ← access k
      advance k
      pure (decode bytes)) :=
  keeps_require_access hP fun _ _ => ⟨_, rfl⟩

theorem keeps_counted (h : Host) {read : UnpackM α} (hread : Throwing.Keeps P read) :
    Throwing.Keeps P (readCounted h read) := by
  refine (keeps_fixed hP 4 _ _).bind fun count => ?_
  generalize count.toNat = n
  induction n with
  | zero => exact .pure _
  | succ n ih => exact hread.bind fun _ => ih.bind fun _ => .pure _

/-- A reading only moves the cursor, and only over bytes of the input. -/
theorem read_keeps (h : Host) (w : Wire α) : Throwing.Keeps P (w.read h) := by
  induction w with
  | bool => exact (keeps_fixed hP 1 _ _).bind fun _ => .pure _
  | uint8 => exact keeps_fixed hP 1 _ _
  | uint16 => exact keeps_fixed hP 2 _ _
  | uint32 => exact keeps_fixed hP 4 _ _
  | uint64 => exact keeps_fixed hP 8 _ _
  | int64 => exact (keeps_fixed hP 8 _ _).bind fun _ => .pure _
  | double => exact keeps_require_access hP fun _ _ => ⟨_, rfl⟩
  | string => exact (keeps_fixed hP 2 _ _).bind fun _ => keeps_fixed hP _ _ _
  | pair a b iha ihb => exact iha.bind fun _ => ihb.bind fun _ => .pure _
  | vector a ih => exact keeps_counted hP h ih
  | map order a b iha ihb =>
      exact (keeps_counted hP h (iha.bind fun _ => ihb.bind fun _ => .pure _)).bind fun _ => .pure _
  | set order a ih => exact (keeps_counted hP h ih).bind fun _ => .pure _
  | voidmable => exact .pure _
  | record a b iha ihb => exact iha.bind fun _ => ihb.bind fun _ => .pure _

end

theorem data_le_read (h : Host) {α : Type} (w : Wire α) (u : Unpack) :
    u.data ≤ (w.read h u).2.data :=
  read_keeps (carried_behind u.data) h w u le_rfl

/-- No reading of an input leaves the cursor behind its end. -/
theorem read_data_le (h : Host) {α : Type} (w : Wire α) (input : List UInt8) :
    (w.read h (Unpack.new input)).2.data ≤ input.length :=
  (read_keeps (carried_inside input) h w _ ⟨rfl, Nat.zero_le _⟩).2

end Wire
end Net
end Deps
