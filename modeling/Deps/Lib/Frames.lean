import Mathlib.Data.List.Infix

/-!
# Frames in a stream

A stream is cut into frames by a function `len` which reads the length of a frame
off its first bytes.  Cutting a beginning of a stream gives the frames which are
there as a whole, and the beginning of the next one is left.
-/

namespace Deps
namespace Frames

variable {B : Type}

/-- Cut off frames as long as a whole one is at the front; the rest is what is left. -/
def cut (len : List B → Option Nat) : Nat → List B → List (List B) × List B
  | 0, data => ([], data)
  | fuel + 1, data =>
      match len data with
      | none => ([], data)
      | some n =>
          if n = 0 ∨ data.length < n then ([], data)
          else
            let rest := cut len fuel (data.drop n)
            (data.take n :: rest.1, rest.2)

/-- Each frame takes a byte at least, so there are not more of them than bytes. -/
def whole (len : List B → Option Nat) (data : List B) : List (List B) × List B :=
  cut len data.length data

/-- The length is found at the front of the frame, whatever follows it. -/
structure Delimited (len : List B → Option Nat) (frame : List B) : Prop where
  pos : 0 < frame.length
  len : ∀ rest, len (frame ++ rest) = some frame.length

/-- What has been read does not change when more arrives. -/
def Stable (len : List B → Option Nat) : Prop :=
  ∀ {data n}, len data = some n → ∀ more, len (data ++ more) = some n

section

variable {len : List B → Option Nat}

/-- The beginning of a frame is not cut off. -/
theorem cut_of_begun (hstable : Stable len) {frame data : List B} (hframe : Delimited len frame)
    (hbegins : data <+: frame) (hshort : data.length < frame.length) (fuel : Nat) :
    cut len fuel data = ([], data) := by
  cases fuel with
  | zero => rfl
  | succ fuel =>
      rw [cut]
      cases hlen : len data with
      | none => rfl
      | some n =>
          obtain ⟨more, rfl⟩ := hbegins
          have hn : n = (data ++ more).length := by
            have hall := hframe.len []
            rw [List.append_nil, hstable hlen more] at hall
            exact Option.some.inj hall
          exact if_pos (.inr (hn ▸ hshort))

/-- **Whole frames.**  From the beginning of a stream of frames the first ones are
cut off, and the beginning of the next one is left. -/
theorem cut_of_prefix (hstable : Stable len) {frames : List (List B)}
    (hframes : ∀ f ∈ frames, Delimited len f) {data : List B} (hdata : data <+: frames.flatten)
    {fuel : Nat} (hfuel : data.length ≤ fuel) :
    ∃ done ahead rest, frames = done ++ ahead ∧ data = done.flatten ++ rest ∧
      cut len fuel data = (done, rest) ∧ rest <+: ahead.flatten ∧
      ∀ f ∈ ahead.head?, rest.length < f.length := by
  induction frames generalizing data fuel with
  | nil =>
      obtain rfl := List.prefix_nil.mp hdata
      refine ⟨[], [], [], rfl, rfl, ?_, List.prefix_rfl, nofun⟩
      cases fuel with
      | zero => rfl
      | succ fuel =>
          rw [cut]
          cases hlen : len ([] : List B) with
          | none => rfl
          | some n =>
              refine if_pos ?_
              rw [List.length_nil]
              omega
  | cons frame frames ih =>
      have hframe := hframes frame List.mem_cons_self
      rw [List.flatten_cons] at hdata
      by_cases hshort : data.length < frame.length
      · -- the first frame is not there as a whole
        have hbegun : data <+: frame :=
          List.prefix_of_prefix_length_le hdata (List.prefix_append _ _) hshort.le
        refine ⟨[], frame :: frames, data, rfl, rfl, cut_of_begun hstable hframe hbegun hshort fuel,
          by rwa [List.flatten_cons], fun f hf => ?_⟩
        cases hf
        exact hshort
      · have hbegins : frame <+: data :=
          List.prefix_of_prefix_length_le (List.prefix_append _ _) hdata (Nat.le_of_not_lt hshort)
        obtain ⟨later, rfl⟩ := hbegins
        have hlater : later <+: frames.flatten := (List.prefix_append_right_inj frame).mp hdata
        have hpos := hframe.pos
        rw [List.length_append] at hfuel
        obtain ⟨fuel, rfl⟩ := Nat.exists_eq_succ_of_ne_zero (show fuel ≠ 0 by omega)
        obtain ⟨done, ahead, rest, rfl, rfl, hcut, hrest⟩ := ih
          (fun f hf => hframes f (List.mem_cons_of_mem _ hf)) hlater
          (show later.length ≤ fuel by omega)
        refine ⟨frame :: done, ahead, rest, rfl, by rw [List.flatten_cons, List.append_assoc],
          ?_, hrest⟩
        have hcond : ¬(frame.length = 0 ∨
            (frame ++ (done.flatten ++ rest)).length < frame.length) := by
          rw [List.length_append]
          omega
        rw [cut, hframe.len]
        dsimp only
        rw [if_neg hcond, List.drop_left, List.take_left, hcut]

/-- What arrives later does not change the frames which were there. -/
theorem whole_of_prefix (hstable : Stable len) {frames : List (List B)}
    (hframes : ∀ f ∈ frames, Delimited len f) {data : List B} (hdata : data <+: frames.flatten) :
    ∃ done ahead rest, frames = done ++ ahead ∧ data = done.flatten ++ rest ∧
      whole len data = (done, rest) ∧ rest <+: ahead.flatten ∧
      ∀ f ∈ ahead.head?, rest.length < f.length :=
  cut_of_prefix hstable hframes hdata le_rfl

/-- Nothing is left of frames which are there as a whole. -/
theorem whole_flatten (hstable : Stable len) {frames : List (List B)}
    (hframes : ∀ f ∈ frames, Delimited len f) : whole len frames.flatten = (frames, []) := by
  obtain ⟨done, ahead, rest, rfl, hdata, hwhole, -, hnext⟩ :=
    whole_of_prefix hstable hframes List.prefix_rfl
  rw [List.flatten_append] at hdata
  obtain rfl : ahead.flatten = rest := List.append_cancel_left hdata
  cases ahead with
  | nil => rwa [List.append_nil] at hwhole ⊢
  | cons f ahead =>
      have hshort := hnext f rfl
      rw [List.flatten_cons, List.length_append] at hshort
      omega

end
end Frames
end Deps
