import Mathlib.Logic.Basic
import Mathlib.Data.List.Basic
import Mathlib.Order.Bounds.Basic
import Mathlib.Order.Lattice

/-!
# Runs of a labelled transition system

A run is the list of its steps, each with the state it was taken in.  An
invariant which the steps keep under a condition holds in the states of the runs
whose steps meet the condition; where a step which does not meet it breaks the
invariant, these are the only runs.
-/

namespace Deps
namespace Runs

variable {S L : Type}

/-- The steps of a run from `s₀`, in the order they were taken, and its last
state. -/
inductive Run (step : S → L → S → Prop) (s₀ : S) : List (S × L) → S → Prop
  | start : Run step s₀ [] s₀
  | snoc {past s l s'} (hrun : Run step s₀ past s) (hstep : step s l s') :
      Run step s₀ (past ++ [(s, l)]) s'

/-- The condition holds of every step. -/
def Meets (Allowed : S → L → Prop) (past : List (S × L)) : Prop :=
  ∀ e ∈ past, Allowed e.1 e.2

/-- What is collected along a run grows at its end. -/
theorem filterMap_snoc {α β : Type} (f : α → Option β) (xs : List α) (x : α) :
    (xs ++ [x]).filterMap f = xs.filterMap f ++ (f x).toList := by
  rw [List.filterMap_append]
  cases hx : f x <;> simp [hx]

section

variable {step : S → L → S → Prop} {s₀ s : S} {past : List (S × L)}
  {Allowed : S → L → Prop} {Inv : S → Prop}

@[simp] theorem meets_nil : Meets Allowed [] := List.forall_mem_nil _

theorem meets_snoc {l : L} :
    Meets Allowed (past ++ [(s, l)]) ↔ Meets Allowed past ∧ Allowed s l := by
  simp only [Meets, List.mem_append, List.mem_singleton]
  refine ⟨fun h => ⟨fun e he => h e (.inl he), h (s, l) (.inr rfl)⟩, fun h e he => ?_⟩
  rcases he with he | rfl
  · exact h.1 e he
  · exact h.2

theorem Meets.of_append {rest : List (S × L)} (h : Meets Allowed (past ++ rest)) :
    Meets Allowed past := fun e he => h e (List.mem_append_left _ he)

/-- An invariant which allowed steps keep. -/
theorem Run.inv_of_meets (hrun : Run step s₀ past s) (hinit : Inv s₀)
    (hkeep : ∀ s l s', Inv s → Allowed s l → step s l s' → Inv s')
    (hmeets : Meets Allowed past) : Inv s := by
  induction hrun with
  | start => exact hinit
  | snoc _ hstep ih =>
      obtain ⟨hpast, hlast⟩ := meets_snoc.mp hmeets
      exact hkeep _ _ _ (ih hpast) hlast hstep

/-- An invariant which every step keeps. -/
theorem Run.inv (hrun : Run step s₀ past s) (hinit : Inv s₀)
    (hkeep : ∀ s l s', Inv s → step s l s' → Inv s') : Inv s := by
  have hmeets : Meets (fun _ _ => True) past := fun _ _ => trivial
  exact hrun.inv_of_meets hinit (fun s l s' hs _ hstep => hkeep s l s' hs hstep) hmeets

/-- A transitive relation between the states before and after each allowed step holds
between any two states of a run, the earlier and the later one. -/
theorem Run.pairwise_of_meets {R : S → S → Prop} (hrun : Run step s₀ past s) (Inv : S → Prop)
    (htrans : ∀ a b c, R a b → R b c → R a c) (hinit : Inv s₀)
    (hkeep : ∀ s l s', Inv s → Allowed s l → step s l s' → Inv s' ∧ R s s')
    (hmeets : Meets Allowed past) : (past.map Prod.fst ++ [s]).Pairwise R := by
  induction hrun with
  | start => exact List.pairwise_singleton R s₀
  | @snoc past s l s' hrun hstep ih =>
      obtain ⟨hpast, hlast⟩ := meets_snoc.mp hmeets
      have hs : Inv s := hrun.inv_of_meets hinit
        (fun s l s' hs hallowed hstep => (hkeep s l s' hs hallowed hstep).1) hpast
      have hbefore := ih hpast
      have hnext : R s s' := (hkeep s l s' hs hlast hstep).2
      rw [List.map_append, List.map_singleton, List.pairwise_append]
      refine ⟨hbefore, List.pairwise_singleton R s', fun x hx y hy => ?_⟩
      rw [List.mem_singleton.mp hy]
      rcases List.mem_append.mp hx with hx | hx
      · have hearlier := (List.pairwise_append.mp hbefore).2.2
        exact htrans x s s' (hearlier x hx s (List.mem_singleton_self s)) hnext
      · rw [List.mem_singleton.mp hx]
        exact hnext

/-- The states of a run satisfy `P` if and only if its steps are allowed, when a
step from a state with `P` leads to a state with `P` exactly if it is allowed.
`Inv` is what else is known of the states of runs. -/
theorem Run.forall_iff_meets (hrun : Run step s₀ past s) (Inv P : S → Prop) (hinv : Inv s₀)
    (hinit : P s₀) (hkeep : ∀ s l s', Inv s → step s l s' → Inv s')
    (hstep : ∀ s l s', Inv s → P s → step s l s' → (P s' ↔ Allowed s l)) :
    (∀ e ∈ past, P e.1) ∧ P s ↔ Meets Allowed past := by
  induction hrun with
  | start => exact iff_of_true ⟨List.forall_mem_nil _, hinit⟩ meets_nil
  | @snoc past s l s' hrun hlast ih =>
      have hs : Inv s := hrun.inv hinv hkeep
      rw [meets_snoc, ← ih]
      constructor
      · rintro ⟨hpast, hs'⟩
        have hP : P s := hpast (s, l) (List.mem_append_right _ (List.mem_singleton.mpr rfl))
        have hbefore : ∀ e ∈ past, P e.1 := fun e he => hpast e (List.mem_append_left _ he)
        exact ⟨⟨hbefore, hP⟩, (hstep s l s' hs hP hlast).mp hs'⟩
      · rintro ⟨⟨hbefore, hP⟩, hallowed⟩
        refine ⟨fun e he => ?_, (hstep s l s' hs hP hlast).mpr hallowed⟩
        rcases List.mem_append.mp he with he | he
        · exact hbefore e he
        · rw [List.mem_singleton.mp he]
          exact hP

/-! ## Transitions -/

/-- The steps of a run which has come to `s'`, with the states they led to. -/
def transitions : List (S × L) → S → List (S × L × S)
  | [], _ => []
  | [(s, l)], s' => [(s, l, s')]
  | (s, l) :: (s₁, l₁) :: rest, s' => (s, l, s₁) :: transitions ((s₁, l₁) :: rest) s'

theorem transitions_snoc (past : List (S × L)) (s : S) (l : L) (s' : S) :
    transitions (past ++ [(s, l)]) s' = transitions past s ++ [(s, l, s')] := by
  induction past with
  | nil => rfl
  | cons e rest ih =>
      cases rest with
      | nil => rfl
      | cons e' rest => exact congrArg (List.cons _) ih

/-- The steps of a run are good if and only if they are allowed, when this is so
for each step. -/
theorem Run.forall_transition_iff (hrun : Run step s₀ past s) (Good : S → L → S → Prop)
    (hinv : Inv s₀) (hkeep : ∀ s l s', Inv s → step s l s' → Inv s')
    (hstep : ∀ s l s', Inv s → step s l s' → (Good s l s' ↔ Allowed s l)) :
    (∀ e ∈ transitions past s, Good e.1 e.2.1 e.2.2) ↔ Meets Allowed past := by
  induction hrun with
  | start => exact iff_of_true (List.forall_mem_nil _) meets_nil
  | @snoc past s l s' hrun hlast ih =>
      have hs : Inv s := hrun.inv hinv hkeep
      rw [meets_snoc, ← ih, transitions_snoc, List.forall_mem_append, List.forall_mem_singleton,
        hstep s l s' hs hlast]

/-! ## Peaks -/

/-- The states of a run, up to the last one. -/
def visited (past : List (S × L)) (s : S) : Set S := {t | (∃ l, (t, l) ∈ past) ∨ t = s}

theorem visited_snoc (past : List (S × L)) (s : S) (l : L) (s' : S) :
    visited (past ++ [(s, l)]) s' = insert s' (visited past s) := by
  ext t
  simp only [visited, List.mem_append, List.mem_singleton, Prod.mk.injEq, Set.mem_ofPred_eq,
    Set.mem_insert_iff, exists_or]
  constructor
  · rintro ((hpast | ⟨_, rfl, -⟩) | rfl)
    · exact .inr (.inl hpast)
    · exact .inr (.inr rfl)
    · exact .inl rfl
  · rintro (rfl | hpast | rfl)
    · exact .inr rfl
    · exact .inl (.inl hpast)
    · exact .inl (.inr ⟨l, rfl, rfl⟩)

/-- A component which every step raises to the new value, if it is below, is the
greatest value so far. -/
theorem Run.isGreatest {N : Type} [LinearOrder N] (hrun : Run step s₀ past s)
    (value peak : S → N) (hinv : Inv s₀) (hinit : peak s₀ = value s₀)
    (hkeep : ∀ s l s', Inv s → step s l s' → Inv s')
    (hstep : ∀ s l s', Inv s → step s l s' → peak s' = max (peak s) (value s')) :
    IsGreatest (value '' visited past s) (peak s) := by
  induction hrun with
  | start =>
      have hvisited : visited ([] : List (S × L)) s₀ = {s₀} := by
        ext t
        simp [visited]
      rw [hvisited, Set.image_singleton, hinit]
      exact isGreatest_singleton
  | snoc hrun hlast ih =>
      rw [visited_snoc, Set.image_insert_eq, hstep _ _ _ (hrun.inv hinv hkeep) hlast, max_comm]
      exact ih.insert _

end

end Runs
end Deps
