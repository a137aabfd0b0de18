import Mathlib.Logic.Function.Basic
import Mathlib.Logic.Relation

/-!
# Parties on a network

Each party takes its own steps, at any time.  What it sends may be lost, delayed,
delivered more than once and in any order; nothing is delivered which nobody sent.
-/

namespace Deps
namespace Network

variable {ι S A B : Type}

/-- A party: its steps, and what it has sent and received so far. -/
structure Party (S A B : Type) where
  step : S → S → Prop
  sent : S → List A
  received : S → List B

/-- Who is on the network, and what may be received by `i` when `j` has sent it. -/
structure Parties (ι S A B : Type) where
  party : ι → Party S A B
  carries : ι → A → ι → B → Prop

/-- What `j` or somebody else has sent may be delivered to `i` as `b`. -/
def Parties.Delivers (N : Parties ι S A B) (c : ι → S) (i : ι) (b : B) : Prop :=
  ∃ j, ∃ a ∈ (N.party j).sent (c j), N.carries j a i b

/-- What a party has sent and received stays sent and received. -/
structure Parties.Remembers (N : Parties ι S A B) : Prop where
  sent : ∀ {i s s'}, (N.party i).step s s' → (N.party i).sent s ⊆ (N.party i).sent s'
  received : ∀ {i s s'}, (N.party i).step s s' → (N.party i).received s ⊆ (N.party i).received s'

theorem Parties.Remembers.run {N : Parties ι S A B} (hN : N.Remembers) {i : ι} {s s' : S}
    (h : Relation.ReflTransGen (N.party i).step s s') :
    (N.party i).sent s ⊆ (N.party i).sent s' ∧
      (N.party i).received s ⊆ (N.party i).received s' := by
  induction h with
  | refl => exact ⟨List.Subset.refl _, List.Subset.refl _⟩
  | tail _ hstep ih =>
      exact ⟨List.Subset.trans ih.1 (hN.sent hstep), List.Subset.trans ih.2 (hN.received hstep)⟩

section

variable [DecidableEq ι]

inductive Step (N : Parties ι S A B) : (ι → S) → (ι → S) → Prop
  | step {c : ι → S} {i : ι} {s : S} (hstep : (N.party i).step (c i) s)
      (hdelivers : ∀ b ∈ (N.party i).received s,
        b ∈ (N.party i).received (c i) ∨ N.Delivers c i b) :
      Step N c (Function.update c i s)

def Reaches (N : Parties ι S A B) : (ι → S) → (ι → S) → Prop := Relation.ReflTransGen (Step N)

variable {N : Parties ι S A B} {c c' c₀ : ι → S} {i : ι}

/-- A party has taken its own steps only. -/
theorem Step.party (h : Step N c c') (i : ι) :
    Relation.ReflTransGen (N.party i).step (c i) (c' i) := by
  cases h with
  | @step j s hstep _ =>
      by_cases hij : i = j
      · subst hij
        rw [Function.update_self]
        exact .single hstep
      · rw [Function.update_of_ne hij]

theorem Reaches.party (h : Reaches N c c') (i : ι) :
    Relation.ReflTransGen (N.party i).step (c i) (c' i) := by
  induction h with
  | refl => exact .refl
  | tail _ hstep ih => exact ih.trans (hstep.party i)

theorem Parties.Delivers.mono (hN : N.Remembers) (hstep : Step N c c') {b : B}
    (h : N.Delivers c i b) : N.Delivers c' i b := by
  obtain ⟨j, a, ha, hcarries⟩ := h
  exact ⟨j, a, (hN.run (hstep.party j)).1 ha, hcarries⟩

/-- **Nothing is made up.**  In every run, what a party has received was sent by some
party before. -/
theorem Reaches.delivers (hN : N.Remembers) (hstart : ∀ i, (N.party i).received (c₀ i) = [])
    (h : Reaches N c₀ c) {b : B} (hb : b ∈ (N.party i).received (c i)) : N.Delivers c i b := by
  induction h with
  | refl =>
      rw [hstart] at hb
      cases hb
  | @tail c c' _ hstep ih =>
      refine Parties.Delivers.mono hN hstep ?_
      cases hstep with
      | @step j s _ hdelivers =>
          by_cases hij : i = j
          · subst hij
            rw [Function.update_self] at hb
            exact (hdelivers b hb).elim ih id
          · rw [Function.update_of_ne hij] at hb
            exact ih hb

/-- A run of one party is a run of the network, when what it receives was sent by the
others. -/
theorem Reaches.of_party (hN : N.Remembers) {s : S}
    (h : Relation.ReflTransGen (N.party i).step (c i) s)
    (hdelivers : ∀ b ∈ (N.party i).received s, ∃ j ≠ i, ∃ a ∈ (N.party j).sent (c j),
      N.carries j a i b) : Reaches N c (Function.update c i s) := by
  induction h with
  | refl =>
      rw [Function.update_eq_self]
      exact .refl
  | @tail s s' _ hstep ih =>
      have hrun := ih fun b hb => hdelivers b (hN.received hstep hb)
      have hself : (Function.update c i s) i = s := Function.update_self i s c
      have hnext : Step N (Function.update c i s)
          (Function.update (Function.update c i s) i s') := by
        refine .step (by rwa [hself]) fun b hb => ?_
        -- the others have sent what they had sent before
        obtain ⟨j, hj, a, ha, hcarries⟩ := hdelivers b hb
        refine .inr ⟨j, a, ?_, hcarries⟩
        rwa [Function.update_of_ne hj]
      rw [Function.update_idem] at hnext
      exact hrun.tail hnext

end
end Network
end Deps
