import Mathlib.Logic.Basic

/-!
# Stateful computations which may throw

`Throwing ε σ` keeps the state a computation reached when it threw, as an object
does whose method is left by an exception.  The lemmas run a sequence of two
computations.  `Keeps` is an invariant of a computation, `Respects` the same for
two runs of it: a relation between the states which it carries on, and which it
cannot look behind.
-/

namespace Deps

/-- A computation on a state `σ` which returns or throws an `ε`, and leaves a
state either way. -/
abbrev Throwing (ε σ : Type) := ExceptT ε (StateM σ)

namespace Throwing

variable {ε σ α β : Type} {x : Throwing ε σ α} {f : α → Throwing ε σ β} {s s' mid : σ}

theorem bind_of_ok {a : α} (h : x s = (.ok a, mid)) : (x >>= f) s = f a mid := by
  show ((match x s with | (r, s) => ExceptT.bindCont f r s) : Except ε β × σ) = _
  rw [h]
  rfl

theorem bind_of_error {e : ε} (h : x s = (.error e, mid)) :
    (x >>= f) s = (.error e, mid) := by
  show ((match x s with | (r, s) => ExceptT.bindCont f r s) : Except ε β × σ) = _
  rw [h]
  rfl

/-- A bind throws with its first half, or goes on with the second. -/
theorem bind_split (x : Throwing ε σ α) (f : α → Throwing ε σ β) (s : σ) :
    (∃ a mid, x s = (.ok a, mid) ∧ (x >>= f) s = f a mid) ∨
      ∃ e mid, x s = (.error e, mid) ∧ (x >>= f) s = (.error e, mid) := by
  rcases hx : x s with ⟨e | a, mid⟩
  · exact .inr ⟨e, mid, rfl, bind_of_error hx⟩
  · exact .inl ⟨a, mid, rfl, bind_of_ok hx⟩

theorem of_bind_ok {b : β} (h : (x >>= f) s = (.ok b, s')) :
    ∃ a mid, x s = (.ok a, mid) ∧ f a mid = (.ok b, s') := by
  rcases bind_split x f s with ⟨a, mid, heq, hbind⟩ | ⟨e, mid, -, hbind⟩
  · exact ⟨a, mid, heq, hbind.symm.trans h⟩
  · rw [hbind] at h
    cases h

/-- A pure step behind leaves the state alone. -/
theorem bind_pure_state (x : Throwing ε σ α) (g : α → β) (s : σ) :
    ((do let a ← x; pure (g a) : Throwing ε σ β) s).2 = (x s).2 := by
  rcases bind_split x (fun a => pure (g a)) s with ⟨a, mid, heq, hbind⟩ | ⟨e, mid, heq, hbind⟩ <;>
    rw [hbind, heq]
  rfl

/-! ## Invariants -/

/-- `x` leaves a state with `P` in a state with `P`, also when it throws. -/
def Keeps (P : σ → Prop) (x : Throwing ε σ α) : Prop := ∀ s, P s → P (x s).2

namespace Keeps

variable {P : σ → Prop}

theorem pure (a : α) : Keeps P (Pure.pure a : Throwing ε σ α) := fun _ hs => hs

theorem bind (hx : Keeps P x) (hf : ∀ a, Keeps P (f a)) : Keeps P (x >>= f) := by
  intro s hs
  have hmid := hx s hs
  rcases bind_split x f s with ⟨a, mid, heq, hbind⟩ | ⟨e, mid, heq, hbind⟩
  · rw [heq] at hmid
    rw [hbind]
    exact hf a mid hmid
  · rw [heq] at hmid
    rw [hbind]
    exact hmid

end Keeps

/-! ## Two runs of one computation -/

/-- From states with `R`, `x` returns or throws the same and leaves states with `R`. -/
def Respects (R : σ → σ → Prop) (x : Throwing ε σ α) : Prop :=
  ∀ s t, R s t → (x s).1 = (x t).1 ∧ R (x s).2 (x t).2

namespace Respects

variable {R : σ → σ → Prop}

theorem pure (a : α) : Respects R (Pure.pure a : Throwing ε σ α) := fun _ _ hst => ⟨rfl, hst⟩

theorem throw (e : ε) : Respects R (MonadExcept.throw e : Throwing ε σ α) :=
  fun _ _ hst => ⟨rfl, hst⟩

theorem bind (hx : Respects R x) (hf : ∀ a, Respects R (f a)) : Respects R (x >>= f) := by
  intro s t hst
  obtain ⟨hsame, hmid⟩ := hx s t hst
  rcases bind_split x f s with ⟨a, mid, heq, hbind⟩ | ⟨e, mid, heq, hbind⟩ <;>
    rcases bind_split x f t with ⟨a', mid', heq', hbind'⟩ | ⟨e', mid', heq', hbind'⟩ <;>
    rw [heq, heq'] at hsame hmid <;>
    rw [hbind, hbind']
  · rw [← Except.ok.inj hsame]
    exact hf a mid mid' hmid
  · cases hsame
  · cases hsame
  · exact ⟨by rw [Except.error.inj hsame], hmid⟩

end Respects

end Throwing
end Deps
