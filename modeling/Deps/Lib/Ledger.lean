import Mathlib.Logic.Basic
import Mathlib.Tactic

/-!
# Exclusive resources

Holders take resources, hand them on and let them go.  The ledger of who holds
what is exact when the resources in use are those which somebody holds, and
nobody else holds them too.
-/

namespace Deps
namespace Ledger

variable {H R : Type}

/-- Every resource which is in use has one holder, and nobody holds another one. -/
structure Exact (holds : H → Option R) (used : R → Prop) : Prop where
  inUse : ∀ {h r}, holds h = some r → used r
  held : ∀ {r}, used r → ∃ h, holds h = some r
  unique : ∀ {h h' r}, holds h = some r → holds h' = some r → h = h'

section

variable {holds holds' : H → Option R} {used used' : R → Prop} {a b : H} {r : R}

/-- Nobody holds anything. -/
theorem exact_none (hholds : ∀ h, holds h = none) (hused : ∀ r, ¬ used r) : Exact holds used where
  inUse := by
    intro h r hh
    rw [hholds h] at hh
    cases hh
  held hr := absurd hr (hused _)
  unique := by
    intro h h' r hh
    rw [hholds h] at hh
    cases hh

namespace Exact

/-- The same holders hold the same resources. -/
theorem congr (hexact : Exact holds used) (hholds : ∀ h, holds' h = holds h)
    (hused : ∀ q, used' q ↔ used q) : Exact holds' used' where
  inUse := by
    intro h r hh
    rw [hholds] at hh
    exact (hused r).mpr (hexact.inUse hh)
  held := by
    intro r hr
    obtain ⟨h, hh⟩ := hexact.held ((hused r).mp hr)
    exact ⟨h, (hholds h).trans hh⟩
  unique := by
    intro h h' r hh hh'
    rw [hholds] at hh hh'
    exact hexact.unique hh hh'

/-- `a` takes a resource which is not in use. -/
theorem acquire (hexact : Exact holds used) (ha : holds a = none) (hr : ¬ used r)
    (hself : holds' a = some r) (hother : ∀ h, h ≠ a → holds' h = holds h)
    (hused : ∀ q, used' q ↔ q = r ∨ used q) : Exact holds' used' where
  inUse := by
    intro h q hh
    rw [hused]
    by_cases hha : h = a
    · subst hha
      exact .inl (Option.some.inj (hh.symm.trans hself))
    · rw [hother h hha] at hh
      exact .inr (hexact.inUse hh)
  held := by
    intro q hq
    rcases (hused q).mp hq with rfl | hq
    · exact ⟨a, hself⟩
    · obtain ⟨h, hh⟩ := hexact.held hq
      have hha : h ≠ a := by
        rintro rfl
        rw [ha] at hh
        cases hh
      exact ⟨h, (hother h hha).trans hh⟩
  unique := by
    -- whoever held it before would make it used
    have hfresh : ∀ {h q}, h ≠ a → holds' h = some q → q ≠ r := by
      rintro h q hha hh rfl
      rw [hother h hha] at hh
      exact hr (hexact.inUse hh)
    intro h h' q hh hh'
    by_cases hha : h = a <;> by_cases hha' : h' = a
    · exact hha.trans hha'.symm
    · subst hha
      exact absurd (Option.some.inj (hh.symm.trans hself)) (hfresh hha' hh')
    · subst hha'
      exact absurd (Option.some.inj (hh'.symm.trans hself)) (hfresh hha hh)
    · rw [hother h hha] at hh
      rw [hother h' hha'] at hh'
      exact hexact.unique hh hh'

/-- `a` lets its resource go. -/
theorem release (hexact : Exact holds used) (ha : holds a = some r) (hself : holds' a = none)
    (hother : ∀ h, h ≠ a → holds' h = holds h) (hused : ∀ q, used' q ↔ q ≠ r ∧ used q) :
    Exact holds' used' where
  inUse := by
    intro h q hh
    have hha : h ≠ a := by
      rintro rfl
      rw [hself] at hh
      cases hh
    rw [hother h hha] at hh
    refine (hused q).mpr ⟨?_, hexact.inUse hh⟩
    rintro rfl
    exact hha (hexact.unique hh ha)
  held := by
    intro q hq
    obtain ⟨hqr, hq⟩ := (hused q).mp hq
    obtain ⟨h, hh⟩ := hexact.held hq
    have hha : h ≠ a := by
      rintro rfl
      exact hqr (Option.some.inj (hh.symm.trans ha))
    exact ⟨h, (hother h hha).trans hh⟩
  unique := by
    intro h h' q hh hh'
    have hkept : ∀ {h q}, holds' h = some q → holds h = some q := by
      intro h q hh
      have hha : h ≠ a := by
        rintro rfl
        rw [hself] at hh
        cases hh
      exact (hother h hha).symm.trans hh
    exact hexact.unique (hkept hh) (hkept hh')

/-- `a` hands its resource on to `b`. -/
theorem transfer (hexact : Exact holds used) (hab : a ≠ b) (ha : holds a = some r)
    (hb : holds b = none) (haself : holds' a = none) (hbself : holds' b = some r)
    (hother : ∀ h, h ≠ a → h ≠ b → holds' h = holds h) (hused : ∀ q, used' q ↔ used q) :
    Exact holds' used' := by
  classical
  -- in between nobody has it
  have hreleased : Exact (fun h => if h = a then none else holds h) (fun q => q ≠ r ∧ used q) :=
    hexact.release ha (if_pos rfl) (fun h hh => if_neg hh) fun _ => Iff.rfl
  refine hreleased.acquire (a := b) (r := r) ?_ (fun h => h.1 rfl) hbself (fun h hhb => ?_)
    fun q => ?_
  · rw [if_neg hab.symm]
    exact hb
  · split
    · next hha => rw [hha, haself]
    · next hha => exact hother h hha hhb
  · rw [hused]
    by_cases hqr : q = r
    · subst hqr
      simp [hexact.inUse ha]
    · simp [hqr]

end Exact
end
end Ledger
end Deps
