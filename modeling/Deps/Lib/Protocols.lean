import Mathlib.Tactic

/-!
# Protocols

A protocol listens to a history and says after each event which ones may come next.
A history follows it when each of its events was allowed by those before it.
-/

namespace Deps

structure Protocol (S E : Type) where
  start : S
  hear : S → E → S
  allows : S → E → Prop

namespace Protocol

variable {S E : Type} {P : Protocol S E} {h h' : List E} {e : E}

/-- The state after the history. -/
def after (P : Protocol S E) (h : List E) : S := h.foldl P.hear P.start

def Follows (P : Protocol S E) (h : List E) : Prop :=
  ∀ before e rest, h = before ++ e :: rest → P.allows (P.after before) e

@[simp] theorem after_concat (P : Protocol S E) (h : List E) (e : E) :
    P.after (h ++ [e]) = P.hear (P.after h) e := by
  rw [after, List.foldl_concat]
  rfl

theorem follows_nil : P.Follows [] := fun _ _ _ heq => by simp at heq

theorem Follows.concat (hh : P.Follows h) (he : P.allows (P.after h) e) : P.Follows (h ++ [e]) := by
  intro before e' rest heq
  rcases List.eq_nil_or_concat rest with rfl | ⟨rest, y, rfl⟩
  -- the last event is the new one
  · obtain ⟨rfl, hlast⟩ := List.append_inj' heq rfl
    obtain rfl := (List.cons.inj hlast).1
    exact he
  · refine hh before e' rest ?_
    rw [List.concat_eq_append, ← List.cons_append, ← List.append_assoc] at heq
    exact (List.append_inj' heq rfl).1

/-- Every beginning of the history follows the protocol, too. -/
theorem Follows.of_prefix (hbegins : h <+: h') (hh : P.Follows h') : P.Follows h := by
  obtain ⟨more, rfl⟩ := hbegins
  intro before e rest heq
  refine hh before e (rest ++ more) ?_
  rw [heq, List.append_assoc, List.cons_append]

end Protocol
end Deps
