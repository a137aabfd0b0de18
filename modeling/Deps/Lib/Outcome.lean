import Deps.Lib.Reentrant

/-!
# Outcomes of programs

A program which runs from beginning to end asks questions and makes callbacks;
`Outcome` says what it may have done when it is over, with everything the
application does during a callback taken as one step.  `Outcome.reaches` leads
back to the runs of a reentrant system.
-/

namespace Deps
namespace Reentrant

/-- What a program did, a callback with the worlds it was made in and returned in. -/
inductive Deed (W Q : Type) (A : Q → Type) (C : Type)
  | asked (q : Q) (a : A q)
  | called (c : C) (w : W) (r : Int) (w' : W)

/-- What a program may meet with while it runs. -/
structure Setting (W Q : Type) (A : Q → Type) (C : Type) where
  /-- the question may get this answer, with this effect on the world -/
  answers : W → (q : Q) → A q → W → Prop
  /-- the callback, made in the first world, may return this in the second one -/
  handles : C → W → Int → W → Prop

section

variable {W Q : Type} {A : Q → Type} {C F M V α β : Type}

/-- From the world `w` the program does `t` and ends in the world `w'`, with a
result or with a fault. -/
def Outcome (env : Setting W Q A C) :
    Prog W Q A C F α → W → List (Deed W Q A C) → Except F α → W → Prop
  | .done a, w, t, r, w' => t = [] ∧ r = .ok a ∧ w' = w
  | .act f k, w, t, r, w' => Outcome env (k w) (f w) t r w'
  | .ask q k, w, t, r, w' =>
      ∃ a w₁ rest, env.answers w q a w₁ ∧ t = .asked q a :: rest ∧ Outcome env (k a) w₁ rest r w'
  | .call c k, w, t, r, w' =>
      ∃ n w₁ rest, env.handles c w n w₁ ∧ t = .called c w n w₁ :: rest ∧
        Outcome env (k n) w₁ rest r w'
  | .fault why, w, t, r, w' => t = [] ∧ r = .error why ∧ w' = w

variable {env : Setting W Q A C} {w w' : W} {t : List (Deed W Q A C)}

@[simp] theorem outcome_read {f : W → Prog W Q A C F β} {r : Except F β} :
    Outcome env (Prog.read >>= f) w t r w' ↔ Outcome env (f w) w t r w' := Iff.rfl

/-- One program after another; a fault of the first one is the end of both. -/
theorem outcome_bind {x : Prog W Q A C F α} {f : α → Prog W Q A C F β} {r : Except F β} :
    Outcome env (x >>= f) w t r w' ↔
      (∃ a w₁ t₁ t₂, Outcome env x w t₁ (.ok a) w₁ ∧ Outcome env (f a) w₁ t₂ r w' ∧
        t = t₁ ++ t₂) ∨
      ∃ why, Outcome env x w t (.error why) w' ∧ r = .error why := by
  show Outcome env (x.bind f) w t r w' ↔ _
  induction x generalizing w t with
  | done a =>
      constructor
      · exact fun h => .inl ⟨a, w, [], t, ⟨rfl, rfl, rfl⟩, h, rfl⟩
      · rintro (⟨a', w₁, t₁, t₂, ⟨rfl, ha, rfl⟩, h, rfl⟩ | ⟨why, ⟨-, hwhy, -⟩, -⟩)
        · cases ha
          exact h
        · cases hwhy
  | act g k ih => exact ih w
  | ask q k ih =>
      constructor
      · rintro ⟨a, w₁, rest, ha, rfl, h⟩
        rcases (ih a).mp h with ⟨b, w₂, t₁, t₂, h₁, h₂, rfl⟩ | ⟨why, hfault, rfl⟩
        · exact .inl ⟨b, w₂, .asked q a :: t₁, t₂, ⟨a, w₁, t₁, ha, rfl, h₁⟩, h₂, rfl⟩
        · exact .inr ⟨why, ⟨a, w₁, rest, ha, rfl, hfault⟩, rfl⟩
      · rintro (⟨b, w₂, -, t₂, ⟨a, w₁, t₁, ha, rfl, h₁⟩, h₂, rfl⟩ |
          ⟨why, ⟨a, w₁, rest, ha, rfl, h⟩, rfl⟩)
        · exact ⟨a, w₁, t₁ ++ t₂, ha, rfl, (ih a).mpr (.inl ⟨b, w₂, t₁, t₂, h₁, h₂, rfl⟩)⟩
        · exact ⟨a, w₁, rest, ha, rfl, (ih a).mpr (.inr ⟨why, h, rfl⟩)⟩
  | call c k ih =>
      constructor
      · rintro ⟨n, w₁, rest, hn, rfl, h⟩
        rcases (ih n).mp h with ⟨b, w₂, t₁, t₂, h₁, h₂, rfl⟩ | ⟨why, hfault, rfl⟩
        · exact .inl ⟨b, w₂, .called c w n w₁ :: t₁, t₂, ⟨n, w₁, t₁, hn, rfl, h₁⟩, h₂, rfl⟩
        · exact .inr ⟨why, ⟨n, w₁, rest, hn, rfl, hfault⟩, rfl⟩
      · rintro (⟨b, w₂, -, t₂, ⟨n, w₁, t₁, hn, rfl, h₁⟩, h₂, rfl⟩ |
          ⟨why, ⟨n, w₁, rest, hn, rfl, h⟩, rfl⟩)
        · exact ⟨n, w₁, t₁ ++ t₂, hn, rfl, (ih n).mpr (.inl ⟨b, w₂, t₁, t₂, h₁, h₂, rfl⟩)⟩
        · exact ⟨n, w₁, rest, hn, rfl, (ih n).mpr (.inr ⟨why, h, rfl⟩)⟩
  | fault why =>
      constructor
      · rintro ⟨rfl, rfl, rfl⟩
        exact .inr ⟨why, ⟨rfl, rfl, rfl⟩, rfl⟩
      · rintro (⟨a, w₁, t₁, t₂, ⟨-, ha, -⟩, -⟩ | ⟨why', ⟨rfl, hwhy, rfl⟩, rfl⟩)
        · cases ha
        · cases hwhy
          exact ⟨rfl, rfl, rfl⟩

/-- Programs which both come to their ends. -/
theorem outcome_bind_ok {x : Prog W Q A C F α} {f : α → Prog W Q A C F β} {b : β}
    (h : Outcome env (x >>= f) w t (.ok b) w') :
    ∃ a w₁ t₁ t₂, Outcome env x w t₁ (.ok a) w₁ ∧ Outcome env (f a) w₁ t₂ (.ok b) w' ∧
      t = t₁ ++ t₂ := by
  rcases outcome_bind.mp h with hok | ⟨why, -, hwhy⟩
  · exact hok
  · cases hwhy

/-- The order in which programs are put together does not matter. -/
theorem outcome_assoc {γ : Type} {x : Prog W Q A C F α} {g : α → Prog W Q A C F β}
    {f : β → Prog W Q A C F γ} {r : Except F γ} :
    Outcome env ((x >>= g) >>= f) w t r w' ↔ Outcome env (x >>= fun a => g a >>= f) w t r w' := by
  rw [Prog.bind_assoc]

/-- A program ends, when its questions are answered and its callbacks return. -/
theorem exists_outcome (hanswers : ∀ w q, ∃ a w', env.answers w q a w')
    (hhandles : ∀ c w, ∃ n w', env.handles c w n w') (x : Prog W Q A C F α) (w : W) :
    ∃ t r w', Outcome env x w t r w' := by
  induction x generalizing w with
  | done a => exact ⟨[], .ok a, w, rfl, rfl, rfl⟩
  | act f k ih => exact ih w (f w)
  | ask q k ih =>
      obtain ⟨a, w₁, ha⟩ := hanswers w q
      obtain ⟨t, r, w', h⟩ := ih a w₁
      exact ⟨.asked q a :: t, r, w', a, w₁, t, ha, rfl, h⟩
  | call c k ih =>
      obtain ⟨n, w₁, hn⟩ := hhandles c w
      obtain ⟨t, r, w', h⟩ := ih n w₁
      exact ⟨.called c w n w₁ :: t, r, w', n, w₁, t, hn, rfl, h⟩
  | fault why => exact ⟨[], .error why, w, rfl, rfl, rfl⟩

/-! ## Outcomes and runs -/

/-- What a deed leaves in the history of a run. -/
def Deed.events : Deed W Q A C → List (Event Q A C M V)
  | .asked q a => [.asked q a]
  | .called c _ r _ => [.called c, .resumed c r]

/-- A program which may have this outcome gets there in a run, where during a
callback the world changes only as the environment may change it. -/
theorem Outcome.reaches {env' : Environment W Q A C M} {body : M → Prog W Q A C F V}
    {m : M} {fs : List (Frame W Q A C F M V)}
    (hanswers : ∀ {w q a w'}, env.answers w q a w' → env'.answers w q a w')
    (hhandles : ∀ {c w n w'}, env.handles c w n w' →
      env'.returns c n ∧ env'.interferes (c :: context fs) w w')
    {x : Prog W Q A C F V} {v : V} {h : List (Event Q A C M V)}
    (hx : Outcome env x w t (.ok v) w') :
    Reaches env' body ⟨h, w, some (m, x), fs⟩
      ⟨h ++ t.flatMap Deed.events, w', some (m, .done v), fs⟩ := by
  induction x generalizing h w t with
  | done a =>
      obtain ⟨rfl, hv, rfl⟩ := hx
      cases hv
      rw [List.flatMap_nil, List.append_nil]
      exact .refl
  | act f k ih => exact .head .act (ih w hx)
  | ask q k ih =>
      obtain ⟨a, w₁, rest, ha, rfl, hx⟩ := hx
      have hrest := ih a (h := h ++ [.asked q a]) hx
      rw [List.append_assoc] at hrest
      exact .head (.ask (hanswers ha)) hrest
  | call c k ih =>
      obtain ⟨n, w₁, rest, hn, rfl, hx⟩ := hx
      obtain ⟨hreturns, hinterferes⟩ := hhandles hn
      have hrest := ih n (h := h ++ [.called c] ++ [.resumed c n]) hx
      have hevents : h ++ [.called c] ++ [.resumed c n] ++ rest.flatMap Deed.events =
          h ++ (Deed.called c w n w₁ :: rest).flatMap Deed.events := by
        simp [Deed.events]
      rw [hevents] at hrest
      exact .head .call (.head (.interfere hinterferes) (.head (.resume hreturns) hrest))
  | fault why =>
      obtain ⟨-, hv, -⟩ := hx
      cases hv

end
end Reentrant
end Deps
