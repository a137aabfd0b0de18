import Mathlib.Logic.Relation
import Mathlib.Tactic

/-!
# Programs which call back

A program reads and changes a world, asks its environment questions, and calls
back into application code, which may do anything before it returns.  `wp` is
the weakest precondition of a program under a specification: an invariant which
holds whenever the application gets control, and a relation which the
application keeps while a callback is running.
-/

namespace Deps
namespace Reentrant

section

variable (W Q : Type) (A : Q → Type) (C F : Type)

/-- Programs over worlds `W`, questions `Q` with answers `A`, callbacks `C` which
return an integer, and faults `F`. -/
inductive Prog (α : Type) : Type
  | done (a : α)
  /-- change the world; the rest sees the world before the change -/
  | act (f : W → W) (k : W → Prog α)
  | ask (q : Q) (k : A q → Prog α)
  | call (c : C) (k : Int → Prog α)
  | fault (why : F)

end

section

variable {W Q : Type} {A : Q → Type} {C F α β : Type}

namespace Prog

def bind : Prog W Q A C F α → (α → Prog W Q A C F β) → Prog W Q A C F β
  | .done a, f => f a
  | .act g k, f => .act g fun w => bind (k w) f
  | .ask q k, f => .ask q fun a => bind (k a) f
  | .call c k, f => .call c fun r => bind (k r) f
  | .fault why, _ => .fault why

instance : Monad (Prog W Q A C F) where
  pure := .done
  bind := bind

theorem bind_assoc {γ : Type} (x : Prog W Q A C F α) (g : α → Prog W Q A C F β)
    (f : β → Prog W Q A C F γ) : (x >>= g) >>= f = x >>= fun a => g a >>= f := by
  show (x.bind g).bind f = x.bind fun a => (g a).bind f
  induction x with
  | done a => rfl
  | act k rest ih => exact congrArg (Prog.act k) (funext ih)
  | ask q rest ih => exact congrArg (Prog.ask q) (funext ih)
  | call c rest ih => exact congrArg (Prog.call c) (funext ih)
  | fault why => rfl

/-- Read the world. -/
def read : Prog W Q A C F W := .act id .done

def modify (f : W → W) : Prog W Q A C F Unit := .act f fun _ => .done ()

def question (q : Q) : Prog W Q A C F (A q) := .ask q .done

def callback (c : C) : Prog W Q A C F Int := .call c .done

end Prog
end

/-! ## Histories -/

/-- What happened in a run, as far as the environment sees it. -/
inductive Event (Q : Type) (A : Q → Type) (C M V : Type)
  | entered (m : M)
  | returned (m : M) (v : V)
  | asked (q : Q) (a : A q)
  | called (c : C)
  | resumed (c : C) (r : Int)

section

variable {W Q : Type} {A : Q → Type} {C F M V α β : Type}

/-- What the rest of the world may do.  `ctx` lists the callbacks which have not
returned yet, the innermost first. -/
structure Environment (W Q : Type) (A : Q → Type) (C M : Type) where
  /-- the question may get this answer, with this effect on the world -/
  answers : W → (q : Q) → A q → W → Prop
  /-- the application may call this method -/
  enters : List C → W → M → Prop
  /-- the callback may return this -/
  returns : C → Int → Prop
  /-- something which is not part of the system may change the world like this -/
  interferes : List C → W → W → Prop

/-- What a system is meant to keep. -/
structure Spec (W Q : Type) (A : Q → Type) (C F M V : Type) where
  /-- holds whenever the application has control -/
  inv : List C → List (Event Q A C M V) → W → Prop
  /-- relates the world at the start of the innermost callback to any later one
  in which the application has control inside it -/
  rel : List C → W → W → Prop
  /-- holds whenever a question is asked -/
  check : W → Q → Prop
  /-- the faults which may happen -/
  tolerated : F → Prop

/-- The weakest precondition of a program for `post`. -/
def wp (env : Environment W Q A C M) (spec : Spec W Q A C F M V) (ctx : List C) :
    Prog W Q A C F α → (α → List (Event Q A C M V) → W → Prop) →
      List (Event Q A C M V) → W → Prop
  | .done a, post, h, w => post a h w
  | .act f k, post, h, w => wp env spec ctx (k w) post h (f w)
  | .ask q k, post, h, w =>
      spec.check w q ∧
        ∀ a w', env.answers w q a w' → wp env spec ctx (k a) post (h ++ [.asked q a]) w'
  | .call c k, post, h, w =>
      spec.inv (c :: ctx) (h ++ [.called c]) w ∧
        ∀ r h' w', env.returns c r → spec.inv (c :: ctx) h' w' → spec.rel (c :: ctx) w w' →
          wp env spec ctx (k r) post (h' ++ [.resumed c r]) w'
  | .fault why, _, _, _ => spec.tolerated why

section Rules

variable {env : Environment W Q A C M} {spec : Spec W Q A C F M V} {ctx : List C}
  {h : List (Event Q A C M V)} {w : W}

@[simp] theorem wp_pure {a : α} {post : α → List (Event Q A C M V) → W → Prop} :
    wp env spec ctx (pure a : Prog W Q A C F α) post h w ↔ post a h w := Iff.rfl

@[simp] theorem wp_bind {x : Prog W Q A C F α} {f : α → Prog W Q A C F β}
    {post : β → List (Event Q A C M V) → W → Prop} :
    wp env spec ctx (x >>= f) post h w ↔
      wp env spec ctx x (fun a => wp env spec ctx (f a) post) h w := by
  -- every constructor hands `post` on to what follows it
  show wp env spec ctx (x.bind f) post h w ↔ _
  induction x generalizing h w with
  | done a => exact Iff.rfl
  | act g k ih => exact ih w
  | ask q k ih =>
      exact and_congr_right' (forall_congr' fun a => forall_congr' fun w' =>
        imp_congr_right fun _ => ih a)
  | call c k ih =>
      exact and_congr_right' (forall_congr' fun r => forall_congr' fun h' => forall_congr' fun w' =>
        imp_congr_right fun _ => imp_congr_right fun _ => imp_congr_right fun _ => ih r)
  | fault why => exact Iff.rfl

@[simp] theorem wp_read {post : W → List (Event Q A C M V) → W → Prop} :
    wp env spec ctx (Prog.read : Prog W Q A C F W) post h w ↔ post w h w := Iff.rfl

@[simp] theorem wp_modify {f : W → W} {post : Unit → List (Event Q A C M V) → W → Prop} :
    wp env spec ctx (Prog.modify f : Prog W Q A C F Unit) post h w ↔ post () h (f w) := Iff.rfl

/-- A stronger postcondition does as well. -/
theorem wp_mono {x : Prog W Q A C F α} {post post' : α → List (Event Q A C M V) → W → Prop}
    (hpost : ∀ a h w, post a h w → post' a h w) (hx : wp env spec ctx x post h w) :
    wp env spec ctx x post' h w := by
  induction x generalizing h w with
  | done a => exact hpost _ _ _ hx
  | act g k ih => exact ih w hx
  | ask q k ih => exact ⟨hx.1, fun a w' ha => ih a (hx.2 a w' ha)⟩
  | call c k ih =>
      exact ⟨hx.1, fun r h' w' hr hinv hrel => ih r (hx.2 r h' w' hr hinv hrel)⟩
  | fault why => exact hx

/-- One program after another. -/
theorem wp_seq {x : Prog W Q A C F α} {f : α → Prog W Q A C F β}
    {mid : α → List (Event Q A C M V) → W → Prop} {post : β → List (Event Q A C M V) → W → Prop}
    (hx : wp env spec ctx x mid h w)
    (hf : ∀ a h w, mid a h w → wp env spec ctx (f a) post h w) :
    wp env spec ctx (x >>= f) post h w :=
  wp_bind.mpr (wp_mono hf hx)

end Rules
end
end Reentrant
end Deps
