import Deps.Lib.Program

/-!
# Runs of a reentrant system

Control passes between the application and the methods of a system: the
application enters a method, the method runs until it returns or calls back, and
while the callback lasts the application may enter further methods.  The
suspended programs form a stack.  `Spec.Sound` asks for a weakest precondition
of each method; `safe_of_reaches` is what follows for every run.
-/

namespace Deps
namespace Reentrant

variable {W Q : Type} {A : Q → Type} {C F M V : Type}

/-- A method which waits for a callback to return. -/
structure Frame (W Q : Type) (A : Q → Type) (C F M V : Type) where
  callback : C
  method : M
  rest : Int → Prog W Q A C F V

structure Config (W Q : Type) (A : Q → Type) (C F M V : Type) where
  history : List (Event Q A C M V)
  world : W
  /-- the method which is running; there is none while the application has control -/
  running : Option (M × Prog W Q A C F V)
  suspended : List (Frame W Q A C F M V)

/-- The callbacks which have not returned yet. -/
def context (suspended : List (Frame W Q A C F M V)) : List C := suspended.map Frame.callback

/-- The application has control and no method has been entered yet. -/
def Config.start (w : W) : Config W Q A C F M V := ⟨[], w, none, []⟩

inductive Step (env : Environment W Q A C M) (body : M → Prog W Q A C F V) :
    Config W Q A C F M V → Config W Q A C F M V → Prop
  | act {h w m f k fs} :
      Step env body ⟨h, w, some (m, .act f k), fs⟩ ⟨h, f w, some (m, k w), fs⟩
  | ask {h w m q k fs a w'} (ha : env.answers w q a w') :
      Step env body ⟨h, w, some (m, .ask q k), fs⟩
        ⟨h ++ [.asked q a], w', some (m, k a), fs⟩
  | call {h w m c k fs} :
      Step env body ⟨h, w, some (m, .call c k), fs⟩
        ⟨h ++ [.called c], w, none, ⟨c, m, k⟩ :: fs⟩
  | done {h w m v fs} :
      Step env body ⟨h, w, some (m, .done v), fs⟩ ⟨h ++ [.returned m v], w, none, fs⟩
  | enter {h w fs m} (hm : env.enters (context fs) w m) :
      Step env body ⟨h, w, none, fs⟩ ⟨h ++ [.entered m], w, some (m, body m), fs⟩
  | resume {h w c m k fs r} (hr : env.returns c r) :
      Step env body ⟨h, w, none, ⟨c, m, k⟩ :: fs⟩ ⟨h ++ [.resumed c r], w, some (m, k r), fs⟩
  | interfere {h w w' fs} (hw : env.interferes (context fs) w w') :
      Step env body ⟨h, w, none, fs⟩ ⟨h, w', none, fs⟩

/-- The configurations of the runs from `c`. -/
def Reaches (env : Environment W Q A C M) (body : M → Prog W Q A C F V)
    (c c' : Config W Q A C F M V) : Prop :=
  Relation.ReflTransGen (Step env body) c c'

/-- What has to be proved of a specification, method by method. -/
structure Spec.Sound (spec : Spec W Q A C F M V) (env : Environment W Q A C M)
    (body : M → Prog W Q A C F V) : Prop where
  refl : ∀ ctx w, spec.rel ctx w w
  trans : ∀ ctx w w' w'', spec.rel ctx w w' → spec.rel ctx w' w'' → spec.rel ctx w w''
  interferes : ∀ ctx h w w', env.interferes ctx w w' → spec.inv ctx h w →
    spec.inv ctx h w' ∧ spec.rel ctx w w'
  methods : ∀ ctx h w m, env.enters ctx w m → spec.inv ctx h w →
    wp env spec ctx (body m)
      (fun v h' w' => spec.inv ctx (h' ++ [.returned m v]) w' ∧ spec.rel ctx w w')
      (h ++ [.entered m]) w

/-- Run the method until it returns, calls back or stops, for at most `n` steps,
with the answers which the function `answer` gives. -/
def Config.advance (answer : W → (q : Q) → A q) (effect : W → (q : Q) → A q → W) :
    Nat → Config W Q A C F M V → Config W Q A C F M V
  | n + 1, ⟨h, w, some (m, .act f k), fs⟩ =>
      advance answer effect n ⟨h, f w, some (m, k w), fs⟩
  | n + 1, ⟨h, w, some (m, .ask q k), fs⟩ =>
      let a := answer w q
      advance answer effect n ⟨h ++ [.asked q a], effect w q a, some (m, k a), fs⟩
  | _ + 1, ⟨h, w, some (m, .call c k), fs⟩ => ⟨h ++ [.called c], w, none, ⟨c, m, k⟩ :: fs⟩
  | _ + 1, ⟨h, w, some (m, .done v), fs⟩ => ⟨h ++ [.returned m v], w, none, fs⟩
  | _, c => c

/-- What the application does when it has control. -/
inductive Move (M : Type)
  | enter (m : M)
  | resume (r : Int)

def Move.Legal (env : Environment W Q A C M) : Move M → Config W Q A C F M V → Prop
  | .enter m, c => env.enters (context c.suspended) c.world m
  | .resume r, c => ∀ f ∈ c.suspended.head?, env.returns f.callback r

/-- A move gives control to a method. -/
def Config.move (body : M → Prog W Q A C F V) : Move M → Config W Q A C F M V → Config W Q A C F M V
  | .enter m, ⟨h, w, none, fs⟩ => ⟨h ++ [.entered m], w, some (m, body m), fs⟩
  | .resume r, ⟨h, w, none, ⟨c, m, k⟩ :: fs⟩ => ⟨h ++ [.resumed c r], w, some (m, k r), fs⟩
  | _, c => c

/-- A run: after each move the method runs for at most `n` steps. -/
def Config.play (body : M → Prog W Q A C F V) (answer : W → (q : Q) → A q)
    (effect : W → (q : Q) → A q → W) (n : Nat) :
    List (Move M) → Config W Q A C F M V → Config W Q A C F M V
  | [], c => c
  | m :: rest, c => play body answer effect n rest ((c.move body m).advance answer effect n)

/-- Every move of the run is legal when its turn comes. -/
def Config.Plays (env : Environment W Q A C M) (body : M → Prog W Q A C F V)
    (answer : W → (q : Q) → A q) (effect : W → (q : Q) → A q → W) (n : Nat) :
    List (Move M) → Config W Q A C F M V → Prop
  | [], _ => True
  | m :: rest, c =>
      m.Legal env c ∧ Plays env body answer effect n rest ((c.move body m).advance answer effect n)

section

variable {env : Environment W Q A C M} {body : M → Prog W Q A C F V}
  {spec : Spec W Q A C F M V}

theorem reaches_move {m : Move M} {c : Config W Q A C F M V} (hm : m.Legal env c) :
    Reaches env body c (c.move body m) := by
  obtain ⟨h, w, _ | _, fs⟩ := c
  · cases m with
    | enter m => exact .single (.enter hm)
    | resume r =>
        obtain _ | ⟨⟨c, m, k⟩, fs⟩ := fs
        · exact .refl
        · exact .single (.resume (hm _ rfl))
  · cases m <;> exact .refl

theorem reaches_advance {answer : W → (q : Q) → A q} {effect : W → (q : Q) → A q → W}
    (hanswer : ∀ w q, env.answers w q (answer w q) (effect w q (answer w q))) (n : Nat)
    (c : Config W Q A C F M V) : Reaches env body c (c.advance answer effect n) := by
  induction n generalizing c with
  | zero => exact .refl
  | succ n ih =>
      obtain ⟨h, w, _ | ⟨m, p⟩, fs⟩ := c
      · exact .refl
      cases p with
      | done v => exact .single .done
      | act f k => exact .head .act (ih _)
      | ask q k => exact .head (.ask (hanswer w q)) (ih _)
      | call c k => exact .single .call
      | fault why => exact .refl

theorem reaches_play {answer : W → (q : Q) → A q} {effect : W → (q : Q) → A q → W}
    (hanswer : ∀ w q, env.answers w q (answer w q) (effect w q (answer w q))) {n : Nat}
    {moves : List (Move M)} {c : Config W Q A C F M V}
    (hmoves : c.Plays env body answer effect n moves) :
    Reaches env body c (c.play body answer effect n moves) := by
  induction moves generalizing c with
  | nil => exact .refl
  | cons m rest ih =>
      obtain ⟨hm, hrest⟩ := hmoves
      exact ((reaches_move hm).trans (reaches_advance hanswer n _)).trans (ih hrest)

/-- What the method `m`, entered in the world `w₀`, has to achieve. -/
def Spec.Ends (spec : Spec W Q A C F M V) (ctx : List C) (m : M) (w₀ : W) (v : V)
    (h : List (Event Q A C M V)) (w : W) : Prop :=
  spec.inv ctx (h ++ [.returned m v]) w ∧ spec.rel ctx w₀ w

/-- The suspended methods can go on when their callbacks return, the innermost
one after the world has become `w`. -/
def Spec.Waits (spec : Spec W Q A C F M V) (env : Environment W Q A C M) :
    List (Frame W Q A C F M V) → W → Prop
  | [], _ => True
  | ⟨c, m, k⟩ :: fs, w =>
      ∃ wCall wEnter, spec.rel (c :: context fs) wCall w ∧ spec.Waits env fs wEnter ∧
        ∀ r h' w', env.returns c r → spec.inv (c :: context fs) h' w' →
          spec.rel (c :: context fs) wCall w' →
            wp env spec (context fs) (k r) (spec.Ends (context fs) m wEnter)
              (h' ++ [.resumed c r]) w'

/-- The invariant of runs. -/
def Spec.Safe (spec : Spec W Q A C F M V) (env : Environment W Q A C M)
    (c : Config W Q A C F M V) : Prop :=
  match c.running with
  | none => spec.inv (context c.suspended) c.history c.world ∧ spec.Waits env c.suspended c.world
  | some (m, p) =>
      ∃ wEnter, spec.Waits env c.suspended wEnter ∧
        wp env spec (context c.suspended) p (spec.Ends (context c.suspended) m wEnter)
          c.history c.world

theorem Spec.Waits.mono (hsound : spec.Sound env body) {fs : List (Frame W Q A C F M V)} {w w' : W}
    (hfs : spec.Waits env fs w) (hrel : spec.rel (context fs) w w') : spec.Waits env fs w' := by
  cases fs with
  -- the outer methods wait for their own callbacks, only the innermost one notices
  | nil => trivial
  | cons f fs =>
      obtain ⟨wCall, wEnter, hw, hwaits, hresume⟩ := hfs
      exact ⟨wCall, wEnter, hsound.trans _ _ _ _ hw hrel, hwaits, hresume⟩

/-- One step keeps the invariant. -/
theorem Spec.Safe.step (hsound : spec.Sound env body) {c c' : Config W Q A C F M V}
    (hc : spec.Safe env c) (hstep : Step env body c c') : spec.Safe env c' := by
  cases hstep with
  | act => exact hc
  | ask ha =>
      obtain ⟨wEnter, hwaits, hwp⟩ := hc
      exact ⟨wEnter, hwaits, hwp.2 _ _ ha⟩
  | call =>
      -- the caller is suspended in the world in which the callback starts
      obtain ⟨wEnter, hwaits, hinv, hresume⟩ := hc
      exact ⟨hinv, _, wEnter, hsound.refl _ _, hwaits, hresume⟩
  | done =>
      -- to the methods below, all of this method is one change made by their callback
      obtain ⟨wEnter, hwaits, hinv, hrel⟩ := hc
      exact ⟨hinv, hwaits.mono hsound hrel⟩
  | enter hm =>
      obtain ⟨hinv, hwaits⟩ := hc
      exact ⟨_, hwaits, hsound.methods _ _ _ _ hm hinv⟩
  | resume hr =>
      obtain ⟨hinv, wCall, wEnter, hrel, hwaits, hresume⟩ := hc
      exact ⟨wEnter, hwaits, hresume _ _ _ hr hinv hrel⟩
  | interfere hw =>
      obtain ⟨hinv, hwaits⟩ := hc
      obtain ⟨hinv', hrel⟩ := hsound.interferes _ _ _ _ hw hinv
      exact ⟨hinv', hwaits.mono hsound hrel⟩

/-- Every configuration of a run is safe. -/
theorem Spec.safe_of_reaches (hsound : spec.Sound env body) {w : W} {c : Config W Q A C F M V}
    (hinit : spec.inv [] [] w) (hc : Reaches env body (Config.start w) c) : spec.Safe env c := by
  induction hc with
  | refl => exact ⟨hinit, trivial⟩
  | tail _ hstep ih => exact ih.step hsound hstep

/-- Whenever the application has control, the invariant holds. -/
theorem Spec.inv_of_reaches (hsound : spec.Sound env body) {w : W} {c : Config W Q A C F M V}
    (hinit : spec.inv [] [] w) (hc : Reaches env body (Config.start w) c)
    (hidle : c.running = none) : spec.inv (context c.suspended) c.history c.world := by
  have hsafe := spec.safe_of_reaches hsound hinit hc
  rw [Spec.Safe, hidle] at hsafe
  exact hsafe.1

/-- Whenever a question is asked, its check holds. -/
theorem Spec.check_of_reaches (hsound : spec.Sound env body) {w : W} {c : Config W Q A C F M V}
    (hinit : spec.inv [] [] w) (hc : Reaches env body (Config.start w) c) {m : M} {q : Q}
    {k : A q → Prog W Q A C F V} (hasks : c.running = some (m, .ask q k)) :
    spec.check c.world q := by
  have hsafe := spec.safe_of_reaches hsound hinit hc
  rw [Spec.Safe, hasks] at hsafe
  obtain ⟨_, _, hcheck, _⟩ := hsafe
  exact hcheck

/-- Only tolerated faults happen. -/
theorem Spec.tolerated_of_reaches (hsound : spec.Sound env body) {w : W}
    {c : Config W Q A C F M V} (hinit : spec.inv [] [] w)
    (hc : Reaches env body (Config.start w) c) {m : M} {why : F}
    (hfault : c.running = some (m, .fault why)) : spec.tolerated why := by
  have hsafe := spec.safe_of_reaches hsound hinit hc
  rw [Spec.Safe, hfault] at hsafe
  obtain ⟨_, _, htolerated⟩ := hsafe
  exact htolerated

end
end Reentrant
end Deps
