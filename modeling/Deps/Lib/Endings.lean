import Deps.Lib.Reentrant

/-!
# Runs which end

A method ends by itself, since programs are well-founded.  What may go on for ever
is the application, or a chain of methods and callbacks each of which is inside
the one before.  In a limited run every callback enters a limited number of
methods before it returns; such a run ends when nesting callbacks lowers a rank.
-/

namespace Deps
namespace Reentrant

section

variable {W Q : Type} {A : Q → Type} {C F M V α β : Type}

/-- The program makes no other callbacks. -/
def Prog.CallsOnly (P : C → Prop) : Prog W Q A C F α → Prop
  | .done _ => True
  | .act _ k => ∀ w, CallsOnly P (k w)
  | .ask _ k => ∀ a, CallsOnly P (k a)
  | .call c k => P c ∧ ∀ r, CallsOnly P (k r)
  | .fault _ => True

theorem Prog.callsOnly_true (x : Prog W Q A C F α) : x.CallsOnly fun _ => True := by
  induction x with
  | done a => trivial
  | act f k ih => exact ih
  | ask q k ih => exact ih
  | call c k ih => exact ⟨trivial, ih⟩
  | fault why => trivial

theorem Prog.CallsOnly.bind {P : C → Prop} {x : Prog W Q A C F α} {f : α → Prog W Q A C F β}
    (hx : x.CallsOnly P) (hf : ∀ a, (f a).CallsOnly P) : (x >>= f).CallsOnly P := by
  show (x.bind f).CallsOnly P
  induction x with
  | done a => exact hf a
  | act g k ih => exact fun w => ih w (hx w)
  | ask q k ih => exact fun a => ih a (hx a)
  | call c k ih => exact ⟨hx.1, fun r => ih r (hx.2 r)⟩
  | fault why => trivial

/-- The steps of limited runs.  The numbers say how many methods each callback which
has not returned may enter still, and `may` says which callbacks are made. -/
inductive Limited (env : Environment W Q A C M) (body : M → Prog W Q A C F V)
    (may : List C → C → Prop) :
    Config W Q A C F M V × List Nat → Config W Q A C F M V × List Nat → Prop
  | act {h w m f k fs ns} :
      Limited env body may (⟨h, w, some (m, .act f k), fs⟩, ns)
        (⟨h, f w, some (m, k w), fs⟩, ns)
  | ask {h w m q k fs ns a w'} (ha : env.answers w q a w') :
      Limited env body may (⟨h, w, some (m, .ask q k), fs⟩, ns)
        (⟨h ++ [.asked q a], w', some (m, k a), fs⟩, ns)
  | call {h w m c k fs ns} (n : Nat) (hc : may (context fs) c) :
      Limited env body may (⟨h, w, some (m, .call c k), fs⟩, ns)
        (⟨h ++ [.called c], w, none, ⟨c, m, k⟩ :: fs⟩, n :: ns)
  | done {h w m v fs ns} :
      Limited env body may (⟨h, w, some (m, .done v), fs⟩, ns)
        (⟨h ++ [.returned m v], w, none, fs⟩, ns)
  | enter {h w f fs n ns m} (hm : env.enters (context (f :: fs)) w m) :
      Limited env body may (⟨h, w, none, f :: fs⟩, (n + 1) :: ns)
        (⟨h ++ [.entered m], w, some (m, body m), f :: fs⟩, n :: ns)
  | resume {h w c m k fs n ns r} (hr : env.returns c r) :
      Limited env body may (⟨h, w, none, ⟨c, m, k⟩ :: fs⟩, n :: ns)
        (⟨h ++ [.resumed c r], w, some (m, k r), fs⟩, ns)

/-- No limited run from here goes on for ever. -/
def Ends (env : Environment W Q A C M) (body : M → Prog W Q A C F V) (may : List C → C → Prop) :
    Config W Q A C F M V × List Nat → Prop :=
  Acc fun p' p => Limited env body may p p'

variable {env : Environment W Q A C M} {body : M → Prog W Q A C F V} {may : List C → C → Prop}
  {fs : List (Frame W Q A C F M V)} {ns : List Nat}

/-- Limited runs are runs. -/
theorem Limited.step {p p' : Config W Q A C F M V × List Nat} (h : Limited env body may p p') :
    Step env body p.1 p'.1 := by
  cases h with
  | act => exact .act
  | ask ha => exact .ask ha
  | call n hc => exact .call
  | done => exact .done
  | enter hm => exact .enter hm
  | resume hr => exact .resume hr

/-- A method which is running can go on, or has stopped with a fault. -/
theorem exists_step_of_running (hanswers : ∀ w q, ∃ a w', env.answers w q a w')
    {c : Config W Q A C F M V} {m : M} {x : Prog W Q A C F V} (hrunning : c.running = some (m, x)) :
    (∃ c', Step env body c c') ∨ ∃ why, x = .fault why := by
  obtain ⟨h, w, running, fs⟩ := c
  cases hrunning
  cases x with
  | done v => exact .inl ⟨_, .done⟩
  | act f k => exact .inl ⟨_, .act⟩
  | ask q k =>
      obtain ⟨a, w', ha⟩ := hanswers w q
      exact .inl ⟨_, .ask ha⟩
  | call c k => exact .inl ⟨_, .call⟩
  | fault why => exact .inr ⟨why, rfl⟩

/-- A method which is running gets to the point where the application has control, or
stops with a fault, before another method is entered. -/
theorem exists_idle_extension (hanswers : ∀ w q, ∃ a w', env.answers w q a w')
    (x : Prog W Q A C F V) (m : M) (h : List (Event Q A C M V)) (w : W) :
    ∃ c' es, Reaches env body ⟨h, w, some (m, x), fs⟩ c' ∧ c'.history = h ++ es ∧
      (∀ m', .entered m' ∉ es) ∧
      (c'.running = none ∨ ∃ why, c'.running = some (m, .fault why)) := by
  induction x generalizing h w with
  | done v => exact ⟨_, [.returned m v], .single .done, rfl, by simp, .inl rfl⟩
  | act f k ih =>
      obtain ⟨c', es, hreaches, hrest⟩ := ih w h (f w)
      exact ⟨c', es, .head .act hreaches, hrest⟩
  | ask q k ih =>
      obtain ⟨a, w', ha⟩ := hanswers w q
      obtain ⟨c', es, hreaches, hhistory, hentered, hrest⟩ := ih a (h ++ [.asked q a]) w'
      refine ⟨c', .asked q a :: es, .head (.ask ha) hreaches, ?_, fun m' hmem => ?_, hrest⟩
      · rw [hhistory, List.append_assoc]
        rfl
      · rcases List.mem_cons.mp hmem with heq | hmem
        · cases heq
        · exact hentered m' hmem
  | call c k => exact ⟨_, [.called c], .single .call, rfl, by simp, .inl rfl⟩
  | fault why =>
      exact ⟨_, [], .refl, (List.append_nil h).symm, by simp, .inr ⟨why, rfl⟩⟩

/-- What has happened before is not changed. -/
theorem exists_idle_of_running (hanswers : ∀ w q, ∃ a w', env.answers w q a w')
    (x : Prog W Q A C F V) (m : M) (h : List (Event Q A C M V)) (w : W) :
    ∃ c', Reaches env body ⟨h, w, some (m, x), fs⟩ c' ∧ h <+: c'.history ∧
      (c'.running = none ∨ ∃ why, c'.running = some (m, .fault why)) := by
  obtain ⟨c', es, hreaches, hhistory, -, hidle⟩ := exists_idle_extension hanswers x m h w
  exact ⟨c', hreaches, ⟨es, hhistory.symm⟩, hidle⟩

/-- A step adds at most one event to the history; the application has control when this
is a callback. -/
theorem Step.history {c c' : Config W Q A C F M V} (h : Step env body c c') :
    c'.history = c.history ∨
      ∃ e, c'.history = c.history ++ [e] ∧ ∀ x, e = .called x → c'.running = none := by
  cases h with
  | act | interfere => exact .inl rfl
  | call | done => exact .inr ⟨_, rfl, fun _ _ => rfl⟩
  | ask | enter | resume => exact .inr ⟨_, rfl, fun _ heq => by cases heq⟩

theorem Step.history_prefix {c c' : Config W Q A C F M V} (h : Step env body c c') :
    c.history <+: c'.history := by
  rcases h.history with heq | ⟨e, heq, -⟩
  · rw [heq]
  · rw [heq]
    exact List.prefix_append _ _

/-- A callback which is in the history was made, and then the application had control. -/
theorem exists_called_of_reaches {w : W} {c : Config W Q A C F M V}
    (hc : Reaches env body (Config.start w) c) {h₁ h₂ : List (Event Q A C M V)} {x : C}
    (hcalled : c.history = h₁ ++ .called x :: h₂) :
    ∃ c₁, Reaches env body (Config.start w) c₁ ∧ c₁.running = none ∧
      c₁.history = h₁ ++ [.called x] := by
  induction hc generalizing h₂ with
  | refl => cases h₁ <;> cases hcalled
  | @tail c c' hc hstep ih =>
      rcases hstep.history with hsame | ⟨e, hmore, hcall⟩
      · exact ih (hsame.symm.trans hcalled)
      rcases List.eq_nil_or_concat h₂ with rfl | ⟨h₃, e', rfl⟩
      · -- this step makes the callback
        obtain ⟨-, heq⟩ := List.append_inj' (hmore.symm.trans hcalled) rfl
        exact ⟨c', hc.tail hstep, hcall x (List.cons.inj heq).1, hcalled⟩
      · rw [List.concat_eq_append, ← List.cons_append, ← List.append_assoc, hmore] at hcalled
        exact ih (List.append_inj' hcalled rfl).1

/-- What holds of the histories with which the application gets control, and of the
beginnings of such histories, holds of every history. -/
theorem Spec.history_of_reaches {spec : Spec W Q A C F M V} (hsound : spec.Sound env body)
    (hanswers : ∀ w q, ∃ a w', env.answers w q a w') (hfaults : ∀ why, ¬spec.tolerated why)
    {P : List (Event Q A C M V) → Prop} (hbeginning : ∀ {h h'}, h <+: h' → P h' → P h)
    (hinv : ∀ ctx h w, spec.inv ctx h w → P h) {w : W} (hinit : spec.inv [] [] w)
    {c : Config W Q A C F M V} (hc : Reaches env body (Config.start w) c) : P c.history := by
  obtain ⟨h, w', _ | ⟨m, x⟩, fs⟩ := c
  · exact hinv _ _ _ (Spec.inv_of_reaches hsound hinit hc rfl)
  · obtain ⟨c', hreaches, hbegins, hidle⟩ : ∃ c', Reaches env body ⟨h, w', some (m, x), fs⟩ c' ∧
        h <+: c'.history ∧ (c'.running = none ∨ ∃ why, c'.running = some (m, .fault why)) :=
      exists_idle_of_running hanswers x m h w'
    rcases hidle with hidle | ⟨why, hfault⟩
    · exact hbeginning hbegins
        (hinv _ _ _ (Spec.inv_of_reaches hsound hinit (hc.trans hreaches) hidle))
    · exact absurd (Spec.tolerated_of_reaches hsound hinit (hc.trans hreaches) hfault)
        (hfaults why)

/-- A method ends if what comes after it ends, and its callbacks do. -/
theorem ends_running {P : C → Prop} (hreturn : ∀ h w, Ends env body may (⟨h, w, none, fs⟩, ns))
    (hcall : ∀ c m k n, P c → may (context fs) c →
      (∀ r h w, Ends env body may (⟨h, w, some (m, k r), fs⟩, ns)) →
      ∀ h w, Ends env body may (⟨h, w, none, ⟨c, m, k⟩ :: fs⟩, n :: ns))
    {x : Prog W Q A C F V} (hx : x.CallsOnly P) (m : M) (h : List (Event Q A C M V)) (w : W) :
    Ends env body may (⟨h, w, some (m, x), fs⟩, ns) := by
  induction x generalizing h w with
  | done v =>
      refine .intro _ fun p' hstep => ?_
      cases hstep
      exact hreturn _ _
  | act f k ih =>
      refine .intro _ fun p' hstep => ?_
      cases hstep
      exact ih _ (hx _) _ _
  | ask q k ih =>
      refine .intro _ fun p' hstep => ?_
      cases hstep
      exact ih _ (hx _) _ _
  | call c k ih =>
      refine .intro _ fun p' hstep => ?_
      cases hstep with
      | call n hc => exact hcall c m k n hx.1 hc (fun r h w => ih r (hx.2 r) h w) _ _
  | fault why =>
      refine .intro _ fun p' hstep => ?_
      cases hstep

section Rank

variable {Follows : C → C → Prop} {rank : List C → Nat}
  (hbody : ∀ {c ctx w m}, env.enters (c :: ctx) w m → (body m).CallsOnly (Follows c))
  (hrank : ∀ {c c' ctx}, Follows c c' → may (c :: ctx) c' → rank (c' :: c :: ctx) < rank (c :: ctx))
include hbody hrank

/-- A callback ends if the method which made it ends after it. -/
theorem ends_callback (c : C) (m : M) (k : Int → Prog W Q A C F V) (n : Nat)
    (hresume : ∀ r h w, Ends env body may (⟨h, w, some (m, k r), fs⟩, ns))
    (h : List (Event Q A C M V)) (w : W) :
    Ends env body may (⟨h, w, none, ⟨c, m, k⟩ :: fs⟩, n :: ns) := by
  -- on the rank of the stack, and for each stack on the number of calls which are left
  generalize hr : rank (context (⟨c, m, k⟩ :: fs)) = r
  induction r using Nat.strong_induction_on generalizing c m k n fs ns h w with
  | _ r ihrank =>
      subst hr
      induction n generalizing h w with
      | zero =>
          refine .intro _ fun p' hstep => ?_
          cases hstep with
          | resume => exact hresume _ _ _
      | succ n ihcalls =>
          refine .intro _ fun p' hstep => ?_
          cases hstep with
          | resume => exact hresume _ _ _
          | enter hm =>
              refine ends_running ihcalls (fun c' m' k' n' hfollows hmay hresume' h w => ?_)
                (hbody hm) _ _ _
              exact ihrank _ (hrank hfollows hmay) c' m' k' n' hresume' h w rfl

/-- **Limited runs end.** -/
theorem ends (p : Config W Q A C F M V × List Nat) : Ends env body may p := by
  have hidle : ∀ fs ns h w, Ends env body may (⟨h, w, none, fs⟩, ns) := by
    intro fs
    induction fs with
    | nil =>
        intro ns h w
        refine .intro _ fun p' hstep => ?_
        cases hstep
    | cons f fs ih =>
        intro ns h w
        cases ns with
        | nil =>
            refine .intro _ fun p' hstep => ?_
            cases hstep
        | cons n ns =>
            refine ends_callback hbody hrank f.callback f.method f.rest n (fun r h w => ?_) h w
            exact ends_running (ih ns) (fun c m k n _ _ => ends_callback hbody hrank c m k n)
              (Prog.callsOnly_true _) _ _ _
  obtain ⟨⟨h, w, running, fs⟩, ns⟩ := p
  cases running with
  | none => exact hidle fs ns h w
  | some running =>
      exact ends_running (hidle fs ns) (fun c m k n _ _ => ends_callback hbody hrank c m k n)
        (Prog.callsOnly_true _) _ _ _

end Rank
end
end Reentrant
end Deps
