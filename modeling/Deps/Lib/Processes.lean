import Mathlib.Logic.Relation
import Mathlib.Tactic

/-!
# Processes which fork

A process has a state and code of its own.  A system call changes the state of the
process which makes it; `fork` adds a process with a state of its own, or fails.  The
processes take their steps in any order.

In a relay every process which has forked exits at once, so that one process carries
on.  `wp` is the weakest precondition of such code, and `relay_of_reaches` says that
this process is all there is to look at, however the steps interleave.
-/

namespace Deps
namespace Processes

/-- Where `fork` returns, and with what. -/
inductive Role where
  | failed
  | parent
  | child
  deriving DecidableEq, Repr

/-- Code which makes the calls `Q` with results `A`. -/
inductive Code (Q : Type) (A : Q → Type) (R : Type) : Type
  | ret (r : R)
  /-- the process ends with this status -/
  | exit (status : Int)
  | call (q : Q) (k : A q → Code Q A R)
  | fork (k : Role → Code Q A R)

structure Kernel (S Q : Type) (A : Q → Type) where
  /-- what a call returns, and the state in which it leaves the process -/
  answers : S → (q : Q) → A q → S → Prop
  /-- the state of a child -/
  spawns : S → S → Prop

structure Proc (S Q : Type) (A : Q → Type) (R : Type) where
  state : S
  code : Code Q A R

section

variable {S Q R R' : Type} {A : Q → Type}

namespace Code

def bind : Code Q A R → (R → Code Q A R') → Code Q A R'
  | .ret r, f => f r
  | .exit status, _ => .exit status
  | .call q k, f => .call q fun a => bind (k a) f
  | .fork k, f => .fork fun role => bind (k role) f

instance : Monad (Code Q A) where
  pure := .ret
  bind := bind

def ask (q : Q) : Code Q A (A q) := .call q .ret

def split : Code Q A Role := .fork .ret

end Code

/-! ## Steps -/

inductive Step (K : Kernel S Q A) : List (Proc S Q A R) → List (Proc S Q A R) → Prop
  | call {before after s q k a s'} (ha : K.answers s q a s') :
      Step K (before ++ ⟨s, .call q k⟩ :: after) (before ++ ⟨s', k a⟩ :: after)
  | fork {before after s k s'} (hs : K.spawns s s') :
      Step K (before ++ ⟨s, .fork k⟩ :: after)
        ((before ++ ⟨s, k .parent⟩ :: after) ++ [⟨s', k .child⟩])
  | forkFails {before after s k} :
      Step K (before ++ ⟨s, .fork k⟩ :: after) (before ++ ⟨s, k .failed⟩ :: after)

/-- From a process with this code. -/
def Reaches (K : Kernel S Q A) (s : S) (code : Code Q A R) (procs : List (Proc S Q A R)) : Prop :=
  Relation.ReflTransGen (Step K) [⟨s, code⟩] procs

/-! ## Relays -/

/-- In every run of the code as a relay, the process which carries on does not exit, and
returns with `post`. -/
def wp (K : Kernel S Q A) : Code Q A R → (R → S → Prop) → S → Prop
  | .ret r, post, s => post r s
  | .exit _, _, _ => False
  | .call q k, post, s => ∀ a s', K.answers s q a s' → wp K (k a) post s'
  | .fork k, post, s =>
      wp K (k .failed) post s ∧ k .parent = .exit 0 ∧ ∀ s', K.spawns s s' → wp K (k .child) post s'

/-- All processes but the last one exit, and the last one carries on. -/
def Relay (K : Kernel S Q A) (post : R → S → Prop) (procs : List (Proc S Q A R)) : Prop :=
  ∃ front p, procs = front ++ [p] ∧ (∀ q ∈ front, q.code = .exit 0) ∧ wp K p.code post p.state

variable {K : Kernel S Q A} {post : R → S → Prop} {procs procs' : List (Proc S Q A R)}

theorem wp_bind {x : Code Q A R'} {f : R' → Code Q A R} {s : S}
    (h : wp K x (fun r s => wp K (f r) post s) s) : wp K (x >>= f) post s := by
  show wp K (x.bind f) post s
  induction x generalizing s with
  | ret r => exact h
  | exit status => exact h.elim
  | call q k ih => exact fun a s' ha => ih a (h a s' ha)
  | fork k ih =>
      obtain ⟨hfailed, hparent, hchild⟩ := h
      refine ⟨ih .failed hfailed, ?_, fun s' hs => ih .child (hchild s' hs)⟩
      show (k .parent).bind f = .exit 0
      rw [hparent]
      rfl

theorem wp_mono {x : Code Q A R} {post' : R → S → Prop}
    (hpost : ∀ r s, post r s → post' r s) {s : S} (h : wp K x post s) : wp K x post' s := by
  induction x generalizing s with
  | ret r => exact hpost r s h
  | exit status => exact h
  | call q k ih => exact fun a s' ha => ih a (h a s' ha)
  | fork k ih =>
      obtain ⟨hfailed, hparent, hchild⟩ := h
      exact ⟨ih .failed hfailed, hparent, fun s' hs => ih .child (hchild s' hs)⟩

theorem wp_ask {q : Q} {post : A q → S → Prop} {s : S}
    (h : ∀ a s', K.answers s q a s' → post a s') : wp K (Code.ask q) post s := h

/-- The process at any place, or the last one. -/
theorem cons_eq_concat {α : Type} {before after front : List α} {x p : α}
    (h : before ++ x :: after = front ++ [p]) :
    x ∈ front ∨ (before = front ∧ x = p ∧ after = []) := by
  rcases List.eq_nil_or_concat after with rfl | ⟨after, y, rfl⟩
  · obtain ⟨rfl, heq⟩ := List.append_inj' h rfl
    exact .inr ⟨rfl, (List.cons.inj heq).1, rfl⟩
  · rw [List.concat_eq_append, ← List.cons_append, ← List.append_assoc] at h
    obtain ⟨rfl, -⟩ := List.append_inj' h rfl
    exact .inl (List.mem_append_right _ List.mem_cons_self)

/-- What the only process can do which has not come to its `exit`. -/
inductive Moves (K : Kernel S Q A) (front : List (Proc S Q A R)) :
    Proc S Q A R → List (Proc S Q A R) → Prop
  | call {s q k a s'} (ha : K.answers s q a s') :
      Moves K front ⟨s, .call q k⟩ (front ++ [⟨s', k a⟩])
  | fork {s k s'} (hs : K.spawns s s') :
      Moves K front ⟨s, .fork k⟩ (front ++ [⟨s, k .parent⟩] ++ [⟨s', k .child⟩])
  | forkFails {s k} : Moves K front ⟨s, .fork k⟩ (front ++ [⟨s, k .failed⟩])

/-- Only the last process of a relay takes steps. -/
theorem Step.moves {front : List (Proc S Q A R)} {p : Proc S Q A R}
    (hfront : ∀ q ∈ front, q.code = .exit 0) (hstep : Step K (front ++ [p]) procs') :
    Moves K front p procs' := by
  generalize heq : front ++ [p] = procs at hstep
  cases hstep with
  | call ha =>
      rcases cons_eq_concat heq.symm with hmem | ⟨rfl, rfl, rfl⟩
      · cases hfront _ hmem
      · exact .call ha
  | fork hs =>
      rcases cons_eq_concat heq.symm with hmem | ⟨rfl, rfl, rfl⟩
      · cases hfront _ hmem
      · exact .fork hs
  | forkFails =>
      rcases cons_eq_concat heq.symm with hmem | ⟨rfl, rfl, rfl⟩
      · cases hfront _ hmem
      · exact .forkFails

theorem forall_exit_concat {front : List (Proc S Q A R)} {p : Proc S Q A R}
    (hfront : ∀ q ∈ front, q.code = .exit 0) (hp : p.code = .exit 0) :
    ∀ q ∈ front ++ [p], q.code = .exit 0 := by
  intro q hq
  rcases List.mem_append.mp hq with hq | hq
  · exact hfront q hq
  · rw [List.mem_singleton.mp hq]
    exact hp

theorem Relay.step (h : Relay K post procs) (hstep : Step K procs procs') :
    Relay K post procs' := by
  obtain ⟨front, p, rfl, hfront, hwp⟩ := h
  cases hstep.moves hfront with
  | call ha => exact ⟨front, _, rfl, hfront, hwp _ _ ha⟩
  | fork hs =>
      -- the parent is one of those which exit now
      obtain ⟨-, hparent, hchild⟩ := hwp
      exact ⟨_, _, rfl, forall_exit_concat hfront hparent, hchild _ hs⟩
  | forkFails => exact ⟨front, _, rfl, hfront, hwp.1⟩

/-- A run from the last process of a relay, by its first step. -/
theorem runs_call (front : List (Proc S Q A R)) {s : S} {q : Q} {k : A q → Code Q A R} (a : A q)
    (s' : S) (ha : K.answers s q a s')
    (hrest : Relation.ReflTransGen (Step K) (front ++ [⟨s', k a⟩]) procs) :
    Relation.ReflTransGen (Step K) (front ++ [⟨s, .call q k⟩]) procs :=
  .head (.call ha) hrest

theorem runs_fork (front : List (Proc S Q A R)) {s : S} {k : Role → Code Q A R} (s' : S)
    (hs : K.spawns s s')
    (hrest : Relation.ReflTransGen (Step K) ((front ++ [⟨s, k .parent⟩]) ++ [⟨s', k .child⟩])
      procs) :
    Relation.ReflTransGen (Step K) (front ++ [⟨s, .fork k⟩]) procs :=
  .head (.fork hs) hrest

/-- **One process carries on**, however the steps interleave. -/
theorem relay_of_reaches {s : S} {code : Code Q A R} (hwp : wp K code post s)
    (h : Reaches K s code procs) : Relay K post procs := by
  induction h with
  | refl => exact ⟨[], _, rfl, List.forall_mem_nil _, hwp⟩
  | tail _ hstep ih => exact ih.step hstep

/-- The process which carries on has returned, or can go on. -/
theorem Relay.progress (h : Relay K post procs) (hanswers : ∀ s q, ∃ a s', K.answers s q a s') :
    (∃ front s r, procs = front ++ [⟨s, .ret r⟩]) ∨ ∃ procs', Step K procs procs' := by
  obtain ⟨front, ⟨s, code⟩, rfl, -, hwp⟩ := h
  cases code with
  | ret r => exact .inl ⟨front, s, r, rfl⟩
  | exit status => exact hwp.elim
  | call q k =>
      obtain ⟨a, s', ha⟩ := hanswers s q
      exact .inr ⟨_, .call ha⟩
  | fork k => exact .inr ⟨_, .forkFails⟩

/-- No run of a relay goes on for ever. -/
theorem Relay.ends (h : Relay K post procs) :
    Acc (fun procs' procs => Step K procs procs') procs := by
  obtain ⟨front, ⟨s, code⟩, rfl, hfront, hwp⟩ := h
  -- the code of the last process becomes shorter with every step
  induction code generalizing front s with
  | ret r =>
      refine .intro _ fun procs' hstep => ?_
      cases hstep.moves hfront
  | exit status => exact hwp.elim
  | call q k ih =>
      refine .intro _ fun procs' hstep => ?_
      cases hstep.moves hfront with
      | call ha => exact ih _ front _ hfront (hwp _ _ ha)
  | fork k ih =>
      obtain ⟨hfailed, hparent, hchild⟩ := hwp
      refine .intro _ fun procs' hstep => ?_
      cases hstep.moves hfront with
      | fork hs => exact ih .child _ _ (forall_exit_concat hfront hparent) (hchild _ hs)
      | forkFails => exact ih .failed front _ hfront hfailed

end
end Processes
end Deps
