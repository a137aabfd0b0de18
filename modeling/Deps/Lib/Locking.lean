import Deps.Lib.Monitor

/-!
# Methods under a lock

The steps inside the methods of a monitor: the mutex is taken and let go by calls of
their own, and every access to the fields is a step.  The mutex checks for errors,
and an error aborts the thread.  When every method keeps to its scope, `refines` says
that this is the monitor whose turns are atomic: nothing is aborted, only the owner of
the mutex is inside a scope, and the calls and returns are those of a run of turns.
-/

namespace Deps
namespace Locking

open Runs Monitor

/-- What a method does.  After a wait it goes on with other code. -/
inductive Code (M R : Type) : Type
  | lock (k : Code M R)
  | unlock (k : Code M R)
  | get (k : M → Code M R)
  | modify (f : M → M) (k : Code M R)
  | signal (k : Code M R)
  /-- wait on the condition, which lets the mutex go -/
  | wait
  | ret (r : R)

/-- The methods `O` of an object. -/
structure Programs (M O R : Type) where
  enter : O → Code M R
  /-- from the end of a wait on, when the mutex has been taken again -/
  resume : O → Wake → Code M R
  timed : O → Bool

/-! ## Scopes -/

namespace Code

variable {M R : Type}

def IsRet : Code M R → Prop
  | ret _ => True
  | _ => False

/-- The mutex is let go at once. -/
def Leaves : Code M R → Prop
  | unlock k => k.IsRet
  | _ => False

/-- Code for the owner of the mutex, which signals at its end at most. -/
def Inside : Code M R → Prop
  | lock _ => False
  | unlock k => k.IsRet
  | get k => ∀ m, (k m).Inside
  | modify _ k => k.Inside
  | signal k => k.Leaves
  | wait => True
  | ret _ => False

/-- What the code does next is for the owner of the mutex only: it accesses the fields,
signals, waits or lets the mutex go. -/
def Guarded : Code M R → Prop
  | get _ | modify _ _ | signal _ | wait | unlock _ => True
  | lock _ | ret _ => False

/-- Code which takes the mutex and is inside then. -/
def Scoped : Code M R → Prop
  | lock k => k.Inside
  | _ => False

/-- What the code does without interruption, to the end or to a wait. -/
def turn : Code M R → M → Turn M R
  | lock k, m => k.turn m
  | unlock k, m => k.turn m
  | get k, m => (k m).turn m
  | modify f k, m => k.turn (f m)
  | signal k, m => { k.turn m with signals := true }
  | wait, m => ⟨m, false, none⟩
  | ret r, m => ⟨m, false, some r⟩

theorem IsRet.exists {code : Code M R} (h : code.IsRet) : ∃ r, code = ret r := by
  cases code with
  | ret r => exact ⟨r, rfl⟩
  | lock | unlock | get | modify | signal | wait => exact h.elim

theorem Leaves.exists {code : Code M R} (h : code.Leaves) : ∃ r, code = unlock (ret r) := by
  cases code with
  | unlock k =>
      obtain ⟨r, rfl⟩ := IsRet.exists h
      exact ⟨r, rfl⟩
  | lock | get | modify | signal | wait | ret => exact h.elim

theorem Scoped.exists {code : Code M R} (h : code.Scoped) : ∃ k, code = lock k ∧ k.Inside := by
  cases code with
  | lock k => exact ⟨k, rfl, h⟩
  | unlock | get | modify | signal | wait | ret => exact h.elim

end Code

/-- Every method takes the mutex first and lets it go last. -/
structure Programs.Scoped {M O R : Type} (p : Programs M O R) : Prop where
  enter : ∀ op, (p.enter op).Scoped
  resume : ∀ op why, (p.resume op why).Inside

/-- The methods as turns. -/
def Programs.methods {M O R : Type} (p : Programs M O R) : Methods M O R where
  enter op m := (p.enter op).turn m
  resume op why m := (p.resume op why).turn m
  timed := p.timed

/-! ## Steps -/

inductive Phase (M O R : Type)
  | idle
  | running (op : O) (code : Code M R)
  | blocked (op : O)
  /-- its wait is over, and it does not have the mutex yet -/
  | woken (op : O) (why : Wake)
  /-- a call of the mutex or of the condition has failed -/
  | aborted

structure State (Thread M O R : Type) where
  shared : M
  owner : Option Thread
  phase : Thread → Phase M O R

inductive Label (Thread O : Type)
  | call (t : Thread) (op : O)
  /-- a step of `t`, in which a signal wakes the thread `u` -/
  | act (t : Thread) (u : Option Thread)
  | wake (t : Thread) (why : Wake)
  | ret (t : Thread)

section

variable {Thread M O R : Type} [DecidableEq Thread]

def State.start (m : M) : State Thread M O R := ⟨m, none, fun _ => .idle⟩

def State.move (s : State Thread M O R) (t : Thread) (p : Phase M O R) : State Thread M O R :=
  { s with phase := Function.update s.phase t p }

@[simp] theorem State.move_phase_self (s : State Thread M O R) (t : Thread) (p : Phase M O R) :
    (s.move t p).phase t = p := Function.update_self ..

theorem State.move_phase_of_ne (s : State Thread M O R) {t u : Thread} (hut : u ≠ t)
    (p : Phase M O R) : (s.move t p).phase u = s.phase u := Function.update_of_ne hut ..

inductive Step (p : Programs M O R) :
    State Thread M O R → Label Thread O → State Thread M O R → Prop
  | call {s} (t op) (ht : s.phase t = .idle) :
      Step p s (.call t op) (s.move t (.running op (p.enter op)))
  | lock {s t op k} (ht : s.phase t = .running op (.lock k)) (howner : s.owner = none) :
      Step p s (.act t none) ({ s with owner := some t }.move t (.running op k))
  /-- the owner would wait for itself -/
  | lockFails {s t op k} (ht : s.phase t = .running op (.lock k)) (howner : s.owner = some t) :
      Step p s (.act t none) (s.move t .aborted)
  | unlock {s t op k} (ht : s.phase t = .running op (.unlock k)) (howner : s.owner = some t) :
      Step p s (.act t none) ({ s with owner := none }.move t (.running op k))
  | unlockFails {s t op k} (ht : s.phase t = .running op (.unlock k))
      (howner : s.owner ≠ some t) : Step p s (.act t none) (s.move t .aborted)
  | get {s t op k} (ht : s.phase t = .running op (.get k)) :
      Step p s (.act t none) (s.move t (.running op (k s.shared)))
  | modify {s t op f k} (ht : s.phase t = .running op (.modify f k)) :
      Step p s (.act t none) ({ s with shared := f s.shared }.move t (.running op k))
  | signal {s t op k u op'} (ht : s.phase t = .running op (.signal k))
      (hu : s.phase u = .blocked op') :
      Step p s (.act t (some u)) ((s.move t (.running op k)).move u (.woken op' .signalled))
  | signalNobody {s t op k} (ht : s.phase t = .running op (.signal k))
      (hnobody : ∀ u op', s.phase u ≠ .blocked op') :
      Step p s (.act t none) (s.move t (.running op k))
  | wait {s t op} (ht : s.phase t = .running op .wait) (howner : s.owner = some t) :
      Step p s (.act t none) ({ s with owner := none }.move t (.blocked op))
  | waitFails {s t op} (ht : s.phase t = .running op .wait) (howner : s.owner ≠ some t) :
      Step p s (.act t none) (s.move t .aborted)
  | wake {s t op why} (ht : s.phase t = .blocked op) (hwhy : why ≠ .signalled)
      (htimed : why = .timedOut → p.timed op = true) :
      Step p s (.wake t why) (s.move t (.woken op why))
  | relock {s t op why} (ht : s.phase t = .woken op why) (howner : s.owner = none) :
      Step p s (.act t none)
        ({ s with owner := some t }.move t (.running op (p.resume op why)))
  | ret {s t op r} (ht : s.phase t = .running op (.ret r)) :
      Step p s (.ret t) (s.move t .idle)

end

section

variable {Thread M O R : Type}

/-! ## What callers see -/

inductive Observation (Thread O R : Type)
  | called (t : Thread) (op : O)
  | returned (t : Thread) (op : O) (r : R)

/-- What callers see of a step. -/
def observes : State Thread M O R × Label Thread O → Option (Observation Thread O R)
  | (_, .call t op) => some (.called t op)
  | (s, .ret t) =>
      match s.phase t with
      | .running op (.ret r) => some (.returned t op r)
      | _ => none
  | _ => none

/-- What callers see of a step of the monitor with atomic turns. -/
def observesTurn : System Thread M O R × Monitor.Label Thread O → Option (Observation Thread O R)
  | (_, .call t op) => some (.called t op)
  | (s, .ret t) =>
      match s.phase t with
      | .returning op r => some (.returned t op r)
      | _ => none
  | _ => none

/-- The calls and returns of a run, in their order. -/
def trace (past : List (State Thread M O R × Label Thread O)) : List (Observation Thread O R) :=
  past.filterMap observes

def traceOfTurns (past : List (System Thread M O R × Monitor.Label Thread O)) :
    List (Observation Thread O R) := past.filterMap observesTurn

/-! ## The simulation -/

/-- How a thread stands in the two systems.  Its turn is taken when it signals, or
else when it lets the mutex go. -/
inductive Stands (p : Programs M O R) (s : State Thread M O R) (c : System Thread M O R)
    (t : Thread) : Prop
  | idle (hs : s.phase t = .idle) (hc : c.phase t = .idle)
  | entering {op} (hs : s.phase t = .running op (p.enter op)) (hc : c.phase t = .entering op)
  /-- what is left of the turn is the code which is left -/
  | inside {op code} (hs : s.phase t = .running op code) (hinside : code.Inside)
      (howner : s.owner = some t)
      (hc : (c.phase t).turn p.methods c.shared = some (op, code.turn s.shared))
  | leaving {op r} (hs : s.phase t = .running op (.unlock (.ret r))) (howner : s.owner = some t)
      (hc : c.phase t = .returning op r) (hshared : c.shared = s.shared)
  | returning {op r} (hs : s.phase t = .running op (.ret r)) (hc : c.phase t = .returning op r)
  | blocked {op} (hs : s.phase t = .blocked op) (hc : c.phase t = .blocked op)
  | woken {op why} (hs : s.phase t = .woken op why) (hc : c.phase t = .woken op why)

structure Simulates (p : Programs M O R) (s : State Thread M O R) (c : System Thread M O R) :
    Prop where
  threads : ∀ t, Stands p s c t
  owner : ∀ t, s.owner = some t → ∃ op code, s.phase t = .running op code ∧ code.Inside
  free : s.owner = none → c.shared = s.shared

variable {p : Programs M O R} {s s' : State Thread M O R} {c c' : System Thread M O R}
  {t u : Thread} {op : O} {code : Code M R}

/-- The other threads stand as before, if the fields belong to none of them or do not
change. -/
theorem Stands.other (h : Stands p s c u) (hs : s'.phase u = s.phase u)
    (hc : c'.phase u = c.phase u)
    (hfields : s.owner ≠ some u ∨
      s'.owner = s.owner ∧ s'.shared = s.shared ∧ c'.shared = c.shared) :
    Stands p s' c' u := by
  cases h with
  | idle hs₁ hc₁ => exact .idle (hs.trans hs₁) (hc.trans hc₁)
  | entering hs₁ hc₁ => exact .entering (hs.trans hs₁) (hc.trans hc₁)
  | inside hs₁ hinside howner hc₁ =>
      obtain ⟨howner', hshared, hshared'⟩ := hfields.resolve_left (not_not.mpr howner)
      refine .inside (hs.trans hs₁) hinside (howner'.trans howner) ?_
      rw [hc, hshared, hshared', hc₁]
  | leaving hs₁ howner hc₁ heq =>
      obtain ⟨howner', hshared, hshared'⟩ := hfields.resolve_left (not_not.mpr howner)
      exact .leaving (hs.trans hs₁) (howner'.trans howner) (hc.trans hc₁)
        (hshared'.trans (heq.trans hshared.symm))
  | returning hs₁ hc₁ => exact .returning (hs.trans hs₁) (hc.trans hc₁)
  | blocked hs₁ hc₁ => exact .blocked (hs.trans hs₁) (hc.trans hc₁)
  | woken hs₁ hc₁ => exact .woken (hs.trans hs₁) (hc.trans hc₁)

namespace Simulates

/-- A thread which runs code is about to enter, inside its scope, or about to return. -/
theorem running (hp : p.Scoped) (h : Simulates p s c) (ht : s.phase t = .running op code) :
    (code.Scoped ∧ code = p.enter op ∧ c.phase t = .entering op) ∨
      (code.Inside ∧ s.owner = some t ∧
        (c.phase t).turn p.methods c.shared = some (op, code.turn s.shared)) ∨
      (∃ r, code = .unlock (.ret r) ∧ s.owner = some t ∧ c.phase t = .returning op r ∧
        c.shared = s.shared) ∨
      ∃ r, code = .ret r ∧ c.phase t = .returning op r := by
  cases h.threads t with
  | idle hs | blocked hs | woken hs => cases ht.symm.trans hs
  | entering hs hc =>
      cases ht.symm.trans hs
      exact .inl ⟨hp.enter op, rfl, hc⟩
  | inside hs hinside howner hc =>
      cases ht.symm.trans hs
      exact .inr (.inl ⟨hinside, howner, hc⟩)
  | leaving hs howner hc hshared =>
      cases ht.symm.trans hs
      exact .inr (.inr (.inl ⟨_, rfl, howner, hc, hshared⟩))
  | returning hs hc =>
      cases ht.symm.trans hs
      exact .inr (.inr (.inr ⟨_, rfl, hc⟩))

/-- Code which neither takes the mutex, nor lets it go, nor returns is inside. -/
theorem inside (hp : p.Scoped) (h : Simulates p s c) (ht : s.phase t = .running op code)
    (hscoped : ¬code.Scoped) (hleaves : ¬code.Leaves) (hret : ¬code.IsRet) :
    code.Inside ∧ s.owner = some t ∧
      (c.phase t).turn p.methods c.shared = some (op, code.turn s.shared) := by
  rcases h.running hp ht with ⟨henter, -⟩ | hinside | ⟨r, rfl, -⟩ | ⟨r, rfl, -⟩
  · exact absurd henter hscoped
  · exact hinside
  · exact absurd trivial hleaves
  · exact absurd trivial hret

theorem idle_of_idle (h : Simulates p s c) (ht : s.phase t = .idle) : c.phase t = .idle := by
  cases h.threads t with
  | idle _ hc => exact hc
  | entering hs | inside hs | leaving hs | returning hs | blocked hs | woken hs =>
      cases ht.symm.trans hs

theorem blocked_iff (h : Simulates p s c) : c.phase t = .blocked op ↔ s.phase t = .blocked op := by
  cases h.threads t with
  | blocked hs hc => rw [hs, hc, Monitor.Phase.blocked.injEq, Phase.blocked.injEq]
  | idle hs hc | entering hs hc | leaving hs _ hc | returning hs hc | woken hs hc => simp [hs, hc]
  | inside hs _ _ hc =>
      -- a thread which has a turn is not blocked
      refine iff_of_false (fun hblocked => ?_) (by simp [hs])
      rw [hblocked] at hc
      cases hc

theorem woken_of_woken (h : Simulates p s c) {why : Wake} (ht : s.phase t = .woken op why) :
    c.phase t = .woken op why := by
  cases h.threads t with
  | woken hs hc =>
      cases ht.symm.trans hs
      exact hc
  | idle hs | entering hs | inside hs | leaving hs | returning hs | blocked hs =>
      cases ht.symm.trans hs

theorem not_owner (h : Simulates p s c)
    (ht : ∀ op code, s.phase t = .running op code → ¬code.Inside) : s.owner ≠ some t := by
  intro howner
  obtain ⟨op, code, hphase, hinside⟩ := h.owner t howner
  exact ht op code hphase hinside

/-- No call of the mutex or of the condition fails. -/
theorem not_aborted (h : Simulates p s c) (t : Thread) : s.phase t ≠ .aborted := by
  intro ht
  cases h.threads t with
  | idle hs | entering hs | inside hs | leaving hs | returning hs | blocked hs | woken hs =>
      cases ht.symm.trans hs

/-- Only the owner of the mutex does what is for the owner. -/
theorem owner_of_guarded (hp : p.Scoped) (h : Simulates p s c)
    (ht : s.phase t = .running op code) (hguarded : code.Guarded) : s.owner = some t := by
  rcases h.running hp ht with ⟨hscoped, -⟩ | ⟨-, howner, -⟩ | ⟨r, -, howner, -⟩ | ⟨r, rfl, -⟩
  · obtain ⟨k, rfl, -⟩ := hscoped.exists
    exact hguarded.elim
  · exact howner
  · exact howner
  · exact hguarded.elim

end Simulates

end

section

variable {Thread M O R : Type} [DecidableEq Thread] {p : Programs M O R}
  {s s' : State Thread M O R} {c c' : System Thread M O R} {t u : Thread} {op : O}
  {code : Code M R} {l : Label Thread O} {m : M}

namespace Simulates

/-- `t` takes a step while no other thread is inside, and is inside afterwards. -/
theorem owned (h : Simulates p s c) (hfree : ∀ u ≠ t, s.owner ≠ some u)
    (hs : ∀ u ≠ t, s'.phase u = s.phase u) (hc : ∀ u ≠ t, c'.phase u = c.phase u)
    (ht : s'.phase t = .running op code) (hinside : code.Inside) (howner : s'.owner = some t)
    (hstands : Stands p s' c' t) : Simulates p s' c' where
  threads u := by
    by_cases hut : u = t
    · exact hut ▸ hstands
    · exact (h.threads u).other (hs u hut) (hc u hut) (.inl (hfree u hut))
  owner u hu := by
    rw [howner] at hu
    cases hu
    exact ⟨op, code, ht, hinside⟩
  free hnone := by rw [howner] at hnone; cases hnone

/-- The owner lets the mutex go. -/
theorem released (h : Simulates p s c) (howner : s.owner = some t)
    (hs : ∀ u ≠ t, s'.phase u = s.phase u) (hc : ∀ u ≠ t, c'.phase u = c.phase u)
    (howner' : s'.owner = none) (hshared : c'.shared = s'.shared) (hstands : Stands p s' c' t) :
    Simulates p s' c' where
  threads u := by
    by_cases hut : u = t
    · exact hut ▸ hstands
    · have hother : s.owner ≠ some u := fun hu => hut (Option.some.inj (hu.symm.trans howner))
      exact (h.threads u).other (hs u hut) (hc u hut) (.inl hother)
  owner u hu := by rw [howner'] at hu; cases hu
  free _ := hshared

/-- A thread which is not inside changes its phase. -/
theorem aside (h : Simulates p s c) (ht : s.owner ≠ some t) {ps : Phase M O R}
    {pc : Monitor.Phase O R} (hstands : Stands p (s.move t ps) (c.move t pc) t) :
    Simulates p (s.move t ps) (c.move t pc) where
  threads u := by
    by_cases hut : u = t
    · exact hut ▸ hstands
    · exact (h.threads u).other (s.move_phase_of_ne hut ps) (c.move_phase_of_ne hut pc)
        (.inr ⟨rfl, rfl, rfl⟩)
  owner u hu := by
    have hut : u ≠ t := by
      rintro rfl
      exact ht hu
    rw [s.move_phase_of_ne hut]
    exact h.owner u hu
  free := h.free

/-- The owner takes a step which is a part of its turn. -/
theorem part (h : Simulates p s c) (howner : s.owner = some t) {m : M}
    (hinside : code.Inside)
    (hc : (c.phase t).turn p.methods c.shared = some (op, code.turn m)) :
    Simulates p ({ s with shared := m }.move t (.running op code)) c := by
  have hother : ∀ u ≠ t, s.owner ≠ some u :=
    fun u hut hu => hut (Option.some.inj (hu.symm.trans howner))
  refine h.owned hother (fun u hut => State.move_phase_of_ne _ hut _) (fun _ _ => rfl)
    (State.move_phase_self _ _ _) hinside howner ?_
  exact .inside (State.move_phase_self _ _ _) hinside howner hc

/-- A thread gets the mutex. -/
theorem acquired (h : Simulates p s c) (hfree : s.owner = none) (hinside : code.Inside)
    (hc : (c.phase t).turn p.methods c.shared = some (op, code.turn c.shared)) :
    Simulates p ({ s with owner := some t }.move t (.running op code)) c := by
  have hother : ∀ u ≠ t, s.owner ≠ some u := fun u _ hu => by
    rw [hfree] at hu
    cases hu
  refine h.owned hother (fun u hut => State.move_phase_of_ne _ hut _) (fun _ _ => rfl)
    (State.move_phase_self _ _ _) hinside rfl ?_
  refine .inside (State.move_phase_self _ _ _) hinside rfl ?_
  rw [h.free hfree] at hc ⊢
  exact hc

/-- The owner signals, and only has to let the mutex go then. -/
theorem signalled (h : Simulates p s c) (howner : s.owner = some t) {r : R} {turn : Turn M R}
    (hresult : turn.result = some r) (hshared : turn.shared = s.shared) :
    Simulates p (s.move t (.running op (.unlock (.ret r)))) (c.after t op turn) := by
  have hother : ∀ u ≠ t, s.owner ≠ some u :=
    fun u hut hu => hut (Option.some.inj (hu.symm.trans howner))
  have hphase : (c.after t op turn).phase t = .returning op r := by
    rw [System.after, System.move_phase_self, Turn.next, hresult]
  refine h.owned hother (fun u hut => State.move_phase_of_ne _ hut _)
    (fun u hut => System.move_phase_of_ne _ hut _) (State.move_phase_self _ _ _) trivial howner ?_
  exact .leaving (State.move_phase_self _ _ _) howner hphase hshared

/-- The signal of the owner wakes a thread. -/
theorem signalledTo (h : Simulates p s c) (howner : s.owner = some t) {r : R} {turn : Turn M R}
    (hresult : turn.result = some r) (hshared : turn.shared = s.shared) {op' : O}
    (hut : u ≠ t) : Simulates p
      ((s.move t (.running op (.unlock (.ret r)))).move u (.woken op' .signalled))
      ((c.after t op turn).move u (.woken op' .signalled)) := by
  have hother : s.owner ≠ some u := fun hu => hut (Option.some.inj (hu.symm.trans howner))
  exact (h.signalled howner hresult hshared).aside hother
    (.woken (State.move_phase_self _ _ _) (System.move_phase_self _ _ _))

/-- The owner lets the mutex go at the end of its turn. -/
theorem unlocked (h : Simulates p s c) (howner : s.owner = some t) (r : R) :
    Simulates p ({ s with owner := none }.move t (.running op (.ret r)))
      (c.after t op ⟨s.shared, false, some r⟩) := by
  refine h.released howner (fun u hut => State.move_phase_of_ne _ hut _)
    (fun u hut => System.move_phase_of_ne _ hut _) rfl rfl ?_
  exact .returning (State.move_phase_self _ _ _) (System.move_phase_self _ _ _)

/-- The owner lets the mutex go after its signal. -/
theorem left (h : Simulates p s c) (howner : s.owner = some t) {r : R}
    (hc : c.phase t = .returning op r) (hshared : c.shared = s.shared) :
    Simulates p ({ s with owner := none }.move t (.running op (.ret r))) c := by
  refine h.released howner (fun u hut => State.move_phase_of_ne _ hut _) (fun _ _ => rfl) rfl
    hshared ?_
  exact .returning (State.move_phase_self _ _ _) hc

/-- The owner waits. -/
theorem waited (h : Simulates p s c) (howner : s.owner = some t) :
    Simulates p ({ s with owner := none }.move t (.blocked op))
      (c.after t op ⟨s.shared, false, none⟩) := by
  refine h.released howner (fun u hut => State.move_phase_of_ne _ hut _)
    (fun u hut => System.move_phase_of_ne _ hut _) rfl rfl ?_
  exact .blocked (State.move_phase_self _ _ _) (System.move_phase_self _ _ _)

/-- When no thread but the owner waits, its signal is lost. -/
theorem nobody (h : Simulates p s c) {r : R} {turn : Turn M R} (hresult : turn.result = some r) :
    (∀ v, ¬(c.after t op turn).IsBlocked v) ↔ ∀ v op', v ≠ t → s.phase v ≠ .blocked op' := by
  constructor
  · intro hnobody v op' hvt hv
    exact hnobody v ⟨op', (System.move_phase_of_ne _ hvt _).trans (h.blocked_iff.mpr hv)⟩
  · rintro hnobody v ⟨op', hv⟩
    by_cases hvt : v = t
    · subst hvt
      rw [System.after, System.move_phase_self, Turn.next, hresult] at hv
      cases hv
    · exact hnobody v op' hvt
        (h.blocked_iff.mp ((System.move_phase_of_ne _ hvt _).symm.trans hv))

/-- One step is a part of a turn, or a step of the monitor which callers see alike. -/
theorem step (hp : p.Scoped) (h : Simulates p s c) (hstep : Step p s l s') :
    (observes (s, l) = none ∧ Simulates p s' c) ∨
      ∃ l' c', Monitor.Step p.methods c l' c' ∧ observesTurn (c, l') = observes (s, l) ∧
        Simulates p s' c' := by
  cases hstep with
  | call t op ht =>
      have howner : s.owner ≠ some t := h.not_owner fun _ _ hrun => by cases ht.symm.trans hrun
      exact .inr ⟨_, _, .call t op (h.idle_of_idle ht), rfl,
        h.aside howner (.entering (s.move_phase_self t _) (c.move_phase_self t _))⟩
  | @lock t op k ht howner =>
      rcases h.running hp ht with ⟨hinside, hcode, hc⟩ | ⟨hinside, -⟩ | ⟨r, hcode, -⟩ |
          ⟨r, hcode, -⟩
      · refine .inl ⟨rfl, h.acquired howner hinside ?_⟩
        have hturn : (p.enter op).turn c.shared = k.turn c.shared := by
          rw [← hcode]
          rfl
        rw [hc]
        exact congrArg (fun turn => some (op, turn)) hturn
      · exact hinside.elim
      all_goals cases hcode
  | @lockFails t op k ht howner =>
      obtain ⟨op', code, hphase, hinside⟩ := h.owner t howner
      cases ht.symm.trans hphase
      exact hinside.elim
  | @unlock t op k ht howner =>
      rcases h.running hp ht with ⟨hscoped, -⟩ | ⟨hinside, -, hc⟩ | ⟨r, hcode, -, hc, hshared⟩ |
        ⟨r, hcode, -⟩
      · exact hscoped.elim
      · -- the last turn is taken
        obtain ⟨r, rfl⟩ := Code.IsRet.exists hinside
        exact .inr ⟨_, _, .turn hc rfl, rfl, h.unlocked howner r⟩
      · -- it was taken with the signal
        cases hcode
        exact .inl ⟨rfl, h.left howner hc hshared⟩
      · cases hcode
  | @unlockFails t op k ht howner =>
      rcases h.running hp ht with ⟨hscoped, -⟩ | ⟨-, howner', -⟩ | ⟨r, -, howner', -⟩ |
          ⟨r, hcode, -⟩
      · exact hscoped.elim
      · exact absurd howner' howner
      · exact absurd howner' howner
      · cases hcode
  | @get t op k ht =>
      obtain ⟨hinside, howner, hc⟩ := h.inside hp ht id id id
      exact .inl ⟨rfl, h.part howner (hinside s.shared) hc⟩
  | @modify t op f k ht =>
      obtain ⟨hinside, howner, hc⟩ := h.inside hp ht id id id
      exact .inl ⟨rfl, h.part howner hinside hc⟩
  | @signal t op k u op' ht hu =>
      obtain ⟨hinside, howner, hc⟩ := h.inside hp ht id id id
      obtain ⟨r, rfl⟩ := Code.Leaves.exists hinside
      have hut : u ≠ t := by
        rintro rfl
        cases ht.symm.trans hu
      have hblocked : (c.after t op ⟨s.shared, true, some r⟩).phase u = .blocked op' :=
        (System.move_phase_of_ne _ hut _).trans (h.blocked_iff.mpr hu)
      exact .inr ⟨_, _, .signal hc rfl (.wakes hblocked), rfl,
        h.signalledTo howner rfl rfl hut⟩
  | @signalNobody t op k ht hnobody =>
      obtain ⟨hinside, howner, hc⟩ := h.inside hp ht id id id
      obtain ⟨r, rfl⟩ := Code.Leaves.exists hinside
      let turn : Turn M R := ⟨s.shared, true, some r⟩
      have hturn : turn.result = some r := rfl
      have hlost : ∀ v, ¬(c.after t op turn).IsBlocked v :=
        (h.nobody hturn).mpr fun v op' _ => hnobody v op'
      exact .inr ⟨_, _, .signal hc rfl (.nobody hlost), rfl, h.signalled howner rfl rfl⟩
  | @wait t op ht howner =>
      obtain ⟨-, -, hc⟩ := h.inside hp ht id id id
      exact .inr ⟨_, _, .turn hc rfl, rfl, h.waited howner⟩
  | @waitFails t op ht howner =>
      obtain ⟨-, howner', -⟩ := h.inside hp ht id id id
      exact absurd howner' howner
  | @wake t op why ht hwhy htimed =>
      have howner : s.owner ≠ some t := h.not_owner fun _ _ hrun => by cases ht.symm.trans hrun
      exact .inr ⟨_, _, .wake (h.blocked_iff.mpr ht) hwhy htimed, rfl,
        h.aside howner (.woken (s.move_phase_self t _) (c.move_phase_self t _))⟩
  | @relock t op why ht howner =>
      refine .inl ⟨rfl, h.acquired howner (hp.resume op why) ?_⟩
      rw [h.woken_of_woken ht]
      rfl
  | @ret t op r ht =>
      have howner : s.owner ≠ some t := h.not_owner fun _ _ hrun => by
        cases ht.symm.trans hrun
        exact id
      rcases h.running hp ht with ⟨hscoped, -⟩ | ⟨hinside, -⟩ | ⟨r, hcode, -⟩ | ⟨r, hcode, hc⟩
      · exact hscoped.elim
      · exact hinside.elim
      · cases hcode
      · cases hcode
        refine .inr ⟨_, _, .ret hc, ?_, h.aside howner
          (.idle (s.move_phase_self t _) (c.move_phase_self t _))⟩
        rw [observes, observesTurn, ht, hc]

end Simulates

/-- **The steps inside the methods are not seen.**  To every run there is a run of the
monitor with atomic turns which has the same calls and returns in the same order. -/
theorem refines (hp : p.Scoped) {past : List (State Thread M O R × Label Thread O)}
    (hrun : Run (Step p) (.start m) past s) :
    ∃ turns c, Run (Monitor.Step p.methods) (.start m) turns c ∧ Simulates p s c ∧
      traceOfTurns turns = trace past := by
  induction hrun with
  | start =>
      refine ⟨[], .start m, .start, ⟨fun t => .idle rfl rfl, fun t ht => ?_, fun _ => rfl⟩, rfl⟩
      cases ht
  | @snoc past s l s' _ hstep ih =>
      obtain ⟨turns, c, hturns, hsim, htrace⟩ := ih
      rw [trace, filterMap_snoc, ← trace, ← htrace]
      rcases hsim.step hp hstep with ⟨hnone, hsim'⟩ | ⟨l', c', hstep', hseen, hsim'⟩
      · exact ⟨turns, c, hturns, hsim', by simp [hnone]⟩
      · refine ⟨_, c', hturns.snoc hstep', hsim', ?_⟩
        rw [traceOfTurns, filterMap_snoc, hseen, ← traceOfTurns]

/-! ## Progress -/

/-- A thread which has called a method and waits for nothing but the mutex. -/
def Busy (s : State Thread M O R) (t : Thread) : Prop :=
  (∃ op code, s.phase t = .running op code) ∨ ∃ op why, s.phase t = .woken op why

/-- The steps which a thread takes by itself. -/
def Label.IsOwn : Label Thread O → Prop
  | .act _ _ | .ret _ => True
  | _ => False

/-- The owner of the mutex is not stuck. -/
theorem exists_step_of_inside (ht : s.phase t = .running op code) (howner : s.owner = some t)
    (hinside : code.Inside) : ∃ l s', Step p s l s' ∧ l.IsOwn := by
  cases code with
  | lock k => exact hinside.elim
  | ret r => exact hinside.elim
  | unlock k => exact ⟨_, _, .unlock ht howner, trivial⟩
  | get k => exact ⟨_, _, .get ht, trivial⟩
  | modify f k => exact ⟨_, _, .modify ht, trivial⟩
  | wait => exact ⟨_, _, .wait ht howner, trivial⟩
  | signal k =>
      by_cases hblocked : ∃ u op', s.phase u = .blocked op'
      · obtain ⟨u, op', hu⟩ := hblocked
        exact ⟨_, _, .signal ht hu, trivial⟩
      · push Not at hblocked
        exact ⟨_, _, .signalNobody ht hblocked, trivial⟩

/-- There is no deadlock: while a thread is busy, some thread can go on. -/
theorem Simulates.progress (hp : p.Scoped) (h : Simulates p s c) (hbusy : Busy s t) :
    ∃ l s', Step p s l s' ∧ l.IsOwn := by
  cases howner : s.owner with
  | some v =>
      obtain ⟨op, code, hv, hinside⟩ := h.owner v howner
      exact exists_step_of_inside hv howner hinside
  | none =>
      rcases hbusy with ⟨op, code, ht⟩ | ⟨op, why, ht⟩
      · rcases h.running hp ht with ⟨hscoped, -⟩ | ⟨-, howner', -⟩ | ⟨r, -, howner', -⟩ |
          ⟨r, rfl, -⟩
        · obtain ⟨k, rfl, -⟩ := hscoped.exists
          exact ⟨_, _, .lock ht howner, trivial⟩
        · cases howner.symm.trans howner'
        · cases howner.symm.trans howner'
        · exact ⟨_, _, .ret ht, trivial⟩
      · exact ⟨_, _, .relock ht howner, trivial⟩

/-! ## The converse -/

/-- A run goes on unseen until it simulates `c'` with the mutex free. -/
def Catches (p : Programs M O R) (s₀ : State Thread M O R)
    (past : List (State Thread M O R × Label Thread O)) (c' : System Thread M O R) : Prop :=
  ∃ more s', Run (Step p) s₀ (past ++ more) s' ∧ trace more = [] ∧ Simulates p s' c' ∧
    s'.owner = none

variable {s₀ : State Thread M O R} {past : List (State Thread M O R × Label Thread O)}

theorem Catches.of_step {c' : System Thread M O R} (hunseen : observes (s, l) = none)
    (h : Catches p s₀ (past ++ [(s, l)]) c') : Catches p s₀ past c' := by
  obtain ⟨more, s', hrun, htrace, hsim, hfree⟩ := h
  refine ⟨(s, l) :: more, s', ?_, ?_, hsim, hfree⟩
  · rw [List.append_cons]
    exact hrun
  · rw [trace, List.filterMap_cons, hunseen]
    exact htrace

theorem Catches.here (hrun : Run (Step p) s₀ past s) (hsim : Simulates p s c)
    (hfree : s.owner = none) : Catches p s₀ past c :=
  ⟨[], s, by rwa [List.append_nil], rfl, hsim, hfree⟩

/-- A step of the monitor which ends the turn at hand. -/
theorem turn_cases {turn : Turn M R} {w : Option Thread}
    (hc : (c.phase t).turn p.methods c.shared = some (op, turn))
    (hstep : Monitor.Step p.methods c (.turn t w) c') :
    (turn.signals = false ∧ c' = c.after t op turn) ∨
      turn.signals = true ∧ Signals (c.after t op turn) w c' := by
  cases hstep with
  | turn hc' hsignals =>
      cases hc.symm.trans hc'
      exact .inl ⟨hsignals, rfl⟩
  | signal hc' hsignals hw =>
      cases hc.symm.trans hc'
      exact .inr ⟨hsignals, hw⟩

/-- What is left of a turn can be done without interruption. -/
theorem Simulates.catches (h : Simulates p s c) (hinside : code.Inside)
    (ht : s.phase t = .running op code) (howner : s.owner = some t)
    (hc : (c.phase t).turn p.methods c.shared = some (op, code.turn s.shared))
    {w : Option Thread} (hstep : Monitor.Step p.methods c (.turn t w) c')
    (hrun : Run (Step p) s₀ past s) : Catches p s₀ past c' := by
  -- on the code: a part of the turn leaves less of it
  induction code generalizing s past with
  | lock k => exact hinside.elim
  | ret r => exact hinside.elim
  | get k ih =>
      exact .of_step rfl (ih s.shared (h.part howner (hinside s.shared) hc) (hinside s.shared)
        (State.move_phase_self _ _ _) howner hc (hrun.snoc (.get ht)))
  | modify f k ih =>
      have hsim : Simulates p ({ s with shared := f s.shared }.move t (.running op k)) c :=
        h.part howner hinside hc
      exact .of_step rfl (ih hsim hinside (State.move_phase_self _ _ _) howner hc
        (hrun.snoc (.modify ht)))
  | unlock k =>
      obtain ⟨r, rfl⟩ := Code.IsRet.exists hinside
      rcases turn_cases hc hstep with ⟨-, rfl⟩ | ⟨hsignals, -⟩
      · exact .of_step rfl (.here (hrun.snoc (.unlock ht howner)) (h.unlocked howner r) rfl)
      · cases hsignals
  | wait =>
      rcases turn_cases hc hstep with ⟨-, rfl⟩ | ⟨hsignals, -⟩
      · exact .of_step rfl (.here (hrun.snoc (.wait ht howner)) (h.waited howner) rfl)
      · cases hsignals
  | signal k =>
      obtain ⟨r, rfl⟩ := Code.Leaves.exists hinside
      rcases turn_cases hc hstep with ⟨hsignals, -⟩ | ⟨-, hw⟩
      · cases hsignals
      cases hw with
      | @wakes u op' hu =>
          have hut : u ≠ t := by
            rintro rfl
            cases (System.move_phase_self _ _ _).symm.trans hu
          have hblocked := h.blocked_iff.mp ((System.move_phase_of_ne _ hut _).symm.trans hu)
          have hsim : Simulates p
              ((s.move t (.running op (.unlock (.ret r)))).move u (.woken op' .signalled))
              ((c.after t op ⟨s.shared, true, some r⟩).move u (.woken op' .signalled)) :=
            h.signalledTo howner rfl rfl hut
          have hreturning := (System.move_phase_of_ne (c.after t op ⟨s.shared, true, some r⟩)
            hut.symm (.woken op' .signalled)).trans (System.move_phase_self _ _ _)
          have hleft := hsim.left howner hreturning rfl
          refine .of_step rfl (.of_step rfl (.here ((hrun.snoc (.signal ht hblocked)).snoc
            (.unlock ?_ howner)) hleft rfl))
          exact (State.move_phase_of_ne _ hut.symm _).trans (State.move_phase_self _ _ _)
      | nobody hnobody =>
          have hlost := (h.nobody rfl).mp hnobody
          have hsim : Simulates p (s.move t (.running op (.unlock (.ret r))))
              (c.after t op ⟨s.shared, true, some r⟩) := h.signalled howner rfl rfl
          have hleft := hsim.left howner (System.move_phase_self _ _ _) rfl
          have hidle : ∀ v op', s.phase v ≠ .blocked op' := by
            intro v op' hv
            by_cases hvt : v = t
            · subst hvt
              cases ht.symm.trans hv
            · exact hlost v op' hvt hv
          exact .of_step rfl (.of_step rfl (.here ((hrun.snoc (.signalNobody ht hidle)).snoc
            (.unlock (State.move_phase_self _ _ _) howner)) hleft rfl))

/-- A step of the monitor can be followed while the mutex is free. -/
theorem Simulates.follows (hp : p.Scoped) (h : Simulates p s c) (hfree : s.owner = none)
    {l : Monitor.Label Thread O} (hstep : Monitor.Step p.methods c l c')
    (hrun : Run (Step p) s₀ past s) :
    ∃ more s', Run (Step p) s₀ (past ++ more) s' ∧
      trace more = (observesTurn (c, l)).toList ∧ Simulates p s' c' ∧ s'.owner = none := by
  have hnone : ∀ t, s.owner ≠ some t := fun t ht => by
    rw [hfree] at ht
    cases ht
  have hturn : ∀ {t w op turn}, (c.phase t).turn p.methods c.shared = some (op, turn) →
      Monitor.Step p.methods c (.turn t w) c' → Catches p s₀ past c' := by
    intro t w op turn hc hstep
    cases h.threads t with
    | @entering op' hs hcphase =>
        -- the mutex is free, so the thread gets it
        obtain ⟨k, hk, hinside⟩ := (hp.enter op').exists
        have hs' := hs
        rw [hk] at hs'
        have hk' : (p.enter op').turn c.shared = k.turn c.shared := by
          rw [hk]
          rfl
        have hacquired : (c.phase t).turn p.methods c.shared = some (op', k.turn c.shared) := by
          rw [hcphase, ← hk']
          rfl
        have hsim := h.acquired hfree hinside hacquired
        refine .of_step rfl (hsim.catches hinside (State.move_phase_self _ _ _) rfl ?_ hstep
          (hrun.snoc (.lock hs' hfree)))
        rw [hacquired, h.free hfree]
        rfl
    | @woken op' why hs hcphase =>
        have hacquired : (c.phase t).turn p.methods c.shared =
            some (op', (p.resume op' why).turn c.shared) := by
          rw [hcphase]
          rfl
        have hsim := h.acquired hfree (hp.resume op' why) hacquired
        refine .of_step rfl (hsim.catches (hp.resume op' why) (State.move_phase_self _ _ _) rfl ?_
          hstep (hrun.snoc (.relock hs hfree)))
        rw [hacquired, h.free hfree]
        rfl
    | inside _ _ howner => exact absurd howner (hnone t)
    | leaving _ howner => exact absurd howner (hnone t)
    | idle _ hc' | returning _ hc' | blocked _ hc' =>
        rw [hc'] at hc
        cases hc
  cases hstep with
  | @call t op ht =>
      have hidle : s.phase t = .idle := by
        cases h.threads t with
        | idle hs => exact hs
        | inside _ _ howner => exact absurd howner (hnone t)
        | entering _ hc | leaving _ _ hc | returning _ hc | blocked _ hc | woken _ hc =>
            cases ht.symm.trans hc
      exact ⟨_, _, hrun.snoc (.call t op hidle), rfl, h.aside (hnone t)
        (.entering (s.move_phase_self t _) (c.move_phase_self t _)), hfree⟩
  | turn ht hc =>
      exact hturn ht (.turn ht hc)
  | signal ht hc hu =>
      exact hturn ht (.signal ht hc hu)
  | @wake t op why ht hwhy htimed =>
      exact ⟨_, _, hrun.snoc (.wake (h.blocked_iff.mp ht) hwhy htimed), rfl, h.aside (hnone t)
        (.woken (s.move_phase_self t _) (c.move_phase_self t _)), hfree⟩
  | @ret t op r ht =>
      have hreturning : s.phase t = .running op (.ret r) := by
        cases h.threads t with
        | returning hs hc =>
            cases ht.symm.trans hc
            exact hs
        | inside _ _ howner => exact absurd howner (hnone t)
        | leaving _ howner => exact absurd howner (hnone t)
        | idle _ hc | entering _ hc | blocked _ hc | woken _ hc => cases ht.symm.trans hc
      refine ⟨_, _, hrun.snoc (.ret hreturning), ?_, h.aside (hnone t)
        (.idle (s.move_phase_self t _) (c.move_phase_self t _)), hfree⟩
      simp [trace, observes, observesTurn, hreturning, ht]

/-- **The turns are realized.**  To every run of the monitor with atomic turns there is a run
of the steps inside the methods with the same calls and returns. -/
theorem realizes (hp : p.Scoped)
    {turns : List (System Thread M O R × Monitor.Label Thread O)}
    (hturns : Run (Monitor.Step p.methods) (.start m) turns c) :
    ∃ past s, Run (Step p) (.start m) past s ∧ Simulates p s c ∧ s.owner = none ∧
      trace past = traceOfTurns turns := by
  induction hturns with
  | start =>
      refine ⟨[], .start m, .start, ⟨fun t => .idle rfl rfl, fun t ht => ?_, fun _ => rfl⟩, rfl,
        rfl⟩
      cases ht
  | @snoc turns c l c' _ hstep ih =>
      obtain ⟨past, s, hrun, hsim, hfree, htrace⟩ := ih
      obtain ⟨more, s', hrun', hmore, hsim', hfree'⟩ := hsim.follows hp hfree hstep hrun
      refine ⟨_, s', hrun', hsim', hfree', ?_⟩
      rw [trace, List.filterMap_append, ← trace, ← trace, htrace, hmore, traceOfTurns, traceOfTurns,
        filterMap_snoc]

end
end Locking
end Deps
