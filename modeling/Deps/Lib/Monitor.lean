import Deps.Lib.Runs
import Mathlib.Logic.Function.Basic

/-!
# Monitors

The methods of a monitor run under one mutex, and may wait on one condition
variable, which lets the mutex go.  So a call is a sequence of turns, and what
any number of threads do is an interleaving of their turns.  `linearizes` says
when a monitor behaves like an object whose methods are executed at once, in the
order of their last turns.
-/

namespace Deps
namespace Monitor

open Runs

/-- What a method does between getting the mutex and letting it go. -/
structure Turn (M R : Type) where
  shared : M
  /-- whether the condition is signalled -/
  signals : Bool
  /-- what the method returns; there is nothing when it waits -/
  result : Option R

/-- Why a wait is over. -/
inductive Wake where
  | signalled
  | spurious
  | timedOut
  deriving DecidableEq, Repr

/-- The methods `O` of an object with the fields `M`, which return `R`. -/
structure Methods (M O R : Type) where
  /-- the turn in which the method is called -/
  enter : O → M → Turn M R
  /-- the turn which begins when a wait is over -/
  resume : O → Wake → M → Turn M R
  /-- whether the method waits with a timeout -/
  timed : O → Bool

/-- What a thread is doing. -/
inductive Phase (O R : Type)
  | idle
  /-- it has called the method, and does not have the mutex yet -/
  | entering (op : O)
  /-- it waits on the condition -/
  | blocked (op : O)
  /-- its wait is over, and it does not have the mutex yet -/
  | woken (op : O) (why : Wake)
  /-- it has let the mutex go for the last time -/
  | returning (op : O) (r : R)

structure System (Thread M O R : Type) where
  shared : M
  phase : Thread → Phase O R

inductive Label (Thread O : Type)
  | call (t : Thread) (op : O)
  /-- `t` has a turn, in which a signal wakes the thread `u` -/
  | turn (t : Thread) (u : Option Thread)
  /-- the wait of `t` is over without a signal -/
  | wake (t : Thread) (why : Wake)
  | ret (t : Thread)

section

variable {Thread M O R : Type} [DecidableEq Thread]

/-- The object before any thread has called a method. -/
def System.start (m : M) : System Thread M O R := ⟨m, fun _ => .idle⟩

namespace System

def move (s : System Thread M O R) (t : Thread) (p : Phase O R) : System Thread M O R :=
  { s with phase := Function.update s.phase t p }

@[simp] theorem move_phase_self (s : System Thread M O R) (t : Thread) (p : Phase O R) :
    (s.move t p).phase t = p := Function.update_self ..

theorem move_phase_of_ne (s : System Thread M O R) {t u : Thread} (hut : u ≠ t) (p : Phase O R) :
    (s.move t p).phase u = s.phase u := Function.update_of_ne hut ..

def IsBlocked (s : System Thread M O R) (t : Thread) : Prop := ∃ op, s.phase t = .blocked op

end System

/-- The next turn of a thread, which has called the method or whose wait is over. -/
def Phase.turn (mon : Methods M O R) (m : M) : Phase O R → Option (O × Turn M R)
  | .entering op => some (op, mon.enter op m)
  | .woken op why => some (op, mon.resume op why m)
  | _ => none

/-- The operation of a thread which waits for the mutex. -/
def Phase.moving : Phase O R → Option O
  | .entering op => some op
  | .woken op _ => some op
  | _ => none

/-- Where a thread is after a turn. -/
def Turn.next (op : O) (c : Turn M R) : Phase O R :=
  match c.result with
  | none => .blocked op
  | some r => .returning op r

/-- The object and its threads after the turn `c` of `t`, before its signal. -/
def System.after (s : System Thread M O R) (t : Thread) (op : O) (c : Turn M R) :
    System Thread M O R :=
  ({ s with shared := c.shared } : System Thread M O R).move t (c.next op)

/-- A signal wakes one of the threads which wait, if there are any. -/
inductive Signals (s : System Thread M O R) : Option Thread → System Thread M O R → Prop
  | wakes {u op} (hu : s.phase u = .blocked op) :
      Signals s (some u) (s.move u (.woken op .signalled))
  | nobody (hnobody : ∀ u, ¬ s.IsBlocked u) : Signals s none s

inductive Step (mon : Methods M O R) :
    System Thread M O R → Label Thread O → System Thread M O R → Prop
  | call {s} (t op) (ht : s.phase t = .idle) : Step mon s (.call t op) (s.move t (.entering op))
  | turn {s t op c} (ht : (s.phase t).turn mon s.shared = some (op, c)) (hc : c.signals = false) :
      Step mon s (.turn t none) (s.after t op c)
  | signal {s t op c u s'} (ht : (s.phase t).turn mon s.shared = some (op, c))
      (hc : c.signals = true) (hu : Signals (s.after t op c) u s') : Step mon s (.turn t u) s'
  | wake {s t op why} (ht : s.phase t = .blocked op) (hwhy : why ≠ .signalled)
      (htimed : why = .timedOut → mon.timed op = true) :
      Step mon s (.wake t why) (s.move t (.woken op why))
  | ret {s t op r} (ht : s.phase t = .returning op r) : Step mon s (.ret t) (s.move t .idle)

/-! ## Linearization -/

/-- Executing operations at once, one after the other, gives these results and
ends in the last state. -/
def Replays (exec : M → O → M × R) : M → List (O × R) → M → Prop
  | m, [], m' => m = m'
  | m, (op, r) :: rest, m' => (exec m op).2 = r ∧ Replays exec (exec m op).1 rest m'

/-- A turn does nothing when it ends in a wait, and what `exec` does when it is the
last one. -/
def Turn.Executes (exec : M → O → M × R) (m : M) (op : O) (c : Turn M R) : Prop :=
  match c.result with
  | none => c.shared = m
  | some r => exec m op = (c.shared, r)

/-- Every turn executes its operation or does nothing. -/
structure Methods.Executes (mon : Methods M O R) (exec : M → O → M × R) : Prop where
  enter : ∀ op m, (mon.enter op m).Executes exec m op
  resume : ∀ op why m, (mon.resume op why m).Executes exec m op

/-- The operation which ends with the step: whose it is, and its result. -/
def finishes (mon : Methods M O R) :
    System Thread M O R × Label Thread O → Option (Thread × O × R)
  | (s, .turn t _) =>
      match (s.phase t).turn mon s.shared with
      | some (op, c) => c.result.map fun r => (t, op, r)
      | none => none
  | _ => none

/-- The operation which returns to its caller in the step. -/
def returns : System Thread M O R × Label Thread O → Option (Thread × O × R)
  | (s, .ret t) =>
      match s.phase t with
      | .returning op r => some (t, op, r)
      | _ => none
  | _ => none

/-- The operations of a run, in the order of their last turns. -/
def finished (mon : Methods M O R) (past : List (System Thread M O R × Label Thread O)) :
    List (Thread × O × R) := past.filterMap (finishes mon)

/-- The completed operations of a run, in the order in which they returned. -/
def returned (past : List (System Thread M O R × Label Thread O)) : List (Thread × O × R) :=
  past.filterMap returns

/-- The operation of the thread `t` which has had its last turn and is about to
return. -/
def Phase.pending (t : Thread) : Phase O R → List (Thread × O × R)
  | .returning op r => [(t, op, r)]
  | _ => []

theorem Replays.snoc {exec : M → O → M × R} {m m' : M} {log : List (O × R)}
    (h : Replays exec m log m') {m'' : M} {op : O} {r : R} (hexec : exec m' op = (m'', r)) :
    Replays exec m (log ++ [(op, r)]) m'' := by
  induction log generalizing m with
  | nil =>
      obtain rfl : m = m' := h
      exact ⟨congrArg Prod.snd hexec, congrArg Prod.fst hexec⟩
  | cons e log ih => exact ⟨h.1, ih h.2⟩

variable {mon : Methods M O R} {exec : M → O → M × R} {s s' : System Thread M O R}
  {l : Label Thread O} {past : List (System Thread M O R × Label Thread O)} {m : M}

theorem Methods.Executes.turn (hmon : mon.Executes exec) {p : Phase O R} {op : O}
    {c : Turn M R} (hp : p.turn mon m = some (op, c)) : c.Executes exec m op := by
  cases p with
  | entering op =>
      obtain ⟨rfl, rfl⟩ := Prod.mk.inj (Option.some.inj hp)
      exact hmon.enter op m
  | woken op why =>
      obtain ⟨rfl, rfl⟩ := Prod.mk.inj (Option.some.inj hp)
      exact hmon.resume op why m
  | idle | blocked | returning => cases hp

theorem Signals.shared_eq {u : Option Thread} (h : Signals s u s') : s'.shared = s.shared := by
  cases h <;> rfl

/-- Who waits after a signal has waited before. -/
theorem Signals.blocked {u : Option Thread} (h : Signals s u s') {t : Thread} {op : O}
    (ht : s'.phase t = .blocked op) : s.phase t = .blocked op := by
  cases h with
  | @wakes u _ hu =>
      by_cases htu : t = u
      · subst htu
        rw [s.move_phase_self] at ht
        cases ht
      · rwa [s.move_phase_of_ne htu] at ht
  | nobody => exact ht

/-- Moving a thread concerns the other threads not. -/
theorem System.move_pending {t : Thread} {p : Phase O R}
    (hp : p.pending t = (s.phase t).pending t) (t' : Thread) :
    ((s.move t p).phase t').pending t' = (s.phase t').pending t' := by
  by_cases ht : t' = t
  · subst ht
    rw [s.move_phase_self, hp]
  · rw [s.move_phase_of_ne ht]

theorem Signals.pending_eq {u : Option Thread} (h : Signals s u s') (t : Thread) :
    (s'.phase t).pending t = (s.phase t).pending t := by
  cases h with
  | @wakes u op hu => exact System.move_pending (by rw [hu]; rfl) t
  | nobody => rfl

omit [DecidableEq Thread] in
theorem finishes_turn {t : Thread} {op : O} {c : Turn M R}
    (ht : (s.phase t).turn mon s.shared = some (op, c)) (u : Option Thread) :
    finishes mon (s, .turn t u) = c.result.map fun r => (t, op, r) := by
  simp only [finishes, ht]

/-- A step executes at most one operation. -/
theorem Step.executes (hmon : mon.Executes exec) (hstep : Step mon s l s') :
    match finishes mon (s, l) with
    | none => s'.shared = s.shared
    | some (_, op, r) => exec s.shared op = (s'.shared, r) := by
  -- the signal of a turn changes phases only
  have hturn : ∀ {t op c u}, (s.phase t).turn mon s.shared = some (op, c) →
      s'.shared = c.shared →
      match finishes mon (s, .turn t u) with
      | none => s'.shared = s.shared
      | some (_, op, r) => exec s.shared op = (s'.shared, r) := by
    intro t op c u ht hs'
    have hc := hmon.turn ht
    rw [finishes_turn ht, hs']
    rw [Turn.Executes] at hc
    cases hresult : c.result with
    | none =>
        rw [hresult] at hc
        exact hc
    | some r =>
        rw [hresult] at hc
        exact hc
  cases hstep with
  | call | wake | ret => rfl
  | turn ht => exact hturn ht rfl
  | signal ht _ hu => exact hturn ht hu.shared_eq

/-- The operations of a run give the results which they give one after the other,
in the order of their last turns. -/
theorem replays_of_run (hmon : mon.Executes exec) (hrun : Run (Step mon) (.start m) past s) :
    Replays exec m ((finished mon past).map Prod.snd) s.shared := by
  induction hrun with
  | start => rfl
  | @snoc past s l s' _ hstep ih =>
      have hexec := hstep.executes hmon
      rw [finished, filterMap_snoc, List.map_append, ← finished]
      cases hl : finishes mon (s, l) with
      | none =>
          rw [hl] at hexec
          have hs' : s'.shared = s.shared := hexec
          simpa [hs'] using ih
      | some e =>
          rw [hl] at hexec
          exact ih.snoc hexec

/-- What a thread does in a step: it has its last turn, or it returns. -/
theorem Step.pending (hstep : Step mon s l s') (t : Thread) :
    (s.phase t).pending t ++ (finishes mon (s, l)).toList.filter (·.1 = t) =
      (returns (s, l)).toList.filter (·.1 = t) ++ (s'.phase t).pending t := by
  have hturn : ∀ {t' op c u}, (s.phase t').turn mon s.shared = some (op, c) →
      (s'.phase t).pending t = ((s.after t' op c).phase t).pending t →
      (s.phase t).pending t ++ (finishes mon (s, .turn t' u)).toList.filter (·.1 = t) =
        (s'.phase t).pending t := by
    intro t' op c u ht' hs'
    rw [finishes_turn ht', hs', System.after]
    by_cases htt' : t = t'
    · subst htt'
      have hbefore : (s.phase t).pending t = [] := by
        cases hp : s.phase t <;> rw [hp] at ht' <;> first | rfl | cases ht'
      rw [hbefore, System.move_phase_self, Turn.next]
      cases c.result <;> simp [Phase.pending]
    · rw [System.move_phase_of_ne _ htt']
      cases c.result <;> simp [Ne.symm htt']
  have hrest : ∀ {t' p}, (s.phase t').pending t' = [] →
      p.pending t' = ([] : List (Thread × O × R)) →
      (s.phase t).pending t = ((s.move t' p).phase t).pending t :=
    fun ht' hp => (System.move_pending (hp.trans ht'.symm) t).symm
  cases hstep with
  | call _ _ ht' => simpa [finishes, returns] using hrest (by rw [ht']; rfl) rfl
  | turn ht' => exact hturn ht' rfl
  | signal ht' _ hu => exact hturn ht' (hu.pending_eq t)
  | wake ht' => simpa [finishes, returns] using hrest (by rw [ht']; rfl) rfl
  | @ret t' op r ht' =>
      by_cases htt' : t = t'
      · subst htt'
        simp [finishes, returns, ht', Phase.pending]
      · rw [System.move_phase_of_ne _ htt']
        simp [finishes, returns, ht', Ne.symm htt']

/-- The completed operations of a thread are those which have had their last turn,
in the same order and with the same results, but for one which is about to
return. -/
theorem finished_of_thread (hrun : Run (Step mon) (.start m) past s) (t : Thread) :
    (finished mon past).filter (·.1 = t) =
      (returned past).filter (·.1 = t) ++ (s.phase t).pending t := by
  induction hrun with
  | start => rfl
  | @snoc past s l s' _ hstep ih =>
      rw [finished, returned, filterMap_snoc, filterMap_snoc, ← finished, ← returned,
        List.filter_append, List.filter_append, ih, List.append_assoc, hstep.pending t,
        List.append_assoc]

end

end Monitor
end Deps
