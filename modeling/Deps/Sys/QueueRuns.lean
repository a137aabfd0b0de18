import Deps.Sys.ThreadQueue
import Mathlib.Data.List.Nodup

/-!
# The size of a `ThreadQueue`, and who waits for it

Every method but `swap` keeps the queue within `m_maxsize`.  Every push signals
once, whatever the number of elements it pushes, and `swap` does not signal, so a
consumer may sleep while there is data.
-/

namespace Deps
namespace Sys

open Monitor Runs

namespace ThreadQueue

/-- A queue and its threads. -/
abbrev QueueSystem (Thread α : Type) : Type :=
  System Thread (List α) (QueueOp α) (QueueResult α)

abbrev QueueLabel (Thread α : Type) : Type := Label Thread (QueueOp α)

variable {Thread α : Type} [DecidableEq Thread] {maxsize : Nat} {s s' : QueueSystem Thread α}
  {l : QueueLabel Thread α} {past : List (QueueSystem Thread α × QueueLabel Thread α)}

theorem turn_eq (p : Phase (QueueOp α) (QueueResult α)) (queue : List α) :
    p.turn (methods α maxsize) queue =
      p.moving.map fun op => (op, enter maxsize op queue) := by
  cases p with
  | woken op why =>
      show some (op, resume maxsize op why queue) = _
      rw [resume_eq_enter]
      rfl
  | _ => rfl

omit [DecidableEq Thread] in
/-- What a turn of a `ThreadQueue` is. -/
theorem enter_of_turn {t : Thread} {op : QueueOp α} {c : QueueTurn α}
    (ht : (s.phase t).turn (methods α maxsize) s.shared = some (op, c)) :
    (s.phase t).moving = some op ∧ c = enter maxsize op s.shared := by
  rw [turn_eq, Option.map_eq_some_iff] at ht
  obtain ⟨op', hop', heq⟩ := ht
  cases heq
  exact ⟨hop', rfl⟩

/-- The queue changes in turns only. -/
theorem shared_of_step (hstep : Step (methods α maxsize) s l s') :
    (s'.shared = s.shared ∧ ∀ t u, l ≠ .turn t u) ∨
      ∃ t u op, l = .turn t u ∧ (s.phase t).moving = some op ∧
        s'.shared = (enter maxsize op s.shared).shared := by
  cases hstep with
  | call | wake | ret => exact .inl ⟨rfl, fun _ _ h => nomatch h⟩
  | @turn t op c ht _ =>
      obtain ⟨hop, rfl⟩ := enter_of_turn ht
      exact .inr ⟨t, none, op, rfl, hop, rfl⟩
  | @signal t op c u s' ht _ hu =>
      obtain ⟨hop, rfl⟩ := enter_of_turn ht
      exact .inr ⟨t, u, op, rfl, hop, hu.shared_eq⟩

/-! ## The bound -/

/-- A queue which is handed to `swap` when there is data fits. -/
def SwapsFit (maxsize : Nat) (s : QueueSystem Thread α) (l : QueueLabel Thread α) : Prop :=
  ∀ t u q millsecond, l = .turn t u → (s.phase t).moving = some (.swap q millsecond) →
    s.shared ≠ [] → q.length ≤ maxsize

theorem length_awaitData {millsecond : UInt64} {refused : QueueResult α}
    {data : List α → QueueTurn α} {queue : List α} :
    (awaitData millsecond refused data queue).shared.length =
      if queue = [] then 0 else (data queue).shared.length := by
  cases queue with
  | nil =>
      simp only [awaitData, List.isEmpty_nil, if_true]
      split <;> rfl
  | cons t rest => rfl

/-- What a turn makes of the bound. -/
theorem length_enter_le_iff {op : QueueOp α} {queue : List α} (hqueue : queue.length ≤ maxsize) :
    (enter maxsize op queue).shared.length ≤ maxsize ↔
      ∀ q millsecond, op = .swap q millsecond → queue ≠ [] → q.length ≤ maxsize := by
  cases op with
  | size | empty => exact iff_of_true hqueue fun _ _ h => by cases h
  | clear => exact iff_of_true (Nat.zero_le _) fun _ _ h => by cases h
  | pushFront t | pushFrontAll qt | pushBack t | pushBackAll qt =>
      refine iff_of_true ?_ fun _ _ h => by cases h
      simp only [enter, pushFront, pushFrontAll, pushBack, pushBackAll, foldl_cons_eq,
        foldl_concat_eq, gt_iff_lt]
      split
      · exact hqueue
      · rename_i hroom
        simp only [signalling, List.length_cons, List.length_append, List.length_reverse,
          List.length_nil]
        omega
  | popFront millsecond =>
      refine iff_of_true ?_ fun _ _ h => by cases h
      rw [enter, length_awaitData]
      cases queue with
      | nil => exact Nat.zero_le _
      | cons t rest => exact Nat.le_of_succ_le hqueue
  | swap q millsecond =>
      rw [enter, length_awaitData]
      cases queue with
      | nil => exact iff_of_true (Nat.zero_le _) fun _ _ _ h => absurd rfl h
      | cons t rest =>
          refine ⟨fun hq q' _ heq _ => ?_, fun hq => hq q millsecond rfl (List.cons_ne_nil _ _)⟩
          cases heq
          exact hq

/-- In every run the queue stays within its bound if and only if no call of `swap`
finds data and hands in a queue which does not fit. -/
theorem queue_bounded_iff (hrun : Run (Step (methods α maxsize)) (System.start []) past s) :
    (∀ e ∈ past, e.1.shared.length ≤ maxsize) ∧ s.shared.length ≤ maxsize ↔
      Meets (SwapsFit maxsize) past := by
  refine hrun.forall_iff_meets (fun _ => True) (fun s => s.shared.length ≤ maxsize)
    trivial (Nat.zero_le _) (fun _ _ _ _ _ => trivial) fun s l s' _ hs hstep => ?_
  rcases shared_of_step hstep with ⟨hshared, hlabel⟩ | ⟨t, u, op, rfl, hop, hshared⟩
  · rw [hshared]
    exact iff_of_true hs fun t u _ _ h => absurd h (hlabel t u)
  · rw [hshared, length_enter_le_iff hs]
    constructor
    · intro hfits t' u' q millsecond hlabel hswap hdata
      cases hlabel
      exact hfits q millsecond (Option.some.inj (hop.symm.trans hswap)) hdata
    · rintro hfits q millsecond rfl hdata
      exact hfits t u q millsecond rfl hop hdata

/-- A queue of two elements is swapped into a `ThreadQueue` for one. -/
theorem exists_swap_of_two :
    ∃ past, ∃ s : QueueSystem Nat Nat,
      Run (Step (methods Nat 1)) (System.start []) past s ∧ s.shared = [1, 2] := by
  refine ⟨_, _, .snoc (.snoc (.snoc (.snoc (.snoc .start (.call 0 (.pushBack 7) rfl))
    (.signal (t := 0) rfl rfl (.nobody ?_))) (.ret (t := 0) rfl))
    (.call 0 (.swap [1, 2] 0) rfl)) (.turn (t := 0) rfl rfl), rfl⟩
  rintro u ⟨op, hu⟩
  by_cases hu0 : u = 0
  · subst hu0
    cases hu
  · simp [System.after, System.move, System.start, hu0] at hu

theorem queue_exceeds_bound :
    ∃ past, ∃ s : QueueSystem Nat Nat,
      Run (Step (methods Nat 1)) (System.start []) past s ∧ 1 < s.shared.length := by
  obtain ⟨past, s, hrun, hs⟩ := exists_swap_of_two
  exact ⟨past, s, hrun, by rw [hs]; decide⟩

theorem queue_bounded_iff_swap_of_two :
    ∃ past, ∃ s : QueueSystem Nat Nat,
      Run (Step (methods Nat 1)) (System.start []) past s ∧ ¬ Meets (SwapsFit 1) past := by
  obtain ⟨past, s, hrun, hs⟩ := exists_swap_of_two
  refine ⟨past, s, hrun, fun hfits => ?_⟩
  have hbound := ((queue_bounded_iff hrun).mpr hfits).2
  rw [hs] at hbound
  exact absurd hbound (by decide)

/-! ## Consumers which sleep -/

/-- Nobody is running, and nobody has been woken. -/
def Quiescent (s : QueueSystem Thread α) : Prop := ∀ t, s.phase t = .idle ∨ s.IsBlocked t

/-- An operation which takes data when it has a turn. -/
def Consumes : QueueOp α → Prop
  | .popFront _ | .swap _ _ => True
  | _ => False

/-- An operation after whose turn the queue is empty. -/
def Drains : QueueOp α → Prop
  | .clear => True
  | .swap q _ => q = []
  | _ => False

/-- The thread is about to have a turn in such an operation. -/
def IsMoving (s : QueueSystem Thread α) (t : Thread) (P : QueueOp α → Prop) : Prop :=
  ∃ op, (s.phase t).moving = some op ∧ P op

/-- There are `n` threads other than `t` which are about to take data. -/
def Takers (s : QueueSystem Thread α) (t : Option Thread) (n : Nat) : Prop :=
  ∃ takers : List Thread, takers.Nodup ∧ (∀ u ∈ takers, some u ≠ t ∧ IsMoving s u Consumes) ∧
    n ≤ takers.length

/-- With `n` elements in the queue no consumer sleeps in vain, whatever `t` does:
nobody waits, or another thread is about to empty the queue, or there is a thread
for each of the elements. -/
def Relieved (s : QueueSystem Thread α) (t : Option Thread) (n : Nat) : Prop :=
  (∀ u, ¬ s.IsBlocked u) ∨ (∃ u, some u ≠ t ∧ IsMoving s u Drains) ∨ Takers s t n

/-- The same for `n` elements in the queue once the signal of a push has woken `u`. -/
def Served (s : QueueSystem Thread α) (u : Option Thread) (n : Nat) : Prop :=
  (∀ v v', s.IsBlocked v → s.IsBlocked v' → v = v') ∨
    (∃ v op, u = some v ∧ s.phase v = .blocked op ∧ Drains op) ∨
    (∃ v, IsMoving s v Drains) ∨ Takers s none (n - 1)

/-- A batch adds at most as many elements as there are threads to take them, the one
which its signal wakes included, or leaves nobody asleep; a queue which is swapped
in has at most as many elements as there are other threads to take them, or nobody
sleeps. -/
def Sparing (maxsize : Nat) (s : QueueSystem Thread α) : QueueLabel Thread α → Prop
  | .turn t u =>
      match (s.phase t).moving with
      | some (.pushFrontAll qt) | some (.pushBackAll qt) =>
          s.shared.length + qt.length ≤ maxsize → Served s u (s.shared.length + qt.length)
      | some (.swap q _) => s.shared ≠ [] → Relieved s (some t) q.length
      | _ => True
  | _ => True

/-- The invariant. -/
structure Attended (s : QueueSystem Thread α) : Prop where
  consumer : ∀ t op, s.phase t = .blocked op → Consumes op
  relieved : Relieved s none s.shared.length

section

omit [DecidableEq Thread]

theorem relieved_zero (s : QueueSystem Thread α) (t : Option Thread) : Relieved s t 0 :=
  .inr (.inr ⟨[], List.nodup_nil, List.forall_mem_nil _, Nat.zero_le _⟩)

/-- Nobody falls asleep, and the threads other than `t` which count go on. -/
structure Undisturbed (t : Option Thread) (s s' : QueueSystem Thread α) : Prop where
  blocked : ∀ v op, s'.phase v = .blocked op → s.phase v = .blocked op
  moving : ∀ v op, some v ≠ t → (s.phase v).moving = some op → Consumes op ∨ Drains op →
    (s'.phase v).moving = some op

namespace Undisturbed

variable {t : Option Thread} {n : Nat}

theorem isBlocked (h : Undisturbed t s s') {v : Thread} (hv : s'.IsBlocked v) : s.IsBlocked v := by
  obtain ⟨op, hop⟩ := hv
  exact ⟨op, h.blocked v op hop⟩

theorem consumes (h : Undisturbed t s s') {v : Thread} (hvt : some v ≠ t)
    (hv : IsMoving s v Consumes) : IsMoving s' v Consumes := by
  obtain ⟨op, hop, hconsumes⟩ := hv
  exact ⟨op, h.moving v op hvt hop (.inl hconsumes), hconsumes⟩

theorem drains (h : Undisturbed t s s') {v : Thread} (hvt : some v ≠ t)
    (hv : IsMoving s v Drains) : IsMoving s' v Drains := by
  obtain ⟨op, hop, hdrains⟩ := hv
  exact ⟨op, h.moving v op hvt hop (.inr hdrains), hdrains⟩

theorem takers (h : Undisturbed t s s') (hs : Takers s t n) : Takers s' none n := by
  obtain ⟨takers, hnodup, htakers, hn⟩ := hs
  exact ⟨takers, hnodup, fun v hv => ⟨nofun, h.consumes (htakers v hv).1 (htakers v hv).2⟩, hn⟩

theorem relieved (h : Undisturbed t s s') (hs : Relieved s t n) : Relieved s' none n := by
  rcases hs with hnobody | ⟨v, hv, hdrains⟩ | htakers
  · exact .inl fun v hv => hnobody v (h.isBlocked hv)
  · exact .inr (.inl ⟨v, nofun, h.drains hv hdrains⟩)
  · exact .inr (.inr (h.takers htakers))

/-- When the threads which wait go on waiting, a push serves them as before. -/
theorem served (h : Undisturbed none s s')
    (hwait : ∀ v op, s.phase v = .blocked op → s'.phase v = .blocked op) {u : Option Thread}
    (hs : Served s u n) : Served s' u n := by
  rcases hs with hone | ⟨v, op, hu, hv, hdrains⟩ | ⟨v, hdrains⟩ | htakers
  · exact .inl fun v v' hv hv' => hone v v' (h.isBlocked hv) (h.isBlocked hv')
  · exact .inr (.inl ⟨v, op, hu, hwait v op hv, hdrains⟩)
  · exact .inr (.inr (.inl ⟨v, h.drains nofun hdrains⟩))
  · exact .inr (.inr (.inr (h.takers htakers)))

end Undisturbed

/-- One element more. -/
theorem Relieved.served {u : Option Thread} {n : Nat} (h : Relieved s none n) :
    Served s u (n + 1) := by
  rcases h with hnobody | ⟨v, -, hv⟩ | htakers
  · exact .inl fun v _ hv => absurd hv (hnobody v)
  · exact .inr (.inr (.inl ⟨v, hv⟩))
  · exact .inr (.inr (.inr htakers))

end

/-- A thread which takes one element. -/
theorem Relieved.take {t : Thread} {n : Nat} (h : Relieved s none (n + 1))
    (hdrains : ¬ IsMoving s t Drains) : Relieved s (some t) n := by
  rcases h with hnobody | ⟨u, -, hu⟩ | ⟨takers, hnodup, htakers, hn⟩
  · exact .inl hnobody
  · refine .inr (.inl ⟨u, ?_, hu⟩)
    rintro ⟨⟩
    exact hdrains hu
  · refine .inr (.inr ⟨takers.erase t, hnodup.erase t, fun u hu => ⟨?_, ?_⟩, ?_⟩)
    · rintro ⟨⟩
      exact (hnodup.mem_erase_iff.mp hu).1 rfl
    · exact (htakers u (List.mem_of_mem_erase hu)).2
    · rw [List.length_erase]
      split <;> omega

/-- The signal of a push wakes a thread, if one waits. -/
theorem Served.signal {u : Option Thread} {n : Nat} (h : Served s u n)
    (hconsumer : ∀ t op, s.phase t = .blocked op → Consumes op) (hu : Signals s u s') :
    Relieved s' none n := by
  cases hu with
  | nobody hnobody => exact .inl hnobody
  | @wakes u op hu =>
  have hself : IsMoving (s.move u (.woken op .signalled)) u fun op' => op' = op :=
    ⟨op, by rw [s.move_phase_self]; rfl, rfl⟩
  have hother : ∀ {v P}, IsMoving s v P →
      v ≠ u ∧ IsMoving (s.move u (.woken op .signalled)) v P := by
    rintro v P ⟨op', hop', hP⟩
    have hv : v ≠ u := by
      rintro rfl
      rw [hu] at hop'
      cases hop'
    exact ⟨hv, op', by rwa [s.move_phase_of_ne hv], hP⟩
  rcases h with hone | ⟨v, op', heq, hv, hdrains⟩ | ⟨v, hv⟩ | ⟨takers, hnodup, htakers, hn⟩
  · -- nobody else waits
    refine .inl fun v hv => ?_
    by_cases hvu : v = u
    · subst hvu
      obtain ⟨op', hop'⟩ := hv
      rw [s.move_phase_self] at hop'
      cases hop'
    · refine hvu (hone v u ?_ ⟨op, hu⟩)
      rwa [System.IsBlocked, s.move_phase_of_ne hvu] at hv
  · cases heq
    obtain rfl : op' = op := by simpa using hv.symm.trans hu
    obtain ⟨op'', hop'', rfl⟩ := hself
    exact .inr (.inl ⟨u, nofun, op'', hop'', hdrains⟩)
  · exact .inr (.inl ⟨v, nofun, (hother hv).2⟩)
  · refine .inr (.inr ⟨u :: takers, ?_, fun v hv => ⟨nofun, ?_⟩, ?_⟩)
    · exact List.nodup_cons.mpr ⟨fun hmem => (hother (htakers u hmem).2).1 rfl, hnodup⟩
    · rcases List.mem_cons.mp hv with rfl | hv
      · obtain ⟨op', hop', rfl⟩ := hself
        exact ⟨op', hop', hconsumer v op' hu⟩
      · exact (hother (htakers v hv).2).2
    · simp only [List.length_cons]
      omega

/-- A thread goes on without falling asleep. -/
theorem undisturbed_move {t : Thread} {p : Phase (QueueOp α) (QueueResult α)}
    (hp : ∀ op, p ≠ .blocked op) : Undisturbed (some t) s (s.move t p) where
  blocked v op hv := by
    by_cases hvt : v = t
    · subst hvt
      rw [s.move_phase_self] at hv
      exact absurd hv (hp op)
    · rwa [s.move_phase_of_ne hvt] at hv
  moving v op hvt hop _ := by
    rwa [s.move_phase_of_ne fun h => hvt (congrArg some h)]

/-- The same of a thread which does not count. -/
theorem undisturbed_move_idle {t : Thread} {p : Phase (QueueOp α) (QueueResult α)}
    (hp : ∀ op, p ≠ .blocked op)
    (ht : ∀ op, (s.phase t).moving = some op → ¬ Consumes op ∧ ¬ Drains op) :
    Undisturbed none s (s.move t p) where
  blocked := (undisturbed_move hp).blocked
  moving v op _ hop hcounts := by
    refine (undisturbed_move hp).moving v op ?_ hop hcounts
    rintro ⟨⟩
    exact (ht op hop).elim fun hconsumes hdrains => hcounts.elim hconsumes hdrains

theorem next_ne_blocked {op : QueueOp α} {c : QueueTurn α} (hc : c.result ≠ none)
    (op' : QueueOp α) : c.next op ≠ .blocked op' := by
  rw [Turn.next]
  cases hresult : c.result with
  | none => exact absurd hresult hc
  | some r =>
      intro heq
      cases heq

/-- A turn which ends in a return. -/
theorem undisturbed_after {t : Thread} {op : QueueOp α} {c : QueueTurn α}
    (hc : c.result ≠ none) : Undisturbed (some t) s (s.after t op c) :=
  have h : Undisturbed (some t) s (s.move t (c.next op)) := undisturbed_move (next_ne_blocked hc)
  ⟨h.blocked, h.moving⟩

theorem undisturbed_after_idle {t : Thread} {op : QueueOp α} {c : QueueTurn α}
    (hc : c.result ≠ none) (hop : ¬ Consumes op ∧ ¬ Drains op)
    (ht : (s.phase t).moving = some op) : Undisturbed none s (s.after t op c) := by
  have h : Undisturbed none s (s.move t (c.next op)) := by
    refine undisturbed_move_idle (next_ne_blocked hc) fun op' hop' => ?_
    cases hop'.symm.trans ht
    exact hop
  exact ⟨h.blocked, h.moving⟩

/-! ### The steps keep the invariant -/

theorem Attended.after (h : Attended s) {t : Thread} {op : QueueOp α} {c : QueueTurn α}
    (hwaits : c.result = none → Consumes op)
    (hrelieved : Relieved (s.after t op c) none c.shared.length) : Attended (s.after t op c) where
  consumer v op' hv := by
    by_cases hvt : v = t
    · subst hvt
      rw [System.after, System.move_phase_self, Turn.next] at hv
      cases hresult : c.result with
      | none =>
          rw [hresult] at hv
          cases hv
          exact hwaits hresult
      | some r =>
          rw [hresult] at hv
          cases hv
    · rw [System.after, System.move_phase_of_ne _ hvt] at hv
      exact h.consumer v op' hv
  relieved := hrelieved

/-- The turn of `pop_front` or `swap`, whose `data` is what it does when there is some. -/
theorem Attended.awaits (h : Attended s) {t : Thread} {op : QueueOp α} (hop : Consumes op)
    {millsecond : UInt64} {refused : QueueResult α} {data : List α → QueueTurn α}
    (hdata : s.shared ≠ [] →
      Relieved (s.after t op (data s.shared)) none (data s.shared).shared.length) :
    Attended (s.after t op (awaitData millsecond refused data s.shared)) := by
  refine h.after (fun _ => hop) ?_
  cases hqueue : s.shared with
  | nil =>
      have hlength : (awaitData millsecond refused data []).shared.length = 0 := by
        rw [length_awaitData, if_pos rfl]
      rw [hlength]
      exact relieved_zero _ _
  | cons t' rest =>
      rw [hqueue] at hdata
      exact hdata (List.cons_ne_nil _ _)

/-- A push which leaves at most as many elements as it serves. -/
theorem Attended.push (h : Attended s) {t : Thread} {op : QueueOp α} {queue : List α}
    {r : QueueResult α} {u : Option Thread} (hop : ¬ Consumes op ∧ ¬ Drains op)
    (ht : (s.phase t).moving = some op) (hserved : Served s u queue.length)
    (hu : Signals (s.after t op (signalling queue r)) u s') : Attended s' := by
  have hidle : Undisturbed none s (s.after t op (signalling queue r)) :=
    undisturbed_after_idle nofun hop ht
  have hafter : ∀ v op', (s.after t op (signalling queue r)).phase v = .blocked op' →
      Consumes op' := fun v op' hv => h.consumer v op' (hidle.blocked v op' hv)
  have hwait : ∀ v op', s.phase v = .blocked op' →
      (s.after t op (signalling queue r)).phase v = .blocked op' := by
    intro v op' hv
    rw [System.after, System.move_phase_of_ne]
    · exact hv
    · rintro rfl
      rw [hv] at ht
      cases ht
  have hrelieved := (hidle.served hwait hserved).signal hafter hu
  refine ⟨fun v op' hv => hafter v op' (hu.blocked hv), ?_⟩
  rw [hu.shared_eq]
  exact hrelieved

/-- The turns without a signal. -/
theorem Attended.turn (h : Attended s) {t : Thread} {op : QueueOp α}
    (ht : (s.phase t).moving = some op) (hsparing : Sparing maxsize s (.turn t none))
    (hc : (enter maxsize op s.shared).signals = false) :
    Attended (s.after t op (enter maxsize op s.shared)) := by
  have hpush : ∀ {queue queue' : List α} {r r' : QueueResult α} {p : Prop} [Decidable p],
      (if p then signalling queue r else signalling queue' r').signals = true := by
    intro queue queue' r r' p _
    split <;> rfl
  cases op with
  | size | empty =>
      exact h.after nofun
        (Undisturbed.relieved (undisturbed_after_idle nofun ⟨id, id⟩ ht) h.relieved)
  | clear => exact h.after nofun (relieved_zero _ _)
  | pushFront | pushFrontAll | pushBack | pushBackAll => exact absurd (hpush.symm.trans hc) nofun
  | popFront millsecond =>
      have hop : Consumes (.popFront millsecond : QueueOp α) := trivial
      refine h.awaits hop fun hdata => ?_
      cases hqueue : s.shared with
      | nil => exact absurd hqueue hdata
      | cons t' rest =>
          have hdrains : ¬ IsMoving s t Drains := by
            rintro ⟨op', hop', hdrains⟩
            cases hop'.symm.trans ht
            exact hdrains
          refine Undisturbed.relieved (undisturbed_after nofun) (Relieved.take ?_ hdrains)
          have hrelieved := h.relieved
          rwa [hqueue] at hrelieved
  | swap q millsecond =>
      have hop : Consumes (.swap q millsecond) := trivial
      refine h.awaits hop fun hdata => ?_
      have hq : Relieved s (some t) q.length := by
        rw [Sparing, ht] at hsparing
        exact hsparing hdata
      cases hqueue : s.shared with
      | nil => exact absurd hqueue hdata
      | cons t' rest => exact Undisturbed.relieved (undisturbed_after nofun) hq

/-- The turns with a signal. -/
theorem Attended.signal (h : Attended s) {t : Thread} {u : Option Thread} {op : QueueOp α}
    (ht : (s.phase t).moving = some op) (hsparing : Sparing maxsize s (.turn t u))
    (hc : (enter maxsize op s.shared).signals = true)
    (hu : Signals (s.after t op (enter maxsize op s.shared)) u s') : Attended s' := by
  have hawait : ∀ {millsecond refused} {data : List α → QueueTurn α},
      (∀ queue, (data queue).signals = false) →
      (awaitData millsecond refused data s.shared).signals = false := by
    intro millsecond refused data hdata
    rw [awaitData]
    split
    · split <;> rfl
    · exact hdata _
  have hone : Served s u (s.shared.length + 1) := h.relieved.served
  have hrefused : Served s u s.shared.length := by
    rcases hone with hone | hdrains | hdrains | htakers
    · exact .inl hone
    · exact .inr (.inl hdrains)
    · exact .inr (.inr (.inl hdrains))
    · obtain ⟨takers, hnodup, htakers, hn⟩ := htakers
      exact .inr (.inr (.inr ⟨takers, hnodup, htakers, by omega⟩))
  cases op with
  | size | empty | clear => cases hc
  | popFront millsecond =>
      refine absurd ((hawait fun queue => ?_).symm.trans hc) nofun
      cases queue <;> rfl
  | swap q millsecond =>
      refine absurd ((hawait fun queue => ?_).symm.trans hc) nofun
      cases queue <;> rfl
  | pushFront t' | pushBack t' =>
      simp only [enter, pushFront, pushBack] at hu
      split at hu
      · exact h.push ⟨id, id⟩ ht hrefused hu
      · refine h.push ⟨id, id⟩ ht ?_ hu
        simpa using hone
  | pushFrontAll qt | pushBackAll qt =>
      rw [Sparing, ht] at hsparing
      simp only [enter, pushFrontAll, pushBackAll, foldl_cons_eq, foldl_concat_eq] at hu
      split at hu
      · exact h.push ⟨id, id⟩ ht hrefused hu
      · rename_i hroom
        refine h.push ⟨id, id⟩ ht ?_ hu
        have hserved := hsparing (Nat.le_of_not_lt hroom)
        simpa [Nat.add_comm] using hserved

theorem Attended.step (h : Attended s) (hsparing : Sparing maxsize s l)
    (hstep : Step (methods α maxsize) s l s') : Attended s' := by
  -- the steps in which a thread begins to move, or returns
  have hmove : ∀ {t : Thread} {p : Phase (QueueOp α) (QueueResult α)},
      (∀ op, p ≠ .blocked op) → (s.phase t).moving = none → Attended (s.move t p) := by
    intro t p hp ht
    have hothers : Undisturbed none s (s.move t p) :=
      undisturbed_move_idle hp fun op hop => nomatch ht.symm.trans hop
    exact ⟨fun v op hv => h.consumer v op (hothers.blocked v op hv),
      hothers.relieved h.relieved⟩
  cases hstep with
  | call t op ht => exact hmove nofun (by rw [ht]; rfl)
  | wake ht => exact hmove nofun (by rw [ht]; rfl)
  | ret ht => exact hmove nofun (by rw [ht]; rfl)
  | turn ht hc =>
      obtain ⟨hop, rfl⟩ := enter_of_turn ht
      exact h.turn hop hsparing hc
  | signal ht hc hu =>
      obtain ⟨hop, rfl⟩ := enter_of_turn ht
      exact h.signal hop hsparing hc hu

omit [DecidableEq Thread] in
theorem attended_start : Attended (System.start [] : QueueSystem Thread α) where
  consumer _ _ hv := nomatch hv
  relieved := relieved_zero _ _

/-- In every run whose batches and swaps are sparing: when nobody is running and
nobody has been woken, a consumer is blocked only while the queue is empty. -/
theorem no_stranded_consumer
    (hrun : Run (Step (methods α maxsize)) (System.start []) past s)
    (hsparing : Meets (Sparing maxsize) past) (hquiescent : Quiescent s)
    (hblocked : ∃ t, s.IsBlocked t) : s.shared = [] := by
  have hattended : Attended s := hrun.inv_of_meets attended_start
    (fun _ _ _ hs hsparing hstep => hs.step hsparing hstep) hsparing
  have hstill : ∀ t P, ¬ IsMoving s t P := by
    rintro t P ⟨op, hop, -⟩
    rcases hquiescent t with ht | ⟨op', ht⟩ <;> rw [ht] at hop <;> cases hop
  obtain ⟨t, ht⟩ := hblocked
  rcases hattended.relieved with hnobody | ⟨u, -, hu⟩ | ⟨takers, -, htakers, hn⟩
  · exact absurd ht (hnobody t)
  · exact absurd hu (hstill u _)
  · cases takers with
    | nil => exact List.length_eq_zero_iff.mp (Nat.le_zero.mp hn)
    | cons u takers => exact absurd (htakers u List.mem_cons_self).2 (hstill u _)

/-- Two consumers wait, and a batch of two elements wakes one of them. -/
theorem consumer_stranded :
    ∃ past, ∃ s : QueueSystem Nat Nat,
      Run (Step (methods Nat 4)) (System.start []) past s ∧
      past.map Prod.snd = [.call 1 (.popFront forever), .turn 1 none, .call 2 (.popFront forever),
        .turn 2 none, .call 0 (.pushBackAll [5, 6]), .turn 0 (some 1), .turn 1 none, .ret 1,
        .ret 0] ∧
      Quiescent s ∧ s.IsBlocked 2 ∧ s.shared = [6] := by
  refine ⟨_, _, .snoc (.snoc (.snoc (.snoc (.snoc (.snoc (.snoc (.snoc (.snoc .start
    (.call 1 (.popFront forever) rfl)) (.turn (t := 1) rfl rfl))
    (.call 2 (.popFront forever) rfl)) (.turn (t := 2) rfl rfl))
    (.call 0 (.pushBackAll [5, 6]) rfl)) (.signal (t := 0) rfl rfl (.wakes (u := 1) rfl)))
    (.turn (t := 1) rfl rfl)) (.ret (t := 1) rfl)) (.ret (t := 0) rfl), rfl, fun t => ?_,
    ⟨_, rfl⟩, rfl⟩
  match t with
  | 0 | 1 => exact .inl rfl
  | 2 => exact .inr ⟨_, rfl⟩
  | t + 3 => exact .inl rfl

/-- A batch of two elements for a consumer which waits and one which is about to look;
afterwards both wait. -/
theorem exists_batch_of_two :
    ∃ past, ∃ s : QueueSystem Nat Nat,
      Run (Step (methods Nat 4)) (System.start []) past s ∧
      past.map Prod.snd = [.call 1 (.popFront forever), .turn 1 none, .call 2 (.popFront forever),
        .call 0 (.pushBackAll [5, 6]), .turn 0 (some 1), .turn 1 none, .ret 1, .turn 2 none,
        .ret 2, .ret 0, .call 1 (.popFront forever), .turn 1 none, .call 2 (.popFront forever),
        .turn 2 none] ∧
      Meets (Sparing 4) past ∧ Quiescent s ∧ s.IsBlocked 1 ∧ s.IsBlocked 2 := by
  refine ⟨_, _, .snoc (.snoc (.snoc (.snoc (.snoc (.snoc (.snoc (.snoc (.snoc (.snoc (.snoc (.snoc
    (.snoc (.snoc .start
    (.call 1 (.popFront forever) rfl)) (.turn (t := 1) rfl rfl))
    (.call 2 (.popFront forever) rfl)) (.call 0 (.pushBackAll [5, 6]) rfl))
    (.signal (t := 0) rfl rfl (.wakes (u := 1) rfl))) (.turn (t := 1) rfl rfl))
    (.ret (t := 1) rfl)) (.turn (t := 2) rfl rfl)) (.ret (t := 2) rfl)) (.ret (t := 0) rfl))
    (.call 1 (.popFront forever) rfl)) (.turn (t := 1) rfl rfl))
    (.call 2 (.popFront forever) rfl)) (.turn (t := 2) rfl rfl), rfl, ?_, fun t => ?_, ⟨_, rfl⟩,
    ⟨_, rfl⟩⟩
  · simp only [meets_snoc]
    refine ⟨⟨⟨⟨⟨⟨⟨⟨⟨⟨⟨⟨⟨⟨meets_nil, trivial⟩, trivial⟩, trivial⟩, trivial⟩, fun _ => ?_⟩, trivial⟩,
      trivial⟩, trivial⟩, trivial⟩, trivial⟩, trivial⟩, trivial⟩, trivial⟩, trivial⟩
    -- the signal wakes the thread 1, and the thread 2 takes the other element
    refine .inr (.inr (.inr ⟨[2], List.nodup_singleton 2, ?_, Nat.le_refl _⟩))
    rw [List.forall_mem_singleton]
    exact ⟨(fun h => by cases h), .popFront forever, rfl, trivial⟩
  · match t with
    | 0 => exact .inl rfl
    | 1 | 2 => exact .inr ⟨_, rfl⟩
    | t + 3 => exact .inl rfl

theorem no_stranded_consumer_batch :
    ∃ past, ∃ s : QueueSystem Nat Nat,
      Run (Step (methods Nat 4)) (System.start []) past s ∧
      past.map Prod.snd = [.call 1 (.popFront forever), .turn 1 none, .call 2 (.popFront forever),
        .call 0 (.pushBackAll [5, 6]), .turn 0 (some 1), .turn 1 none, .ret 1, .turn 2 none,
        .ret 2, .ret 0, .call 1 (.popFront forever), .turn 1 none, .call 2 (.popFront forever),
        .turn 2 none] ∧
      s.IsBlocked 1 ∧ s.IsBlocked 2 ∧ s.shared = [] := by
  obtain ⟨past, s, hrun, hlabels, hsparing, hquiescent, hfirst, hsecond⟩ := exists_batch_of_two
  exact ⟨past, s, hrun, hlabels, hfirst, hsecond,
    no_stranded_consumer hrun hsparing hquiescent ⟨1, hfirst⟩⟩

end ThreadQueue
end Sys
end Deps
