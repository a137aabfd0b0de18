import Deps.Sys.QueueRuns
import Deps.Sys.SequentialQueue

/-!
# Waits with a timeout

A thread which waits with a timeout is meant to give up when the time is over.
`ThreadCond::timeWait` does not tell, so a thread whose time is over looks at the
queue, and waits again when it is empty.  `TimedWaitEnds` is what a turn after an
expired wait should do; as long as the queue stays empty no such turn does it, and
the thread never leaves its loop.
-/

namespace Deps
namespace Sys

open Monitor Runs

namespace ThreadQueue

variable {Thread α : Type} {maxsize : Nat} {s s' : QueueSystem Thread α}
  {l : QueueLabel Thread α} {past : List (QueueSystem Thread α × QueueLabel Thread α)}

/-! ## Who waits -/

/-- An operation which waits when there is no data. -/
def Waits : QueueOp α → Prop
  | .popFront millsecond | .swap _ millsecond => millsecond ≠ 0
  | _ => False

/-- Threads which wait, or have waited, are in `pop_front` or `swap`, and no wait
without a timeout is over for want of time. -/
def Sound (maxsize : Nat) : Phase (QueueOp α) (QueueResult α) → Prop
  | .blocked op => Waits op
  | .woken op why => Waits op ∧ (why = .timedOut → (methods α maxsize).timed op = true)
  | _ => True

/-- A turn which finds the queue empty ends in a wait. -/
theorem enter_nil {op : QueueOp α} (hop : Waits op) :
    enter maxsize op [] = ⟨[], false, none⟩ := by
  cases op with
  | popFront millsecond => exact if_neg hop
  | swap q millsecond => exact if_neg hop
  | _ => cases hop

/-- Only such a turn does. -/
theorem waits_of_enter {op : QueueOp α} {queue : List α}
    (hnone : (enter maxsize op queue).result = none) : Waits op ∧ queue = [] := by
  have hawait : ∀ {millsecond : UInt64} {refused : QueueResult α}
      {data : List α → QueueTurn α}, (∀ queue, (data queue).result ≠ none) →
      (awaitData millsecond refused data queue).result = none → millsecond ≠ 0 ∧ queue = [] := by
    intro millsecond refused data hdata hnone
    unfold awaitData at hnone
    split at hnone
    · rename_i hempty
      split at hnone
      · cases hnone
      · rename_i htime
        exact ⟨htime, List.isEmpty_iff.mp hempty⟩
    · exact absurd hnone (hdata queue)
  cases op with
  | size | clear | empty => cases hnone
  | pushFront t | pushFrontAll qt | pushBack t | pushBackAll qt =>
      simp only [enter, pushFront, pushFrontAll, pushBack, pushBackAll] at hnone
      split at hnone <;> cases hnone
  | popFront millsecond =>
      refine hawait (fun queue => ?_) hnone
      cases queue <;> simp [takeFront, returning]
  | swap q millsecond =>
      refine hawait (fun queue => ?_) hnone
      cases queue <;> simp [exchange, returning]

variable [DecidableEq Thread]

theorem sound_move (hs : ∀ t, Sound maxsize (s.phase t)) (t : Thread)
    {p : Phase (QueueOp α) (QueueResult α)} (hp : Sound maxsize p) (t' : Thread) :
    Sound maxsize ((s.move t p).phase t') := by
  by_cases ht : t' = t
  · subst ht
    rwa [s.move_phase_self]
  · rw [s.move_phase_of_ne ht]
    exact hs t'

theorem sound_next (op : QueueOp α) (queue : List α) :
    Sound maxsize ((enter maxsize op queue).next op) := by
  unfold Turn.next
  split
  · rename_i hnone
    exact (waits_of_enter hnone).1
  · trivial

theorem sound_after (hs : ∀ t, Sound maxsize (s.phase t)) (t : Thread) (op : QueueOp α)
    (t' : Thread) :
    Sound maxsize ((s.after t op (enter maxsize op s.shared)).phase t') :=
  sound_move hs t (sound_next op s.shared) t'

theorem sound_of_step (hs : ∀ t, Sound maxsize (s.phase t))
    (hstep : Step (methods α maxsize) s l s') (t : Thread) : Sound maxsize (s'.phase t) := by
  cases hstep with
  | call t' op _ => exact sound_move hs t' (p := .entering op) trivial t
  | @turn t' op _ ht _ =>
      obtain ⟨-, rfl⟩ := enter_of_turn ht
      exact sound_after hs t' op t
  | @signal t' op _ u _ ht _ hu =>
      obtain ⟨-, rfl⟩ := enter_of_turn ht
      have hafter := sound_after hs t' op
      cases hu with
      | @wakes u op' hu =>
          have hwaits := hafter u
          rw [hu] at hwaits
          exact sound_move hafter u (p := .woken op' .signalled) ⟨hwaits, fun h => by cases h⟩ t
      | nobody => exact hafter t
  | @wake t' op why ht _ htimed =>
      have hwaits := hs t'
      rw [ht] at hwaits
      exact sound_move hs t' (p := .woken op why) ⟨hwaits, htimed⟩ t
  | @ret t' _ _ _ => exact sound_move hs t' (p := .idle) trivial t

/-! ## The end of a timed wait -/

/-- In a turn of a thread whose wait is over for want of time: if the queue is empty
the operation returns with nothing, and the queue stays as it is; and the thread
does not wait again. -/
def TimedWaitEnds (s : QueueSystem Thread α) (l : QueueLabel Thread α)
    (s' : QueueSystem Thread α) : Prop :=
  ∀ t u op, l = .turn t u → s.phase t = .woken op .timedOut →
    (s.shared = [] → ∃ r, s'.phase t = .returning op r ∧ IsRefusal r ∧ s'.shared = s.shared) ∧
      ∀ op', s'.phase t ≠ .blocked op'

/-- A thread whose wait is over for want of time finds data nevertheless. -/
def FindsData (s : QueueSystem Thread α) (l : QueueLabel Thread α) : Prop :=
  ∀ t u op, l = .turn t u → s.phase t = .woken op .timedOut → s.shared ≠ []

/-- The turn of an operation which waits for data does not signal. -/
theorem after_of_turn {t : Thread} {u : Option Thread} {op : QueueOp α}
    (hop : (s.phase t).moving = some op) (hwaits : Waits op)
    (hstep : Step (methods α maxsize) s (.turn t u) s') :
    s' = s.after t op (enter maxsize op s.shared) := by
  have hquiet : (enter maxsize op s.shared).signals = false := by
    cases op with
    | popFront millsecond =>
        simp only [enter, awaitData]
        split
        · split <;> rfl
        · cases s.shared <;> rfl
    | swap q millsecond =>
        simp only [enter, awaitData]
        split
        · split <;> rfl
        · cases s.shared <;> rfl
    | _ => cases hwaits
  cases hstep with
  | turn ht _ =>
      obtain ⟨hop', rfl⟩ := enter_of_turn ht
      cases hop.symm.trans hop'
      rfl
  | signal ht hc _ =>
      obtain ⟨hop', rfl⟩ := enter_of_turn ht
      cases hop.symm.trans hop'
      rw [hquiet] at hc
      cases hc

/-- A thread which finds the queue empty waits again, whatever woke it. -/
theorem blocked_of_turn {t : Thread} {u : Option Thread} {op : QueueOp α}
    (hop : (s.phase t).moving = some op) (hwaits : Waits op) (hempty : s.shared = [])
    (hstep : Step (methods α maxsize) s (.turn t u) s') :
    s'.phase t = .blocked op ∧ s'.shared = [] := by
  rw [after_of_turn hop hwaits hstep, hempty, enter_nil hwaits]
  exact ⟨s.move_phase_self t _, rfl⟩

/-- A thread which finds data does not wait again. -/
theorem not_blocked_of_turn {t : Thread} {u : Option Thread} {op : QueueOp α}
    (hop : (s.phase t).moving = some op) (hwaits : Waits op) (hdata : s.shared ≠ [])
    (hstep : Step (methods α maxsize) s (.turn t u) s') (op' : QueueOp α) :
    s'.phase t ≠ .blocked op' := by
  have hresult : (enter maxsize op s.shared).result ≠ none :=
    fun hnone => hdata (waits_of_enter hnone).2
  rw [after_of_turn hop hwaits hstep, System.after, System.move_phase_self]
  exact next_ne_blocked hresult op'

theorem timedWaitEnds_iff (hs : ∀ t, Sound maxsize (s.phase t))
    (hstep : Step (methods α maxsize) s l s') : TimedWaitEnds s l s' ↔ FindsData s l := by
  have hmoving : ∀ {t op}, s.phase t = .woken op .timedOut →
      (s.phase t).moving = some op ∧ Waits op := by
    intro t op ht
    have hwaits := hs t
    rw [ht] at hwaits ⊢
    exact ⟨rfl, hwaits.1⟩
  constructor
  · rintro hends t u op rfl ht hempty
    obtain ⟨hop, hwaits⟩ := hmoving ht
    exact (hends t u op rfl ht).2 op (blocked_of_turn hop hwaits hempty hstep).1
  · rintro hfinds t u op rfl ht
    obtain ⟨hop, hwaits⟩ := hmoving ht
    have hdata := hfinds t u op rfl ht
    exact ⟨fun hempty => absurd hempty hdata, not_blocked_of_turn hop hwaits hdata hstep⟩

/-! ## A thread which never gives up -/

/-- The thread is in the loop of `op`. -/
def InLoop (s : QueueSystem Thread α) (t : Thread) (op : QueueOp α) : Prop :=
  s.phase t = .blocked op ∨ ∃ why, s.phase t = .woken op why

theorem InLoop.moving {t t' : Thread} {op : QueueOp α} (h : InLoop s t op) (hne : t ≠ t')
    (p : Phase (QueueOp α) (QueueResult α)) : InLoop (s.move t' p) t op := by
  rwa [InLoop, s.move_phase_of_ne hne]

/-- A signal may wake the thread, which stays in its loop. -/
theorem InLoop.signal {t : Thread} {u : Option Thread} {op : QueueOp α} (h : InLoop s t op)
    (hu : Signals s u s') : InLoop s' t op := by
  cases hu with
  | @wakes u op' hu =>
      by_cases htu : t = u
      · subst htu
        rcases h with ht | ⟨why, ht⟩ <;> rw [hu] at ht <;> cases ht
        exact .inr ⟨.signalled, s.move_phase_self t _⟩
      · exact h.moving htu _
  | nobody => exact h

/-- While the queue is empty a thread does not leave its loop. -/
theorem inLoop_of_step {t : Thread} {op : QueueOp α} (hwaits : Waits op)
    (hloop : InLoop s t op) (hempty : s.shared = [])
    (hstep : Step (methods α maxsize) s l s') : InLoop s' t op := by
  have hphase : ∀ {p}, s.phase t = p → p.moving = some op ∨ p.moving = none ∧ p = .blocked op := by
    rintro p rfl
    rcases hloop with ht | ⟨why, ht⟩ <;> rw [ht]
    · exact .inr ⟨rfl, rfl⟩
    · exact .inl rfl
  -- a turn of the thread itself ends in a wait
  have hown : ∀ {u c op'}, (s.phase t).turn (methods α maxsize) s.shared = some (op', c) →
      Step (methods α maxsize) s (.turn t u) s' → InLoop s' t op := by
    intro u c op' ht hstep
    obtain ⟨hop, -⟩ := enter_of_turn ht
    rcases hphase rfl with hop' | ⟨hnone, -⟩
    · exact .inl (blocked_of_turn hop' hwaits hempty hstep).1
    · rw [hnone] at hop
      cases hop
  have hother : ∀ {t' op'} {c : QueueTurn α}, t ≠ t' → InLoop (s.after t' op' c) t op :=
    fun hne => InLoop.moving hloop hne _
  cases hstep with
  | @call t' op' ht' =>
      refine hloop.moving (fun h => ?_) _
      subst h
      rcases hphase ht' with hop | ⟨-, hop⟩ <;> cases hop
  | @turn t' op' c ht' hc =>
      by_cases h : t = t'
      · subst h
        exact hown ht' (.turn ht' hc)
      · exact hother h
  | @signal t' op' c u _ ht' hc hu =>
      by_cases h : t = t'
      · subst h
        exact hown ht' (.signal ht' hc hu)
      · exact (hother h).signal hu
  | @wake t' op' why ht' _ _ =>
      by_cases h : t = t'
      · subst h
        rcases hphase ht' with hop | ⟨-, hop⟩ <;> cases hop
        exact .inr ⟨why, s.move_phase_self t _⟩
      · exact hloop.moving h _
  | @ret t' op' r ht' =>
      refine hloop.moving (fun h => ?_) _
      subst h
      rcases hphase ht' with hop | ⟨-, hop⟩ <;> cases hop

/-- A timed wait ends in every turn of a run if and only if none of the threads whose
time is over finds the queue empty; and while the queue is empty, no thread leaves
its loop. -/
theorem timed_waits_end_iff (hrun : Run (Step (methods α maxsize)) (System.start []) past s) :
    ((∀ e ∈ transitions past s, TimedWaitEnds e.1 e.2.1 e.2.2) ↔ Meets FindsData past) ∧
      ∀ past' s' t op, Run (Step (methods α maxsize)) s past' s' → InLoop s t op →
        (∀ e ∈ past', e.1.shared = []) → InLoop s' t op := by
  have hstart : ∀ t : Thread,
      Sound maxsize ((System.start [] : QueueSystem Thread α).phase t) := fun _ => trivial
  have hkeep : ∀ s l s', (∀ t : Thread, Sound maxsize (s.phase t)) →
      Step (methods α maxsize) s l s' → ∀ t, Sound maxsize (s'.phase t) :=
    fun _ _ _ hs hstep => sound_of_step hs hstep
  refine ⟨?_, ?_⟩
  · exact hrun.forall_transition_iff TimedWaitEnds hstart hkeep
      fun s l s' hs hstep => timedWaitEnds_iff hs hstep
  · intro past' s' t op hrun' hloop hempty
    have hwaits : Waits op := by
      have hsound := hrun.inv hstart hkeep t
      rcases hloop with ht | ⟨why, ht⟩ <;> rw [ht] at hsound
      · exact hsound
      · exact hsound.1
    have hmeets : Meets (fun s _ => s.shared = []) past' := hempty
    exact hrun'.inv_of_meets hloop
      (fun s l s' hloop hnone hstep => inLoop_of_step hwaits hloop hnone hstep) hmeets

theorem timedOut_ne_signalled : Wake.timedOut ≠ .signalled := by decide

/-- A thread calls `pop_front(5)`, and its wait is over after five milliseconds. -/
theorem timed_wait_goes_on :
    ∃ past, ∃ s : QueueSystem Nat Nat,
      Run (Step (methods Nat 1)) (System.start []) past s ∧
      past.map Prod.snd =
        [.call 0 (.popFront 5), .turn 0 none, .wake 0 .timedOut, .turn 0 none] ∧
      ¬ ∀ e ∈ transitions past s, TimedWaitEnds e.1 e.2.1 e.2.2 := by
  refine ⟨_, _, .snoc (.snoc (.snoc (.snoc .start (.call 0 (.popFront 5) rfl))
    (.turn (t := 0) rfl rfl)) (.wake (t := 0) rfl timedOut_ne_signalled fun _ => rfl))
    (.turn (t := 0) rfl rfl), rfl, fun hends => ?_⟩
  have hlast := hends _ (List.mem_of_getLast? rfl) 0 none (.popFront 5) rfl rfl
  exact hlast.2 (.popFront 5) rfl

/-- The same thread, when an element has arrived before its time was over. -/
theorem timed_waits_end_iff_data :
    ∃ past, ∃ s : QueueSystem Nat Nat,
      past.map Prod.snd = [.call 0 (.popFront 5), .turn 0 none, .wake 0 .timedOut,
        .call 1 (.pushBack 7), .turn 1 none, .turn 0 none] ∧
      ∀ e ∈ transitions past s, TimedWaitEnds e.1 e.2.1 e.2.2 := by
  have hrun : ∃ past, ∃ s : QueueSystem Nat Nat,
      Run (Step (methods Nat 1)) (System.start []) past s ∧
      past.map Prod.snd = [.call 0 (.popFront 5), .turn 0 none, .wake 0 .timedOut,
        .call 1 (.pushBack 7), .turn 1 none, .turn 0 none] ∧ Meets FindsData past := by
    refine ⟨_, _, .snoc (.snoc (.snoc (.snoc (.snoc (.snoc .start (.call 0 (.popFront 5) rfl))
      (.turn (t := 0) rfl rfl)) (.wake (t := 0) rfl timedOut_ne_signalled fun _ => rfl))
      (.call 1 (.pushBack 7) rfl)) (.signal (t := 1) rfl rfl (.nobody ?_)))
      (.turn (t := 0) rfl rfl), rfl, ?_⟩
    · rintro u ⟨op, hu⟩
      by_cases hu1 : u = 1
      · subst hu1
        cases hu
      by_cases hu0 : u = 0
      · subst hu0
        cases hu
      · simp [System.after, System.move, System.start, hu0, hu1] at hu
    · simp only [meets_snoc]
      refine ⟨⟨⟨⟨⟨⟨meets_nil, ?_⟩, ?_⟩, ?_⟩, ?_⟩, ?_⟩, ?_⟩ <;> intro t u op hl ht <;> cases hl
      · cases ht
      · cases ht
      · exact List.cons_ne_nil _ _
  obtain ⟨past, s, hrun, hlabels, hfinds⟩ := hrun
  exact ⟨past, s, hlabels, (timed_waits_end_iff hrun).1.mpr hfinds⟩

end ThreadQueue
end Sys
end Deps
