import Deps.Sys.ThreadQueue

/-!
# A `ThreadQueue` is a sequential queue

`exec` is a double-ended queue with at most `maxsize` elements on which the
operations are executed at once.  Whatever the threads do, a `ThreadQueue` gives
the results of the sequential queue, when the operations are executed in the
order in which they let the mutex go for the last time.
-/

namespace Deps
namespace Sys

open Monitor Runs

namespace ThreadQueue

variable {α : Type}

/-- The sequential queue.  An operation which waits for data is executed when there
is some, or returns with nothing. -/
def exec (maxsize : Nat) (queue : List α) : QueueOp α → List α × QueueResult α
  | .size => (queue, .size queue.length)
  | .clear => ([], .unit)
  | .empty => (queue, .empty queue.isEmpty)
  | .pushFront t =>
      if queue.length < maxsize then (t :: queue, .pushed true) else (queue, .pushed false)
  | .pushFrontAll qt =>
      if queue.length + qt.length ≤ maxsize then (qt.reverse ++ queue, .pushed true)
      else (queue, .pushed false)
  | .pushBack t =>
      if queue.length < maxsize then (queue ++ [t], .pushed true) else (queue, .pushed false)
  | .pushBackAll qt =>
      if queue.length + qt.length ≤ maxsize then (queue ++ qt, .pushed true)
      else (queue, .pushed false)
  | .popFront _ =>
      match queue with
      | [] => ([], .popped none)
      | t :: rest => (rest, .popped (some t))
  | .swap q _ =>
      match queue with
      | [] => ([], .swapped none)
      | t :: rest => (q, .swapped (some (t :: rest)))

/-- Executing operations one after the other: the results, and the queue at the end. -/
def execAll (maxsize : Nat) : List α → List (QueueOp α) → List α × List (QueueResult α)
  | queue, [] => (queue, [])
  | queue, op :: ops =>
      let (queue, r) := exec maxsize queue op
      let (queue, rs) := execAll maxsize queue ops
      (queue, r :: rs)

/-- What an operation returns which finds no room, or no data. -/
def IsRefusal : QueueResult α → Prop
  | .pushed b => b = false
  | .popped t => t = none
  | .swapped q => q = none
  | _ => False

/-- What a program relies on which uses the sequential queue. -/
structure Queueing (α : Type) (maxsize : Nat) : Prop where
  refused : ∀ (queue : List α) op, IsRefusal (exec maxsize queue op).2 →
    (exec maxsize queue op).1 = queue
  pushFrontAll : ∀ queue qt : List α, (exec maxsize queue (.pushFrontAll qt)).2 = .pushed true →
    execAll maxsize queue (qt.map .pushFront) =
      ((exec maxsize queue (.pushFrontAll qt)).1, qt.map fun _ => .pushed true)
  pushBackAll : ∀ queue qt : List α, (exec maxsize queue (.pushBackAll qt)).2 = .pushed true →
    execAll maxsize queue (qt.map .pushBack) =
      ((exec maxsize queue (.pushBackAll qt)).1, qt.map fun _ => .pushed true)
  popFront : ∀ (queue : List α) millsecond t,
    (exec maxsize queue (.popFront millsecond)).2 = .popped (some t) →
    queue = t :: (exec maxsize queue (.popFront millsecond)).1
  swap : ∀ (queue q : List α) millsecond q',
    (exec maxsize queue (.swap q millsecond)).2 = .swapped (some q') →
    q' = queue ∧ (exec maxsize queue (.swap q millsecond)).1 = q

/-- Single pushes one after the other, as long as there is room. -/
theorem execAll_pushes {maxsize : Nat} (push : α → QueueOp α) (into : List α → α → List α)
    (hlength : ∀ queue t, (into queue t).length = queue.length + 1)
    (hpush : ∀ queue t, queue.length < maxsize →
      exec maxsize queue (push t) = (into queue t, .pushed true))
    {queue qt : List α} (hroom : queue.length + qt.length ≤ maxsize) :
    execAll maxsize queue (qt.map push) = (qt.foldl into queue, qt.map fun _ => .pushed true) := by
  induction qt generalizing queue with
  | nil => rfl
  | cons t qt ih =>
      simp only [List.length_cons] at hroom
      have hrest : (into queue t).length + qt.length ≤ maxsize := by
        rw [hlength]
        omega
      simp only [List.map_cons, execAll, hpush queue t (by omega), ih hrest, List.foldl_cons]

theorem queueing (α : Type) (maxsize : Nat) : Queueing α maxsize where
  refused queue op hrefused := by
    cases op with
    | size | clear | empty => cases hrefused
    | pushFront t | pushFrontAll qt | pushBack t | pushBackAll qt =>
        simp only [exec] at hrefused ⊢
        split
        · rename_i hroom
          rw [if_pos hroom] at hrefused
          cases hrefused
        · rfl
    | popFront millsecond => cases queue <;> first | rfl | cases hrefused
    | swap q millsecond => cases queue <;> first | rfl | cases hrefused
  pushFrontAll queue qt hpushed := by
    have hroom : queue.length + qt.length ≤ maxsize := by
      by_contra hfull
      rw [exec, if_neg hfull] at hpushed
      cases hpushed
    rw [exec, if_pos hroom, ← foldl_cons_eq]
    exact execAll_pushes .pushFront (fun queue t => t :: queue) (fun queue t => by simp)
      (fun _ _ hone => if_pos hone) hroom
  pushBackAll queue qt hpushed := by
    have hroom : queue.length + qt.length ≤ maxsize := by
      by_contra hfull
      rw [exec, if_neg hfull] at hpushed
      cases hpushed
    rw [exec, if_pos hroom, ← foldl_concat_eq]
    exact execAll_pushes .pushBack (fun queue t => queue ++ [t]) (fun queue t => by simp)
      (fun _ _ hone => if_pos hone) hroom
  popFront queue millsecond t hpopped := by
    cases queue with
    | nil => cases hpopped
    | cons t' rest =>
        cases hpopped
        rfl
  swap queue q millsecond q' hswapped := by
    cases queue with
    | nil => cases hswapped
    | cons t rest =>
        cases hswapped
        exact ⟨rfl, rfl⟩

theorem executes_enter (maxsize : Nat) (op : QueueOp α) (queue : List α) :
    (enter maxsize op queue).Executes (exec maxsize) queue op := by
  have hwait : ∀ {millsecond refused} {data : List α → QueueTurn α} {op : QueueOp α},
      (queue = [] → exec maxsize queue op = (queue, refused)) →
      (queue ≠ [] → (data queue).Executes (exec maxsize) queue op) →
      (awaitData millsecond refused data queue).Executes (exec maxsize) queue op := by
    intro millsecond refused data op hempty hdata
    rw [awaitData]
    split
    · rename_i hqueue
      split
      · exact hempty (List.isEmpty_iff.mp hqueue)
      · rfl
    · rename_i hqueue
      exact hdata fun h => hqueue (List.isEmpty_iff.mpr h)
  cases op with
  | size | clear | empty => rfl
  | pushFront t | pushFrontAll qt | pushBack t | pushBackAll qt =>
      simp only [enter, pushFront, pushFrontAll, pushBack, pushBackAll, foldl_cons_eq,
        foldl_concat_eq]
      split
      · rename_i hfull
        exact if_neg (by omega)
      · rename_i hroom
        exact if_pos (by omega)
  | popFront millsecond =>
      refine hwait (fun h => by rw [h]; rfl) fun _ => ?_
      cases queue <;> rfl
  | swap q millsecond =>
      refine hwait (fun h => by rw [h]; rfl) fun _ => ?_
      cases queue <;> rfl

theorem methods_executes (maxsize : Nat) : (methods α maxsize).Executes (exec maxsize) where
  enter op queue := executes_enter maxsize op queue
  resume op why queue := by
    show Turn.Executes _ _ _ (resume maxsize op why queue)
    rw [resume_eq_enter]
    exact executes_enter maxsize op queue

variable {Thread : Type} [DecidableEq Thread] {maxsize : Nat} {s : System Thread (List α)
  (QueueOp α) (QueueResult α)} {past : List (System Thread (List α) (QueueOp α) (QueueResult α) ×
  Label Thread (QueueOp α))}

/-- In every run: the operations which have had their last turn give, in the order
of these turns, the results of the sequential queue, and leave its elements; and
what has returned to its caller are these operations with these results. -/
theorem threadQueue_linearizable
    (hrun : Run (Step (methods α maxsize)) (System.start []) past s) :
    Replays (exec maxsize) [] ((finished (methods α maxsize) past).map Prod.snd) s.shared ∧
      (∀ t, (finished (methods α maxsize) past).filter (·.1 = t) =
        (returned past).filter (·.1 = t) ++ (s.phase t).pending t) ∧
      Queueing α maxsize :=
  ⟨replays_of_run (methods_executes maxsize) hrun, finished_of_thread hrun, queueing α maxsize⟩

/-- The thread 1 waits for data, which the thread 0 pushes in one batch. -/
theorem exists_handover :
    ∃ past, ∃ s : System Nat (List Nat) (QueueOp Nat) (QueueResult Nat),
      Run (Step (methods Nat 4)) (System.start []) past s ∧
      returned past = [(1, .popFront forever, .popped (some 5)),
        (0, .pushBackAll [5, 6], .pushed true)] ∧ s.shared = [6] := by
  refine ⟨_, _, .snoc (.snoc (.snoc (.snoc (.snoc (.snoc (.snoc .start
    (.call 1 (.popFront forever) rfl)) (.turn (t := 1) rfl rfl))
    (.call 0 (.pushBackAll [5, 6]) rfl))
    (.signal (t := 0) rfl rfl (.wakes (u := 1) rfl)))
    (.turn (t := 1) rfl rfl)) (.ret (t := 1) rfl)) (.ret (t := 0) rfl), rfl, rfl⟩

theorem threadQueue_linearizable_handover :
    ∃ past, ∃ s : System Nat (List Nat) (QueueOp Nat) (QueueResult Nat),
      returned past = [(1, .popFront forever, .popped (some 5)),
        (0, .pushBackAll [5, 6], .pushed true)] ∧
      Replays (exec 4) [] ((finished (methods Nat 4) past).map Prod.snd) s.shared := by
  obtain ⟨past, s, hrun, hreturned, -⟩ := exists_handover
  exact ⟨past, s, hreturned, (threadQueue_linearizable hrun).1⟩

end ThreadQueue
end Sys
end Deps
