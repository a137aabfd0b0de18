import Deps.Lib.Locking
import Deps.Sys.ThreadQueue

/-!
# `ThreadQueue`, step by step

The methods of `sys/thread_queue.h` with a step for every call of the mutex and of the
condition and for every access to `m_queue`; `Locker` takes the mutex in its
constructor and lets it go in its destructor.  Nothing but the turns of `ThreadQueue`
can be seen of them.
-/

namespace Deps
namespace Sys

open Runs Monitor Locking

namespace ThreadQueue

variable {α : Type}

abbrev QueueCode (α : Type) : Type := Code (List α) (QueueResult α)

/-- `return r;` inside the scope of the `Locker`. -/
def leave (r : QueueResult α) : QueueCode α := .unlock (.ret r)

/-- The loop of the batch pushes, which pushes one element after the other. -/
def pushEach (push : α → List α → List α) : List α → QueueCode α → QueueCode α
  | [], k => k
  | t :: rest, k => .modify (push t) (pushEach push rest k)

/-- The loop of `pop_front` and `swap`, from its test on. -/
def awaitDataCode (millsecond : UInt64) (refused : QueueResult α) (data : QueueCode α) :
    QueueCode α :=
  .get fun queue =>
    if queue.isEmpty then
      if millsecond = 0 then
        leave refused
      else
        .wait
    else
      data

/-- The rest of the loop's body when the wait is over, and the loop. -/
def awaitMoreCode (millsecond : UInt64) (why : Wake) (refused : QueueResult α)
    (data : QueueCode α) : QueueCode α :=
  if millsecond = forever then
    awaitDataCode millsecond refused data
  else if !timeWait why then
    leave refused
  else
    awaitDataCode millsecond refused data

/-- What `pop_front` does after its loop. -/
def takeFrontCode : QueueCode α :=
  .get fun queue =>
    if queue.isEmpty then
      leave (.popped none)
    else
      .get fun queue => .modify List.tail (leave (.popped queue.head?))

/-- What `swap` does after its loop with the caller's queue `q`. -/
def exchangeCode (q : List α) : QueueCode α :=
  .get fun queue =>
    if queue.isEmpty then
      leave (.swapped none)
    else
      .get fun queue => .modify (fun _ => q) (leave (.swapped (some queue)))

/-- The methods after the constructor of the `Locker`. -/
def scope (maxsize : Nat) : QueueOp α → QueueCode α
  | .size => .get fun queue => leave (.size queue.length)
  | .clear => .modify (fun _ => []) (leave .unit)
  | .empty => .get fun queue => leave (.empty queue.isEmpty)
  | .pushFront t => .get fun queue =>
      if queue.length + 1 > maxsize then
        .signal (leave (.pushed false))
      else
        .modify (fun queue => t :: queue) (.signal (leave (.pushed true)))
  | .pushFrontAll qt => .get fun queue =>
      if queue.length + qt.length > maxsize then
        .signal (leave (.pushed false))
      else
        pushEach (fun t queue => t :: queue) qt (.signal (leave (.pushed true)))
  | .pushBack t => .get fun queue =>
      if queue.length + 1 > maxsize then
        .signal (leave (.pushed false))
      else
        .modify (fun queue => queue ++ [t]) (.signal (leave (.pushed true)))
  | .pushBackAll qt => .get fun queue =>
      if queue.length + qt.length > maxsize then
        .signal (leave (.pushed false))
      else
        pushEach (fun t queue => queue ++ [t]) qt (.signal (leave (.pushed true)))
  | .popFront millsecond => awaitDataCode millsecond (.popped none) takeFrontCode
  | .swap q millsecond => awaitDataCode millsecond (.swapped none) (exchangeCode q)

def programs (α : Type) (maxsize : Nat) : Programs (List α) (QueueOp α) (QueueResult α) where
  enter op := .lock (scope maxsize op)
  resume
    | .popFront millsecond, why => awaitMoreCode millsecond why (.popped none) takeFrontCode
    | .swap q millsecond, why => awaitMoreCode millsecond why (.swapped none) (exchangeCode q)
    -- the other methods do not wait
    | op, _ => scope maxsize op
  timed
    | .popFront millsecond | .swap _ millsecond => millsecond != forever
    | _ => false

/-! ## Scopes -/

theorem inside_pushEach (push : α → List α → List α) (qt : List α) {k : QueueCode α}
    (hk : k.Inside) : (pushEach push qt k).Inside := by
  induction qt with
  | nil => exact hk
  | cons t rest ih => exact ih

theorem inside_awaitDataCode (millsecond : UInt64) (refused : QueueResult α) {data : QueueCode α}
    (hdata : data.Inside) : (awaitDataCode millsecond refused data).Inside := by
  intro queue
  dsimp only
  split
  · split <;> trivial
  · exact hdata

theorem inside_awaitMoreCode (millsecond : UInt64) (why : Wake) (refused : QueueResult α)
    {data : QueueCode α} (hdata : data.Inside) :
    (awaitMoreCode millsecond why refused data).Inside := by
  rw [awaitMoreCode]
  split
  · exact inside_awaitDataCode millsecond refused hdata
  split
  · trivial
  · exact inside_awaitDataCode millsecond refused hdata

theorem inside_takeFrontCode : (takeFrontCode : QueueCode α).Inside := by
  intro queue
  dsimp only
  split
  · trivial
  · exact fun _ => trivial

theorem inside_exchangeCode (q : List α) : (exchangeCode q).Inside := by
  intro queue
  dsimp only
  split
  · trivial
  · exact fun _ => trivial

theorem inside_scope (maxsize : Nat) (op : QueueOp α) : (scope maxsize op).Inside := by
  cases op with
  | size | empty => exact fun _ => trivial
  | clear => trivial
  | pushFront t | pushBack t =>
      intro queue
      dsimp only
      split <;> trivial
  | pushFrontAll qt | pushBackAll qt =>
      intro queue
      dsimp only
      split
      · trivial
      · exact inside_pushEach _ qt trivial
  | popFront millsecond => exact inside_awaitDataCode millsecond _ inside_takeFrontCode
  | swap q millsecond => exact inside_awaitDataCode millsecond _ (inside_exchangeCode q)

theorem scoped_programs (maxsize : Nat) : (programs α maxsize).Scoped where
  enter := inside_scope maxsize
  resume op why := by
    cases op with
    | popFront millsecond => exact inside_awaitMoreCode millsecond why _ inside_takeFrontCode
    | swap q millsecond => exact inside_awaitMoreCode millsecond why _ (inside_exchangeCode q)
    | size => exact inside_scope maxsize .size
    | clear => exact inside_scope maxsize .clear
    | empty => exact inside_scope maxsize .empty
    | pushFront t => exact inside_scope maxsize (.pushFront t)
    | pushFrontAll qt => exact inside_scope maxsize (.pushFrontAll qt)
    | pushBack t => exact inside_scope maxsize (.pushBack t)
    | pushBackAll qt => exact inside_scope maxsize (.pushBackAll qt)

/-! ## Turns -/

theorem turn_pushEach (push : α → List α → List α) (qt : List α) (k : QueueCode α)
    (queue : List α) :
    (pushEach push qt k).turn queue = k.turn (qt.foldl (fun queue t => push t queue) queue) := by
  induction qt generalizing queue with
  | nil => rfl
  | cons t rest ih => exact ih (push t queue)

theorem turn_awaitDataCode (millsecond : UInt64) (refused : QueueResult α)
    {code : QueueCode α} {data : List α → QueueTurn α}
    (hdata : ∀ queue, code.turn queue = data queue) (queue : List α) :
    (awaitDataCode millsecond refused code).turn queue =
      awaitData millsecond refused data queue := by
  rw [awaitDataCode, awaitData, Code.turn]
  split
  · split <;> rfl
  · exact hdata queue

theorem turn_awaitMoreCode (millsecond : UInt64) (why : Wake) (refused : QueueResult α)
    {code : QueueCode α} {data : List α → QueueTurn α}
    (hdata : ∀ queue, code.turn queue = data queue) (queue : List α) :
    (awaitMoreCode millsecond why refused code).turn queue =
      awaitMore millsecond why refused data queue := by
  rw [awaitMoreCode, awaitMore]
  split
  · exact turn_awaitDataCode millsecond refused hdata queue
  split
  · rfl
  · exact turn_awaitDataCode millsecond refused hdata queue

theorem turn_takeFrontCode (queue : List α) : takeFrontCode.turn queue = takeFront queue := by
  cases queue <;> rfl

theorem turn_exchangeCode (q queue : List α) : (exchangeCode q).turn queue = exchange q queue := by
  cases queue <;> rfl

theorem turn_scope (maxsize : Nat) (op : QueueOp α) (queue : List α) :
    (scope maxsize op).turn queue = enter maxsize op queue := by
  cases op with
  | size | clear | empty => rfl
  | pushFront t =>
      rw [scope, Code.turn, enter, pushFront]
      split <;> rfl
  | pushFrontAll qt =>
      rw [scope, Code.turn, enter, pushFrontAll]
      split
      · rfl
      · exact turn_pushEach _ qt _ queue
  | pushBack t =>
      rw [scope, Code.turn, enter, pushBack]
      split <;> rfl
  | pushBackAll qt =>
      rw [scope, Code.turn, enter, pushBackAll]
      split
      · rfl
      · exact turn_pushEach _ qt _ queue
  | popFront millsecond => exact turn_awaitDataCode millsecond _ turn_takeFrontCode queue
  | swap q millsecond => exact turn_awaitDataCode millsecond _ (turn_exchangeCode q) queue

/-- The code has the turns of `ThreadQueue`. -/
theorem methods_programs (maxsize : Nat) : (programs α maxsize).methods = methods α maxsize := by
  have henter : (programs α maxsize).methods.enter = enter maxsize := by
    funext op queue
    exact turn_scope maxsize op queue
  have hresume : (programs α maxsize).methods.resume = resume maxsize := by
    funext op why queue
    cases op with
    | popFront millsecond => exact turn_awaitMoreCode millsecond why _ turn_takeFrontCode queue
    | swap q millsecond => exact turn_awaitMoreCode millsecond why _ (turn_exchangeCode q) queue
    | size => exact turn_scope maxsize .size queue
    | clear => exact turn_scope maxsize .clear queue
    | empty => exact turn_scope maxsize .empty queue
    | pushFront t => exact turn_scope maxsize (.pushFront t) queue
    | pushFrontAll qt => exact turn_scope maxsize (.pushFrontAll qt) queue
    | pushBack t => exact turn_scope maxsize (.pushBack t) queue
    | pushBackAll qt => exact turn_scope maxsize (.pushBackAll qt) queue
  have htimed : (programs α maxsize).methods.timed = (methods α maxsize).timed := by
    funext op
    cases op <;> rfl
  cases hmethods : (programs α maxsize).methods
  rw [hmethods] at henter hresume htimed
  rw [methods, Methods.mk.injEq]
  exact ⟨henter, hresume, htimed⟩

end ThreadQueue

/-! ## What callers see -/

section

variable {Thread α : Type} [DecidableEq Thread] {maxsize : Nat}

/-- **The queue is as if its turns were atomic.**  Of the steps inside the methods callers
see the same sequences of calls and results as of the turns, no more and no fewer; and
the queues with which these leave the mutex free are the same. -/
theorem queue_atomic (maxsize : Nat)
    (observed : List (Observation Thread (QueueOp α) (QueueResult α))) :
    ((∃ past s, Run (Locking.Step (ThreadQueue.programs α maxsize)) (.start []) past s ∧
        trace past = observed) ↔
      ∃ turns c, Run (Monitor.Step (ThreadQueue.methods α maxsize)) (.start []) turns c ∧
        traceOfTurns turns = observed) ∧
    ∀ queue, (∃ past s, Run (Locking.Step (ThreadQueue.programs α maxsize)) (.start []) past s ∧
        trace past = observed ∧ s.owner = none ∧ s.shared = queue) ↔
      ∃ turns c, Run (Monitor.Step (ThreadQueue.methods α maxsize)) (.start []) turns c ∧
        traceOfTurns turns = observed ∧ c.shared = queue := by
  have hscoped : (ThreadQueue.programs α maxsize).Scoped := ThreadQueue.scoped_programs maxsize
  rw [← ThreadQueue.methods_programs]
  refine ⟨⟨?_, ?_⟩, fun queue => ⟨?_, ?_⟩⟩
  · rintro ⟨past, s, hrun, rfl⟩
    obtain ⟨turns, c, hturns, -, htrace⟩ := refines hscoped hrun
    exact ⟨turns, c, hturns, htrace⟩
  · rintro ⟨turns, c, hturns, rfl⟩
    obtain ⟨past, s, hrun, -, -, htrace⟩ := realizes hscoped hturns
    exact ⟨past, s, hrun, htrace⟩
  · rintro ⟨past, s, hrun, rfl, hfree, rfl⟩
    obtain ⟨turns, c, hturns, hsim, htrace⟩ := refines hscoped hrun
    exact ⟨turns, c, hturns, htrace, hsim.free hfree⟩
  · rintro ⟨turns, c, hturns, rfl, rfl⟩
    obtain ⟨past, s, hrun, hsim, hfree, htrace⟩ := realizes hscoped hturns
    exact ⟨past, s, hrun, htrace, hfree, (hsim.free hfree).symm⟩

/-- **No error of the mutex, no race and no deadlock.**  However many threads there are and
whatever they call: no assertion of `ThreadMutex` or `ThreadCond` fails, a thread which is
about to touch the queue, to signal, to wait or to let the mutex go is the owner of the
mutex, and while a thread waits for nothing but the mutex, some thread can go on. -/
theorem queue_guarded {past : List (State Thread (List α) (QueueOp α) (QueueResult α) ×
      Locking.Label Thread (QueueOp α))}
    {s : State Thread (List α) (QueueOp α) (QueueResult α)}
    (hrun : Run (Locking.Step (ThreadQueue.programs α maxsize)) (.start []) past s) :
    (∀ t, s.phase t ≠ .aborted) ∧
      (∀ t op code, s.phase t = .running op code → code.Guarded → s.owner = some t) ∧
      ∀ t, Busy s t →
        ∃ l s', Locking.Step (ThreadQueue.programs α maxsize) s l s' ∧ l.IsOwn := by
  have hscoped : (ThreadQueue.programs α maxsize).Scoped := ThreadQueue.scoped_programs maxsize
  obtain ⟨-, c, -, hsim, -⟩ := refines hscoped hrun
  exact ⟨hsim.not_aborted, fun t op code ht hguarded => hsim.owner_of_guarded hscoped ht hguarded,
    fun t hbusy => hsim.progress hscoped hbusy⟩

/-- A consumer waits for the mutex which a producer owns. -/
def contended : State Nat (List Nat) (QueueOp Nat) (QueueResult Nat) :=
  let push : QueueOp Nat := .pushBack 7
  let pop : QueueOp Nat := .popFront 0
  let called := ((State.start []).move 0 (.running push (.lock (ThreadQueue.scope 1 push)))).move 1
    (.running pop (.lock (ThreadQueue.scope 1 pop)))
  { called with owner := some 0 }.move 0 (.running push (ThreadQueue.scope 1 push))

theorem run_contended :
    ∃ past, Run (Locking.Step (ThreadQueue.programs Nat 1)) (.start []) past contended :=
  ⟨_, ((Run.start.snoc (.call 0 (QueueOp.pushBack 7) rfl)).snoc
    (.call 1 (QueueOp.popFront 0) rfl)).snoc (.lock rfl rfl)⟩

theorem queue_guarded_contended :
    (∀ t, contended.phase t ≠ .aborted) ∧
      (∀ t op code, contended.phase t = .running op code → code.Guarded →
        contended.owner = some t) ∧
      ∀ t, Busy contended t →
        ∃ l s', Locking.Step (ThreadQueue.programs Nat 1) contended l s' ∧ l.IsOwn := by
  obtain ⟨past, hrun⟩ := run_contended
  exact queue_guarded hrun

end

end Sys
end Deps
