import Deps.Lib.Monitor
import Mathlib.Data.List.Basic

/-!
# `ThreadQueue`

The methods of `sys/thread_queue.h`, as the turns of a monitor: every method
holds `m_mutex` through a `Locker`, and `pop_front` and `swap` wait on `m_cond`,
which lets the mutex go.  `m_maxsize` is set by the constructor only, so it is a
parameter.  The sizes of two queues which exist do not add up to more than
`size_t` can hold.
-/

namespace Deps
namespace Sys

open Monitor

/-- A call of a method; the queue of `swap` is what the caller hands in. -/
inductive QueueOp (α : Type)
  | size
  | clear
  | empty
  | pushFront (t : α)
  | pushFrontAll (qt : List α)
  | pushBack (t : α)
  | pushBackAll (qt : List α)
  | popFront (millsecond : UInt64)
  | swap (q : List α) (millsecond : UInt64)

inductive QueueResult (α : Type)
  | unit
  | size (n : Nat)
  | empty (b : Bool)
  /-- what `push_front` and `push_back` return -/
  | pushed (b : Bool)
  /-- what `pop_front` returns, with the element when it is `true` -/
  | popped (t : Option α)
  /-- what `swap` returns, with the caller's queue when it is `true` -/
  | swapped (q : Option (List α))

/-- `(size_t)(-1)` -/
def forever : UInt64 := -1

/-- What `ThreadCond::timeWait` returns, also when the time is over. -/
def timeWait (_ : Wake) : Bool := true

namespace ThreadQueue

variable {α : Type}

abbrev QueueTurn (α : Type) : Type := Turn (List α) (QueueResult α)

/-- Return without a signal. -/
def returning (queue : List α) (r : QueueResult α) : QueueTurn α := ⟨queue, false, some r⟩

/-- Call `m_cond.signal()`, and return. -/
def signalling (queue : List α) (r : QueueResult α) : QueueTurn α := ⟨queue, true, some r⟩

def size (queue : List α) : QueueTurn α := returning queue (.size queue.length)

def clear (_ : List α) : QueueTurn α := returning [] .unit

def empty (queue : List α) : QueueTurn α := returning queue (.empty queue.isEmpty)

/-- `push_front(const T&)` -/
def pushFront (maxsize : Nat) (t : α) (queue : List α) : QueueTurn α :=
  if queue.length + 1 > maxsize then
    signalling queue (.pushed false)
  else
    signalling (t :: queue) (.pushed true)

/-- `push_front(const queue_type&)`, whose loop pushes one element after the other. -/
def pushFrontAll (maxsize : Nat) (qt queue : List α) : QueueTurn α :=
  if queue.length + qt.length > maxsize then
    signalling queue (.pushed false)
  else
    signalling (qt.foldl (fun queue t => t :: queue) queue) (.pushed true)

/-- `push_back(const T&)` -/
def pushBack (maxsize : Nat) (t : α) (queue : List α) : QueueTurn α :=
  if queue.length + 1 > maxsize then
    signalling queue (.pushed false)
  else
    signalling (queue ++ [t]) (.pushed true)

/-- `push_back(const queue_type&)` -/
def pushBackAll (maxsize : Nat) (qt queue : List α) : QueueTurn α :=
  if queue.length + qt.length > maxsize then
    signalling queue (.pushed false)
  else
    signalling (qt.foldl (fun queue t => queue ++ [t]) queue) (.pushed true)

/-- The loop of `pop_front` and `swap`, from its test on: `refused` is returned when
there is no data and no time to wait, and `data` is what follows the loop. -/
def awaitData (millsecond : UInt64) (refused : QueueResult α)
    (data : List α → QueueTurn α) (queue : List α) : QueueTurn α :=
  if queue.isEmpty then
    if millsecond = 0 then
      returning queue refused
    else
      -- `wait` or `timeWait`
      ⟨queue, false, none⟩
  else
    data queue

/-- The rest of the loop's body when the wait is over, and the loop. -/
def awaitMore (millsecond : UInt64) (why : Wake) (refused : QueueResult α)
    (data : List α → QueueTurn α) (queue : List α) : QueueTurn α :=
  if millsecond = forever then
    awaitData millsecond refused data queue
  else if !timeWait why then
    returning queue refused
  else
    awaitData millsecond refused data queue

/-- What `pop_front` does after its loop. -/
def takeFront : List α → QueueTurn α
  | [] => returning [] (.popped none)
  | t :: rest => returning rest (.popped (some t))

/-- What `swap` does after its loop with the caller's queue `q`. -/
def exchange (q : List α) : List α → QueueTurn α
  | [] => returning [] (.swapped none)
  | queue => returning q (.swapped (some queue))

/-- The turn in which a method is called. -/
def enter (maxsize : Nat) : QueueOp α → List α → QueueTurn α
  | .size => size
  | .clear => clear
  | .empty => empty
  | .pushFront t => pushFront maxsize t
  | .pushFrontAll qt => pushFrontAll maxsize qt
  | .pushBack t => pushBack maxsize t
  | .pushBackAll qt => pushBackAll maxsize qt
  | .popFront millsecond => awaitData millsecond (.popped none) takeFront
  | .swap q millsecond => awaitData millsecond (.swapped none) (exchange q)

/-- The turn after a wait; the other methods do not wait. -/
def resume (maxsize : Nat) : QueueOp α → Wake → List α → QueueTurn α
  | .popFront millsecond, why => awaitMore millsecond why (.popped none) takeFront
  | .swap q millsecond, why => awaitMore millsecond why (.swapped none) (exchange q)
  | op, _ => enter maxsize op

def methods (α : Type) (maxsize : Nat) : Methods (List α) (QueueOp α) (QueueResult α) where
  enter := enter maxsize
  resume := resume maxsize
  timed
    | .popFront millsecond | .swap _ millsecond => millsecond != forever
    | _ => false

/-! ## What a turn does -/

/-- A wait which is over changes nothing in what follows. -/
@[simp] theorem awaitMore_eq (millsecond : UInt64) (why : Wake) (refused : QueueResult α)
    (data : List α → QueueTurn α) :
    awaitMore millsecond why refused data = awaitData millsecond refused data := by
  funext queue
  simp [awaitMore, timeWait]

/-- So the turn after a wait is the turn of a new call. -/
theorem resume_eq_enter (maxsize : Nat) (op : QueueOp α) (why : Wake) :
    resume maxsize op why = enter maxsize op := by
  cases op <;> simp only [resume, enter, awaitMore_eq]

theorem foldl_cons_eq (qt queue : List α) :
    qt.foldl (fun queue t => t :: queue) queue = qt.reverse ++ queue := by
  induction qt generalizing queue with
  | nil => rfl
  | cons t qt ih => simp [ih]

theorem foldl_concat_eq (qt queue : List α) :
    qt.foldl (fun queue t => queue ++ [t]) queue = queue ++ qt := by
  induction qt generalizing queue with
  | nil => simp
  | cons t qt ih => simp [ih]

end ThreadQueue
end Sys
end Deps
