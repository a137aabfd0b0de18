import Deps.Net.BlockBufferRefinement
import Deps.Net.EventLoop

/-!
# Rules for the methods

Weakest preconditions of the operations on objects and on the container, of
`Close` and of the loop of `Write`, for any specification which checks log lines
only and any environment in which the kernel answers as `Kernel.answers` says.
What an operation makes of the world is a function of its own.
-/

namespace Deps
namespace Net

open Reentrant

theorem ne_neg_of_nonneg {fd : Int} (hfd : 0 ≤ fd) : fd ≠ -1 := by omega

/-! ## What the operations make of the world -/

namespace World

@[simp] theorem put_put (w : World) (s : SocketId) (o o' : Socket) :
    (w.put s o).put s o' = w.put s o' := by
  simp only [put, Function.update_idem]

@[simp] theorem heap_born (w : World) (o : Socket) : (w.born o).heap w.next = some o := by
  simp [born]

theorem heap_put_of_ne (w : World) {s t : SocketId} (hts : t ≠ s) (o : Socket) :
    (w.put s o).heap t = w.heap t := by
  simp [put, hts]

@[simp] theorem heap_put (w : World) (s : SocketId) (o : Socket) :
    (w.put s o).heap s = some o := by
  simp [put]

/-- `AddSocket` registered the socket. -/
def listed (w : World) (s : SocketId) (fd : Fd) (events : Interest) : World :=
  { w with
    kernel := w.kernel.enroll fd events
    container := { w.container with
      socketMap := w.container.socketMap.insert fd s
      socketNum := w.container.socketNum + 1 } }

/-- `DelSocket` -/
def unlisted (w : World) (s : SocketId) (fd : Fd) : World :=
  { w with
    kernel := w.kernel.register fd none
    container := { w.container with
      socketMap := w.container.socketMap.erase fd
      socketNum :=
        if (w.container.socketMap.find fd).isSome then w.container.socketNum - 1
        else w.container.socketNum
      closeSockets := w.container.closeSockets.insert s () } }

/-- The fields which `Close` sets. -/
def closedFields (o : Socket) : Socket :=
  { o with fd := -1, state := .close, createTime := 0, lastAccessTime := 0 }

/-- `Close` without its callback, on a socket with the fields `o`. -/
def closed (w : World) (s : SocketId) (o : Socket) : World :=
  let w := w.unlisted s o.fd
  let w := if o.fd ≠ -1 then { w with kernel := w.kernel.closeFd o.fd } else w
  w.put s (closedFields o)

@[simp] theorem heap_closed (w : World) (s : SocketId) (o : Socket) :
    (w.closed s o).heap s = some (closedFields o) :=
  heap_put _ s _

section Closed

variable (w : World) (s : SocketId) (o : Socket)

theorem heap_closed_of_ne {t : SocketId} (hts : t ≠ s) : (w.closed s o).heap t = w.heap t := by
  rw [closed, heap_put_of_ne _ hts]
  split <;> rfl

@[simp] theorem next_closed : (w.closed s o).next = w.next := by
  simp only [closed]
  split <;> rfl

@[simp] theorem deleted_closed : (w.closed s o).deleted = w.deleted := by
  simp only [closed]
  split <;> rfl

@[simp] theorem polled_closed : (w.closed s o).polled = w.polled := by
  simp only [closed]
  split <;> rfl

@[simp] theorem turns_closed : (w.closed s o).turns = w.turns := by
  simp only [closed]
  split <;> rfl

theorem container_closed : (w.closed s o).container = (w.unlisted s o.fd).container := by
  simp only [closed]
  split <;> rfl

theorem find_closed {fd : Fd} {t : SocketId} :
    (w.closed s o).container.socketMap.find fd = some t ↔
      fd ≠ o.fd ∧ w.container.socketMap.find fd = some t := by
  rw [container_closed]
  exact OrderedMap.find_erase KeyOrder.int_total

@[simp] theorem interest_closed :
    (w.closed s o).kernel.interest = Function.update w.kernel.interest o.fd none := by
  simp only [closed]
  split
  · exact Function.update_idem _ _ _
  · rfl

theorem isOpen_closed_of_ne {fd : Fd} (hfd : fd ≠ o.fd) :
    (w.closed s o).kernel.isOpen fd = w.kernel.isOpen fd := by
  simp only [closed]
  split
  · exact Function.update_of_ne hfd _ _
  · rfl

@[simp] theorem handedOut_closed : (w.closed s o).kernel.handedOut = w.kernel.handedOut := by
  simp only [closed]
  split <;> rfl

@[simp] theorem enrolled_closed : (w.closed s o).kernel.enrolled = w.kernel.enrolled := by
  simp only [closed]
  split <;> rfl

end Closed

end World

/-- The system calls of `Close` on a socket with the descriptor `fd`. -/
def closeEvents (fd : Fd) : List NetEvent :=
  .asked (.epollCtlDel fd) () :: if fd ≠ -1 then [.asked (.close fd) ()] else []

section

variable {env : NetEnvironment} {spec : NetSpec} {ctx : List Callback} {h : List NetEvent}
  {w : World} {α : Type}

/-! ## Objects -/

section Objects

variable {this : SocketId} {s : Socket}

theorem wp_load (hs : w.heap this = some s) {post : Socket → List NetEvent → World → Prop} :
    wp env spec ctx (load this) post h w ↔ post s h w := by
  simp only [load, wp_bind, wp_read, hs, wp_pure]

theorem wp_store (hs : w.heap this = some s) {f : Socket → Socket}
    {post : Unit → List NetEvent → World → Prop} :
    wp env spec ctx (store this f) post h w ↔ post () h (w.put this (f s)) := by
  simp only [store, wp_bind, wp_load hs, wp_modify]

@[simp] theorem wp_new {post : SocketId → List NetEvent → World → Prop} :
    wp env spec ctx (new s) post h w ↔ post w.next h (w.born s) := by
  simp only [new, wp_bind, wp_read, wp_modify, wp_pure]

@[simp] theorem wp_members {post : EpollContainer → List NetEvent → World → Prop} :
    wp env spec ctx EpollContainer.members post h w ↔ post w.container h w := by
  simp only [EpollContainer.members, wp_bind, wp_read, wp_pure]

end Objects

/-! ## A kernel which answers -/

/-- How a kernel behaves which lets calls succeed when it may. -/
structure Obliging where
  /-- whether `epoll_ctl` registers descriptors -/
  adds : Bool
  /-- what `recv` finds -/
  received : List UInt8
  /-- how many bytes `send` takes; it does not take fewer -/
  taken : Nat

namespace Obliging

/-- The descriptors 3 and 4 are given out. -/
def spareFd (w : World) : Option Fd := [3, 4].find? fun fd => !w.kernel.isOpen fd

def answer (k : Obliging) (w : World) : (q : Question) → Answer q
  | .time => 0
  | .socket _ => spareFd w
  | .fcntl _ | .setsockopt _ | .bind _ _ | .listen _ _ => true
  | .connect _ _ => .ok ()
  | .accept _ => .error .eagain
  | .recv _ size => .ok (k.received.take size)
  | .recvfrom _ _ => .error .eagain
  | .send _ data => if 1 ≤ k.taken ∧ k.taken ≤ data.length then .ok k.taken else .error .eagain
  | .sendto _ _ _ => none
  | .close _ | .epollCtlDel _ | .delete _ | .log _ => ()
  | .epollCtlAdd fd _ => k.adds && w.kernel.isOpen fd && (w.kernel.interest fd).isNone
  | .epollCtlMod fd _ => (w.kernel.interest fd).isSome
  | .epollWait maxEvents =>
      some ((([3, 4].filter fun fd => (w.kernel.interest fd).isSome).take maxEvents).map
        fun fd => ⟨fd, true, false, false⟩)
  | .malloc => some fun _ => 0
  | .uninitialized => false

/-- Every question gets an answer which the kernel may give. -/
theorem permits_answer (k : Obliging) (w : World) (q : Question) :
    Kernel.permits w q (k.answer w q) := by
  cases q with
  | socket type =>
      cases hfd : spareFd w with
      | none =>
          simp only [answer, hfd]
          trivial
      | some fd =>
          have hspare := List.find?_some hfd
          have hmem := List.mem_of_find?_eq_some hfd
          simp only [answer, hfd]
          refine ⟨?_, by simpa using hspare⟩
          simp only [List.mem_cons, List.not_mem_nil, or_false] at hmem
          rcases hmem with rfl | rfl <;> decide
  | recv fd size => exact List.length_take_le _ _
  | send fd data =>
      by_cases htaken : 1 ≤ k.taken ∧ k.taken ≤ data.length
      · simp only [answer, if_pos htaken]
        exact htaken
      · simp only [answer, if_neg htaken]
        trivial
  | epollCtlAdd fd events =>
      cases hadds : k.adds && w.kernel.isOpen fd && (w.kernel.interest fd).isNone with
      | false =>
          simp only [answer, hadds]
          trivial
      | true =>
          simp only [answer, hadds]
          simp only [Bool.and_eq_true, Option.isNone_iff_eq_none] at hadds
          exact ⟨hadds.1.2, hadds.2⟩
  | epollCtlMod fd events =>
      cases hinterest : w.kernel.interest fd with
      | none =>
          simp only [answer, hinterest]
          trivial
      | some events =>
          simp only [answer, hinterest]
          exact Option.isSome_iff_ne_none.mp (by rw [hinterest]; rfl)
  | epollWait maxEvents =>
      refine ⟨?_, ?_, fun e he => ?_⟩
      · rw [List.length_map]
        exact List.length_take_le _ _
      · rw [List.map_map]
        have hnodup : ([3, 4] : List Fd).Nodup := by decide
        exact List.Nodup.map (fun _ _ heq => heq) ((hnodup.filter _).take)
      · obtain ⟨fd, hfd, rfl⟩ := List.mem_map.mp he
        have hsome := (List.mem_filter.mp (List.mem_of_mem_take hfd)).2
        exact Option.isSome_iff_ne_none.mp hsome
  | _ => trivial

theorem answers (k : Obliging) (w : World) (q : Question) :
    Kernel.answers w q (k.answer w q) (Kernel.effect w q (k.answer w q)) :=
  ⟨k.permits_answer w q, rfl⟩

end Obliging

/-- What the rules ask of an environment and a specification. -/
structure Plain (env : NetEnvironment) (spec : NetSpec) : Prop where
  kernel : ∀ {w q a w'}, env.answers w q a w' → Kernel.answers w q a w'
  check : ∀ {w q}, q.isLog = false → spec.check w q

/-- Questions which change nothing that the world describes. -/
def Question.isIdle : Question → Bool
  | .time | .fcntl _ | .setsockopt _ | .bind _ _ | .listen _ _ | .connect _ _ | .recv _ _
  | .recvfrom _ _ | .send _ _ | .sendto _ _ _ | .malloc | .uninitialized => true
  | _ => false

theorem Kernel.effect_of_isIdle {q : Question} (hq : q.isIdle = true) (w : World) (a : Answer q) :
    Kernel.effect w q a = w := by
  cases q <;> first | rfl | cases hq

variable (hplain : Plain env spec)
include hplain

theorem wp_ask {q : Question} (hq : q.isLog = false)
    {post : Answer q → List NetEvent → World → Prop}
    (hpost : ∀ a, Kernel.permits w q a → env.answers w q a (Kernel.effect w q a) →
      post a (h ++ [.asked q a]) (Kernel.effect w q a)) :
    wp env spec ctx (ask q) post h w := by
  refine ⟨hplain.check hq, fun a w' ha => ?_⟩
  obtain ⟨hpermits, rfl⟩ := hplain.kernel ha
  exact hpost a hpermits ha

theorem wp_ask_idle {q : Question} (hq : q.isIdle = true)
    {post : Answer q → List NetEvent → World → Prop}
    (hpost : ∀ a, Kernel.permits w q a → env.answers w q a w → post a (h ++ [.asked q a]) w) :
    wp env spec ctx (ask q) post h w := by
  have hlog : q.isLog = false := by cases q <;> first | rfl | cases hq
  refine wp_ask hplain hlog fun a hpermits ha => ?_
  rw [Kernel.effect_of_isIdle hq] at ha ⊢
  exact hpost a hpermits ha

theorem wp_touch {this : SocketId} {o : Socket} (hs : w.heap this = some o)
    {post : Unit → List NetEvent → World → Prop}
    (hpost : ∀ now, post () (h ++ [.asked .time now])
      (w.put this { o with lastAccessTime := now })) :
    wp env spec ctx (touch this) post h w := by
  rw [touch, wp_bind]
  exact wp_ask_idle hplain rfl fun now _ _ => (wp_store hs).mpr (hpost now)

theorem wp_appendInput {this : SocketId} {o : Socket} (hs : w.heap this = some o)
    {data : List UInt8} {post : Unit → List NetEvent → World → Prop}
    (hpost : ∀ malloc, post () (h ++ [.asked .malloc malloc])
      (w.put this { o with input := (o.input.append malloc data).2 })) :
    wp env spec ctx (appendInput this data) post h w := by
  rw [appendInput, wp_bind]
  exact wp_ask_idle hplain rfl fun malloc _ _ => (wp_store hs).mpr (hpost malloc)

/-- `new TcpSocket`, and the fields which are set right afterwards. -/
theorem wp_create {handler : Bool} {f : Int → Socket → Socket} {g : SocketId → NetM α}
    {post : α → List NetEvent → World → Prop}
    (hg : ∀ isResending now, wp env spec ctx (g w.next) post
      (h ++ [.asked .uninitialized isResending] ++ [.asked .time now])
      ((w.born (TcpSocket.construct handler isResending)).put w.next
        (f now (TcpSocket.construct handler isResending)))) :
    wp env spec ctx (do
      let s ← TcpSocket.create handler
      let now ← ask .time
      store s (f now)
      g s) post h w := by
  rw [TcpSocket.create, wp_bind, wp_bind]
  refine wp_ask_idle hplain rfl fun isResending _ _ => ?_
  rw [wp_new, wp_bind]
  refine wp_ask_idle hplain rfl fun now _ _ => ?_
  rw [wp_bind, wp_store (w.heap_born _)]
  exact hg isResending now

/-! ## The container -/

namespace EpollContainer

variable {s : SocketId} {o : Socket}

theorem wp_addSocket (hs : w.heap s = some o) {events : Interest}
    {post : Bool → List NetEvent → World → Prop} (hfull : post false h w)
    (hno : post false (h ++ [.asked (.epollCtlAdd o.fd events) false]) w)
    (hyes : w.container.socketMap.size < w.container.maxFdCount →
      w.container.socketMap.find o.fd = none →
      post true (h ++ [.asked (.epollCtlAdd o.fd events) true]) (w.listed s o.fd events)) :
    wp env spec ctx (addSocket (some s) events) post h w := by
  simp only [addSocket, wp_bind, wp_members]
  split
  · exact hfull
  rename_i hroom
  simp only [wp_bind, wp_load hs]
  split
  · exact hfull
  rename_i habsent
  simp only [wp_bind]
  refine wp_ask hplain rfl fun a _ _ => ?_
  cases a with
  | false => exact hno
  | true => exact hyes (Nat.lt_of_not_le hroom) (by simpa using habsent)

theorem wp_modSocket (hs : w.heap s = some o) {events : Interest}
    {post : Bool → List NetEvent → World → Prop}
    (habsent : w.container.socketMap.find o.fd = none → post false h w)
    (hno : post false (h ++ [.asked (.epollCtlMod o.fd events) false]) w)
    (hyes : w.container.socketMap.find o.fd ≠ none → w.kernel.interest o.fd ≠ none →
      post true (h ++ [.asked (.epollCtlMod o.fd events) true])
        { w with kernel := w.kernel.register o.fd (some events) }) :
    wp env spec ctx (modSocket (some s) events) post h w := by
  simp only [modSocket, wp_bind, wp_load hs, wp_members]
  split
  · rename_i hnone
    exact habsent (by simpa using hnone)
  rename_i hsome
  refine wp_ask hplain rfl fun a hpermits _ => ?_
  cases a with
  | false => exact hno
  | true => exact hyes (by simpa using hsome) hpermits

theorem wp_delSocket (hs : w.heap s = some o) {post : Bool → List NetEvent → World → Prop}
    (hpost : post true (h ++ [.asked (.epollCtlDel o.fd) ()]) (w.unlisted s o.fd)) :
    wp env spec ctx (delSocket (some s)) post h w := by
  simp only [delSocket, wp_bind, wp_load hs]
  refine wp_ask hplain rfl fun _ _ _ => ?_
  simp only [Kernel.effect, wp_bind, wp_members]
  split
  · rename_i hsome
    simp only [World.unlisted, if_pos hsome] at hpost
    exact hpost
  · rename_i hnone
    have hfind : w.container.socketMap.find o.fd = none := by simpa using hnone
    simp only [World.unlisted, if_neg hnone, OrderedMap.erase_of_absent hfind] at hpost
    exact hpost

end EpollContainer

/-! ## `Close` -/

/-- `Close` calls back when there is a handler, and then deregisters the socket. -/
theorem wp_closeSocket {this : SocketId} {o : Socket} (hs : w.heap this = some o)
    {post : Unit → List NetEvent → World → Prop}
    (hsilent : o.handler = false → post () (h ++ closeEvents o.fd) (w.closed this o))
    (hcall : o.handler = true →
      spec.inv (.handleClose this :: ctx) (h ++ [.called (.handleClose this)]) w)
    (hresume : o.handler = true → ∀ r h' w', spec.inv (.handleClose this :: ctx) h' w' →
      spec.rel (.handleClose this :: ctx) w w' →
        ∃ o', w'.heap this = some o' ∧
          post () (h' ++ [.resumed (.handleClose this) r] ++ closeEvents o'.fd)
            (w'.closed this o')) :
    wp env spec ctx (closeSocket this) post h w := by
  -- what follows the callback
  have hrest : ∀ {h : List NetEvent} {w : World} {o : Socket}, w.heap this = some o →
      post () (h ++ closeEvents o.fd) (w.closed this o) →
      wp env spec ctx (do
        let _ ← EpollContainer.delSocket (some this)
        let s ← load this
        if s.fd ≠ -1 then
          ask (.close s.fd)
        store this World.closedFields : NetM Unit) post h w := by
    intro h w o hs hpost
    rw [wp_bind]
    refine EpollContainer.wp_delSocket hplain hs ?_
    have hs' : (w.unlisted this o.fd).heap this = some o := hs
    rw [wp_bind, wp_load hs']
    split
    · rename_i hfd
      simp only [World.closed, closeEvents, if_pos hfd] at hpost
      rw [wp_bind]
      refine wp_ask hplain rfl fun _ _ _ => (wp_store (by exact hs)).mpr ?_
      rw [List.append_assoc]
      exact hpost
    · rename_i hfd
      simp only [World.closed, closeEvents, if_neg hfd] at hpost
      exact (wp_store hs').mpr hpost
  simp only [closeSocket, wp_bind, wp_load hs]
  cases hhandler : o.handler with
  | false => exact hrest hs (hsilent hhandler)
  | true =>
      refine ⟨hcall hhandler, fun r h' w' _ hinv hrel => ?_⟩
      -- the handler may have changed the object, its descriptor included
      obtain ⟨o', hs', hpost⟩ := hresume hhandler r h' w' hinv hrel
      exact hrest hs' hpost

/-- `Close` of another object while `s` does not exist. -/
theorem wp_closeSocket_unborn {this s : SocketId} {o : Socket} (hs : w.heap s = none)
    (ho : w.heap this = some o) {post : Unit → List NetEvent → World → Prop}
    (hpost : ∀ {h w}, w.heap s = none → post () h w)
    (hcall : spec.inv (.handleClose this :: ctx) (h ++ [.called (.handleClose this)]) w)
    (hresume : ∀ h' w', spec.inv (.handleClose this :: ctx) h' w' →
      w'.heap this ≠ none ∧ w'.heap s = none) :
    wp env spec ctx (closeSocket this) post h w := by
  have hne : s ≠ this := by
    rintro rfl
    rw [hs] at ho
    cases ho
  have hclosed : ∀ {h : List NetEvent} {w : World} {o}, w.heap s = none →
      post () h (w.closed this o) := by
    intro h w o hs
    apply hpost
    rw [w.heap_closed_of_ne this o hne, hs]
  refine wp_closeSocket hplain ho (fun _ => hclosed hs) (fun _ => hcall) fun _ r h' w' hinv _ => ?_
  obtain ⟨hlive, hnone⟩ := hresume h' w' hinv
  obtain ⟨o', ho'⟩ := Option.ne_none_iff_exists'.mp hlive
  exact ⟨o', ho', hclosed hnone⟩

/-! ## The loop of `Write` -/

/-- `inv` holds whenever the loop sends.  The loop ends because every byte which
the kernel takes leaves the output. -/
theorem TcpSocket.wp_writeLoop {this : SocketId} (inv : List NetEvent → World → Prop)
    {post : Unit → List NetEvent → World → Prop}
    (hsent : ∀ {h w o n}, inv h w → w.heap this = some o → 1 ≤ n → n ≤ o.output.content.length →
      n < o.output.size → inv (h ++ [.asked (.send o.fd o.output.content) (.ok n)])
        (w.put this { o with output := o.output.erase 0 n false }))
    (hdrained : ∀ {h w o n}, inv h w → w.heap this = some o → 1 ≤ n →
      n ≤ o.output.content.length → o.output.size ≤ n →
      if o.isResending then
        wp env spec ctx (modOrClose this .readError) post
          (h ++ [.asked (.send o.fd o.output.content) (.ok n)])
          (w.put this { o with output := o.output.erase 0 n false, isResending := false })
      else
        post () (h ++ [.asked (.send o.fd o.output.content) (.ok n)])
          (w.put this { o with output := o.output.erase 0 n false }))
    (hagain : ∀ {h w o}, inv h w → w.heap this = some o → 0 < o.output.size →
      wp env spec ctx (EpollContainer.modSocket (some this) .readWriteError)
        (fun modified h w =>
          if modified then
            ∃ o, w.heap this = some o ∧ post () h (w.put this { o with isResending := true })
          else wp env spec ctx (close this) post h w)
        (h ++ [.asked (.send o.fd o.output.content) (.error .eagain)]) w)
    (herror : ∀ {h w o errno}, inv h w → w.heap this = some o → errno ≠ .eagain →
      wp env spec ctx (close this) post
        (h ++ [.asked (.send o.fd o.output.content) (.error errno)]) w)
    {turns : Nat} {o : Socket} (hinv : inv h w) (ho : w.heap this = some o)
    (hpos : 0 < o.output.size) (hturns : o.output.size ≤ turns) :
    wp env spec ctx (writeLoop this turns) post h w := by
  induction turns generalizing h w o with
  | zero => omega
  | succ turns ih =>
      rw [writeLoop, wp_bind, wp_load ho, wp_bind]
      refine wp_ask_idle hplain rfl fun a hpermits _ => ?_
      rcases a with errno | n
      · dsimp only
        split
        · rename_i heagain
          subst heagain
          rw [wp_bind]
          refine wp_mono (fun modified h w hpost => ?_) (hagain hinv ho hpos)
          cases modified with
          | false => simpa using hpost
          | true =>
              obtain ⟨o', ho', hpost⟩ := hpost
              simpa using (wp_store ho').mpr hpost
        · rename_i heagain
          exact herror hinv ho heagain
      · obtain ⟨hone, htaken⟩ := hpermits
        dsimp only
        rw [wp_bind, wp_store ho, wp_bind, wp_load (World.heap_put w this _)]
        dsimp only
        rw [BlockBuffer.size_erase_front]
        split
        · rename_i hdone
          have hpost := hdrained hinv ho hone htaken (by omega)
          split
          · rename_i hresending
            rw [wp_bind, wp_store (World.heap_put w this _), World.put_put]
            rw [if_pos hresending] at hpost
            exact hpost
          · rename_i hresending
            rw [if_neg hresending] at hpost
            exact hpost
        · rename_i hmore
          -- at least one byte has left the output, so one turn less is enough
          refine ih (hsent hinv ho hone htaken (by omega)) (World.heap_put w this _) ?_ ?_
          · simp only [BlockBuffer.size_erase_front]
            omega
          · simp only [BlockBuffer.size_erase_front]
            omega

end
end Net
end Deps
