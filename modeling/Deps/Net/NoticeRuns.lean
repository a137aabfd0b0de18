import Deps.Net.ContainerRuns

/-!
# How often a handler is told

`Told` compares the calls of `HandleClose` in the history of a run with the calls
which have not returned and with the set of closed sockets.  Every method keeps
it, whatever the application does.
-/

namespace Deps
namespace Net

open Reentrant

/-- The callback tells that the object is being closed. -/
def Callback.closes (s : SocketId) : Callback → Bool
  | handlePacket _ _ => false
  | handleClose t => decide (t = s)

def notifies (s : SocketId) : NetEvent → Bool
  | .called c => c.closes s
  | _ => false

/-- How often `HandleClose` was called for the object. -/
def notices (s : SocketId) (h : List NetEvent) : Nat := h.countP (notifies s)

/-- How many of these calls have not returned. -/
def nested (s : SocketId) (ctx : List Callback) : Nat := ctx.countP (Callback.closes s)

/-- The object was closed and waits for its deletion. -/
def World.Waiting (w : World) (s : SocketId) : Prop :=
  s ∈ OrderedSet.elements w.container.closeSockets

/-- The invariant. -/
structure Told (ctx : List Callback) (h : List NetEvent) (w : World) : Prop where
  unborn : ∀ s, w.next ≤ s →
    w.heap s = none ∧ ¬w.Waiting s ∧ notices s h = 0 ∧ nested s ctx = 0
  /-- the handler of a socket which is not closed was told by the calls of `Close`
  which are running -/
  untold : ∀ s, w.heap s ≠ none → ¬w.Waiting s → notices s h = nested s ctx
  told : ∀ s o, w.Waiting s → w.heap s = some o → o.handler = true → nested s ctx < notices s h
  handled : ∀ s o, .handleClose s ∈ ctx → w.heap s = some o → o.handler = true

/-- The invariant while `Close` of `this` is running and the callback is over. -/
structure Leaving (this : SocketId) (ctx : List Callback) (h : List NetEvent) (w : World) :
    Prop where
  unborn : ∀ s, w.next ≤ s →
    w.heap s = none ∧ ¬w.Waiting s ∧ notices s h = 0 ∧ nested s ctx = 0
  untold : ∀ s, s ≠ this → w.heap s ≠ none → ¬w.Waiting s → notices s h = nested s ctx
  told : ∀ s o, s = this ∨ w.Waiting s → w.heap s = some o → o.handler = true →
    nested s ctx < notices s h
  handled : ∀ s o, .handleClose s ∈ ctx → w.heap s = some o → o.handler = true

def noticing : NetSpec where
  inv := Told
  rel _ _ _ := True
  check _ _ := True
  tolerated _ := True

theorem plain_noticing : Plain managed noticing := ⟨id, fun _ => trivial⟩

/-! ## Counting -/

section

variable {s : SocketId} {c : Callback} {ctx : List Callback} {h : List NetEvent}

theorem notices_append (h' : List NetEvent) : notices s (h ++ h') = notices s h + notices s h' :=
  List.countP_append

theorem notices_called :
    notices s (h ++ [.called c]) = notices s h + if c.closes s then 1 else 0 := by
  rw [notices_append]
  cases hc : c.closes s <;> simp [notices, notifies, hc]

theorem nested_cons : nested s (c :: ctx) = nested s ctx + if c.closes s then 1 else 0 :=
  List.countP_cons

theorem closes_eq_true : c.closes s = true ↔ c = .handleClose s := by
  cases c <;> simp [Callback.closes]

theorem nested_eq_zero : nested s ctx = 0 ↔ Callback.handleClose s ∉ ctx := by
  rw [nested, List.countP_eq_zero]
  constructor
  · intro hnone hmem
    exact hnone _ hmem (closes_eq_true.mpr rfl)
  · intro hmem c hc hcloses
    rw [closes_eq_true.mp hcloses] at hc
    exact hmem hc

end

/-! ## What keeps the invariant -/

namespace Told

variable {ctx : List Callback} {h h' : List NetEvent} {w w' : World} {s : SocketId} {o o' : Socket}
  {c : Callback}

/-- Whatever is not mentioned in the invariant may change. -/
theorem congr (hw : Told ctx h w) (hh : ∀ s, notices s h' = notices s h) (hnext : w'.next = w.next)
    (hheap : ∀ s, (w'.heap s).map Socket.handler = (w.heap s).map Socket.handler)
    (hclosed : w'.container.closeSockets = w.container.closeSockets) : Told ctx h' w' := by
  have hwaiting : ∀ s, w'.Waiting s ↔ w.Waiting s := by
    intro s
    rw [World.Waiting, World.Waiting, hclosed]
  have hnone : ∀ s, w'.heap s = none ↔ w.heap s = none := by
    intro s
    rw [← Option.map_eq_none_iff (f := Socket.handler), hheap, Option.map_eq_none_iff]
  have hfields : ∀ s o, w'.heap s = some o → ∃ o', w.heap s = some o' ∧ o'.handler = o.handler := by
    intro s o ho
    have hsome := hheap s
    rw [ho] at hsome
    exact Option.map_eq_some_iff.mp hsome.symm
  constructor
  case unborn =>
    intro s hs
    rw [hnext] at hs
    rw [hnone, hwaiting, hh]
    exact hw.unborn s hs
  case untold =>
    intro s hs hopen
    rw [hh]
    exact hw.untold s (mt (hnone s).mpr hs) (mt (hwaiting s).mpr hopen)
  case told =>
    intro s o hs ho hhandler
    obtain ⟨o', ho', heq⟩ := hfields s o ho
    rw [hh]
    exact hw.told s o' ((hwaiting s).mp hs) ho' (heq.trans hhandler)
  case handled =>
    intro s o hs ho
    obtain ⟨o', ho', heq⟩ := hfields s o ho
    exact heq.symm.trans (hw.handled s o' hs ho')

theorem history (hw : Told ctx h w) (hh : ∀ s, notices s h' = notices s h) : Told ctx h' w :=
  hw.congr hh rfl (fun _ => rfl) rfl

theorem append (hw : Told ctx h w) {e : NetEvent} (he : ∀ s, notifies s e = false) :
    Told ctx (h ++ [e]) w := by
  refine hw.history fun s => ?_
  rw [notices_append, notices, notices, List.countP_singleton, he]
  rfl

theorem put (hw : Told ctx h w) (hs : w.heap s = some o) (hhandler : o'.handler = o.handler) :
    Told ctx h (w.put s o') := by
  refine hw.congr (fun _ => rfl) rfl (fun t => ?_) rfl
  by_cases hts : t = s
  · subst hts
    rw [World.heap_put, hs]
    exact congrArg some hhandler
  · rw [World.heap_put_of_ne _ hts]

theorem born (hw : Told ctx h w) (o : Socket) : Told ctx h (w.born o) := by
  have hheap : ∀ t, t ≠ w.next → (w.born o).heap t = w.heap t :=
    fun t ht => Function.update_of_ne ht _ _
  obtain ⟨-, hfresh, hnotices, hnested⟩ := hw.unborn w.next le_rfl
  constructor
  case unborn =>
    intro t ht
    have hlt : w.next < t := ht
    rw [hheap t hlt.ne']
    exact hw.unborn t hlt.le
  case untold =>
    intro t ht hopen
    by_cases hts : t = w.next
    · rw [hts, hnotices, hnested]
    · rw [hheap t hts] at ht
      exact hw.untold t ht hopen
  case told =>
    intro t o' hwaiting ho' hhandler
    have hts : t ≠ w.next := by
      rintro rfl
      exact hfresh hwaiting
    rw [hheap t hts] at ho'
    exact hw.told t o' hwaiting ho' hhandler
  case handled =>
    intro t o' ht ho'
    have hts : t ≠ w.next := by
      rintro rfl
      exact nested_eq_zero.mp hnested ht
    rw [hheap t hts] at ho'
    exact hw.handled t o' ht ho'

/-- An object is deleted. -/
theorem reap (hw : Told ctx h w) (s : SocketId) : Told ctx h (Kernel.effect w (.delete s) ()) := by
  have hheap : ∀ t, t ≠ s → (Kernel.effect w (.delete s) ()).heap t = w.heap t :=
    fun t ht => Function.update_of_ne ht _ _
  have hself : (Kernel.effect w (.delete s) ()).heap s = none := Function.update_self _ _ _
  constructor
  case unborn =>
    intro t ht
    obtain ⟨hnone, hrest⟩ := hw.unborn t ht
    refine ⟨?_, hrest⟩
    by_cases hts : t = s
    · rw [hts, hself]
    · rw [hheap t hts, hnone]
  case untold =>
    intro t ht hopen
    by_cases hts : t = s
    · rw [hts] at ht
      exact absurd hself ht
    · rw [hheap t hts] at ht
      exact hw.untold t ht hopen
  case told =>
    intro t o hwaiting ho hhandler
    by_cases hts : t = s
    · rw [hts, hself] at ho
      cases ho
    · rw [hheap t hts] at ho
      exact hw.told t o hwaiting ho hhandler
  case handled =>
    intro t o ht ho
    by_cases hts : t = s
    · rw [hts, hself] at ho
      cases ho
    · rw [hheap t hts] at ho
      exact hw.handled t o ht ho

/-- The set of closed sockets is emptied when none of them is live. -/
theorem clear (hw : Told ctx h w) (hgone : ∀ s, w.Waiting s → w.heap s = none) :
    Told ctx h { w with container :=
      { w.container with closeSockets := OrderedMap.empty KeyOrder.nat Unit } } where
  unborn s hs := by
    obtain ⟨hnone, -, hrest⟩ := hw.unborn s hs
    exact ⟨hnone, List.not_mem_nil, hrest⟩
  untold s hs _ := hw.untold s hs (mt (hgone s) hs)
  told _ _ hs := absurd hs List.not_mem_nil
  handled := hw.handled

/-- A handler is called. -/
theorem call (hw : Told ctx h w)
    (hlive : ∀ s, c = .handleClose s → ∃ o, w.heap s = some o ∧ o.handler = true) :
    Told (c :: ctx) (h ++ [.called c]) w := by
  constructor
  case unborn =>
    intro s hs
    obtain ⟨hnone, hopen, hnotices, hnested⟩ := hw.unborn s hs
    have hcloses : c.closes s = false := by
      by_contra htrue
      obtain ⟨o, ho, -⟩ := hlive s (closes_eq_true.mp (by simpa using htrue))
      cases hnone.symm.trans ho
    rw [notices_called, nested_cons, hcloses]
    exact ⟨hnone, hopen, hnotices, hnested⟩
  case untold =>
    intro s hs hopen
    rw [notices_called, nested_cons, hw.untold s hs hopen]
  case told =>
    intro s o hwaiting ho hhandler
    rw [notices_called, nested_cons]
    exact Nat.add_lt_add_right (hw.told s o hwaiting ho hhandler) _
  case handled =>
    intro s o hs ho
    rcases List.mem_cons.mp hs with heq | hs
    · obtain ⟨o', ho', hhandler⟩ := hlive s heq.symm
      cases ho.symm.trans ho'
      exact hhandler
    · exact hw.handled s o hs ho

end Told
/-! ## Operations -/

/-- The program keeps the invariant. -/
def Notes (ctx : List Callback) {α : Type} (x : NetM α) : Prop :=
  ∀ h w, Told ctx h w → wp managed noticing ctx x (fun _ => Told ctx) h w

def Question.isDelete : Question → Bool
  | .delete _ => true
  | _ => false

theorem Kernel.effect_of_not_isDelete {w : World} {q : Question} (hq : q.isDelete = false)
    (a : Answer q) : (Kernel.effect w q a).heap = w.heap ∧ (Kernel.effect w q a).next = w.next ∧
      (Kernel.effect w q a).container = w.container := by
  cases q with
  | delete s => cases hq
  | socket type => cases a <;> exact ⟨rfl, rfl, rfl⟩
  | accept fd => rcases a with _ | ⟨fd, addr⟩ <;> exact ⟨rfl, rfl, rfl⟩
  | epollCtlAdd fd events => cases a <;> exact ⟨rfl, rfl, rfl⟩
  | epollCtlMod fd events => cases a <;> exact ⟨rfl, rfl, rfl⟩
  | epollWait maxEvents => cases a <;> exact ⟨rfl, rfl, rfl⟩
  | log line => cases line <;> exact ⟨rfl, rfl, rfl⟩
  | _ => exact ⟨rfl, rfl, rfl⟩

section

variable {ctx : List Callback} {h : List NetEvent} {w : World} {this : SocketId} {o : Socket}
  {α β : Type}

theorem notes_pure (a : α) : Notes ctx (pure a : NetM α) := fun _ _ hw => hw

theorem notes_fault (why : NetFault) : Notes ctx (.fault why : NetM α) := fun _ _ _ => trivial

theorem Notes.bind {x : NetM α} {f : α → NetM β} (hx : Notes ctx x)
    (hf : ∀ a, Notes ctx (f a)) : Notes ctx (x >>= f) :=
  fun h w hw => wp_seq (hx h w hw) fun a h w hw => hf a h w hw

theorem notes_read : Notes ctx (Prog.read : NetM World) := fun _ _ hw => hw

theorem notes_checkFd (fd : Fd) : Notes ctx (Prog.modify fun w => { w with checkFd := fd } :
    NetM Unit) :=
  fun _ _ hw => hw.congr (fun _ => rfl) rfl (fun _ => rfl) rfl

theorem notes_ask {q : Question} (hq : q.isDelete = false) : Notes ctx (ask q) := by
  intro h w hw
  refine ⟨trivial, fun a w' ha => ?_⟩
  obtain ⟨-, rfl⟩ := ha
  obtain ⟨hheap, hnext, hcontainer⟩ := Kernel.effect_of_not_isDelete hq a
  refine (hw.append fun _ => rfl).congr (fun _ => rfl) hnext (fun s => ?_) ?_
  · rw [hheap]
  · rw [hcontainer]

theorem notes_load : Notes ctx (load this) := by
  intro h w hw
  rw [load, wp_bind, wp_read]
  cases hs : w.heap this with
  | none => trivial
  | some o => exact hw

theorem notes_store {f : Socket → Socket} (hf : ∀ o, (f o).handler = o.handler) :
    Notes ctx (store this f) := by
  intro h w hw
  cases hs : w.heap this with
  | none =>
      rw [store, load, wp_bind, wp_bind, wp_read, hs]
      trivial
  | some o => exact (wp_store hs).mpr (hw.put hs (hf o))

theorem notes_touch : Notes ctx (touch this) :=
  Notes.bind (notes_ask rfl) fun _ => notes_store fun _ => rfl

theorem notes_appendInput (data : List UInt8) : Notes ctx (appendInput this data) :=
  Notes.bind (notes_ask rfl) fun _ => notes_store fun _ => rfl

theorem notes_new (o : Socket) : Notes ctx (new o) := fun _ _ hw => wp_new.mpr (hw.born o)

theorem notes_create (handler : Bool) : Notes ctx (TcpSocket.create handler) :=
  Notes.bind (notes_ask rfl) fun _ => notes_new _

namespace EpollContainer

theorem notes_members : Notes ctx members := fun _ _ hw => hw

theorem notes_modifyMembers {f : EpollContainer → EpollContainer}
    (hf : ∀ c, (f c).closeSockets = c.closeSockets) : Notes ctx (modifyMembers f) :=
  fun _ _ hw => hw.congr (fun _ => rfl) rfl (fun _ => rfl) (hf _)

theorem notes_addSocket (s : Option SocketId) (events : Interest) :
    Notes ctx (addSocket s events) := by
  refine notes_members.bind fun c => ?_
  split
  · exact notes_pure _
  cases s with
  | none => exact notes_pure _
  | some s =>
      refine notes_load.bind fun o => ?_
      dsimp only
      split
      · exact notes_pure _
      refine Notes.bind (notes_ask rfl) fun added => ?_
      split
      · exact Notes.bind (notes_modifyMembers fun _ => rfl) fun _ => notes_pure _
      · exact notes_pure _

theorem notes_modSocket (s : Option SocketId) (events : Interest) :
    Notes ctx (modSocket s events) := by
  cases s with
  | none => exact notes_pure _
  | some s =>
      refine notes_load.bind fun o => notes_members.bind fun c => ?_
      split
      · exact notes_pure _
      · exact notes_ask rfl

/-- The object gets into the set of closed sockets, and the invariant holds again. -/
theorem delSocket_leaving (hw : Leaving this ctx h w) :
    wp managed noticing ctx (delSocket (some this)) (fun _ => Told ctx) h w := by
  cases hs : w.heap this with
  | none =>
      rw [delSocket, load, wp_bind, wp_bind, wp_read, hs]
      trivial
  | some o =>
      refine wp_delSocket plain_noticing hs ?_
      have hwaiting : ∀ t, (w.unlisted this o.fd).Waiting t ↔ t = this ∨ w.Waiting t :=
        fun t => OrderedSet.mem_elements_insert KeyOrder.nat_total
      have hnotices : ∀ t, notices t (h ++ [.asked (.epollCtlDel o.fd) ()]) = notices t h := by
        intro t
        rw [notices_append]
        rfl
      constructor
      case unborn =>
        intro t ht
        obtain ⟨hnone, hopen, hcounts⟩ := hw.unborn t ht
        rw [hwaiting, hnotices]
        refine ⟨hnone, ?_, hcounts⟩
        rintro (rfl | hclosed)
        · cases hnone.symm.trans hs
        · exact hopen hclosed
      case untold =>
        intro t ht hopen
        rw [hwaiting, not_or] at hopen
        rw [hnotices]
        exact hw.untold t hopen.1 ht hopen.2
      case told =>
        intro t o' hclosed ho' hhandler
        rw [hnotices]
        exact hw.told t o' ((hwaiting t).mp hclosed) ho' hhandler
      case handled => exact hw.handled

end EpollContainer

/-- A handler may do anything which the library allows. -/
theorem notes_handlePacket (data : List UInt8) : Notes ctx (handlePacket this data) := by
  intro h w hw
  refine ⟨hw.call fun _ hcloses => ?_, fun r h' w' _ hinv _ => ?_⟩
  · cases hcloses
  have hnested : ∀ s, nested s (.handlePacket this data :: ctx) = nested s ctx := fun s =>
    nested_cons
  have hw' : Told ctx h' w' := {
    unborn := fun s => hnested s ▸ hinv.unborn s
    untold := fun s => hnested s ▸ hinv.untold s
    told := fun s => hnested s ▸ hinv.told s
    handled := fun s o hs => hinv.handled s o (List.mem_cons_of_mem _ hs) }
  exact hw'.append fun _ => rfl

/-- What `Close` does after the callback. -/
theorem closeSocket_leaving (hw : Leaving this ctx h w) :
    wp managed noticing ctx (do
      let _ ← EpollContainer.delSocket (some this)
      let s ← load this
      if s.fd ≠ -1 then
        ask (.close s.fd)
      store this World.closedFields : NetM Unit) (fun _ => Told ctx) h w := by
  refine wp_seq (EpollContainer.delSocket_leaving hw) fun _ => ?_
  refine notes_load.bind fun o => ?_
  split
  · exact Notes.bind (notes_ask rfl) fun _ => notes_store fun _ => rfl
  · exact notes_store fun _ => rfl

theorem Told.leaving (hw : Told ctx h w) (hs : w.heap this = some o)
    (hhandler : o.handler = false) :
    Leaving this ctx h w where
  unborn := hw.unborn
  untold s _ := hw.untold s
  told s o' hclosed ho' htrue := by
    rcases hclosed with rfl | hclosed
    · rw [hs] at ho'
      cases ho'
      rw [hhandler] at htrue
      cases htrue
    · exact hw.told s o' hclosed ho' htrue
  handled := hw.handled

/-- The handler has been told, and returns. -/
theorem Told.resume {r : Int} (hw : Told (.handleClose this :: ctx) h w) :
    Leaving this ctx (h ++ [.resumed (.handleClose this) r]) w := by
  have hnotices : ∀ s, notices s (h ++ [.resumed (.handleClose this) r]) = notices s h := by
    intro s
    rw [notices_append]
    rfl
  have hself : nested this (.handleClose this :: ctx) = nested this ctx + 1 := by
    rw [nested_cons, if_pos (closes_eq_true.mpr rfl)]
  have hother : ∀ s, s ≠ this → nested s (.handleClose this :: ctx) = nested s ctx := by
    intro s hs
    rw [nested_cons, if_neg fun hcloses => hs (Callback.handleClose.inj
      (closes_eq_true.mp hcloses)).symm]
    rfl
  constructor
  case unborn =>
    intro s hs
    obtain ⟨hnone, hopen, hzero, hnested⟩ := hw.unborn s hs
    rw [hnotices]
    refine ⟨hnone, hopen, hzero, ?_⟩
    rw [nested_cons] at hnested
    omega
  case untold =>
    intro s hs hlive hopen
    rw [hnotices, ← hother s hs]
    exact hw.untold s hlive hopen
  case told =>
    intro s o hclosed ho hhandler
    rw [hnotices]
    by_cases hs : s = this
    · subst hs
      by_cases hopen : w.Waiting s
      · have htold := hw.told s o hopen ho hhandler
        omega
      -- this call of `Close` is one more than those which go on
      · have huntold := hw.untold s (by rw [ho]; exact Option.some_ne_none o) hopen
        omega
    · rw [← hother s hs]
      exact hw.told s o (hclosed.resolve_left hs) ho hhandler
  case handled => exact fun s o hs => hw.handled s o (List.mem_cons_of_mem _ hs)

theorem notes_closeSocket : Notes ctx (closeSocket this) := by
  intro h w hw
  cases hs : w.heap this with
  | none =>
      rw [closeSocket, load, wp_bind, wp_bind, wp_read, hs]
      trivial
  | some o =>
      rw [closeSocket, wp_bind, wp_load hs]
      cases hhandler : o.handler with
      | false => exact closeSocket_leaving (hw.leaving hs hhandler)
      | true =>
          refine ⟨hw.call fun s hcloses => ?_, fun r h' w' _ hinv _ => ?_⟩
          · cases hcloses
            exact ⟨o, hs, hhandler⟩
          · exact closeSocket_leaving hinv.resume

end

/-! ## `TcpSocket` -/

namespace TcpSocket

variable {ctx : List Callback} {this : SocketId}

theorem notes_modOrClose (events : Interest) : Notes ctx (modOrClose this events) := by
  refine Notes.bind (EpollContainer.notes_modSocket _ _) fun modified => ?_
  split
  · exact notes_closeSocket
  · exact notes_pure _

theorem notes_listen (port backlog : Int) (handler : Bool) :
    Notes ctx (listen port backlog handler) := by
  refine Notes.bind (notes_ask rfl) fun fd => ?_
  cases fd with
  | none => exact notes_pure _
  | some fd =>
      refine Notes.bind (notes_ask rfl) fun nonblock => ?_
      split
      · exact notes_pure _
      refine Notes.bind (notes_ask rfl) fun reuse => ?_
      split
      · exact notes_pure _
      refine Notes.bind (notes_ask rfl) fun bound => ?_
      split
      · exact notes_pure _
      refine Notes.bind (notes_ask rfl) fun listening => ?_
      split
      · exact notes_pure _
      refine Notes.bind (notes_create _) fun s => Notes.bind (notes_ask rfl) fun now => ?_
      refine Notes.bind (notes_store fun _ => rfl) fun _ => ?_
      refine Notes.bind (EpollContainer.notes_addSocket _ _) fun added => ?_
      split
      · exact notes_pure _
      · exact Notes.bind notes_closeSocket fun _ => notes_pure _

theorem notes_connect (ip : UInt32) (port : UInt16) (handler : Bool) :
    Notes ctx (connect ip port handler) := by
  refine Notes.bind (notes_ask rfl) fun fd => ?_
  cases fd with
  | none => exact notes_pure _
  | some fd =>
      refine Notes.bind (notes_ask rfl) fun nonblock => ?_
      split
      · exact notes_pure _
      refine Notes.bind (notes_ask rfl) fun ret => ?_
      refine Notes.bind (notes_create _) fun s => Notes.bind (notes_ask rfl) fun now => ?_
      refine Notes.bind (notes_store fun _ => rfl) fun _ => ?_
      split
      case h_3 => exact Notes.bind notes_closeSocket fun _ => notes_pure _
      all_goals
        refine Notes.bind (EpollContainer.notes_addSocket _ _) fun added => ?_
        split
        · exact Notes.bind (notes_store fun _ => rfl) fun _ => notes_pure _
        · exact Notes.bind notes_closeSocket fun _ => notes_pure _

theorem notes_accept : Notes ctx (accept this) := by
  refine Notes.bind notes_load fun l => Notes.bind (notes_ask rfl) fun accepted => ?_
  rcases accepted with errno | ⟨afd, addr⟩
  · exact notes_closeSocket
  refine Notes.bind (notes_ask rfl) fun nonblock => ?_
  split
  · exact notes_closeSocket
  refine Notes.bind (notes_create _) fun s => Notes.bind (notes_ask rfl) fun now => ?_
  refine Notes.bind (notes_store fun _ => rfl) fun _ => ?_
  refine Notes.bind (EpollContainer.notes_addSocket _ _) fun added => ?_
  split
  · exact notes_closeSocket
  refine Notes.bind (Notes.bind notes_load fun _ => notes_ask rfl) fun nodelay => ?_
  split
  · exact notes_closeSocket
  · exact notes_pure _

theorem notes_read (size : Nat) : Notes ctx (read this size) := by
  refine Notes.bind notes_touch fun _ => Notes.bind notes_load fun o => ?_
  refine Notes.bind (notes_ask rfl) fun received => ?_
  rcases received with errno | _ | ⟨b, rest⟩
  · dsimp only
    split
    · exact notes_pure _
    · exact notes_closeSocket
  · exact notes_closeSocket
  · refine Notes.bind (notes_appendInput _) fun _ => Notes.bind notes_load fun o => ?_
    dsimp only
    split
    · exact Notes.bind (notes_handlePacket _) fun _ => notes_pure _
    · exact notes_pure _

theorem notes_writeLoop (turns : Nat) : Notes ctx (writeLoop this turns) := by
  induction turns with
  | zero => exact notes_fault _
  | succ turns ih =>
      refine Notes.bind notes_load fun o => Notes.bind (notes_ask rfl) fun sent => ?_
      cases sent with
      | error errno =>
          dsimp only
          split
          · refine Notes.bind (EpollContainer.notes_modSocket _ _) fun modified => ?_
            split
            · exact notes_closeSocket
            · exact notes_store fun _ => rfl
          · exact notes_closeSocket
      | ok n =>
          refine Notes.bind (notes_store fun _ => rfl) fun _ => Notes.bind notes_load fun o => ?_
          split
          · split
            · exact Notes.bind (notes_store fun _ => rfl) fun _ => notes_modOrClose _
            · exact notes_pure _
          · exact ih

theorem notes_write : Notes ctx (write this) := by
  refine Notes.bind notes_touch fun _ => Notes.bind notes_load fun o => ?_
  split
  · exact notes_pure _
  · exact notes_writeLoop _

theorem notes_handleRead (size : Nat) : Notes ctx (handleRead this size) := by
  refine Notes.bind notes_load fun o => ?_
  split
  case h_1 => exact notes_accept
  case h_5 => exact notes_pure _
  all_goals exact notes_read size

theorem notes_handleWrite : Notes ctx (handleWrite this) := by
  refine Notes.bind notes_load fun o => ?_
  split
  case h_1 => exact Notes.bind (notes_store fun _ => rfl) fun _ => notes_modOrClose _
  case h_2 | h_3 => exact notes_write
  all_goals exact notes_pure _

theorem notes_handleTimeout : Notes ctx (handleTimeout this) := by
  refine Notes.bind (notes_ask rfl) fun now => Notes.bind notes_load fun o => ?_
  split
  case h_4 | h_5 => exact notes_pure _
  all_goals
    split
    · exact notes_closeSocket
    · exact notes_pure _

theorem notes_sendPacket (data : List UInt8) : Notes ctx (sendPacket this data) := by
  refine Notes.bind notes_load fun o => ?_
  split
  · exact notes_pure _
  split
  · exact notes_pure _
  refine Notes.bind (notes_ask rfl) fun malloc => ?_
  generalize o.output.append malloc data = appended
  obtain ⟨appended, output⟩ := appended
  refine Notes.bind (notes_store fun _ => rfl) fun _ => ?_
  split
  · exact Notes.bind notes_write fun _ => notes_pure _
  · exact notes_pure _

end TcpSocket

/-! ## `UdpSocket` -/

namespace UdpSocket

variable {ctx : List Callback} {this : SocketId}

theorem notes_setBufferSize : Notes ctx (setBufferSize this) :=
  Notes.bind notes_load fun _ => Notes.bind (notes_ask rfl) fun _ => notes_pure _

theorem notes_listen (port : Int) (handler : Bool) : Notes ctx (listen port handler) := by
  refine Notes.bind (notes_ask rfl) fun fd => ?_
  cases fd with
  | none => exact notes_pure _
  | some fd =>
      refine Notes.bind (notes_ask rfl) fun nonblock => ?_
      split
      · exact notes_pure _
      refine Notes.bind (notes_ask rfl) fun reuse => ?_
      split
      · exact notes_pure _
      refine Notes.bind (notes_ask rfl) fun bound => ?_
      split
      · exact notes_pure _
      refine Notes.bind (notes_new _) fun s => Notes.bind (notes_ask rfl) fun now => ?_
      refine Notes.bind (notes_store fun _ => rfl) fun _ => ?_
      refine Notes.bind (EpollContainer.notes_addSocket _ _) fun added => ?_
      split
      · refine Notes.bind notes_setBufferSize fun _ => ?_
        exact Notes.bind notes_setBufferSize fun _ => notes_pure _
      · exact Notes.bind notes_closeSocket fun _ => notes_pure _

theorem notes_connect (ip : UInt32) (port : UInt16) (handler : Bool) :
    Notes ctx (connect ip port handler) := by
  refine Notes.bind (notes_ask rfl) fun fd => ?_
  cases fd with
  | none => exact notes_pure _
  | some fd =>
      refine Notes.bind (notes_ask rfl) fun nonblock => ?_
      split
      · exact notes_pure _
      refine Notes.bind (notes_new _) fun s => Notes.bind (notes_ask rfl) fun now => ?_
      refine Notes.bind (notes_store fun _ => rfl) fun _ => ?_
      refine Notes.bind (EpollContainer.notes_addSocket _ _) fun added => ?_
      split
      · exact notes_pure _
      · exact Notes.bind notes_closeSocket fun _ => notes_pure _

theorem notes_read (size : Nat) : Notes ctx (read this size) := by
  refine Notes.bind notes_touch fun _ => Notes.bind notes_load fun o => ?_
  refine Notes.bind (notes_ask rfl) fun received => ?_
  -- what the handler returned decides
  have hcount : ∀ pn : Int, Notes ctx
      (if pn > 0 then store this fun s => { s with input := s.input.erase 0 pn.toNat false }
      else if pn < 0 then close this else pure () : NetM Unit) := by
    intro pn
    split
    · exact notes_store fun _ => rfl
    split
    · exact notes_closeSocket
    · exact notes_pure _
  rcases received with errno | ⟨_ | ⟨b, rest⟩, addr⟩
  · dsimp only
    split
    · exact notes_pure _
    · exact notes_closeSocket
  · exact notes_closeSocket
  · refine Notes.bind (notes_appendInput _) fun _ => Notes.bind notes_load fun o => ?_
    dsimp only
    split
    · exact Notes.bind (notes_handlePacket _) hcount
    · exact hcount 0

theorem notes_handleTimeout : Notes ctx (handleTimeout this) := by
  refine Notes.bind (notes_ask rfl) fun now => Notes.bind notes_load fun o => ?_
  split
  · split
    · exact notes_closeSocket
    · exact notes_pure _
  · exact notes_pure _

theorem notes_sendPacket (data : List UInt8) : Notes ctx (sendPacket this data) := by
  refine Notes.bind notes_touch fun _ => Notes.bind notes_load fun o => ?_
  split
  · exact notes_pure _
  split
  · exact notes_pure _
  refine Notes.bind (notes_ask rfl) fun sent => ?_
  cases sent with
  | none => exact notes_pure _
  | some n =>
      dsimp only
      split <;> exact notes_pure _

end UdpSocket

/-! ## Virtual methods -/

namespace SocketBase

variable {ctx : List Callback} {this : SocketId}

theorem notes_handleRead (size : Nat) : Notes ctx (handleRead this size) := by
  refine Notes.bind notes_load fun o => ?_
  split
  · exact TcpSocket.notes_handleRead size
  · exact UdpSocket.notes_read size

theorem notes_handleWrite : Notes ctx (handleWrite this) := by
  refine Notes.bind notes_load fun o => ?_
  split
  · exact TcpSocket.notes_handleWrite
  · exact Notes.bind notes_load fun _ => notes_pure _

theorem notes_close : Notes ctx (close this) := by
  refine Notes.bind notes_load fun o => ?_
  split <;> exact notes_closeSocket

theorem notes_handleTimeout : Notes ctx (handleTimeout this) := by
  refine Notes.bind notes_load fun o => ?_
  split
  · exact TcpSocket.notes_handleTimeout
  · exact UdpSocket.notes_handleTimeout

theorem notes_sendPacket (data : List UInt8) : Notes ctx (sendPacket this data) := by
  refine Notes.bind notes_load fun o => ?_
  split
  · exact TcpSocket.notes_sendPacket data
  · exact UdpSocket.notes_sendPacket data

end SocketBase

/-! ## The event loop -/

namespace EpollContainer

variable {ctx : List Callback}

/-- The objects in the list are deleted, or there is a fault. -/
theorem deleteEach_told {h : List NetEvent} {w : World} (ss : List SocketId) (hw : Told ctx h w) :
    wp managed noticing ctx (deleteEach ss) (fun _ h w' => Told ctx h w' ∧
      w'.container = w.container ∧ ∀ s, s ∈ ss ∨ w.heap s = none → w'.heap s = none) h w := by
  induction ss generalizing h w with
  | nil => exact ⟨hw, rfl, fun s hs => hs.resolve_left List.not_mem_nil⟩
  | cons s rest ih =>
      rw [deleteEach, delete, wp_bind, wp_bind, wp_read]
      cases hs : w.heap s with
      | none => trivial
      | some o =>
          refine wp_ask plain_noticing rfl fun _ _ _ => ?_
          have hdeleted := (hw.reap s).append
            (e := .asked (.delete s) ()) fun _ => rfl
          refine wp_mono (fun _ h w' hw' => ?_) (ih hdeleted)
          obtain ⟨htold, hcontainer, hgone⟩ := hw'
          refine ⟨htold, hcontainer, fun t ht => hgone t ?_⟩
          by_cases hts : t = s
          · exact .inr (by rw [hts]; exact Function.update_self _ _ _)
          · rw [List.mem_cons, or_assoc] at ht
            refine (ht.resolve_left hts).imp_right fun hnone => ?_
            exact (Function.update_of_ne hts _ _).trans hnone

theorem notes_checkCloseSocket : Notes ctx checkCloseSocket := by
  intro h w hw
  rw [checkCloseSocket, wp_bind, wp_members, wp_bind]
  refine wp_mono (fun _ h w' hw' => ?_) (deleteEach_told _ hw)
  obtain ⟨htold, hcontainer, hgone⟩ := hw'
  refine htold.clear fun s hs => hgone s (.inl ?_)
  rw [World.Waiting, hcontainer] at hs
  exact hs

theorem notes_advance (fd : Fd) (s : SocketId) : Notes ctx (advance fd s) := by
  refine Notes.bind notes_members fun c => ?_
  split
  · exact notes_pure _
  · exact notes_fault _

theorem notes_checkEach (turns : Nat) (itr : Iterator) : Notes ctx (checkEach turns itr) := by
  induction turns generalizing itr with
  | zero => exact notes_pure _
  | succ turns ih =>
      obtain _ | ⟨fd, s⟩ := itr
      · exact notes_pure _
      refine Notes.bind (notes_checkFd fd) fun _ => ?_
      exact Notes.bind SocketBase.notes_handleTimeout fun _ => Notes.bind (notes_advance fd s) ih

theorem notes_checkTimeoutSocket : Notes ctx checkTimeoutSocket := by
  refine Notes.bind notes_read fun w => ?_
  refine Notes.bind (Notes.bind notes_members fun _ => notes_pure _) fun itr => ?_
  refine Notes.bind (notes_checkEach _ _) fun itr => ?_
  split
  · exact notes_checkFd 0
  · exact notes_pure _

theorem notes_handleEvent (e : Ready) : Notes ctx (handleEvent e) := by
  refine Notes.bind (Notes.bind notes_members fun _ => notes_pure _) fun found => ?_
  cases found with
  | none => exact notes_ask rfl
  | some s =>
      -- what the second half of an event does
      have hwrite : Notes ctx (if e.epollout then do
          log (.epollWriteEvents e.fd s)
          SocketBase.handleWrite s
        else pure () : NetM Unit) := by
        split
        · exact Notes.bind (notes_ask rfl) fun _ => SocketBase.notes_handleWrite
        · exact notes_pure _
      dsimp only
      split
      · exact Notes.bind (notes_ask rfl) fun _ => SocketBase.notes_close
      split
      · refine Notes.bind (notes_ask rfl) fun _ => ?_
        exact Notes.bind (SocketBase.notes_handleRead _) fun _ => hwrite
      · exact hwrite

theorem notes_handleEvents (es : List Ready) : Notes ctx (handleEvents es) := by
  induction es with
  | nil => exact notes_pure _
  | cons e rest ih => exact Notes.bind (notes_handleEvent e) fun _ => ih

theorem notes_handleSockets : Notes ctx handleSockets := by
  refine Notes.bind notes_checkCloseSocket fun _ => Notes.bind notes_checkTimeoutSocket fun _ => ?_
  refine Notes.bind notes_members fun c => Notes.bind (notes_ask rfl) fun ready => ?_
  cases ready with
  | none => exact notes_pure _
  | some events => exact notes_handleEvents events

end EpollContainer

/-! ## Every method -/

theorem notes_body {ctx : List Callback} (m : Method) : Notes ctx m.body := by
  cases m with
  | tcpListen port backlog handler =>
      exact Notes.bind (TcpSocket.notes_listen _ _ _) fun _ => notes_pure _
  | tcpConnect ip port handler =>
      exact Notes.bind (TcpSocket.notes_connect _ _ _) fun _ => notes_pure _
  | udpListen port handler => exact Notes.bind (UdpSocket.notes_listen _ _) fun _ => notes_pure _
  | udpConnect ip port handler =>
      exact Notes.bind (UdpSocket.notes_connect _ _ _) fun _ => notes_pure _
  | handleSockets => exact Notes.bind EpollContainer.notes_handleSockets fun _ => notes_pure _
  | handleRead s => exact Notes.bind (SocketBase.notes_handleRead _) fun _ => notes_pure _
  | handleWrite s => exact Notes.bind SocketBase.notes_handleWrite fun _ => notes_pure _
  | handleError s => exact Notes.bind SocketBase.notes_close fun _ => notes_pure _
  | handleTimeout s => exact Notes.bind SocketBase.notes_handleTimeout fun _ => notes_pure _
  | sendPacket s data => exact Notes.bind (SocketBase.notes_sendPacket _) fun _ => notes_pure _
  | close s => exact Notes.bind SocketBase.notes_close fun _ => notes_pure _

theorem sound_noticing : noticing.Sound managed Method.body where
  refl _ _ := trivial
  trans _ _ _ _ _ _ := trivial
  interferes _ _ _ _ hw := hw.elim
  methods := by
    intro ctx h w m _ hinv
    refine wp_mono (fun v h w' hw' => ⟨hw'.append fun _ => rfl, trivial⟩) (notes_body m _ _ ?_)
    exact hinv.append fun _ => rfl

theorem Told.initial (maxFdCount : Nat) (kernel : Kernel) (checkFd : Fd) :
    Told [] [] (World.initial maxFdCount kernel checkFd) where
  unborn _ _ := ⟨rfl, List.not_mem_nil, rfl, rfl⟩
  untold _ _ _ := rfl
  told _ _ hs := absurd hs List.not_mem_nil
  handled _ _ hs := absurd hs List.not_mem_nil

end Net
end Deps
