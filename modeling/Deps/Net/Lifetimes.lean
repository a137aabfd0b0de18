import Deps.Net.NoticeRuns
import Deps.Net.WriteInterest

/-!
# The life of one socket

Runs in which a socket is created, its methods are called in any order, by its own
handler too, and it is deleted at last.  An `ObjectInv` relates the history to the
fields of the object; the methods keep it, apart from the few events and fields
which it may be about.
-/

namespace Deps
namespace Net

open Reentrant

/-- The calls which are about the socket `s`.  The rest of the process does not change
the object, but may delete it when none of its callbacks is running. -/
def lifetime (creates : World → Method → Prop) (s : SocketId) : NetEnvironment where
  answers := Kernel.answers
  enters ctx w m :=
    (∀ c ∈ ctx, c.socket = s) ∧
      ((m.target = some s ∧ w.heap s ≠ none) ∨ (w.next = s ∧ w.heap s = none ∧ creates w m))
  returns _ _ := True
  interferes ctx w w' :=
    (∀ c ∈ ctx, w'.heap c.socket ≠ none) ∧ (w'.heap s = w.heap s ∨ w'.heap s = none)

/-- Questions which leave the heap alone, and which no invariant is about. -/
def Question.isPlain : Question → Bool
  | .connect _ _ | .accept _ | .sendto _ _ _ | .delete _ => false
  | _ => true

/-- Events which no invariant is about. -/
def isPlain : NetEvent → Bool
  | .entered (.handleWrite _) | .entered (.tcpListen _ _ _) | .entered (.tcpConnect _ _ _)
  | .entered (.udpListen _ _) | .entered (.udpConnect _ _ _) | .entered .handleSockets => false
  | .asked q _ => q.isPlain
  | _ => true

/-- What the history says about an object, and before it is created and after it is
deleted. -/
structure ObjectInv where
  absent : List NetEvent → Prop
  holds : List NetEvent → Socket → Prop
  deleted : ∀ {h o}, holds h o → absent h
  waits : ∀ {h e}, isPlain e = true → absent h → absent (h ++ [e])
  passes : ∀ {h o e}, isPlain e = true → holds h o → holds (h ++ [e]) o
  put : ∀ {h} {o o' : Socket}, o'.type = o.type → o'.state = o.state → o'.peerAddr = o.peerAddr →
    holds h o → holds h o'
  closed : ∀ {h o}, holds h o → holds h (World.closedFields o)

namespace ObjectInv

/-- The object exists, and the invariant holds of it. -/
def At (I : ObjectInv) (s : SocketId) (h : List NetEvent) (w : World) : Prop :=
  ∃ o, w.heap s = some o ∧ I.holds h o

/-- The object was not created, or the invariant holds of it. -/
def Founded (I : ObjectInv) (s : SocketId) (h : List NetEvent) (w : World) : Prop :=
  (w.heap s = none ∧ I.absent h) ∨ I.At s h w

def spec (I : ObjectInv) (s : SocketId) : NetSpec where
  inv ctx h w :=
    (∀ c ∈ ctx, w.heap c.socket ≠ none) ∧
      ((w.heap s = none ∧ I.absent h) ∨ (∀ c ∈ ctx, c.socket = s) ∧ I.At s h w)
  rel _ _ _ := True
  check _ _ := True
  tolerated _ := False

variable {I : ObjectInv} {creates : World → Method → Prop} {s : SocketId} {ctx : List Callback}
  {h : List NetEvent} {w w' : World} {o : Socket} {e : NetEvent} {α β : Type}

theorem plain : Plain (lifetime creates s) (I.spec s) := ⟨id, fun _ => trivial⟩

theorem At.append (hw : I.At s h w) (he : isPlain e = true) : I.At s (h ++ [e]) w := by
  obtain ⟨o, ho, hholds⟩ := hw
  exact ⟨o, ho, I.passes he hholds⟩

theorem At.congr (hw : I.At s h w) (hheap : w'.heap = w.heap) : I.At s h w' := by
  obtain ⟨o, ho, hholds⟩ := hw
  exact ⟨o, hheap ▸ ho, hholds⟩

theorem At.put (hw : I.At s h w) (ho : w.heap s = some o) {o' : Socket} (htype : o'.type = o.type)
    (hstate : o'.state = o.state) (hpeer : o'.peerAddr = o.peerAddr) : I.At s h (w.put s o') := by
  obtain ⟨o₁, ho₁, hholds⟩ := hw
  cases ho.symm.trans ho₁
  exact ⟨o', w.heap_put s o', I.put htype hstate hpeer hholds⟩

theorem At.closed (hw : I.At s h w) (ho : w.heap s = some o) : I.At s h (w.closed s o) := by
  obtain ⟨o₁, ho₁, hholds⟩ := hw
  cases ho.symm.trans ho₁
  exact ⟨_, w.heap_closed s o, I.closed hholds⟩

theorem At.closing (hw : I.At s h w) (fd : Fd) : I.At s (h ++ closeEvents fd) w := by
  have hdel : I.At s (h ++ [.asked (.epollCtlDel fd) ()]) w := hw.append rfl
  unfold closeEvents
  split
  · have hclose := hdel.append (e := .asked (.close fd) ()) rfl
    rwa [List.append_assoc] at hclose
  · exact hdel

theorem At.inv (hctx : ∀ c ∈ ctx, c.socket = s) (hw : I.At s h w) : (I.spec s).inv ctx h w := by
  obtain ⟨o, ho, -⟩ := id hw
  refine ⟨fun c hc => ?_, .inr ⟨hctx, hw⟩⟩
  rw [hctx c hc, ho]
  exact Option.some_ne_none o

/-- The callback was about `s`. -/
theorem At.of_inv {c : Callback} (hc : c.socket = s) (hinv : (I.spec s).inv (c :: ctx) h w) :
    I.At s h w := by
  obtain ⟨hlive, ⟨hnone, -⟩ | ⟨-, hw⟩⟩ := hinv
  · have halive := hlive c List.mem_cons_self
    rw [hc] at halive
    exact absurd hnone halive
  · exact hw

/-! ## Operations -/

/-- The program keeps the invariant of the object. -/
def Keeps (I : ObjectInv) (creates : World → Method → Prop) (s : SocketId) (ctx : List Callback)
    (x : NetM α) : Prop :=
  ∀ h w, I.At s h w → wp (lifetime creates s) (I.spec s) ctx x (fun _ => I.At s) h w

theorem keeps_pure (a : α) : I.Keeps creates s ctx (pure a : NetM α) := fun _ _ hw => hw

theorem Keeps.bind {x : NetM α} {f : α → NetM β} (hx : I.Keeps creates s ctx x)
    (hf : ∀ a, I.Keeps creates s ctx (f a)) : I.Keeps creates s ctx (x >>= f) :=
  fun h w hw => wp_seq (hx h w hw) fun a h w hw => hf a h w hw

theorem effect_of_isPlain {q : Question} (hq : q.isPlain = true) (w : World) (a : Answer q) :
    (Kernel.effect w q a).heap = w.heap ∧ (Kernel.effect w q a).next = w.next := by
  have hdelete : q.isDelete = false := by cases q <;> first | rfl | cases hq
  obtain ⟨hheap, hnext, -⟩ := Kernel.effect_of_not_isDelete (w := w) hdelete a
  exact ⟨hheap, hnext⟩

theorem keeps_ask {q : Question} (hq : q.isPlain = true) : I.Keeps creates s ctx (ask q) := by
  intro h w hw
  refine ⟨trivial, fun a w' ha => ?_⟩
  obtain ⟨-, rfl⟩ := ha
  exact (hw.append (e := .asked q a) hq).congr (effect_of_isPlain hq w a).1

/-- What follows may use the fields which were read. -/
theorem keeps_load {f : Socket → NetM β}
    (hf : ∀ o h w, w.heap s = some o → I.holds h o →
      wp (lifetime creates s) (I.spec s) ctx (f o) (fun _ => I.At s) h w) :
    I.Keeps creates s ctx (load s >>= f) := by
  intro h w hw
  obtain ⟨o, ho, hholds⟩ := hw
  rw [wp_bind, wp_load ho]
  exact hf o h w ho hholds

theorem keeps_load_only {f : Socket → NetM β} (hf : ∀ o, I.Keeps creates s ctx (f o)) :
    I.Keeps creates s ctx (load s >>= f) :=
  keeps_load fun o h w ho hholds => hf o h w ⟨o, ho, hholds⟩

theorem keeps_store {f : Socket → Socket} (htype : ∀ o, (f o).type = o.type)
    (hstate : ∀ o, (f o).state = o.state) (hpeer : ∀ o, (f o).peerAddr = o.peerAddr) :
    I.Keeps creates s ctx (store s f) := by
  intro h w hw
  obtain ⟨o, ho, -⟩ := id hw
  exact (wp_store ho).mpr (hw.put ho (htype o) (hstate o) (hpeer o))

theorem keeps_touch : I.Keeps creates s ctx (touch s) :=
  (keeps_ask rfl).bind fun _ => keeps_store (fun _ => rfl) (fun _ => rfl) fun _ => rfl

theorem keeps_appendInput (data : List UInt8) : I.Keeps creates s ctx (appendInput s data) :=
  (keeps_ask rfl).bind fun _ => keeps_store (fun _ => rfl) (fun _ => rfl) fun _ => rfl

theorem keeps_addSocket (events : Interest) :
    I.Keeps creates s ctx (EpollContainer.addSocket (some s) events) := by
  intro h w hw
  obtain ⟨o, ho, -⟩ := id hw
  have happend : ∀ a, I.At s (h ++ [.asked (.epollCtlAdd o.fd events) a]) w :=
    fun a => hw.append rfl
  exact EpollContainer.wp_addSocket plain ho hw (happend false) fun _ _ => (happend true).congr rfl

theorem keeps_modSocket (events : Interest) :
    I.Keeps creates s ctx (EpollContainer.modSocket (some s) events) := by
  intro h w hw
  obtain ⟨o, ho, -⟩ := id hw
  have happend : ∀ a, I.At s (h ++ [.asked (.epollCtlMod o.fd events) a]) w :=
    fun a => hw.append rfl
  exact EpollContainer.wp_modSocket plain ho (fun _ => hw) (happend false) fun _ _ =>
    (happend true).congr rfl

section

variable (hctx : ∀ c ∈ ctx, c.socket = s)
include hctx

theorem keeps_handlePacket (data : List UInt8) :
    I.Keeps creates s ctx (handlePacket s data) := by
  intro h w hw
  have hcalled : I.At s (h ++ [.called (.handlePacket s data)]) w := hw.append rfl
  refine ⟨hcalled.inv (socket_cons hctx rfl), fun r h' w' _ hinv _ => ?_⟩
  exact (At.of_inv rfl hinv).append rfl

theorem keeps_closeSocket : I.Keeps creates s ctx (closeSocket s) := by
  intro h w hw
  obtain ⟨o, ho, -⟩ := id hw
  refine wp_closeSocket plain ho (fun _ => (hw.closing o.fd).closed ho) (fun _ => ?_)
    fun _ r h' w' hinv _ => ?_
  · have hcalled : I.At s (h ++ [.called (.handleClose s)]) w := hw.append rfl
    exact hcalled.inv (socket_cons hctx rfl)
  · have hw' : I.At s h' w' := At.of_inv rfl hinv
    obtain ⟨o', ho', -⟩ := id hw'
    have hresumed : I.At s (h' ++ [.resumed (.handleClose s) r]) w' := hw'.append rfl
    exact ⟨o', ho', (hresumed.closing o'.fd).closed ho'⟩

/-! ## Methods -/

theorem keeps_modOrClose (events : Interest) :
    I.Keeps creates s ctx (TcpSocket.modOrClose s events) := by
  refine (keeps_modSocket events).bind fun modified => ?_
  split
  · exact keeps_closeSocket hctx
  · exact keeps_pure ()

theorem keeps_tcpRead (size : Nat) : I.Keeps creates s ctx (TcpSocket.read s size) := by
  refine keeps_touch.bind fun _ => keeps_load_only fun o => (keeps_ask rfl).bind fun a => ?_
  rcases a with errno | _ | ⟨b, rest⟩
  · dsimp only
    split
    · exact keeps_pure ()
    · exact keeps_closeSocket hctx
  · exact keeps_closeSocket hctx
  · refine (keeps_appendInput _).bind fun _ => keeps_load_only fun o => ?_
    cases o.handler with
    | false => exact keeps_pure ()
    | true => exact (keeps_handlePacket hctx _).bind fun _ => keeps_pure ()

theorem keeps_writeLoop (turns : Nat) {o : Socket} (ho : w.heap s = some o) (hholds : I.holds h o)
    (hpos : 0 < o.output.size) (hturns : o.output.size ≤ turns) :
    wp (lifetime creates s) (I.spec s) ctx (TcpSocket.writeLoop s turns) (fun _ => I.At s) h w := by
  refine TcpSocket.wp_writeLoop plain (I.At s) (fun hw ho _ _ _ => ?_) (fun hw ho _ _ _ => ?_)
    (fun hw ho _ => ?_) (fun hw ho _ => ?_) ⟨o, ho, hholds⟩ ho hpos hturns
  · exact (hw.append rfl).put ho rfl rfl rfl
  · split
    · exact keeps_modOrClose hctx _ _ _ ((hw.append rfl).put ho rfl rfl rfl)
    · exact (hw.append rfl).put ho rfl rfl rfl
  · refine wp_mono (fun modified h w hw => ?_) (keeps_modSocket .readWriteError _ _ (hw.append rfl))
    split
    · obtain ⟨o, ho, -⟩ := id hw
      exact ⟨o, ho, hw.put ho rfl rfl rfl⟩
    · exact keeps_closeSocket hctx h w hw
  · exact keeps_closeSocket hctx _ _ (hw.append rfl)

theorem keeps_write : I.Keeps creates s ctx (TcpSocket.write s) := by
  refine keeps_touch.bind fun _ => keeps_load fun o h w ho hholds => ?_
  split
  · exact ⟨o, ho, hholds⟩
  · rename_i hsize
    exact keeps_writeLoop hctx _ ho hholds (by omega) le_rfl

theorem keeps_tcpSendPacket (data : List UInt8) :
    I.Keeps creates s ctx (TcpSocket.sendPacket s data) := by
  refine keeps_load_only fun o => ?_
  split
  · exact keeps_pure false
  split
  · exact keeps_pure true
  refine (keeps_ask rfl).bind fun malloc => ?_
  rcases o.output.append malloc data with ⟨appended, output⟩
  refine Keeps.bind (keeps_store (fun _ => rfl) (fun _ => rfl) fun _ => rfl) fun _ => ?_
  cases appended with
  | false => exact keeps_pure false
  | true => exact (keeps_write hctx).bind fun _ => keeps_pure true

theorem keeps_udpRead (size : Nat) : I.Keeps creates s ctx (UdpSocket.read s size) := by
  refine keeps_touch.bind fun _ => keeps_load_only fun o => (keeps_ask rfl).bind fun a => ?_
  rcases a with errno | ⟨_ | ⟨b, rest⟩, sender⟩
  · dsimp only
    split
    · exact keeps_pure ()
    · exact keeps_closeSocket hctx
  · exact keeps_closeSocket hctx
  · have hrest : ∀ pn : Int, I.Keeps creates s ctx (if pn > 0 then
        store s fun s => { s with input := s.input.erase 0 pn.toNat false }
      else if pn < 0 then closeSocket s else pure () : NetM Unit) := by
      intro pn
      split
      · exact keeps_store (fun _ => rfl) (fun _ => rfl) fun _ => rfl
      split
      · exact keeps_closeSocket hctx
      · exact keeps_pure ()
    refine (keeps_appendInput _).bind fun _ => keeps_load_only fun o => ?_
    cases o.handler with
    | false => exact hrest 0
    | true => exact (keeps_handlePacket hctx _).bind hrest

theorem keeps_handleTimeout : I.Keeps creates s ctx (SocketBase.handleTimeout s) := by
  refine keeps_load_only fun o => ?_
  split
  · refine (keeps_ask rfl).bind fun now => keeps_load_only fun o => ?_
    split
    case h_4 | h_5 => exact keeps_pure ()
    all_goals
      split
      · exact keeps_closeSocket hctx
      · exact keeps_pure ()
  · refine (keeps_ask rfl).bind fun now => keeps_load_only fun o => ?_
    split
    · split
      · exact keeps_closeSocket hctx
      · exact keeps_pure ()
    · exact keeps_pure ()

theorem keeps_close : I.Keeps creates s ctx (SocketBase.close s) := by
  refine keeps_load_only fun o => ?_
  split <;> exact keeps_closeSocket hctx

theorem keeps_handleError : I.Keeps creates s ctx (SocketBase.handleError s) := by
  refine keeps_load_only fun o => ?_
  split <;> exact keeps_closeSocket hctx

end

/-! ## Creation -/

/-- The next object is `s`, and the history is as `Q` says. -/
structure Awaits (Q : List NetEvent → Prop) (s : SocketId) (h : List NetEvent) (w : World) :
    Prop where
  heap : w.heap s = none
  next : w.next = s
  history : Q h

section

variable {Q : List NetEvent → Prop} {post : β → List NetEvent → World → Prop}

theorem Awaits.ask (hw : Awaits Q s h w) {q : Question} (hq : q.isPlain = true) {a : Answer q}
    (hQ : ∀ {h}, Q h → Q (h ++ [.asked q a])) :
    Awaits Q s (h ++ [.asked q a]) (Kernel.effect w q a) := by
  obtain ⟨hheap, hnext⟩ := effect_of_isPlain hq w a
  refine ⟨?_, hnext.trans hw.next, hQ hw.history⟩
  rw [hheap, hw.heap]

/-- A question before the object is created. -/
theorem Awaits.wp_ask (hQ : ∀ {h e}, isPlain e = true → Q h → Q (h ++ [e])) (hw : Awaits Q s h w)
    {q : Question} (hq : q.isPlain = true) {f : Answer q → NetM β}
    (hf : ∀ a h w, Awaits Q s h w → wp (lifetime creates s) (I.spec s) ctx (f a) post h w) :
    wp (lifetime creates s) (I.spec s) ctx (Net.ask q >>= f) post h w := by
  rw [wp_bind]
  refine ⟨trivial, fun a w' ha => ?_⟩
  obtain ⟨-, rfl⟩ := ha
  exact hf a _ _ (hw.ask hq (hQ (e := .asked q a) hq))

/-- `new UdpSocket`, and the fields which are set right afterwards. -/
theorem Awaits.wp_newUdp (hQ : ∀ {h e}, isPlain e = true → Q h → Q (h ++ [e]))
    (hw : Awaits Q s h w) {handler : Bool} {f : Int → Socket → Socket} {g : SocketId → NetM β}
    (hg : ∀ now h w, Q h → w.heap s = some (f now (UdpSocket.construct handler)) →
      wp (lifetime creates s) (I.spec s) ctx (g s) post h w) :
    wp (lifetime creates s) (I.spec s) ctx (do
      let s ← new (UdpSocket.construct handler)
      let now ← Net.ask .time
      store s (f now)
      g s) post h w := by
  rw [wp_bind, wp_new, wp_bind]
  refine wp_ask_idle plain rfl fun now _ _ => ?_
  rw [wp_bind, wp_store (w.heap_born _), hw.next]
  exact hg now _ _ (hQ rfl hw.history) (World.heap_put _ s _)

/-- `new TcpSocket`, and the fields which are set right afterwards. -/
theorem Awaits.wp_newTcp (hQ : ∀ {h e}, isPlain e = true → Q h → Q (h ++ [e]))
    (hw : Awaits Q s h w) {handler : Bool} {f : Int → Socket → Socket} {g : SocketId → NetM β}
    (hg : ∀ now isResending h w, Q h →
      w.heap s = some (f now (TcpSocket.construct handler isResending)) →
      wp (lifetime creates s) (I.spec s) ctx (g s) post h w) :
    wp (lifetime creates s) (I.spec s) ctx (do
      let s ← TcpSocket.create handler
      let now ← Net.ask .time
      store s (f now)
      g s) post h w := by
  refine wp_create plain fun isResending now => ?_
  rw [hw.next]
  exact hg now isResending _ _ (hQ rfl (hQ rfl hw.history)) (World.heap_put _ s _)

/-- A socket which cannot be used is closed. -/
theorem wp_close_founded (hw : I.At s h w) {b : β} :
    wp (lifetime creates s) (I.spec s) [] (do closeSocket s; return b : NetM β)
      (fun _ => I.Founded s) h w :=
  wp_seq (keeps_closeSocket (List.forall_mem_nil _) h w hw) fun _ _ _ => .inr

end

/-! ## Runs -/

theorem interferes_keeps (henv : (lifetime creates s).interferes ctx w w')
    (hinv : (I.spec s).inv ctx h w) : (I.spec s).inv ctx h w' := by
  obtain ⟨hlive, hheap⟩ := henv
  obtain ⟨-, ⟨hnone, habsent⟩ | ⟨hctx, o, ho, hholds⟩⟩ := hinv
  · refine ⟨hlive, .inl ⟨?_, habsent⟩⟩
    exact hheap.elim (fun hheap => hheap.trans hnone) id
  · refine ⟨hlive, ?_⟩
    rcases hheap with hheap | hnone
    · exact .inr ⟨hctx, o, hheap.trans ho, hholds⟩
    · exact .inl ⟨hnone, I.deleted hholds⟩

section

variable
  (hread : ∀ {ctx}, (∀ c ∈ ctx, c.socket = s) →
    I.Keeps creates s ctx (SocketBase.handleRead s maxReadBuffSize))
  (hwrite : ∀ {ctx h w}, (∀ c ∈ ctx, c.socket = s) → I.At s h w →
    wp (lifetime creates s) (I.spec s) ctx (SocketBase.handleWrite s) (fun _ => I.At s)
      (h ++ [.entered (.handleWrite s)]) w)
  (hsend : ∀ {ctx} data, (∀ c ∈ ctx, c.socket = s) →
    I.Keeps creates s ctx (SocketBase.sendPacket s data))
include hread hwrite hsend

/-- A call of a method of the object. -/
theorem body_keeps (hctx : ∀ c ∈ ctx, c.socket = s) (hw : I.At s h w) {m : Method}
    (htarget : m.target = some s) :
    wp (lifetime creates s) (I.spec s) ctx (Method.body m) (fun _ => I.At s)
      (h ++ [.entered m]) w := by
  have hreturning : ∀ {α : Type} {x : NetM α} {value : α → Value}, I.Keeps creates s ctx x →
      isPlain (.entered m) = true → wp (lifetime creates s) (I.spec s) ctx
        (Method.returning x value) (fun _ => I.At s) (h ++ [.entered m]) w :=
    fun hx hplain => wp_seq (hx _ _ (hw.append hplain)) fun _ _ _ => id
  cases m with
  | tcpListen | tcpConnect | udpListen | udpConnect | handleSockets => cases htarget
  | handleRead t =>
      cases htarget
      exact hreturning (hread hctx) rfl
  | handleWrite t =>
      cases htarget
      exact wp_seq (hwrite hctx hw) fun _ _ _ => id
  | handleError t =>
      cases htarget
      exact hreturning (keeps_handleError hctx) rfl
  | handleTimeout t =>
      cases htarget
      exact hreturning (keeps_handleTimeout hctx) rfl
  | sendPacket t data =>
      cases htarget
      exact hreturning (hsend data hctx) rfl
  | close t =>
      cases htarget
      exact hreturning (keeps_close hctx) rfl

/-- What has to be proved of an invariant: the methods which are not the same for every
one keep it, and a new object meets it. -/
theorem sound
    (hcreates : ∀ {h w m}, w.heap s = none → w.next = s → I.absent h → creates w m →
      wp (lifetime creates s) (I.spec s) [] (Method.body m) (fun _ => I.Founded s)
        (h ++ [.entered m]) w) :
    (I.spec s).Sound (lifetime creates s) Method.body where
  refl _ _ := trivial
  trans _ _ _ _ _ _ := trivial
  interferes _ _ _ _ henv hinv := ⟨interferes_keeps henv hinv, trivial⟩
  methods := by
    intro ctx h w m henv hinv
    obtain ⟨hctx, hm⟩ := henv
    obtain ⟨hlive, hs⟩ := hinv
    rcases hm with ⟨htarget, hborn⟩ | ⟨hnext, hnone, hcreated⟩
    · have hw : I.At s h w := hs.elim (fun hs => absurd hs.1 hborn) And.right
      refine wp_mono (fun v h' w' hw' => ⟨?_, trivial⟩)
        (body_keeps hread hwrite hsend hctx hw htarget)
      exact (hw'.append (e := .returned m v) rfl).inv hctx
    -- no callback is running while `s` is created
    · obtain rfl : ctx = [] := by
        refine List.eq_nil_iff_forall_not_mem.mpr fun c hc => hlive c hc ?_
        rw [hctx c hc, hnone]
      have habsent : I.absent h := by
        obtain ⟨-, habsent⟩ | ⟨-, o, ho, hholds⟩ := hs
        · exact habsent
        · exact I.deleted hholds
      refine wp_mono (fun v h' w' hw' => ⟨⟨List.forall_mem_nil _, ?_⟩, trivial⟩)
        (hcreates hnone hnext habsent hcreated)
      rcases hw' with ⟨hnone', habsent'⟩ | hw'
      · exact .inl ⟨hnone', I.waits rfl habsent'⟩
      · exact .inr ⟨List.forall_mem_nil _, hw'.append rfl⟩

end
end ObjectInv

end Net
end Deps
