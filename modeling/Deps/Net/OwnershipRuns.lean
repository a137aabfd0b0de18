import Deps.Net.Ownership

/-!
# Ownership over whole runs

Every method keeps `Owned`, whatever the kernel answers and whatever the
application does in its callbacks, as long as it enters `HandleSockets` only
from outside of all callbacks.  What holds in every run follows.
-/

namespace Deps
namespace Net

open Reentrant

/-! ## The environment and the specification -/

/-- The application calls methods on live objects, `HandleSockets` in its event
loop, and anything else at any time. -/
def managed : NetEnvironment where
  answers := Kernel.answers
  enters ctx w m := (m = .handleSockets → ctx = []) ∧ ∀ s, m.target = some s → w.heap s ≠ none
  returns _ _ := True
  interferes _ _ _ := False

/-- The objects whose `HandleClose` has not returned. -/
def closing (ctx : List Callback) (s : SocketId) : Prop := Callback.handleClose s ∈ ctx

/-- The objects which callbacks are about are live. -/
def Alive (ctx : List Callback) (w : World) : Prop := ∀ c ∈ ctx, w.heap c.socket ≠ none

/-- What happens while a batch of events is handled: nothing is deleted, and the
batch stays what it is. -/
structure Keeps (w w' : World) : Prop where
  live : ∀ s, w.heap s ≠ none → w'.heap s ≠ none
  polled : w'.polled = w.polled
  turns : w'.turns = w.turns

namespace World

/-- The event goes to the object which was registered for its descriptor when
`epoll_wait` returned, if and only if the descriptor was not handed out again. -/
def Delivered (w : World) (fd : Fd) (s : SocketId) : Prop :=
  w.polled.find fd = some s ↔ w.reused fd = false

/-- The event was raised for an object which has been closed since. -/
def Dropped (w : World) (fd : Fd) : Prop :=
  ∃ s, w.polled.find fd = some s ∧ (w.fdOf s = none ∨ w.fdOf s = some (-1))

/-- What holds when `HandleSockets` writes a line of its log. -/
def Treats (w : World) : Question → Prop
  | .log (.notInContainer fd) => w.Dropped fd
  | .log (.epollEvents fd s) => w.Delivered fd s
  | .log (.epollReadEvents fd s) => w.Delivered fd s
  | .log (.epollWriteEvents fd s) => w.Delivered fd s
  | _ => True

end World

def ownership : NetSpec where
  inv ctx _ w := Owned (closing ctx) w ∧ Alive ctx w
  rel ctx w w' := ctx ≠ [] → Keeps w w'
  check := World.Treats
  tolerated why := why = .invalidIterator

theorem plain_ownership : Plain managed ownership where
  kernel := id
  check := by
    intro w q hq
    cases q with
    | log line => cases hq
    | _ => trivial

namespace Keeps

variable {w w' w'' : World}

theorem refl (w : World) : Keeps w w := ⟨fun _ => id, rfl, rfl⟩

theorem trans (h : Keeps w w') (h' : Keeps w' w'') : Keeps w w'' :=
  ⟨fun s hs => h'.live s (h.live s hs), h'.polled.trans h.polled, h'.turns.trans h.turns⟩

theorem put (w : World) (s : SocketId) (o : Socket) : Keeps w (w.put s o) := by
  refine ⟨fun t ht => ?_, rfl, rfl⟩
  by_cases hts : t = s <;> simp [World.put, hts, ht]

theorem born (w : World) (o : Socket) : Keeps w (w.born o) := by
  refine ⟨fun t ht => ?_, rfl, rfl⟩
  by_cases htnext : t = w.next <;> simp [World.born, htnext, ht]

theorem closed (w : World) (s : SocketId) (o : Socket) : Keeps w (w.closed s o) where
  live t ht := by
    by_cases hts : t = s
    · simp [hts]
    · rwa [w.heap_closed_of_ne s o hts]
  polled := w.polled_closed s o
  turns := w.turns_closed s o

end Keeps

/-- What a method keeps which was entered in the world `w₀`. -/
structure Kept (ctx : List Callback) (w₀ w : World) : Prop where
  owned : Owned (closing ctx) w
  keeps : Keeps w₀ w

namespace Kept

variable {ctx : List Callback} {w₀ w : World} {s : SocketId} {o o' : Socket}

theorem alive (hw : Kept ctx w₀ w) (hctx : Alive ctx w₀) : Alive ctx w :=
  fun c hc => hw.keeps.live _ (hctx c hc)

theorem exists_fields (hw : Kept ctx w₀ w) (hs : w₀.heap s ≠ none) : ∃ o, w.heap s = some o :=
  Option.ne_none_iff_exists'.mp (hw.keeps.live s hs)

theorem put (hw : Kept ctx w₀ w) (hs : w.heap s = some o) (hfd : o'.fd = o.fd) :
    Kept ctx w₀ (w.put s o') :=
  ⟨hw.owned.put hs hfd, hw.keeps.trans (.put w s o')⟩

end Kept

/-! ## Sequencing -/

section

variable {ctx : List Callback} {w₀ w : World} {h : List NetEvent} {this : SocketId} {o : Socket}
  {α β : Type} {post : β → List NetEvent → World → Prop}

theorem wp_load_kept (hw : Kept ctx w₀ w) (hthis : w₀.heap this ≠ none) {f : Socket → NetM β}
    (hf : ∀ o, w.heap this = some o → wp managed ownership ctx (f o) post h w) :
    wp managed ownership ctx (load this >>= f) post h w := by
  obtain ⟨o, ho⟩ := hw.exists_fields hthis
  rw [wp_bind, wp_load ho]
  exact hf o ho

theorem wp_ask_kept {q : Question} (hq : q.isIdle = true) {f : Answer q → NetM β}
    (hf : ∀ a h, Kernel.permits w q a → wp managed ownership ctx (f a) post h w) :
    wp managed ownership ctx (ask q >>= f) post h w :=
  wp_bind.mpr (wp_ask_idle plain_ownership hq fun a hpermits _ => hf a _ hpermits)

/-! ## Sockets -/

theorem store_kept (hw : Kept ctx w₀ w) (hthis : w₀.heap this ≠ none) {f : Socket → Socket}
    (hfd : ∀ o, (f o).fd = o.fd) :
    wp managed ownership ctx (store this f) (fun _ _ => Kept ctx w₀) h w := by
  obtain ⟨o, ho⟩ := hw.exists_fields hthis
  rw [wp_store ho]
  exact hw.put ho (hfd o)

theorem touch_kept (hw : Kept ctx w₀ w) (hthis : w₀.heap this ≠ none) :
    wp managed ownership ctx (touch this) (fun _ _ => Kept ctx w₀) h w :=
  wp_ask_kept rfl fun _ _ _ => store_kept hw hthis fun _ => rfl

theorem appendInput_kept (hw : Kept ctx w₀ w) (hthis : w₀.heap this ≠ none) (data : List UInt8) :
    wp managed ownership ctx (appendInput this data) (fun _ _ => Kept ctx w₀) h w :=
  wp_ask_kept rfl fun _ _ _ => store_kept hw hthis fun _ => rfl

/-- `Close` makes a pending object wait for its deletion. -/
theorem closeSocket_pending (hw : Owned (fun t => t = this ∨ closing ctx t) w)
    (hkeeps : Keeps w₀ w) (hctx : Alive ctx w₀) (hthis : w.heap this = some o) :
    wp managed ownership ctx (closeSocket this) (fun _ _ => Kept ctx w₀) h w := by
  -- inside the callback `this` counts as an object which is being closed
  have hclosing : ∀ t, t = this ∨ closing ctx t ↔ closing (.handleClose this :: ctx) t := by
    intro t
    simp [closing]
  refine wp_closeSocket plain_ownership hthis (fun _ => ?_) (fun _ => ⟨?_, ?_⟩) ?_
  · exact ⟨hw.close hthis, hkeeps.trans (.closed w this o)⟩
  · exact hw.mono fun t => (hclosing t).mp
  · intro c hc
    rcases List.mem_cons.mp hc with rfl | hc
    · simp [Callback.socket, hthis]
    · exact hkeeps.live _ (hctx c hc)
  · intro _ r h' w' hinv hrel
    obtain ⟨o', ho'⟩ := Option.ne_none_iff_exists'.mp (hinv.2 _ List.mem_cons_self)
    refine ⟨o', ho', (hinv.1.mono fun t => (hclosing t).mpr).close ho', ?_⟩
    exact (hkeeps.trans (hrel (List.cons_ne_nil _ _))).trans (.closed w' this o')

theorem close_kept (hw : Kept ctx w₀ w) (hctx : Alive ctx w₀) (hthis : w₀.heap this ≠ none) :
    wp managed ownership ctx (closeSocket this) (fun _ _ => Kept ctx w₀) h w := by
  obtain ⟨o, ho⟩ := hw.exists_fields hthis
  exact closeSocket_pending (hw.owned.mono fun _ => .inr) hw.keeps hctx ho

theorem modSocket_kept (hw : Kept ctx w₀ w) (hthis : w₀.heap this ≠ none) (events : Interest) :
    wp managed ownership ctx (EpollContainer.modSocket (some this) events)
      (fun _ _ => Kept ctx w₀) h w := by
  obtain ⟨o, ho⟩ := hw.exists_fields hthis
  refine EpollContainer.wp_modSocket plain_ownership ho (fun _ => hw) hw fun hmapped _ => ?_
  exact ⟨hw.owned.remod hmapped events, hw.keeps.trans ⟨fun _ => id, rfl, rfl⟩⟩

/-- A handler may do anything which the library allows. -/
theorem handlePacket_kept (hw : Kept ctx w₀ w) (hctx : Alive ctx w₀) (hthis : w₀.heap this ≠ none)
    (data : List UInt8) :
    wp managed ownership ctx (handlePacket this data) (fun _ _ => Kept ctx w₀) h w := by
  have hclosing : ∀ t, closing ctx t ↔ closing (.handlePacket this data :: ctx) t := by
    intro t
    simp [closing]
  refine ⟨⟨hw.owned.mono fun t => (hclosing t).mp, ?_⟩, fun r h' w' _ hinv hrel => ?_⟩
  · intro c hc
    rcases List.mem_cons.mp hc with rfl | hc
    · exact hw.keeps.live _ hthis
    · exact hw.alive hctx c hc
  · exact ⟨hinv.1.mono fun t => (hclosing t).mpr, hw.keeps.trans (hrel (List.cons_ne_nil _ _))⟩

/-- The kernel hands out a descriptor. -/
theorem Kept.handOut (hw : Kept ctx w₀ w) {fd : Fd} (hfd : w.kernel.Available fd) :
    Kept ctx w₀ { w with kernel := w.kernel.handOut fd } ∧
      Spare { w with kernel := w.kernel.handOut fd } fd := by
  obtain ⟨howned, hspare⟩ := hw.owned.handOut hfd
  exact ⟨⟨howned, hw.keeps.trans ⟨fun _ => id, rfl, rfl⟩⟩, hspare⟩

theorem wp_socket_kept (hw : Kept ctx w₀ w) {type : SocketType} {f : Option Fd → NetM β}
    (hnone : ∀ h, wp managed ownership ctx (f none) post h w)
    (hsome : ∀ fd h w, Kept ctx w₀ w → Spare w fd →
      wp managed ownership ctx (f (some fd)) post h w) :
    wp managed ownership ctx (ask (.socket type) >>= f) post h w := by
  rw [wp_bind]
  refine wp_ask plain_ownership rfl fun a hpermits _ => ?_
  cases a with
  | none => exact hnone _
  | some fd =>
      obtain ⟨hw, hspare⟩ := hw.handOut hpermits
      exact hsome fd _ _ hw hspare

/-- A new object gets the spare descriptor `fd`, and is pending. -/
theorem wp_new_pending (hw : Kept ctx w₀ w) {fd : Fd} (hspare : Spare w fd) {c : Socket}
    {f : Int → Socket → Socket} (hfd : ∀ now, (f now c).fd = fd) {g : SocketId → NetM β}
    (hg : ∀ s o h w, Owned (fun t => t = s ∨ closing ctx t) w → Keeps w₀ w → w.heap s = some o →
      o.fd = fd → wp managed ownership ctx (g s) post h w) :
    wp managed ownership ctx (do
      let s ← new c
      let now ← ask .time
      store s (f now)
      g s) post h w := by
  rw [wp_bind, wp_new]
  refine wp_ask_kept rfl fun now h _ => ?_
  rw [wp_bind, wp_store (w.heap_born c)]
  exact hg w.next (f now c) _ _ (hw.owned.born hspare c (hfd now))
    ((hw.keeps.trans (.born w c)).trans (.put _ _ _)) (World.heap_put _ _ _) (hfd now)

/-- The same for `new TcpSocket`. -/
theorem wp_create_pending (hw : Kept ctx w₀ w) {fd : Fd} (hspare : Spare w fd) {handler : Bool}
    {f : Int → Socket → Socket} (hfd : ∀ now c, (f now c).fd = fd) {g : SocketId → NetM β}
    (hg : ∀ s o h w, Owned (fun t => t = s ∨ closing ctx t) w → Keeps w₀ w → w.heap s = some o →
      o.fd = fd → wp managed ownership ctx (g s) post h w) :
    wp managed ownership ctx (do
      let s ← TcpSocket.create handler
      let now ← ask .time
      store s (f now)
      g s) post h w :=
  wp_create plain_ownership fun _ now =>
    hg w.next (f now _) _ _ (hw.owned.born hspare _ (hfd now _))
      ((hw.keeps.trans (.born w _)).trans (.put _ _ _)) (World.heap_put _ _ _) (hfd now _)

/-- `AddSocket`, of a pending object; when it fails the object is pending still. -/
theorem addSocket_pending {s : SocketId} (hw : Owned (fun t => t = s ∨ closing ctx t) w)
    (hkeeps : Keeps w₀ w) (hs : w.heap s = some o) (hnonneg : 0 ≤ o.fd) {events : Interest}
    {f : Bool → NetM β}
    (hadded : ∀ h w, Kept ctx w₀ w → w.heap s = some o →
      wp managed ownership ctx (f true) post h w)
    (hrefused : ∀ h, wp managed ownership ctx (f false) post h w) :
    wp managed ownership ctx (EpollContainer.addSocket (some s) events >>= f) post h w := by
  rw [wp_bind]
  refine EpollContainer.wp_addSocket plain_ownership hs (hrefused _) (hrefused _) ?_
  intro hsize habsent
  refine hadded _ _ ⟨?_, hkeeps.trans ⟨fun _ => id, rfl, rfl⟩⟩ hs
  exact hw.list (World.fdOf_eq_some hs) hnonneg hsize habsent events

end

/-! ## `TcpSocket` -/

namespace TcpSocket

variable {ctx : List Callback} {w₀ w : World} {h : List NetEvent} {this : SocketId} {o : Socket}

theorem modOrClose_kept (hw : Kept ctx w₀ w) (hctx : Alive ctx w₀) (hthis : w₀.heap this ≠ none)
    (events : Interest) :
    wp managed ownership ctx (modOrClose this events) (fun _ _ => Kept ctx w₀) h w := by
  refine wp_seq (modSocket_kept hw hthis events) fun modified h w hw => ?_
  cases modified with
  | false => exact close_kept hw hctx hthis
  | true => exact hw

theorem read_kept (hw : Kept ctx w₀ w) (hctx : Alive ctx w₀) (hthis : w₀.heap this ≠ none)
    (size : Nat) :
    wp managed ownership ctx (read this size) (fun _ _ => Kept ctx w₀) h w := by
  refine wp_seq (touch_kept hw hthis) fun _ h w hw => ?_
  refine wp_load_kept hw hthis fun o _ => ?_
  refine wp_ask_kept rfl fun a h _ => ?_
  rcases a with errno | _ | ⟨b, rest⟩
  · dsimp only
    split
    · exact hw
    · exact close_kept hw hctx hthis
  · exact close_kept hw hctx hthis
  · refine wp_seq (appendInput_kept hw hthis _) fun _ h w hw => ?_
    refine wp_load_kept hw hthis fun o _ => ?_
    dsimp only
    split
    · exact wp_seq (handlePacket_kept hw hctx hthis _) fun _ _ _ hw => hw
    · exact hw

theorem write_kept (hw : Kept ctx w₀ w) (hctx : Alive ctx w₀) (hthis : w₀.heap this ≠ none) :
    wp managed ownership ctx (write this) (fun _ _ => Kept ctx w₀) h w := by
  refine wp_seq (touch_kept hw hthis) fun _ h w hw => ?_
  refine wp_load_kept hw hthis fun o ho => ?_
  split
  · exact hw
  rename_i hsize
  refine wp_writeLoop plain_ownership (fun _ => Kept ctx w₀) ?_ ?_ ?_ ?_ hw ho
    (Nat.pos_of_ne_zero (by omega)) le_rfl
  · intro h w o n hw ho _ _ _
    exact hw.put ho rfl
  · intro h w o n hw ho _ _ _
    split
    · refine modOrClose_kept (hw.put ho ?_) hctx hthis _
      rfl
    · exact hw.put ho rfl
  · intro h w o hw _ _
    refine wp_mono (fun modified h w hw => ?_) (modSocket_kept hw hthis _)
    split
    · obtain ⟨o, ho⟩ := hw.exists_fields hthis
      exact ⟨o, ho, hw.put ho rfl⟩
    · exact close_kept hw hctx hthis
  · intro h w o errno hw _ _
    exact close_kept hw hctx hthis

theorem sendPacket_kept (hw : Kept ctx w₀ w) (hctx : Alive ctx w₀) (hthis : w₀.heap this ≠ none)
    (data : List UInt8) :
    wp managed ownership ctx (sendPacket this data) (fun _ _ => Kept ctx w₀) h w := by
  refine wp_load_kept hw hthis fun o _ => ?_
  split
  · exact hw
  split
  · exact hw
  refine wp_ask_kept rfl fun malloc h _ => ?_
  generalize o.output.append malloc data = appended
  obtain ⟨appended, output⟩ := appended
  refine wp_seq (store_kept hw hthis fun _ => rfl) fun _ h w hw => ?_
  cases appended with
  | false => exact hw
  | true => exact wp_seq (write_kept hw hctx hthis) fun _ _ _ hw => hw

theorem handleTimeout_kept (hw : Kept ctx w₀ w) (hctx : Alive ctx w₀)
    (hthis : w₀.heap this ≠ none) :
    wp managed ownership ctx (handleTimeout this) (fun _ _ => Kept ctx w₀) h w := by
  refine wp_ask_kept rfl fun now h _ => ?_
  refine wp_load_kept hw hthis fun o _ => ?_
  split
  case h_4 | h_5 => exact hw
  all_goals
    split
    · exact close_kept hw hctx hthis
    · exact hw

/-- The listening socket is closed when `accept` fails, and the new one when it
cannot be registered. -/
theorem accept_kept (hw : Kept ctx w₀ w) (hctx : Alive ctx w₀) (hthis : w₀.heap this ≠ none) :
    wp managed ownership ctx (accept this) (fun _ _ => Kept ctx w₀) h w := by
  refine wp_load_kept hw hthis fun l _ => ?_
  rw [wp_bind]
  refine wp_ask plain_ownership rfl fun a hpermits _ => ?_
  rcases a with errno | ⟨afd, addr⟩
  · exact close_kept hw hctx hthis
  -- from here on the kernel has given `afd` away, also if nothing becomes of it
  obtain ⟨hw, hspare⟩ := hw.handOut hpermits
  show wp managed ownership ctx _ _ _ { w with kernel := w.kernel.handOut afd }
  refine wp_ask_kept rfl fun nonblock h _ => ?_
  cases nonblock with
  | false => exact close_kept hw hctx hthis
  | true =>
      refine wp_create_pending hw hspare (fun _ _ => rfl) fun s o h w howned hkeeps hs hfd => ?_
      have hnonneg : 0 ≤ o.fd := hfd ▸ hspare.nonneg
      refine addSocket_pending howned hkeeps hs hnonneg (fun h w hw hs => ?_) fun h => ?_
      · refine wp_bind.mpr ?_
        rw [enableTcpNoDelay, wp_bind, wp_load hs]
        refine wp_ask_idle plain_ownership rfl fun nodelay _ _ => ?_
        cases nodelay with
        | false => exact closeSocket_pending (hw.owned.mono fun _ => .inr) hw.keeps hctx hs
        | true => exact hw
      · exact closeSocket_pending howned hkeeps hctx hs

theorem listen_kept (hw : Kept ctx w₀ w) (hctx : Alive ctx w₀) (port backlog : Int)
    (handler : Bool) :
    wp managed ownership ctx (listen port backlog handler) (fun _ _ => Kept ctx w₀) h w := by
  refine wp_socket_kept hw (fun _ => hw) fun fd h w hw hspare => ?_
  refine wp_ask_kept rfl fun nonblock h _ => ?_
  split
  · exact hw
  refine wp_ask_kept rfl fun reuse h _ => ?_
  split
  · exact hw
  refine wp_ask_kept rfl fun bound h _ => ?_
  split
  · exact hw
  refine wp_ask_kept rfl fun listening h _ => ?_
  split
  · exact hw
  refine wp_create_pending hw hspare (fun _ _ => rfl) fun s o h w howned hkeeps hs hfd => ?_
  refine addSocket_pending howned hkeeps hs (hfd ▸ hspare.nonneg) (fun h w hw _ => hw) fun h => ?_
  exact wp_seq (closeSocket_pending howned hkeeps hctx hs) fun _ _ _ hw => hw

theorem connect_kept (hw : Kept ctx w₀ w) (hctx : Alive ctx w₀) (ip : UInt32) (port : UInt16)
    (handler : Bool) :
    wp managed ownership ctx (connect ip port handler) (fun _ _ => Kept ctx w₀) h w := by
  refine wp_socket_kept hw (fun _ => hw) fun fd h w hw hspare => ?_
  refine wp_ask_kept rfl fun nonblock h _ => ?_
  split
  · exact hw
  refine wp_ask_kept rfl fun ret h _ => ?_
  refine wp_create_pending hw hspare (fun _ _ => rfl) fun s o h w howned hkeeps hs hfd => ?_
  have hclose : ∀ {h}, wp managed ownership ctx
      (do close s; return none : NetM (Option SocketId)) (fun _ _ => Kept ctx w₀) h w :=
    wp_seq (closeSocket_pending howned hkeeps hctx hs) fun _ _ _ hw => hw
  have hadd : ∀ {h} (events : Interest) (f : Socket → Socket), (∀ o, (f o).fd = o.fd) →
      wp managed ownership ctx (do
        let added ← EpollContainer.addSocket (some s) events
        if added then
          store s f
          return some s
        close s
        return none : NetM (Option SocketId)) (fun _ _ => Kept ctx w₀) h w := by
    intro h events f hf
    refine addSocket_pending howned hkeeps hs (hfd ▸ hspare.nonneg) (fun h w hw hs => ?_)
      fun h => ?_
    · exact wp_bind.mpr ((wp_store hs).mpr (hw.put hs (hf o)))
    · exact hclose
  rcases ret with errno | _
  · by_cases hprogress : errno = .einprogress
    · subst hprogress
      exact hadd _ _ fun _ => rfl
    · cases errno <;> first | exact hclose | exact absurd rfl hprogress
  · exact hadd _ _ fun _ => rfl

theorem handleRead_kept (hw : Kept ctx w₀ w) (hctx : Alive ctx w₀) (hthis : w₀.heap this ≠ none)
    (size : Nat) :
    wp managed ownership ctx (handleRead this size) (fun _ _ => Kept ctx w₀) h w := by
  refine wp_load_kept hw hthis fun o _ => ?_
  split
  case h_1 => exact accept_kept hw hctx hthis
  case h_5 => exact hw
  all_goals exact read_kept hw hctx hthis size

theorem handleWrite_kept (hw : Kept ctx w₀ w) (hctx : Alive ctx w₀) (hthis : w₀.heap this ≠ none) :
    wp managed ownership ctx (handleWrite this) (fun _ _ => Kept ctx w₀) h w := by
  refine wp_load_kept hw hthis fun o _ => ?_
  split
  case h_1 =>
    refine wp_seq (store_kept hw hthis fun _ => rfl) fun _ h w hw => ?_
    exact modOrClose_kept hw hctx hthis _
  case h_2 | h_3 => exact write_kept hw hctx hthis
  all_goals exact hw

end TcpSocket

/-! ## `UdpSocket` -/

namespace UdpSocket

variable {ctx : List Callback} {w₀ w : World} {h : List NetEvent} {this : SocketId} {o : Socket}

theorem listen_kept (hw : Kept ctx w₀ w) (hctx : Alive ctx w₀) (port : Int) (handler : Bool) :
    wp managed ownership ctx (listen port handler) (fun _ _ => Kept ctx w₀) h w := by
  refine wp_socket_kept hw (fun _ => hw) fun fd h w hw hspare => ?_
  refine wp_ask_kept rfl fun nonblock h _ => ?_
  split
  · exact hw
  refine wp_ask_kept rfl fun reuse h _ => ?_
  split
  · exact hw
  refine wp_ask_kept rfl fun bound h _ => ?_
  split
  · exact hw
  refine wp_new_pending hw hspare (fun _ => rfl) fun s o h w howned hkeeps hs hfd => ?_
  refine addSocket_pending howned hkeeps hs (hfd ▸ hspare.nonneg) (fun h w hw hs => ?_) fun h => ?_
  · have hbuffer : ∀ h, wp managed ownership ctx (setBufferSize s) (fun _ _ w' => w' = w) h w := by
      intro h
      rw [setBufferSize, wp_bind, wp_load hs]
      exact wp_ask_kept rfl fun _ _ _ => rfl
    refine wp_bind.mpr (wp_mono ?_ (hbuffer h))
    rintro _ h _ rfl
    refine wp_bind.mpr (wp_mono ?_ (hbuffer h))
    rintro _ h _ rfl
    exact hw
  · exact wp_seq (closeSocket_pending howned hkeeps hctx hs) fun _ _ _ hw => hw

theorem connect_kept (hw : Kept ctx w₀ w) (hctx : Alive ctx w₀) (ip : UInt32) (port : UInt16)
    (handler : Bool) :
    wp managed ownership ctx (connect ip port handler) (fun _ _ => Kept ctx w₀) h w := by
  refine wp_socket_kept hw (fun _ => hw) fun fd h w hw hspare => ?_
  refine wp_ask_kept rfl fun nonblock h _ => ?_
  split
  · exact hw
  refine wp_new_pending hw hspare (fun _ => rfl) fun s o h w howned hkeeps hs hfd => ?_
  refine addSocket_pending howned hkeeps hs (hfd ▸ hspare.nonneg) (fun h w hw _ => hw) fun h => ?_
  exact wp_seq (closeSocket_pending howned hkeeps hctx hs) fun _ _ _ hw => hw

theorem read_kept (hw : Kept ctx w₀ w) (hctx : Alive ctx w₀) (hthis : w₀.heap this ≠ none)
    (size : Nat) :
    wp managed ownership ctx (read this size) (fun _ _ => Kept ctx w₀) h w := by
  refine wp_seq (touch_kept hw hthis) fun _ h w hw => ?_
  refine wp_load_kept hw hthis fun o _ => ?_
  refine wp_ask_kept rfl fun a h _ => ?_
  rcases a with errno | ⟨_ | ⟨b, rest⟩, addr⟩
  · dsimp only
    split
    · exact hw
    · exact close_kept hw hctx hthis
  · exact close_kept hw hctx hthis
  · refine wp_seq (appendInput_kept hw hthis _) fun _ h w hw => ?_
    refine wp_load_kept hw hthis fun o _ => ?_
    -- what the handler returned decides
    have hcount : ∀ (pn : Int) {h w}, Kept ctx w₀ w →
        wp managed ownership ctx
          (if pn > 0 then
            store this fun s => { s with input := s.input.erase 0 pn.toNat false }
          else if pn < 0 then close this else pure () : NetM Unit)
          (fun _ _ => Kept ctx w₀) h w := by
      intro pn h w hw
      split
      · exact store_kept hw hthis fun _ => rfl
      split
      · exact close_kept hw hctx hthis
      · exact hw
    split
    · exact wp_seq (handlePacket_kept hw hctx hthis _) fun pn _ _ hw => hcount pn hw
    · exact hcount 0 hw

theorem handleTimeout_kept (hw : Kept ctx w₀ w) (hctx : Alive ctx w₀)
    (hthis : w₀.heap this ≠ none) :
    wp managed ownership ctx (handleTimeout this) (fun _ _ => Kept ctx w₀) h w := by
  refine wp_ask_kept rfl fun now h _ => ?_
  refine wp_load_kept hw hthis fun o _ => ?_
  split
  · split
    · exact close_kept hw hctx hthis
    · exact hw
  · exact hw

theorem sendPacket_kept (hw : Kept ctx w₀ w) (hthis : w₀.heap this ≠ none) (data : List UInt8) :
    wp managed ownership ctx (sendPacket this data) (fun _ _ => Kept ctx w₀) h w := by
  refine wp_seq (touch_kept hw hthis) fun _ h w hw => ?_
  refine wp_load_kept hw hthis fun o _ => ?_
  split
  · exact hw
  split
  · exact hw
  refine wp_ask_kept rfl fun n h _ => ?_
  cases n with
  | none => exact hw
  | some n =>
      dsimp only
      split <;> exact hw

end UdpSocket

/-! ## Virtual methods -/

namespace SocketBase

variable {ctx : List Callback} {w₀ w : World} {h : List NetEvent} {this : SocketId}

theorem handleRead_kept (hw : Kept ctx w₀ w) (hctx : Alive ctx w₀) (hthis : w₀.heap this ≠ none)
    (size : Nat) :
    wp managed ownership ctx (handleRead this size) (fun _ _ => Kept ctx w₀) h w := by
  refine wp_load_kept hw hthis fun o _ => ?_
  split
  · exact TcpSocket.handleRead_kept hw hctx hthis size
  · exact UdpSocket.read_kept hw hctx hthis size

theorem handleWrite_kept (hw : Kept ctx w₀ w) (hctx : Alive ctx w₀) (hthis : w₀.heap this ≠ none) :
    wp managed ownership ctx (handleWrite this) (fun _ _ => Kept ctx w₀) h w := by
  refine wp_load_kept hw hthis fun o _ => ?_
  split
  · exact TcpSocket.handleWrite_kept hw hctx hthis
  · exact wp_load_kept hw hthis fun _ _ => hw

theorem handleError_kept (hw : Kept ctx w₀ w) (hctx : Alive ctx w₀) (hthis : w₀.heap this ≠ none) :
    wp managed ownership ctx (handleError this) (fun _ _ => Kept ctx w₀) h w := by
  refine wp_load_kept hw hthis fun o _ => ?_
  split <;> exact close_kept hw hctx hthis

theorem handleTimeout_kept (hw : Kept ctx w₀ w) (hctx : Alive ctx w₀)
    (hthis : w₀.heap this ≠ none) :
    wp managed ownership ctx (handleTimeout this) (fun _ _ => Kept ctx w₀) h w := by
  refine wp_load_kept hw hthis fun o _ => ?_
  split
  · exact TcpSocket.handleTimeout_kept hw hctx hthis
  · exact UdpSocket.handleTimeout_kept hw hctx hthis

theorem sendPacket_kept (hw : Kept ctx w₀ w) (hctx : Alive ctx w₀) (hthis : w₀.heap this ≠ none)
    (data : List UInt8) :
    wp managed ownership ctx (sendPacket this data) (fun _ _ => Kept ctx w₀) h w := by
  refine wp_load_kept hw hthis fun o _ => ?_
  split
  · exact TcpSocket.sendPacket_kept hw hctx hthis data
  · exact UdpSocket.sendPacket_kept hw hthis data

theorem close_kept (hw : Kept ctx w₀ w) (hctx : Alive ctx w₀) (hthis : w₀.heap this ≠ none) :
    wp managed ownership ctx (close this) (fun _ _ => Kept ctx w₀) h w := by
  refine wp_load_kept hw hthis fun o _ => ?_
  split <;> exact Net.close_kept hw hctx hthis

end SocketBase

/-! ## The event loop -/

namespace EpollContainer

section CheckCloseSocket

variable {env : NetEnvironment} {spec : NetSpec} {ctx : List Callback} {h : List NetEvent}
  {w : World} {post : Unit → List NetEvent → World → Prop}

theorem wp_deleteEach (hplain : Plain env spec) {ss : List SocketId} (hss : ss.Nodup)
    (hlive : ∀ s ∈ ss, w.heap s ≠ none) (hpost : ∀ h, post () h (w.reaped ss)) :
    wp env spec ctx (deleteEach ss) post h w := by
  induction ss generalizing h w with
  | nil => exact hpost h
  | cons s rest ih =>
      obtain ⟨hs, hrest⟩ := List.nodup_cons.mp hss
      obtain ⟨o, ho⟩ := Option.ne_none_iff_exists'.mp (hlive s List.mem_cons_self)
      simp only [deleteEach, delete, wp_bind, wp_read, ho]
      refine wp_ask hplain rfl fun _ _ _ => ih hrest (fun t ht => ?_) hpost
      have hts : t ≠ s := fun heq => hs (heq ▸ ht)
      simpa [Kernel.effect, hts] using hlive t (List.mem_cons_of_mem _ ht)

/-- `CheckCloseSocket` deletes exactly the closed objects, each of them once. -/
theorem wp_checkCloseSocket (hplain : Plain env spec) {pending : SocketId → Prop}
    (hw : Owned pending w) (hpost : ∀ h, post () h w.swept) :
    wp env spec ctx checkCloseSocket post h w := by
  simp only [checkCloseSocket, wp_bind, wp_members]
  refine wp_deleteEach hplain (OrderedSet.nodup_elements _) (fun s hs hnone => ?_) hpost
  have hfd := (hw.closed s).mp hs
  rw [World.fdOf, hnone] at hfd
  cases hfd

end CheckCloseSocket

variable {w : World} {h : List NetEvent}

theorem alive_nil (w : World) : Alive [] w := fun _ hc => absurd hc List.not_mem_nil

theorem not_closing_nil (s : SocketId) : ¬closing [] s := List.not_mem_nil

theorem kept_self (hw : Owned (closing []) w) : Kept [] w w := ⟨hw, .refl w⟩

/-- The sweep over the sockets; an iterator is always at an entry of the map. -/
theorem checkEach_owned (turns : Nat) {itr : Iterator} (hw : Owned (closing []) w)
    (hitr : ∀ e ∈ itr, w.container.socketMap.find e.1 = some e.2) :
    wp managed ownership [] (checkEach turns itr) (fun _ _ => Owned (closing [])) h w := by
  induction turns generalizing itr h w with
  | zero => exact hw
  | succ turns ih =>
      obtain _ | ⟨fd, s⟩ := itr
      · exact hw
      have hmapped := hitr (fd, s) rfl
      simp only [checkEach, wp_bind, wp_modify]
      have hw' : Owned (closing []) { w with checkFd := fd } := hw.congr rfl rfl rfl rfl rfl rfl
      refine wp_mono (fun _ h w hw => ?_)
        (SocketBase.handleTimeout_kept (kept_self hw') (alive_nil _) (hw.live hmapped))
      simp only [advance, wp_bind, wp_members]
      split
      -- the next element is looked up in the map as `HandleTimeout` has left it
      · refine ih hw.owned fun e he => ?_
        exact OrderedMap.find_of_mem_above KeyOrder.int_total (List.mem_of_mem_head? he)
      · rfl

theorem checkTimeoutSocket_owned (hw : Owned (closing []) w) :
    wp managed ownership [] checkTimeoutSocket (fun _ _ => Owned (closing [])) h w := by
  simp only [checkTimeoutSocket, upperBound, wp_bind, wp_read, wp_members, wp_pure]
  refine wp_mono (fun itr h w hw => ?_) (checkEach_owned 1000 hw fun e he => ?_)
  · split
    · exact hw.congr rfl rfl rfl rfl rfl rfl
    · exact hw
  · exact OrderedMap.find_of_mem_above KeyOrder.int_total (List.mem_of_mem_head? he)

theorem wp_log_kept {line : LogLine} {β : Type} {f : Unit → NetM β}
    {post : β → List NetEvent → World → Prop} (hline : w.Treats (.log line))
    (hf : ∀ h, wp managed ownership [] (f ()) post h (Kernel.effect w (.log line) ())) :
    wp managed ownership [] (log line >>= f) post h w := by
  rw [wp_bind]
  refine ⟨hline, fun _ w' hw' => ?_⟩
  obtain ⟨-, rfl⟩ := hw'
  exact hf _

/-- What has to hold of an event before its turn. -/
def Waiting (w : World) (e : Ready) : Prop :=
  w.turns e.fd = none ∧ w.polled.find e.fd ≠ none

/-- One event of the batch; it does not touch the other ones. -/
theorem handleEvent_owned (hw : Owned (closing []) w) {e : Ready} (he : Waiting w e) :
    wp managed ownership [] (handleEvent e)
      (fun _ _ w' => Owned (closing []) w' ∧ w'.polled = w.polled ∧
        ∀ fd, fd ≠ e.fd → w'.turns fd = w.turns fd) h w := by
  obtain ⟨hturn, hpolled⟩ := he
  have hreused : w.reused e.fd = w.kernel.handedOut e.fd := by simp [World.reused, hturn]
  simp only [handleEvent, getSocket, wp_bind, wp_members, wp_pure]
  cases hfind : w.container.socketMap.find e.fd with
  | none =>
      obtain ⟨s, hs⟩ := Option.ne_none_iff_exists'.mp hpolled
      refine ⟨⟨s, hs, ?_⟩, fun _ w' hw' => ?_⟩
      · obtain ⟨-, hnonneg, hgone | hsame | hclosed⟩ := hw.polled e.fd s hs
        · exact .inl hgone
        -- it would have its entry still
        · have hmapped := (hw.listed s e.fd hsame (ne_neg_of_nonneg hnonneg)).resolve_left
            fun hpending => not_closing_nil s hpending.1
          rw [hfind] at hmapped
          cases hmapped
        · exact .inr hclosed
      · obtain ⟨-, rfl⟩ := hw'
        exact ⟨hw, rfl, fun _ _ => rfl⟩
  | some s =>
      have hlive := hw.live hfind
      obtain ⟨hnonneg, hfd⟩ := hw.entry e.fd s hfind
      have hfresh := hw.fresh s e.fd hfd (ne_neg_of_nonneg hnonneg)
      have hdelivered : w.Delivered e.fd s := by rwa [World.Delivered, hreused]
      -- what the second half of an event does
      have hwrite : ∀ {h w₁}, Owned (closing []) w₁ → w₁.heap s ≠ none → w₁.Delivered e.fd s →
          w₁.polled = w.polled → (∀ fd, fd ≠ e.fd → w₁.turns fd = w.turns fd) →
          wp managed ownership []
            (if e.epollout then do
              log (.epollWriteEvents e.fd s)
              SocketBase.handleWrite s
            else pure () : NetM Unit)
            (fun _ _ w' => Owned (closing []) w' ∧ w'.polled = w.polled ∧
              ∀ fd, fd ≠ e.fd → w'.turns fd = w.turns fd) h w₁ := by
        intro h w₁ hw₁ hlive hdelivered hpolled hturns
        split
        · refine wp_log_kept hdelivered fun h => ?_
          refine wp_mono (fun _ _ w' hw' => ?_)
            (SocketBase.handleWrite_kept (kept_self hw₁) (alive_nil _) hlive)
          refine ⟨hw'.owned, hw'.keeps.polled.trans hpolled, fun fd hne => ?_⟩
          exact (congrFun hw'.keeps.turns fd).trans (hturns fd hne)
        · exact ⟨hw₁, hpolled, hturns⟩
      dsimp only
      split
      · refine wp_log_kept hdelivered fun h => ?_
        refine wp_mono (fun _ _ w' hw' => ?_)
          (SocketBase.handleError_kept (kept_self hw) (alive_nil _) hlive)
        exact ⟨hw'.owned, hw'.keeps.polled, fun fd _ => congrFun hw'.keeps.turns fd⟩
      split
      · refine wp_log_kept hdelivered fun h => ?_
        have howned : Owned (closing []) (Kernel.effect w (.log (.epollReadEvents e.fd s)) ()) :=
          hw.congr rfl rfl rfl rfl rfl rfl
        rw [wp_bind]
        refine wp_mono (fun _ _ w₁ hw₁ => ?_)
          (SocketBase.handleRead_kept (kept_self howned) (alive_nil _) hlive maxReadBuffSize)
        have hturns : w₁.turns =
            Function.update w.turns e.fd (some (w.kernel.handedOut e.fd)) := hw₁.keeps.turns
        have hpolled : w₁.polled = w.polled := hw₁.keeps.polled
        refine hwrite hw₁.owned (hw₁.keeps.live s hlive) ?_ hpolled fun fd hne => ?_
        · rw [World.Delivered, World.reused, hturns, hpolled]
          simpa using hfresh
        · rw [hturns, Function.update_of_ne hne]
      · exact hwrite hw hlive hdelivered rfl fun _ _ => rfl

/-- The batch: every event has its turn, in an order which does not matter. -/
theorem handleEvents_owned {es : List Ready} (hw : Owned (closing []) w)
    (hes : (es.map Ready.fd).Nodup) (hwaiting : ∀ e ∈ es, Waiting w e) :
    wp managed ownership [] (handleEvents es) (fun _ _ => Owned (closing [])) h w := by
  induction es generalizing h w with
  | nil => exact hw
  | cons e rest ih =>
      obtain ⟨he, hrest⟩ := List.nodup_cons.mp hes
      rw [handleEvents, wp_bind]
      refine wp_mono (fun _ h w' hw' => ?_) (handleEvent_owned hw (hwaiting e List.mem_cons_self))
      obtain ⟨howned, hpolled, hturns⟩ := hw'
      refine ih howned hrest fun e' he' => ?_
      have hne : e'.fd ≠ e.fd := fun heq => he (heq ▸ List.mem_map_of_mem he')
      rw [Waiting, hpolled, hturns _ hne]
      exact hwaiting e' (List.mem_cons_of_mem _ he')

theorem handleSockets_owned (hw : Owned (closing []) w) :
    wp managed ownership [] handleSockets (fun _ _ => Owned (closing [])) h w := by
  rw [handleSockets, wp_bind]
  refine wp_checkCloseSocket plain_ownership hw fun h => ?_
  rw [wp_bind]
  refine wp_mono (fun _ h w hw => ?_) (checkTimeoutSocket_owned hw.sweep)
  rw [wp_bind, wp_members, wp_bind]
  refine wp_ask plain_ownership rfl fun a hpermits _ => ?_
  cases a with
  | none => exact hw
  | some events =>
      obtain ⟨-, hnodup, hregistered⟩ := hpermits
      refine handleEvents_owned ?_ hnodup fun e he => ⟨rfl, ?_⟩
      · have hnone : closing [] = fun _ => False := funext fun s => eq_false (not_closing_nil s)
        rw [hnone] at hw ⊢
        -- no callback is running, so no object is pending
        exact hw.poll
      · exact fun hnone => hregistered e he ((hw.registered e.fd).mpr hnone)

end EpollContainer

/-! ## Every method -/

theorem Method.returning_kept {ctx : List Callback} {w₀ w : World} {h : List NetEvent} {α : Type}
    {x : NetM α} {value : α → Value}
    (hx : wp managed ownership ctx x (fun _ _ => Kept ctx w₀) h w) :
    wp managed ownership ctx (returning x value) (fun _ _ => Kept ctx w₀) h w :=
  wp_seq hx fun _ _ _ hw => hw

theorem sound_ownership : ownership.Sound managed Method.body where
  refl _ w _ := .refl w
  trans _ _ _ _ h h' hne := (h hne).trans (h' hne)
  interferes _ _ _ _ hw := hw.elim
  methods := by
    intro ctx h w m henv hinv
    obtain ⟨hloop, htarget⟩ := henv
    obtain ⟨howned, hctx⟩ := hinv
    have hw : Kept ctx w w := ⟨howned, .refl w⟩
    have hkept : ∀ {x : NetM Value} {h}, wp managed ownership ctx x (fun _ _ => Kept ctx w) h w →
        wp managed ownership ctx x (fun v h' w' =>
          ownership.inv ctx (h' ++ [.returned m v]) w' ∧ ownership.rel ctx w w') h w := fun hx =>
      wp_mono (fun _ _ _ hw' => ⟨⟨hw'.owned, hw'.alive hctx⟩, fun _ => hw'.keeps⟩) hx
    cases m with
    | tcpListen port backlog handler =>
        exact hkept (Method.returning_kept (TcpSocket.listen_kept hw hctx _ _ _))
    | tcpConnect ip port handler =>
        exact hkept (Method.returning_kept (TcpSocket.connect_kept hw hctx _ _ _))
    | udpListen port handler =>
        exact hkept (Method.returning_kept (UdpSocket.listen_kept hw hctx _ _))
    | udpConnect ip port handler =>
        exact hkept (Method.returning_kept (UdpSocket.connect_kept hw hctx _ _ _))
    | handleSockets =>
        obtain rfl := hloop rfl
        refine wp_bind.mpr (wp_mono (fun _ _ _ hw' => ?_)
          (EpollContainer.handleSockets_owned howned))
        exact ⟨⟨hw', EpollContainer.alive_nil _⟩, fun hne => absurd rfl hne⟩
    | handleRead s =>
        exact hkept (Method.returning_kept
          (SocketBase.handleRead_kept hw hctx (htarget s rfl) maxReadBuffSize))
    | handleWrite s =>
        exact hkept (Method.returning_kept (SocketBase.handleWrite_kept hw hctx (htarget s rfl)))
    | handleError s =>
        exact hkept (Method.returning_kept (SocketBase.handleError_kept hw hctx (htarget s rfl)))
    | handleTimeout s =>
        exact hkept (Method.returning_kept (SocketBase.handleTimeout_kept hw hctx (htarget s rfl)))
    | sendPacket s data =>
        exact hkept (Method.returning_kept
          (SocketBase.sendPacket_kept hw hctx (htarget s rfl) data))
    | close s =>
        exact hkept (Method.returning_kept (SocketBase.close_kept hw hctx (htarget s rfl)))

end Net
end Deps
