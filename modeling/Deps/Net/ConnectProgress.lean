import Deps.Net.Lifetimes
import Deps.Net.Outcomes

/-!
# A connection which is not complete yet

When `connect` answers `EINPROGRESS` the socket is `connecting` until `HandleWrite` is
called.  `HandleRead` reads in that state and hands the bytes on to the handler, while
`SendPacket` refuses.  An event mask is a call of `HandleRead`, a call of `HandleWrite`,
or the first and then the second.
-/

namespace Deps
namespace Net

open Reentrant ObjectInv

/-! ## The invariant -/

/-- Whether the connection is in progress, as the event loop has seen it. -/
def progress (b : Bool) : NetEvent → Bool
  | .asked (.connect _ _) (.error .einprogress) => true
  | .asked (.connect _ _) _ => false
  | .asked (.accept _) _ => false
  | .entered (.handleWrite _) => false
  | _ => b

def inProgress (h : List NetEvent) : Bool := h.foldl progress false

@[simp] theorem inProgress_concat (h : List NetEvent) (e : NetEvent) :
    inProgress (h ++ [e]) = progress (inProgress h) e := by
  simp [inProgress]

theorem progress_of_isPlain {e : NetEvent} (he : isPlain e = true) (b : Bool) :
    progress b e = b := by
  unfold progress
  split <;> first | rfl | cases he

/-- The state goes with the history. -/
def Agrees (h : List NetEvent) (state : SocketState) : Prop :=
  state ≠ .listen ∧ (state ≠ .close → (state = .connecting ↔ inProgress h = true))

/-- The object is a `TcpSocket` in the state which the history says. -/
def progressing : ObjectInv where
  absent _ := True
  holds h o := o.type = .tcp ∧ Agrees h o.state
  deleted _ := trivial
  waits _ _ := trivial
  passes he hh := by
    rw [Agrees, inProgress_concat, progress_of_isPlain he]
    exact hh
  put htype hstate _ hh := by
    rw [htype, hstate]
    exact hh
  closed hh := ⟨hh.1, nofun, fun hopen => absurd rfl hopen⟩

theorem agrees_of_done {h : List NetEvent} {state : SocketState} (hh : inProgress h = false)
    (hstate : state = .accept ∨ state = .connected) : Agrees h state := by
  rcases hstate with rfl | rfl
  · exact ⟨nofun, fun _ => by simp [hh]⟩
  · exact ⟨nofun, fun _ => by simp [hh]⟩

/-- `Connect` creates the socket, or `Accept` of a listening one. -/
def tcpCreates (w : World) (m : Method) : Prop :=
  (∃ ip port handler, m = .tcpConnect ip port handler) ∨ ∃ l, m = .handleRead l ∧ Listens w l

section

variable {s : SocketId} {ctx : List Callback} {h : List NetEvent} {w : World} {o : Socket}

namespace TcpSocket

theorem handleRead_progressing (hctx : ∀ c ∈ ctx, c.socket = s) (size : Nat) :
    progressing.Keeps tcpCreates s ctx (SocketBase.handleRead s size) := by
  refine keeps_load fun o h w ho hholds => ?_
  rw [hholds.1]
  show wp _ _ _ (handleRead s size) _ h w
  rw [handleRead, wp_bind, wp_load ho]
  split
  case h_1 hlisten => exact absurd hlisten hholds.2.1
  case h_5 => exact ⟨o, ho, hholds⟩
  all_goals exact keeps_tcpRead hctx size h w ⟨o, ho, hholds⟩

/-- `HandleWrite` makes a connecting socket a connected one. -/
theorem handleWrite_progressing (hctx : ∀ c ∈ ctx, c.socket = s) (hw : progressing.At s h w) :
    wp (lifetime tcpCreates s) (progressing.spec s) ctx (SocketBase.handleWrite s)
      (fun _ => progressing.At s) (h ++ [.entered (.handleWrite s)]) w := by
  obtain ⟨o, ho, htype, hlisten, -⟩ := hw
  have hdone : inProgress (h ++ [.entered (.handleWrite s)]) = false := by
    rw [inProgress_concat]
    rfl
  rw [SocketBase.handleWrite, wp_bind, wp_load ho, htype]
  show wp _ _ _ (handleWrite s) _ _ w
  rw [handleWrite, wp_bind, wp_load ho]
  split
  case h_1 =>
    rw [wp_bind, wp_store ho]
    exact keeps_modOrClose hctx _ _ _
      ⟨_, w.heap_put s _, htype, agrees_of_done hdone (.inr rfl)⟩
  case h_2 hstate =>
    exact keeps_write hctx _ _ ⟨o, ho, htype, agrees_of_done hdone (.inl hstate)⟩
  case h_3 hstate =>
    exact keeps_write hctx _ _ ⟨o, ho, htype, agrees_of_done hdone (.inr hstate)⟩
  case h_4 hstate => exact absurd hstate hlisten
  case h_5 hstate => exact ⟨o, ho, htype, hlisten, fun hopen => absurd hstate hopen⟩

theorem sendPacket_progressing (hctx : ∀ c ∈ ctx, c.socket = s) (data : List UInt8) :
    progressing.Keeps tcpCreates s ctx (SocketBase.sendPacket s data) := by
  refine keeps_load fun o h w ho hholds => ?_
  rw [hholds.1]
  exact keeps_tcpSendPacket hctx data h w ⟨o, ho, hholds⟩

/-! ## Creation -/

/-- What the history says about a socket which is being created. -/
def Known (b : Bool) (h : List NetEvent) : Prop := inProgress h = b

theorem Known.plain {b : Bool} {e : NetEvent} (he : isPlain e = true) (hh : Known b h) :
    Known b (h ++ [e]) := by
  rw [Known, inProgress_concat, progress_of_isPlain he]
  exact hh

/-- The socket is added, or closed when there is no room. -/
theorem wp_register {b : Bool} (hh : Known b h) (ho : w.heap s = some o) (htype : o.type = .tcp)
    (hstate : o.state = .close) {events : Interest} {f : Socket → Socket}
    (hf : (f o).type = o.type) (hagrees : ∀ {h}, Known b h → Agrees h (f o).state) :
    wp (lifetime tcpCreates s) (progressing.spec s) [] (do
        let added ← EpollContainer.addSocket (some s) events
        if added then
          store s f
          return some s
        close s
        return none : NetM (Option SocketId)) (fun _ => progressing.Founded s) h w := by
  have hclosed : ∀ h, progressing.At s h w := fun h =>
    ⟨o, ho, htype, by rw [hstate]; exact ⟨nofun, fun hopen => absurd rfl hopen⟩⟩
  rw [wp_bind]
  refine EpollContainer.wp_addSocket plain ho (wp_close_founded (hclosed _))
    (wp_close_founded (hclosed _)) fun _ _ => ?_
  have ho' : (w.listed s o.fd events).heap s = some o := ho
  rw [if_pos rfl, wp_bind, wp_store ho']
  exact .inr ⟨_, World.heap_put _ s _, hf.trans htype, hagrees (hh.plain rfl)⟩

theorem connect_progressing (hheap : w.heap s = none) (hnext : w.next = s) (ip : UInt32)
    (port : UInt16) (handler : Bool) :
    wp (lifetime tcpCreates s) (progressing.spec s) [] (connect ip port handler)
      (fun _ => progressing.Founded s) h w := by
  have hw : Awaits (fun _ => True) s h w := ⟨hheap, hnext, trivial⟩
  unfold connect
  refine hw.wp_ask (fun _ _ => trivial) rfl fun fd h w hw => ?_
  cases fd with
  | none => exact .inl ⟨hw.heap, trivial⟩
  | some fd =>
  refine hw.wp_ask (fun _ _ => trivial) rfl fun nonblock h w hw => ?_
  split
  · exact .inl ⟨hw.heap, trivial⟩
  rw [wp_bind]
  refine wp_ask_idle plain rfl fun ret _ _ => ?_
  have hw' : Awaits (Known (inProgress (h ++ [.asked (.connect fd ⟨ip, port⟩) ret]))) s
      (h ++ [.asked (.connect fd ⟨ip, port⟩) ret]) w := ⟨hw.heap, hw.next, rfl⟩
  rw [inProgress_concat] at hw'
  refine hw'.wp_newTcp Known.plain fun now isResending h w hknown ho => ?_
  rcases ret with errno | _
  · by_cases hprogress : errno = .einprogress
    · subst hprogress
      exact wp_register hknown ho rfl rfl rfl fun hknown =>
        ⟨nofun, fun _ => iff_of_true rfl hknown⟩
    · have hclose : wp (lifetime tcpCreates s) (progressing.spec s) []
          (do close s; return none : NetM (Option SocketId)) (fun _ => progressing.Founded s) h w :=
        wp_close_founded (I := progressing) ⟨_, ho, rfl, nofun, fun hopen => absurd rfl hopen⟩
      cases errno <;> first | exact hclose | exact absurd rfl hprogress
  · exact wp_register hknown ho rfl rfl rfl fun hknown => agrees_of_done hknown (.inr rfl)

/-- The listening socket is closed when `accept` fails. -/
theorem close_listener (hs : w.heap s = none) {l : SocketId} (hl : Listens w l) :
    wp (lifetime tcpCreates s) (progressing.spec s) [] (close l)
      (fun _ => progressing.Founded s) h w := by
  obtain ⟨o, ho, -, -⟩ := hl
  have hls : l ≠ s := by
    rintro rfl
    rw [hs] at ho
    cases ho
  refine wp_closeSocket_unborn plain hs ho (fun hs => .inl ⟨hs, trivial⟩)
    ⟨fun c hc => ?_, .inl ⟨hs, trivial⟩⟩ fun h' w' hinv => ?_
  · rw [List.mem_singleton.mp hc]
    exact fun hnone => by simp [Callback.socket, ho] at hnone
  · obtain ⟨hlive, ⟨hnone, -⟩ | ⟨hctx, -⟩⟩ := hinv
    · exact ⟨hlive _ List.mem_cons_self, hnone⟩
    · exact absurd (hctx _ List.mem_cons_self) hls

theorem accept_progressing (hheap : w.heap s = none) (hnext : w.next = s) {l : SocketId}
    (hl : Listens w l) :
    wp (lifetime tcpCreates s) (progressing.spec s) [] (accept l)
      (fun _ => progressing.Founded s) h w := by
  obtain ⟨o, ho, -, -⟩ := id hl
  rw [accept, wp_bind, wp_load ho, wp_bind]
  refine wp_ask plain rfl fun a _ _ => ?_
  rcases a with errno | ⟨afd, addr⟩
  · exact close_listener hheap hl
  have hw : Awaits (Known false) s (h ++ [.asked (.accept o.fd) (.ok (afd, addr))])
      (Kernel.effect w (.accept o.fd) (.ok (afd, addr))) :=
    ⟨hheap, hnext, inProgress_concat h _⟩
  have hl' : Listens (Kernel.effect w (.accept o.fd) (.ok (afd, addr))) l := hl
  dsimp only
  rw [wp_bind]
  refine wp_ask_idle plain rfl fun nonblock _ _ => ?_
  have hw' := hw.ask (q := .fcntl afd) (a := nonblock) rfl (Known.plain rfl)
  split
  · exact close_listener hw.heap hl'
  refine hw'.wp_newTcp Known.plain fun now isResending h w hknown ho => ?_
  have hs : progressing.At s h w := ⟨_, ho, rfl, agrees_of_done hknown (.inl rfl)⟩
  refine wp_seq (keeps_addSocket .readError h w hs) fun added h w hs => ?_
  have hclose : ∀ {h w}, progressing.At s h w → wp (lifetime tcpCreates s) (progressing.spec s) []
      (close s) (fun _ => progressing.Founded s) h w :=
    fun hs => wp_mono (fun _ _ _ => .inr) (keeps_closeSocket (List.forall_mem_nil _) _ _ hs)
  cases added with
  | false => exact hclose hs
  | true =>
      have hnodelay : progressing.Keeps tcpCreates s [] (enableTcpNoDelay s) :=
        keeps_load_only fun _ => keeps_ask rfl
      refine wp_seq (hnodelay h w hs) fun nodelay h w hs => ?_
      cases nodelay with
      | false => exact hclose hs
      | true => exact .inr hs

end TcpSocket
end

/-! ## Runs -/

theorem sound_progressing {s : SocketId} :
    (progressing.spec s).Sound (lifetime tcpCreates s) Method.body := by
  refine sound (fun hctx => TcpSocket.handleRead_progressing hctx _)
    TcpSocket.handleWrite_progressing
    (fun data hctx => TcpSocket.sendPacket_progressing hctx data) ?_
  intro h w m hheap hnext _ hm
  rcases hm with ⟨ip, port, handler, rfl⟩ | ⟨l, rfl, hl⟩
  · exact wp_seq (TcpSocket.connect_progressing hheap hnext ip port handler) fun _ _ _ => id
  · obtain ⟨o, ho, htype, hstate⟩ := id hl
    refine wp_seq ?_ fun _ _ _ => id
    rw [SocketBase.handleRead, wp_bind, wp_load ho, htype]
    show wp _ _ _ (TcpSocket.handleRead l maxReadBuffSize) _ _ w
    rw [TcpSocket.handleRead, wp_bind, wp_load ho, hstate]
    exact TcpSocket.accept_progressing hheap hnext hl

/-- `SendPacket` returns false before it has asked or changed anything: it looked at
the state only. -/
def Refused (env : NetSetting) (w : World) (s : SocketId) (data : List UInt8) : Prop :=
  Outcome env (SocketBase.sendPacket s data) w [] (.ok false) w

/-- The other ways to return false ask for memory first. -/
theorem refused_iff {env : NetSetting} {w : World} {s : SocketId} {o : Socket}
    (ho : w.heap s = some o) (htype : o.type = .tcp) (data : List UInt8) :
    Refused env w s data ↔ o.state ≠ .accept ∧ o.state ≠ .connected := by
  rw [Refused, SocketBase.sendPacket, outcome_load ho, htype]
  show Outcome env (TcpSocket.sendPacket s data) w [] (.ok false) w ↔ _
  rw [TcpSocket.sendPacket, outcome_load ho]
  split
  · rename_i hstate
    exact iff_of_true ⟨rfl, rfl, rfl⟩ ⟨hstate.1.symm, hstate.2.symm⟩
  rename_i hstate
  refine iff_of_false (fun h => ?_) fun hne => hstate ⟨hne.1.symm, hne.2.symm⟩
  split at h
  · cases h.2.1
  · obtain ⟨_, _, _, -, ht, -⟩ := h
    cases ht

/-- In every run: a handler which `HandlePacket` has called can answer, as long as the
socket is not closed, if and only if the connection is complete: `connect` did not
answer `EINPROGRESS`, or `HandleWrite` has been called since. -/
theorem handler_answers_iff {s : SocketId} {w : World} (hs : w.heap s = none) {c : NetConfig}
    (hc : Reaches (lifetime tcpCreates s) Method.body (Config.start w) c)
    (hidle : c.running = none) {data : List UInt8}
    (hinside : .handlePacket s data ∈ context c.suspended) :
    ∃ o, c.world.heap s = some o ∧
      (o.state ≠ .close → ∀ (env : NetSetting) (answer : List UInt8),
        ¬Refused env c.world s answer ↔ inProgress c.history = false) := by
  have hinv := Spec.inv_of_reaches sound_progressing ⟨List.forall_mem_nil _, .inl ⟨hs, trivial⟩⟩
    hc hidle
  obtain ⟨hlive, ⟨hnone, -⟩ | ⟨-, o, ho, htype, hlisten, hagrees⟩⟩ := hinv
  · exact absurd hnone (hlive _ hinside)
  refine ⟨o, ho, fun hopen env answer => ?_⟩
  rw [refused_iff ho htype]
  cases hstate : o.state with
  | connecting => simp [(hagrees hopen).mp hstate]
  | listen => exact absurd hstate hlisten
  | close => exact absurd hstate hopen
  | accept | connected =>
      have hdone : ¬inProgress c.history = true := by
        rw [← hagrees hopen, hstate]
        nofun
      simp [hdone]

/-- A connection takes its time, and one byte is there to be read. -/
def slowly (w : World) : (q : Question) → Answer q
  | .connect _ _ => .error .einprogress
  | q => (Obliging.mk true [1] 4).answer w q

theorem answers_slowly (w : World) (q : Question) :
    Kernel.answers w q (slowly w q) (Kernel.effect w q (slowly w q)) := by
  refine ⟨?_, rfl⟩
  cases q with
  | connect fd addr => trivial
  | _ => exact (Obliging.mk true [1] 4).permits_answer w _

/-- The run of these moves. -/
def slowlyPlayed (moves : List (Move Method)) : NetConfig :=
  (Config.start (World.initial 8 Kernel.idle 0)).play Method.body slowly Kernel.effect 100 moves

/-- `EPOLLOUT` comes first: the handler is called when the connection is complete. -/
def calledInTime : NetConfig :=
  slowlyPlayed [.enter (.tcpConnect 1 2 true), .enter (.handleWrite 0), .enter (.handleRead 0)]

/-- `EPOLLIN` comes first, or in the same event. -/
def calledEarly : NetConfig :=
  slowlyPlayed [.enter (.tcpConnect 1 2 true), .enter (.handleRead 0)]

theorem reaches_calledInTime : Reaches (lifetime tcpCreates 0) Method.body
    (Config.start (World.initial 8 Kernel.idle 0)) calledInTime :=
  reaches_play answers_slowly ⟨⟨nofun, .inr ⟨rfl, rfl, .inl ⟨1, 2, true, rfl⟩⟩⟩,
    ⟨nofun, .inl ⟨rfl, Option.isSome_iff_ne_none.mp rfl⟩⟩,
    ⟨nofun, .inl ⟨rfl, Option.isSome_iff_ne_none.mp rfl⟩⟩, trivial⟩

theorem reaches_calledEarly : Reaches (lifetime tcpCreates 0) Method.body
    (Config.start (World.initial 8 Kernel.idle 0)) calledEarly :=
  reaches_play answers_slowly ⟨⟨nofun, .inr ⟨rfl, rfl, .inl ⟨1, 2, true, rfl⟩⟩⟩,
    ⟨nofun, .inl ⟨rfl, Option.isSome_iff_ne_none.mp rfl⟩⟩, trivial⟩

theorem handler_answers_iff_inTime : ¬Refused (beside Eq) calledInTime.world 0 [9] := by
  obtain ⟨data, hinside⟩ : ∃ data, .handlePacket 0 data ∈ context calledInTime.suspended :=
    ⟨_, List.mem_cons_self⟩
  have hopen : (calledInTime.world.heap 0).map Socket.state = some .connected := rfl
  obtain ⟨o, ho, hanswers⟩ := handler_answers_iff rfl reaches_calledInTime rfl hinside
  rw [ho, Option.map_some, Option.some_inj] at hopen
  exact (hanswers (hopen ▸ nofun) _ _).mpr rfl

/-- The handler of a socket which is not closed is called, and cannot answer. -/
theorem handler_refused :
    ¬∀ (s : SocketId) (w : World) (c : NetConfig) (data : List UInt8) (o : Socket)
      (env : NetSetting) (answer : List UInt8), w.heap s = none →
      Reaches (lifetime tcpCreates s) Method.body (Config.start w) c → c.running = none →
      .handlePacket s data ∈ context c.suspended → c.world.heap s = some o → o.state ≠ .close →
      ¬Refused env c.world s answer := by
  intro hall
  obtain ⟨data, hinside⟩ : ∃ data, .handlePacket 0 data ∈ context calledEarly.suspended :=
    ⟨_, List.mem_cons_self⟩
  obtain ⟨o, ho, htype, hstate⟩ : ∃ o, calledEarly.world.heap 0 = some o ∧ o.type = .tcp ∧
      o.state = .connecting := ⟨_, rfl, rfl, rfl⟩
  refine hall 0 _ _ data o (beside Eq) [9] rfl reaches_calledEarly rfl hinside ho ?_ ?_
  · rw [hstate]
    nofun
  · rw [refused_iff ho htype, hstate]
    exact ⟨nofun, nofun⟩

end Net
end Deps
