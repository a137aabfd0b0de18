import Deps.Net.StreamRuns

/-!
# The interest in writing

A socket which has output left is registered for writing, and a socket which has
none is not: four places change the registration, and they agree about the flag
`m_isResending`, which the constructor leaves unset.
-/

namespace Deps
namespace Net

open Reentrant

/-! ## The invariant -/

/-- The container has the socket under the descriptor, and the kernel has the
interest. -/
def Registered (w : World) (s : SocketId) (fd : Fd) (events : Interest) : Prop :=
  w.container.socketMap.find fd = some s ∧ w.kernel.interest fd = some events

/-- The flag and the registration go with the output. -/
def Wakes (w : World) (s : SocketId) (o : Socket) : Prop :=
  match o.state with
  | .connecting => o.output.size = 0 ∧ Registered w s o.fd .readWriteError
  | .accept | .connected =>
      (o.output.size = 0 ∧ Registered w s o.fd .readError) ∨
        (0 < o.output.size ∧ o.isResending = true ∧ Registered w s o.fd .readWriteError)
  | .listen => False
  | .close => True

/-- The same while the loop of `Write` runs: the last turn looks at the flag. -/
def Writes (w : World) (s : SocketId) (o : Socket) : Prop :=
  (o.state = .accept ∨ o.state = .connected) ∧
    ∃ events, Registered w s o.fd events ∧ (o.isResending = false → events = .readError)

/-- The socket is a `TcpSocket`, and `Wakes` holds of it. -/
def Awake (s : SocketId) (w : World) : Prop :=
  ∃ o, w.heap s = some o ∧ o.type = .tcp ∧ Wakes w s o

/-- A socket which listens. -/
def Listens (w : World) (s : SocketId) : Prop :=
  ∃ o, w.heap s = some o ∧ o.type = .tcp ∧ o.state = .listen

/-! ## The environment -/

/-- The calls which are about the socket `s`: it is created by `Connect` or by the
`Accept` of a listening socket, and then its methods are called, but not from its
own `HandleClose`.  The rest of the process leaves the object and its
registration alone. -/
def watched (s : SocketId) : NetEnvironment where
  answers := Kernel.answers
  enters ctx w m :=
    (∀ c ∈ ctx, c.socket = s) ∧ .handleClose s ∉ ctx ∧
      ((m.target = some s ∧ w.heap s ≠ none) ∨
        (w.next = s ∧ w.heap s = none ∧
          ((∃ ip port handler, m = .tcpConnect ip port handler) ∨
            ∃ l, m = .handleRead l ∧ Listens w l)))
  returns _ _ := True
  interferes ctx w w' :=
    (∀ c ∈ ctx, w'.heap c.socket ≠ none) ∧ w'.heap s = w.heap s ∧
      ∀ o, w.heap s = some o →
        w'.container.socketMap.find o.fd = w.container.socketMap.find o.fd ∧
          w'.kernel.interest o.fd = w.kernel.interest o.fd

def wakeful (s : SocketId) : NetSpec where
  inv ctx _ w :=
    (∀ c ∈ ctx, w.heap c.socket ≠ none) ∧
      (w.heap s = none ∨ (∀ c ∈ ctx, c.socket = s) ∧
        ∃ o, w.heap s = some o ∧ o.type = .tcp ∧ (.handleClose s ∈ ctx ∨ Wakes w s o))
  rel _ _ _ := True
  check _ _ := True
  tolerated _ := False

theorem plain_wakeful {s : SocketId} : Plain (watched s) (wakeful s) := ⟨id, fun _ => trivial⟩

section

variable {s : SocketId} {ctx : List Callback} {h : List NetEvent} {w : World} {o o' : Socket}
  {α β : Type} {post : β → List NetEvent → World → Prop}

/-- A change of other fields. -/
theorem Wakes.put (hw : Wakes w s o) (hfd : o'.fd = o.fd) (hstate : o'.state = o.state)
    (houtput : o'.output = o.output) (hresending : o'.isResending = o.isResending) :
    Wakes (w.put s o') s o' := by
  rw [Wakes, hfd, hstate, houtput, hresending]
  exact hw

/-- Nothing else in the world matters. -/
theorem Wakes.congr (hw : Wakes w s o) {w' : World}
    (hfind : w'.container.socketMap.find o.fd = w.container.socketMap.find o.fd)
    (hinterest : w'.kernel.interest o.fd = w.kernel.interest o.fd) : Wakes w' s o := by
  rw [Wakes, Registered, Registered, hfind, hinterest]
  exact hw

/-- What `Wakes` says of an established socket. -/
theorem Wakes.established (hw : Wakes w s o) (hstate : o.state = .accept ∨ o.state = .connected) :
    (o.output.size = 0 ∧ Registered w s o.fd .readError) ∨
      (0 < o.output.size ∧ o.isResending = true ∧ Registered w s o.fd .readWriteError) := by
  rcases hstate with hstate | hstate <;> simpa only [Wakes, hstate] using hw

/-- An established socket may start to write. -/
theorem Wakes.writes (hw : Wakes w s o) (hstate : o.state = .accept ∨ o.state = .connected) :
    Writes w s o := by
  refine ⟨hstate, ?_⟩
  rcases hw.established hstate with ⟨-, hregistered⟩ | ⟨-, hresending, hregistered⟩
  -- without output the flag may have any value, but the interest is in reading only
  · exact ⟨_, hregistered, fun _ => rfl⟩
  · refine ⟨_, hregistered, fun hfalse => ?_⟩
    rw [hresending] at hfalse
    cases hfalse

theorem Awake.closed (htype : o.type = .tcp) : Awake s (w.closed s o) :=
  ⟨_, w.heap_closed s o, htype, trivial⟩

theorem Awake.inv (hctx : ∀ c ∈ ctx, c.socket = s) (hw : Awake s w) :
    (wakeful s).inv ctx h w := by
  obtain ⟨o, ho, htype, hwakes⟩ := hw
  refine ⟨fun c hc => ?_, .inr ⟨hctx, o, ho, htype, .inr hwakes⟩⟩
  rw [hctx c hc, ho]
  exact Option.some_ne_none o

/-- A callback about `s` joins other ones. -/
theorem socket_cons (hctx : ∀ c ∈ ctx, c.socket = s) {c : Callback} (hc : c.socket = s) :
    ∀ c' ∈ c :: ctx, c'.socket = s := by
  intro c' hmem
  rcases List.mem_cons.mp hmem with rfl | hmem
  · exact hc
  · exact hctx c' hmem

theorem touch_awake (hw : Awake s w) :
    wp (watched s) (wakeful s) ctx (touch s) (fun _ _ => Awake s) h w := by
  obtain ⟨o, ho, htype, hwakes⟩ := hw
  exact wp_touch plain_wakeful ho fun now =>
    ⟨_, w.heap_put s _, htype, hwakes.put rfl rfl rfl rfl⟩

theorem closeSocket_awake (hctx : ∀ c ∈ ctx, c.socket = s) (ho : w.heap s = some o)
    (htype : o.type = .tcp) :
    wp (watched s) (wakeful s) ctx (closeSocket s) (fun _ _ => Awake s) h w := by
  refine wp_closeSocket plain_wakeful ho (fun _ => .closed htype) (fun _ => ⟨fun c hc => ?_, ?_⟩)
    (fun _ r h' w' hinv _ => ?_)
  · rw [socket_cons hctx rfl c hc, ho]
    exact Option.some_ne_none o
  · exact .inr ⟨socket_cons hctx rfl, o, ho, htype, .inl List.mem_cons_self⟩
  · obtain ⟨hlive, hnone | ⟨-, o', ho', htype', -⟩⟩ := hinv
    · exact absurd hnone (hlive _ List.mem_cons_self)
    · exact ⟨o', ho', .closed htype'⟩

/-- `ModSocket` of a registered socket. -/
theorem modSocket_registered (ho : w.heap s = some o) {events : Interest}
    (hregistered : Registered w s o.fd events) (events' : Interest)
    {post : Bool → List NetEvent → World → Prop} (hno : ∀ h, post false h w)
    (hyes : ∀ h w', w'.heap = w.heap → Registered w' s o.fd events' → post true h w') :
    wp (watched s) (wakeful s) ctx (EpollContainer.modSocket (some s) events') post h w := by
  refine EpollContainer.wp_modSocket plain_wakeful ho (fun _ => hno _) (hno _) fun _ _ => ?_
  exact hyes _ _ rfl ⟨hregistered.1, by simp [Kernel.register]⟩

end

namespace TcpSocket

variable {s : SocketId} {ctx : List Callback} {h : List NetEvent} {w : World} {o : Socket}

/-- Nothing is left to send, and the socket asks for reading only. -/
theorem modOrClose_awake (hctx : ∀ c ∈ ctx, c.socket = s) (ho : w.heap s = some o)
    (htype : o.type = .tcp) (hstate : o.state = .accept ∨ o.state = .connected)
    (houtput : o.output.size = 0) {events : Interest} (hregistered : Registered w s o.fd events) :
    wp (watched s) (wakeful s) ctx (modOrClose s .readError) (fun _ _ => Awake s) h w := by
  rw [modOrClose, wp_bind]
  refine modSocket_registered ho hregistered .readError (fun h => ?_)
    fun h w' hheap hregistered => ?_
  · exact closeSocket_awake hctx ho htype
  · refine ⟨o, hheap ▸ ho, htype, ?_⟩
    rcases hstate with hstate | hstate <;> rw [Wakes, hstate] <;> exact .inl ⟨houtput, hregistered⟩

theorem read_awake (hctx : ∀ c ∈ ctx, c.socket = s) (hopen : .handleClose s ∉ ctx)
    (hw : Awake s w) (size : Nat) :
    wp (watched s) (wakeful s) ctx (read s size) (fun _ _ => Awake s) h w := by
  refine wp_seq (touch_awake hw) fun _ h w hw => ?_
  obtain ⟨o, ho, htype, hwakes⟩ := id hw
  rw [wp_bind, wp_load ho, wp_bind]
  refine wp_ask_idle plain_wakeful rfl fun a _ _ => ?_
  rcases a with errno | _ | ⟨b, rest⟩
  · dsimp only
    split
    · exact hw
    · exact closeSocket_awake hctx ho htype
  · exact closeSocket_awake hctx ho htype
  · dsimp only
    rw [wp_bind]
    refine wp_appendInput plain_wakeful ho fun malloc => ?_
    have hw' : Awake s (w.put s { o with input := (o.input.append malloc (b :: rest)).2 }) :=
      ⟨_, w.heap_put s _, htype, hwakes.put rfl rfl rfl rfl⟩
    rw [wp_bind, wp_load (w.heap_put s _)]
    split
    · refine ⟨hw'.inv (socket_cons hctx rfl), fun r h' w' _ hinv _ => ?_⟩
      obtain ⟨hlive, hnone | ⟨-, o', ho', htype', hmem | hwakes'⟩⟩ := hinv
      · exact absurd hnone (hlive _ List.mem_cons_self)
      -- the callback was `HandlePacket`, and no `Close` is under way around it
      · exact absurd (by simpa using hmem) hopen
      · exact ⟨o', ho', htype', hwakes'⟩
    · exact hw'

/-- `Write`, whatever the last `send` did and whether or not `SendPacket` has
appended something since. -/
theorem write_awake (hctx : ∀ c ∈ ctx, c.socket = s) (ho : w.heap s = some o)
    (htype : o.type = .tcp) (hwrites : Writes w s o)
    (hdone : o.output.size = 0 → Wakes w s o) :
    wp (watched s) (wakeful s) ctx (write s) (fun _ _ => Awake s) h w := by
  rw [write, wp_bind]
  refine wp_touch plain_wakeful ho fun now => ?_
  rw [wp_bind, wp_load (w.heap_put s _)]
  split
  · rename_i hsize
    exact ⟨_, w.heap_put s _, htype, (hdone (Nat.lt_one_iff.mp hsize)).put rfl rfl rfl rfl⟩
  rename_i hsize
  -- between two turns only `Writes` holds: there may be output without the interest
  refine wp_writeLoop plain_wakeful
    (fun _ w => ∃ o, w.heap s = some o ∧ o.type = .tcp ∧ Writes w s o) ?_ ?_ ?_ ?_
    ⟨_, w.heap_put s _, htype, hwrites⟩ (w.heap_put s _) (Nat.pos_of_ne_zero (by omega)) le_rfl
  · intro h w o n hw ho _ _ _
    obtain ⟨_, ho', htype, hwrites⟩ := hw
    cases ho.symm.trans ho'
    exact ⟨_, w.heap_put s _, htype, hwrites⟩
  · intro h w o n hw ho _ _ hall
    obtain ⟨_, ho', htype, hstate, events, hregistered, hflag⟩ := hw
    cases ho.symm.trans ho'
    have hempty : (o.output.erase 0 n false).size = 0 := by
      rw [BlockBuffer.size_erase_front]
      omega
    split
    · exact modOrClose_awake hctx (w.heap_put s _) htype hstate hempty hregistered
    · rename_i hresending
      refine ⟨_, w.heap_put s _, htype, ?_⟩
      -- without the flag the interest was never widened
      have hread := hflag (by simpa using hresending)
      subst hread
      rcases hstate with hstate | hstate <;> simp only [Wakes, hstate] <;>
        exact .inl ⟨hempty, hregistered⟩
  · intro h w o hw ho hpos
    obtain ⟨_, ho', htype, hstate, events, hregistered, -⟩ := hw
    cases ho.symm.trans ho'
    refine modSocket_registered ho hregistered _ (fun h => ?_) fun h w' hheap hregistered => ?_
    · exact (if_neg Bool.false_ne_true).mpr (closeSocket_awake hctx ho htype)
    · refine (if_pos rfl).mpr ⟨o, hheap ▸ ho, _, w'.heap_put s _, htype, ?_⟩
      rcases hstate with hstate | hstate <;> simp only [Wakes, hstate] <;>
        exact .inr ⟨hpos, trivial, hregistered⟩
  · intro h w o errno hw ho _
    obtain ⟨_, ho', htype, -⟩ := hw
    cases ho.symm.trans ho'
    exact closeSocket_awake hctx ho htype

theorem sendPacket_awake (hctx : ∀ c ∈ ctx, c.socket = s) (hw : Awake s w) (data : List UInt8) :
    wp (watched s) (wakeful s) ctx (sendPacket s data) (fun _ _ => Awake s) h w := by
  obtain ⟨o, ho, htype, hwakes⟩ := id hw
  rw [sendPacket, wp_bind, wp_load ho]
  split
  · exact hw
  rename_i hstate
  replace hstate : o.state = .accept ∨ o.state = .connected := by
    rw [not_and_or, not_not, not_not] at hstate
    exact hstate.imp Eq.symm Eq.symm
  split
  · exact hw
  rename_i hdata
  rw [wp_bind]
  refine wp_ask_idle plain_wakeful rfl fun malloc _ _ => ?_
  rcases BlockBuffer.append_size malloc o.output data with heq | ⟨b', heq, hsize⟩
  · rw [heq]
    dsimp only
    rw [wp_bind, wp_store ho]
    exact ⟨_, w.heap_put s _, htype, hwakes.put rfl rfl rfl rfl⟩
  · rw [heq]
    dsimp only
    rw [wp_bind, wp_store ho]
    refine wp_seq (write_awake hctx (w.heap_put s _) htype (hwakes.writes hstate) fun hzero => ?_)
      fun _ _ _ hw => hw
    have hempty : b'.size = 0 := hzero
    omega

theorem handleWrite_awake (hctx : ∀ c ∈ ctx, c.socket = s) (hw : Awake s w) :
    wp (watched s) (wakeful s) ctx (handleWrite s) (fun _ _ => Awake s) h w := by
  obtain ⟨o, ho, htype, hwakes⟩ := id hw
  rw [handleWrite, wp_bind, wp_load ho]
  split
  case h_1 hstate =>
    simp only [Wakes, hstate] at hwakes
    rw [wp_bind, wp_store ho]
    exact modOrClose_awake hctx (w.heap_put s _) htype (.inr rfl) hwakes.1 hwakes.2
  case h_2 hstate => exact write_awake hctx ho htype (hwakes.writes (.inl hstate)) fun _ => hwakes
  case h_3 hstate => exact write_awake hctx ho htype (hwakes.writes (.inr hstate)) fun _ => hwakes
  all_goals exact hw

theorem handleTimeout_awake (hctx : ∀ c ∈ ctx, c.socket = s) (hw : Awake s w) :
    wp (watched s) (wakeful s) ctx (handleTimeout s) (fun _ _ => Awake s) h w := by
  obtain ⟨o, ho, htype, -⟩ := id hw
  rw [handleTimeout, wp_bind]
  refine wp_ask_idle plain_wakeful rfl fun now _ _ => ?_
  rw [wp_bind, wp_load ho]
  split
  case h_4 | h_5 => exact hw
  all_goals
    split
    · exact closeSocket_awake hctx ho htype
    · exact hw

end TcpSocket

/-! ## Creation -/

/-- The socket was not created, or `Wakes` holds of it. -/
def Born (s : SocketId) (w : World) : Prop := w.heap s = none ∨ Awake s w

section

variable {s : SocketId} {h : List NetEvent} {w : World} {o : Socket} {β : Type}
  {post : β → List NetEvent → World → Prop}

/-- `AddSocket` of a new socket. -/
theorem addSocket_registered (ho : w.heap s = some o) {events : Interest} {f : Bool → NetM β}
    (hrefused : ∀ h, wp (watched s) (wakeful s) [] (f false) post h w)
    (hadded : ∀ h w', w'.heap s = some o → Registered w' s o.fd events →
      wp (watched s) (wakeful s) [] (f true) post h w') :
    wp (watched s) (wakeful s) [] (EpollContainer.addSocket (some s) events >>= f) post h w := by
  rw [wp_bind]
  refine EpollContainer.wp_addSocket plain_wakeful ho (hrefused _) (hrefused _) fun _ habsent => ?_
  refine hadded _ _ ho ⟨?_, by simp [World.listed, Kernel.enroll, Kernel.register]⟩
  exact (OrderedMap.find_insert_of_absent KeyOrder.int_total habsent _ _).mpr (.inl ⟨rfl, rfl⟩)

theorem closeSocket_new (ho : w.heap s = some o) (htype : o.type = .tcp) :
    wp (watched s) (wakeful s) [] (closeSocket s) (fun _ _ => Born s) h w :=
  wp_mono (fun _ _ _ => .inr) (closeSocket_awake (List.forall_mem_nil _) ho htype)

/-- `new TcpSocket`, when the next object is `s`. -/
theorem wp_create_watched (hnext : w.next = s) {handler : Bool} {f : Int → Socket → Socket}
    {g : SocketId → NetM β}
    (hg : ∀ now isResending h w, w.heap s = some (f now (TcpSocket.construct handler isResending)) →
      wp (watched s) (wakeful s) [] (g s) post h w) :
    wp (watched s) (wakeful s) [] (do
      let s ← TcpSocket.create handler
      let now ← ask .time
      store s (f now)
      g s) post h w := by
  subst hnext
  exact wp_create plain_wakeful fun isResending now =>
    hg now isResending _ _ (World.heap_put _ _ _)

/-- `Connect` creates the socket `s`, or nothing. -/
theorem TcpSocket.connect_born (hnext : w.next = s) (hs : w.heap s = none) (ip : UInt32)
    (port : UInt16) (handler : Bool) :
    wp (watched s) (wakeful s) [] (connect ip port handler) (fun _ _ => Born s) h w := by
  rw [connect, wp_bind]
  refine wp_ask plain_wakeful rfl fun fd _ _ => ?_
  cases fd with
  | none => exact .inl hs
  | some fd =>
  obtain ⟨w', heffect, hnext, hs⟩ : ∃ w', Kernel.effect w (.socket .tcp) (some fd) = w' ∧
      w'.next = s ∧ w'.heap s = none := ⟨_, rfl, hnext, hs⟩
  rw [heffect]
  dsimp only
  rw [wp_bind]
  refine wp_ask_idle plain_wakeful rfl fun nonblock _ _ => ?_
  split
  · exact .inl hs
  rw [wp_bind]
  refine wp_ask_idle plain_wakeful rfl fun ret _ _ => ?_
  refine wp_create_watched hnext fun now isResending h w ho => ?_
  have hclose : ∀ {h}, wp (watched s) (wakeful s) []
      (do close s; return none : NetM (Option SocketId)) (fun _ _ => Born s) h w :=
    wp_seq (closeSocket_new ho rfl) fun _ _ _ hw => hw
  have hadd : ∀ {h} (events : Interest) (f : Socket → Socket),
      (∀ w o, w.heap s = some o → o.output.size = 0 → o.type = .tcp → Registered w s o.fd events →
        Born s (w.put s (f o))) →
      wp (watched s) (wakeful s) [] (do
        let added ← EpollContainer.addSocket (some s) events
        if added then
          store s f
          return some s
        close s
        return none : NetM (Option SocketId)) (fun _ _ => Born s) h w := by
    intro h events f hf
    refine addSocket_registered ho (fun h => hclose) fun h w' ho hregistered => ?_
    exact wp_bind.mpr ((wp_store ho).mpr (hf w' _ ho rfl rfl hregistered))
  rcases ret with errno | _
  · by_cases hprogress : errno = .einprogress
    · subst hprogress
      exact hadd _ _ fun w o _ hempty htype hregistered =>
        .inr ⟨_, w.heap_put s _, htype, hempty, hregistered⟩
    · cases errno <;> first | exact hclose | exact absurd rfl hprogress
  · exact hadd _ _ fun w o _ hempty htype hregistered =>
      .inr ⟨_, w.heap_put s _, htype, .inl ⟨hempty, hregistered⟩⟩

/-- The listening socket `l` is closed when `accept` fails. -/
theorem closeSocket_listener (hs : w.heap s = none) {l : SocketId} (hl : Listens w l) :
    wp (watched s) (wakeful s) [] (closeSocket l) (fun _ _ => Born s) h w := by
  obtain ⟨o, ho, -, -⟩ := hl
  have hls : l ≠ s := by
    rintro rfl
    rw [hs] at ho
    cases ho
  refine wp_closeSocket_unborn plain_wakeful hs ho .inl ⟨fun c hc => ?_, .inl hs⟩
    fun h' w' hinv => ?_
  · rw [List.mem_singleton.mp hc]
    exact fun hnone => by simp [Callback.socket, ho] at hnone
  · obtain ⟨hlive, hnone | ⟨hctx, -⟩⟩ := hinv
    · exact ⟨hlive _ List.mem_cons_self, hnone⟩
    · exact absurd (hctx _ List.mem_cons_self) hls

/-- `Accept` creates the socket `s`, or nothing. -/
theorem TcpSocket.accept_born (hnext : w.next = s) (hs : w.heap s = none) {l : SocketId}
    (hl : Listens w l) :
    wp (watched s) (wakeful s) [] (accept l) (fun _ _ => Born s) h w := by
  obtain ⟨o, ho, -, -⟩ := id hl
  rw [accept, wp_bind, wp_load ho, wp_bind]
  refine wp_ask plain_wakeful rfl fun a _ _ => ?_
  rcases a with errno | ⟨afd, addr⟩
  · exact closeSocket_listener hs hl
  obtain ⟨w', heffect, hnext, hs, hl⟩ :
      ∃ w', Kernel.effect w (.accept o.fd) (.ok (afd, addr)) = w' ∧ w'.next = s ∧
        w'.heap s = none ∧ Listens w' l := ⟨_, rfl, hnext, hs, hl⟩
  rw [heffect]
  dsimp only
  rw [wp_bind]
  refine wp_ask_idle plain_wakeful rfl fun nonblock _ _ => ?_
  split
  · exact closeSocket_listener hs hl
  refine wp_create_watched hnext fun now isResending h w ho => ?_
  refine addSocket_registered ho (fun h => closeSocket_new ho rfl) fun h w' ho hregistered => ?_
  -- `EnableTcpNoDelay` comes after the registration, and may still close the socket
  have hborn : Born s w' := .inr ⟨_, ho, rfl, .inl ⟨rfl, hregistered⟩⟩
  refine wp_bind.mpr ?_
  rw [enableTcpNoDelay, wp_bind, wp_load ho]
  refine wp_ask_idle plain_wakeful rfl fun nodelay _ _ => ?_
  cases nodelay with
  | false => exact closeSocket_new ho rfl
  | true => exact hborn

end

/-! ## Runs -/

section

variable {s : SocketId} {ctx : List Callback} {h : List NetEvent} {w : World} {m : Method}
  {α : Type} {x : NetM α} {value : α → Value}

theorem Method.returning_awake (hctx : ∀ c ∈ ctx, c.socket = s)
    (hx : wp (watched s) (wakeful s) ctx x (fun _ _ => Awake s) h w) :
    wp (watched s) (wakeful s) ctx (returning x value)
      (fun v h' w' => (wakeful s).inv ctx (h' ++ [.returned m v]) w' ∧
        (wakeful s).rel ctx w w') h w :=
  wp_seq hx fun _ _ _ hw => ⟨hw.inv hctx, trivial⟩

theorem Method.returning_born
    (hx : wp (watched s) (wakeful s) [] x (fun _ _ => Born s) h w) :
    wp (watched s) (wakeful s) [] (returning x value)
      (fun v h' w' => (wakeful s).inv [] (h' ++ [.returned m v]) w' ∧
        (wakeful s).rel [] w w') h w := by
  refine wp_seq hx fun _ _ w' hw => ⟨?_, trivial⟩
  rcases hw with hnone | hawake
  · exact ⟨List.forall_mem_nil _, .inl hnone⟩
  · exact hawake.inv (List.forall_mem_nil _)

/-- A call of a method of `s`, which is open and does not listen. -/
theorem Method.body_awake (hctx : ∀ c ∈ ctx, c.socket = s) (hopen : .handleClose s ∉ ctx)
    (hw : Awake s w) (htarget : m.target = some s) :
    wp (watched s) (wakeful s) ctx (body m)
      (fun v h' w' => (wakeful s).inv ctx (h' ++ [.returned m v]) w' ∧
        (wakeful s).rel ctx w w') h w := by
  obtain ⟨o, ho, htype, hwakes⟩ := id hw
  cases m with
  | tcpListen | tcpConnect | udpListen | udpConnect | handleSockets => cases htarget
  | handleRead t =>
      cases htarget
      refine returning_awake hctx ?_
      rw [SocketBase.handleRead, wp_bind, wp_load ho, htype]
      dsimp only
      rw [TcpSocket.handleRead, wp_bind, wp_load ho]
      split
      case h_1 hlisten =>
        rw [Wakes, hlisten] at hwakes
        exact hwakes.elim
      case h_5 => exact hw
      all_goals exact TcpSocket.read_awake hctx hopen hw maxReadBuffSize
  | handleWrite t =>
      cases htarget
      refine returning_awake hctx ?_
      rw [SocketBase.handleWrite, wp_bind, wp_load ho, htype]
      exact TcpSocket.handleWrite_awake hctx hw
  | handleError t =>
      cases htarget
      refine returning_awake hctx ?_
      rw [SocketBase.handleError, wp_bind, wp_load ho, htype]
      exact closeSocket_awake hctx ho htype
  | handleTimeout t =>
      cases htarget
      refine returning_awake hctx ?_
      rw [SocketBase.handleTimeout, wp_bind, wp_load ho, htype]
      exact TcpSocket.handleTimeout_awake hctx hw
  | sendPacket t data =>
      cases htarget
      refine returning_awake hctx ?_
      rw [SocketBase.sendPacket, wp_bind, wp_load ho, htype]
      exact TcpSocket.sendPacket_awake hctx hw data
  | close t =>
      cases htarget
      refine returning_awake hctx ?_
      rw [SocketBase.close, wp_bind, wp_load ho, htype]
      exact closeSocket_awake hctx ho htype

/-- A call which creates `s`. -/
theorem Method.body_born (hnext : w.next = s) (hs : w.heap s = none)
    (hcreates : (∃ ip port handler, m = .tcpConnect ip port handler) ∨
      ∃ l, m = .handleRead l ∧ Listens w l) :
    wp (watched s) (wakeful s) [] (body m)
      (fun v h' w' => (wakeful s).inv [] (h' ++ [.returned m v]) w' ∧
        (wakeful s).rel [] w w') h w := by
  rcases hcreates with ⟨ip, port, handler, rfl⟩ | ⟨l, rfl, hl⟩
  · exact returning_born (TcpSocket.connect_born hnext hs ip port handler)
  · obtain ⟨o, ho, htype, hstate⟩ := id hl
    refine returning_born ?_
    rw [SocketBase.handleRead, wp_bind, wp_load ho, htype]
    dsimp only
    rw [TcpSocket.handleRead, wp_bind, wp_load ho, hstate]
    exact TcpSocket.accept_born hnext hs hl

end

theorem sound_wakeful {s : SocketId} : (wakeful s).Sound (watched s) Method.body where
  refl _ _ := trivial
  trans _ _ _ _ _ _ := trivial
  interferes := by
    intro ctx h w w' henv hinv
    obtain ⟨hlive, hheap, hregistered⟩ := henv
    obtain ⟨-, hs | ⟨hctx, o, ho, htype, hwakes⟩⟩ := hinv
    · exact ⟨⟨hlive, .inl (hheap.trans hs)⟩, trivial⟩
    · obtain ⟨hfind, hinterest⟩ := hregistered o ho
      refine ⟨⟨hlive, .inr ⟨hctx, o, hheap.trans ho, htype, ?_⟩⟩, trivial⟩
      exact hwakes.imp_right fun hw => hw.congr hfind hinterest
  methods := by
    intro ctx h w m henv hinv
    obtain ⟨hctx, hopen, hm⟩ := henv
    obtain ⟨hlive, hinv⟩ := hinv
    rcases hm with ⟨htarget, hborn⟩ | ⟨hnext, hs, hcreates⟩
    · obtain hnone | ⟨-, o, ho, htype, hclosing | hwakes⟩ := hinv
      · exact absurd hnone hborn
      · exact absurd hclosing hopen
      · exact Method.body_awake hctx hopen ⟨o, ho, htype, hwakes⟩ htarget
    -- no callback is running while `s` is created
    · obtain rfl : ctx = [] := by
        refine List.eq_nil_iff_forall_not_mem.mpr fun c hc => hlive c hc ?_
        rw [hctx c hc, hs]
      exact Method.body_born hnext hs hcreates

/-- In every run: when the application has control, and a socket which `Connect`
or `Accept` created is established and not being closed, the interest registered
for its descriptor contains writing if and only if there is output left, and then
the flag is set. -/
theorem write_interest_iff {s : SocketId} {w : World} (hs : w.heap s = none) {c : NetConfig}
    (hc : Reaches (watched s) Method.body (Config.start w) c) (hidle : c.running = none)
    (hopen : .handleClose s ∉ context c.suspended) {o : Socket} (ho : c.world.heap s = some o)
    (hstate : o.state = .accept ∨ o.state = .connected) :
    c.world.container.socketMap.find o.fd = some s ∧
      ∃ events, c.world.kernel.interest o.fd = some events ∧
        (events.write = true ↔ o.output.size ≠ 0) ∧
        (o.output.size ≠ 0 → o.isResending = true) := by
  obtain ⟨-, hnone | ⟨-, o', ho', -, hclosing | hwakes⟩⟩ :=
    Spec.inv_of_reaches sound_wakeful ⟨List.forall_mem_nil _, .inl hs⟩ hc hidle
  · rw [hnone] at ho
    cases ho
  · exact absurd hclosing hopen
  · cases ho.symm.trans ho'
    rcases hwakes.established hstate with
      ⟨hempty, hfind, hinterest⟩ | ⟨hleft, hresending, hfind, hinterest⟩
    · exact ⟨hfind, _, hinterest, by simp [Interest.readError, hempty],
        fun hne => absurd hempty hne⟩
    · exact ⟨hfind, _, hinterest, by simp [Interest.readWriteError, hleft.ne'], fun _ => hresending⟩

/-- The kernel takes four of six bytes. -/
def sendSome : NetConfig :=
  (Config.start (World.initial 8 Kernel.idle 0)).play Method.body (Obliging.answer ⟨true, [1], 4⟩)
    Kernel.effect 100 [.enter (.tcpConnect 1 2 true), .enter (.sendPacket 0 [1, 2, 3, 4, 5, 6])]

theorem reaches_sendSome :
    Reaches (watched 0) Method.body (Config.start (World.initial 8 Kernel.idle 0)) sendSome := by
  refine reaches_play (Obliging.answers _) ⟨⟨nofun, nofun, .inr ⟨rfl, rfl, .inl ⟨1, 2, true, rfl⟩⟩⟩,
    ⟨nofun, nofun, .inl ⟨rfl, Option.isSome_iff_ne_none.mp rfl⟩⟩, trivial⟩

theorem write_interest_iff_sendSome :
    ∃ o, sendSome.world.heap 0 = some o ∧ o.output.size = 2 ∧
      ∃ events, sendSome.world.kernel.interest o.fd = some events ∧
        (events.write = true ↔ o.output.size ≠ 0) ∧
        (o.output.size ≠ 0 → o.isResending = true) :=
  ⟨_, rfl, by rfl, (write_interest_iff rfl reaches_sendSome rfl nofun rfl (.inr rfl)).2⟩

end Net
end Deps
