import Deps.Net.Connection

/-!
# Nothing waits without a reason

`Write` goes on until the output is empty or the kernel refuses, and `Read` calls the
handler before it returns.  So whenever the application has control, bytes are left in
the output of an open socket only when the last answer of `send` was `EAGAIN`, and the
handler has seen everything which `recv` has delivered.
-/

namespace Deps
namespace Net

open Reentrant

/-! ## What a history says -/

/-- The answer of `send` is noted. -/
def note (last : Option (Except Errno Nat)) : NetEvent → Option (Except Errno Nat)
  | .asked (.send _ _) a => some a
  | _ => last

/-- How `send` has answered last. -/
def lastSend (h : List NetEvent) : Option (Except Errno Nat) := h.foldl note none

/-- `HandlePacket` sees all of the input, `recv` adds to what it has not seen. -/
def overlook (unseen : List UInt8) : NetEvent → List UInt8
  | .called (.handlePacket _ _) => []
  | .asked (.recv _ _) (.ok bytes) => unseen ++ bytes
  | _ => unseen

/-- What has been delivered after the last call of `HandlePacket`. -/
def unseen (h : List NetEvent) : List UInt8 := h.foldl overlook []

theorem lastSend_concat (h : List NetEvent) (e : NetEvent) :
    lastSend (h ++ [e]) = note (lastSend h) e := by
  simp [lastSend]

theorem unseen_concat (h : List NetEvent) (e : NetEvent) :
    unseen (h ++ [e]) = overlook (unseen h) e := by
  simp [unseen]

/-- Events which are about neither. -/
structure Unnoted (e : NetEvent) : Prop where
  note : ∀ last, note last e = last
  overlook : ∀ before, overlook before e = before

theorem Unnoted.entered (m : Method) : Unnoted (.entered m) := ⟨fun _ => rfl, fun _ => rfl⟩

theorem Unnoted.returned (m : Method) (v : Value) : Unnoted (.returned m v) :=
  ⟨fun _ => rfl, fun _ => rfl⟩

theorem Unnoted.resumed (c : Callback) (r : Int) : Unnoted (.resumed c r) :=
  ⟨fun _ => rfl, fun _ => rfl⟩

/-- What has been delivered was seen by some call of the handler, after which nothing
more was delivered. -/
theorem exists_called_of_unseen {h : List NetEvent} (hseen : unseen h = [])
    (hreceived : received h ≠ []) :
    ∃ h₁ x data h₂, h = h₁ ++ .called (.handlePacket x data) :: h₂ ∧ received h₂ = [] := by
  -- either no call has been made, and what was delivered is all there
  have hsplit : ∀ h : List NetEvent, unseen h = received h ∨
      ∃ h₁ x data h₂, h = h₁ ++ .called (.handlePacket x data) :: h₂ ∧
        received h₂ = unseen h := by
    intro h
    induction h using List.reverseRecOn with
    | nil => exact .inl rfl
    | append_singleton h e ih =>
        rw [unseen_concat, received_concat]
        unfold overlook
        split
        · exact .inr ⟨h, _, _, [], rfl, rfl⟩
        · rename_i fd size bytes
          rcases ih with heq | ⟨h₁, x, data, h₂, rfl, heq⟩
          · exact .inl (congrArg (· ++ bytes) heq)
          · refine .inr ⟨h₁, x, data, h₂ ++ [.asked (.recv fd size) (.ok bytes)], by simp, ?_⟩
            rw [received_concat, heq]
            rfl
        · rename_i hcalled hrecv
          have hchunk : chunk e = [] := by
            unfold chunk
            split
            · exact absurd rfl (hrecv _ _ _)
            · rfl
          rw [hchunk, List.append_nil]
          rcases ih with heq | ⟨h₁, x, data, h₂, rfl, heq⟩
          · exact .inl heq
          · refine .inr ⟨h₁, x, data, h₂ ++ [e], by simp, ?_⟩
            rw [received_concat, hchunk, List.append_nil, heq]
  rcases hsplit h with heq | ⟨h₁, x, data, h₂, heq, hrest⟩
  · exact absurd (heq.symm.trans hseen) hreceived
  · exact ⟨h₁, x, data, h₂, heq, hrest.trans hseen⟩

/-! ## The invariant -/

/-- A socket with or without a handler, which has seen what was delivered. -/
structure Attended (handler : Bool) (h : List NetEvent) (o : Socket) : Prop where
  type : o.type = .tcp
  state : o.state ≠ .listen
  handler_eq : o.handler = handler
  seen : handler = true → unseen h = []

/-- The output of a socket which is not being closed is empty, or the kernel takes no
more of it. -/
def Drains (s : SocketId) (ctx : List Callback) (h : List NetEvent) (o : Socket) : Prop :=
  .handleClose s ∈ ctx ∨ o.state = .close ∨ o.output.size = 0 ∨
    lastSend h = some (.error .eagain)

namespace Attended

variable {handler : Bool} {h : List NetEvent} {o : Socket} {e : NetEvent}

theorem overlooked (ha : Attended handler h o) (he : ∀ before, overlook before e = before) :
    Attended handler (h ++ [e]) o where
  type := ha.type
  state := ha.state
  handler_eq := ha.handler_eq
  seen hhandler := by
    rw [unseen_concat, he]
    exact ha.seen hhandler

/-- A change of other fields. -/
theorem update (ha : Attended handler h o) (o' : Socket) (htype : o'.type = o.type)
    (hstate : o'.state ≠ .listen) (hhandler : o'.handler = o.handler) : Attended handler h o' :=
  ⟨htype.trans ha.type, hstate, hhandler.trans ha.handler_eq, ha.seen⟩

theorem closed (ha : Attended handler h o) (fd : Fd) :
    Attended handler (h ++ closeEvents fd) (World.closedFields o) := by
  have hdel : Attended handler (h ++ [.asked (.epollCtlDel fd) ()]) o :=
    ha.overlooked fun _ => rfl
  refine Attended.update (o := o) ?_ _ rfl (by simp [World.closedFields]) rfl
  rw [closeEvents]
  split
  · rw [List.append_cons]
    exact hdel.overlooked fun _ => rfl
  · exact hdel

end Attended

theorem Drains.unnoted {s : SocketId} {ctx : List Callback} {h : List NetEvent} {o : Socket}
    {e : NetEvent} (hd : Drains s ctx h o) (he : ∀ last, note last e = last) :
    Drains s ctx (h ++ [e]) o := by
  rw [Drains, lastSend_concat, he]
  exact hd

/-- `Attended` and `Drains` of the object `s` in the world, which lives. -/
def Prompt (handler : Bool) (s : SocketId) (ctx : List Callback) (h : List NetEvent) (w : World) :
    Prop :=
  ∃ o, w.heap s = some o ∧ Attended handler h o ∧ Drains s ctx h o

def prompt (handler : Bool) (s : SocketId) : NetSpec where
  inv := Prompt handler s
  rel _ _ _ := True
  check _ _ := True
  tolerated _ := False

theorem plain_prompt {returns : Callback → Int → Prop} {handler : Bool} {s : SocketId} :
    Plain (solo s returns) (prompt handler s) :=
  ⟨id, fun _ => trivial⟩

/-! ## The methods -/

section

variable {returns : Callback → Int → Prop} {handler : Bool} {s : SocketId} {ctx : List Callback}
  {h : List NetEvent} {w : World} {o : Socket} {α : Type}

theorem Prompt.unnoted (hw : Prompt handler s ctx h w) {e : NetEvent} (he : Unnoted e) :
    Prompt handler s ctx (h ++ [e]) w := by
  obtain ⟨o, ho, ha, hd⟩ := hw
  exact ⟨o, ho, ha.overlooked he.overlook, hd.unnoted he.note⟩

/-- `Close`, at any point of a method. -/
theorem closeSocket_prompt (ho : w.heap s = some o) (ha : Attended handler h o) :
    wp (solo s returns) (prompt handler s) ctx (closeSocket s) (fun _ => Prompt handler s ctx)
      h w := by
  refine wp_closeSocket plain_prompt ho (fun _ => ?_) (fun _ => ?_) fun _ r h' w' hinv _ => ?_
  · exact ⟨_, w.heap_closed s o, ha.closed o.fd, .inr (.inl rfl)⟩
  · exact ⟨o, ho, ha.overlooked fun _ => rfl, .inl List.mem_cons_self⟩
  · obtain ⟨o', ho', ha', -⟩ := hinv
    have hresumed := ha'.overlooked (e := .resumed (.handleClose s) r) fun _ => rfl
    exact ⟨o', ho', _, w'.heap_closed s o', hresumed.closed o'.fd, .inr (.inl rfl)⟩

namespace TcpSocket

theorem modOrClose_prompt (hw : Prompt handler s ctx h w) (events : Interest) :
    wp (solo s returns) (prompt handler s) ctx (modOrClose s events)
      (fun _ => Prompt handler s ctx) h w := by
  obtain ⟨o, ho, ha, hd⟩ := hw
  have hmod : ∀ b, Unnoted (.asked (.epollCtlMod o.fd events) b) :=
    fun b => ⟨fun _ => rfl, fun _ => rfl⟩
  rw [modOrClose, wp_bind]
  refine EpollContainer.wp_modSocket plain_prompt ho (fun _ => ?_) ?_ fun _ _ => ?_
  · exact closeSocket_prompt ho ha
  · exact closeSocket_prompt ho (ha.overlooked (hmod false).overlook)
  · exact ⟨o, ho, ha.overlooked (hmod true).overlook, hd.unnoted (hmod true).note⟩

/-- What is delivered is seen before the method returns. -/
theorem read_prompt (hw : Prompt handler s ctx h w) (size : Nat) :
    wp (solo s returns) (prompt handler s) ctx (read s size) (fun _ => Prompt handler s ctx)
      h w := by
  obtain ⟨o, ho, ha, hd⟩ := hw
  rw [read, wp_bind]
  refine wp_touch plain_prompt ho fun now => ?_
  have htime : Unnoted (.asked .time now) := ⟨fun _ => rfl, fun _ => rfl⟩
  replace ha := ha.overlooked htime.overlook
  replace hd := hd.unnoted htime.note
  rw [wp_bind, wp_load (w.heap_put s _), wp_bind]
  refine wp_ask_idle plain_prompt rfl fun a _ _ => ?_
  rcases a with errno | _ | ⟨b, rest⟩
  · have he : Unnoted (.asked (.recv o.fd size) (.error errno)) := ⟨fun _ => rfl, fun _ => rfl⟩
    have ha' := (ha.overlooked he.overlook).update { o with lastAccessTime := now }
      rfl ha.state rfl
    dsimp only
    split
    · exact ⟨_, w.heap_put s _, ha', hd.unnoted he.note⟩
    · exact closeSocket_prompt (w.heap_put s _) ha'
  · have hnone : ∀ before, overlook before (.asked (.recv o.fd size) (.ok [])) = before :=
      fun before => List.append_nil before
    exact closeSocket_prompt (w.heap_put s _)
      ((ha.overlooked hnone).update _ rfl ha.state rfl)
  · dsimp only
    rw [wp_bind]
    refine wp_appendInput plain_prompt (w.heap_put s _) fun malloc => ?_
    have hrecv : ∀ last, note last (.asked (.recv o.fd size) (.ok (b :: rest))) = last :=
      fun _ => rfl
    have hmalloc : ∀ last, note last (.asked .malloc malloc) = last := fun _ => rfl
    replace hd := (hd.unnoted hrecv).unnoted hmalloc
    rw [wp_bind, wp_load ((w.put s _).heap_put s _)]
    split
    · -- the call of the handler
      refine ⟨⟨_, (w.put s _).heap_put s _, ⟨ha.type, ha.state, ha.handler_eq, fun _ => ?_⟩, ?_⟩,
        fun r h' w' _ hinv _ => ?_⟩
      · rw [unseen_concat]
        rfl
      · exact (hd.unnoted fun _ => rfl).imp_left (List.mem_cons_of_mem _)
      · obtain ⟨o', ho', ha', hd'⟩ := hinv
        refine ⟨o', ho', ha'.overlooked fun _ => rfl, (hd'.unnoted fun _ => rfl).imp_left ?_⟩
        exact fun hmem => (List.mem_cons.mp hmem).resolve_left (fun heq => by cases heq)
    · rename_i hnone
      refine ⟨_, (w.put s _).heap_put s _, ⟨ha.type, ha.state, ha.handler_eq, fun hsome => ?_⟩, hd⟩
      exact absurd (ha.handler_eq.trans hsome) hnone

/-- `Write` ends with an empty output, or with a refusal of the kernel. -/
theorem write_prompt (ho : w.heap s = some o) (ha : Attended handler h o) :
    wp (solo s returns) (prompt handler s) ctx (write s) (fun _ => Prompt handler s ctx) h w := by
  rw [write, wp_bind]
  refine wp_touch plain_prompt ho fun now => ?_
  replace ha := (ha.overlooked (e := .asked .time now) fun _ => rfl).update
    { o with lastAccessTime := now } rfl ha.state rfl
  rw [wp_bind, wp_load (w.heap_put s _)]
  split
  · rename_i hsize
    exact ⟨_, w.heap_put s _, ha, .inr (.inr (.inl (Nat.lt_one_iff.mp hsize)))⟩
  rename_i hsize
  refine wp_writeLoop plain_prompt (fun h w => ∃ o, w.heap s = some o ∧ Attended handler h o)
    ?_ ?_ ?_ ?_ ⟨_, w.heap_put s _, ha⟩ (w.heap_put s _) (Nat.pos_of_ne_zero (by omega)) le_rfl
  · intro h w o n hw ho _ _ _
    obtain ⟨_, ho', ha⟩ := hw
    cases ho.symm.trans ho'
    exact ⟨_, w.heap_put s _, (ha.overlooked fun _ => rfl).update _ rfl ha.state rfl⟩
  · intro h w o n hw ho _ _ hdone
    obtain ⟨_, ho', ha⟩ := hw
    cases ho.symm.trans ho'
    have hempty : (o.output.erase 0 n false).size = 0 := by
      rw [BlockBuffer.size_erase_front]
      omega
    have ha' := ha.overlooked (e := .asked (.send o.fd o.output.content) (.ok n)) fun _ => rfl
    split
    · refine modOrClose_prompt ?_ _
      exact ⟨_, w.heap_put s _, ha'.update _ rfl ha.state rfl, .inr (.inr (.inl hempty))⟩
    · exact ⟨_, w.heap_put s _, ha'.update _ rfl ha.state rfl, .inr (.inr (.inl hempty))⟩
  · intro h w o hw ho _
    obtain ⟨_, ho', ha⟩ := hw
    cases ho.symm.trans ho'
    have ha' := ha.overlooked (e := .asked (.send o.fd o.output.content) (.error .eagain))
      fun _ => rfl
    have hlast : lastSend (h ++ [.asked (.send o.fd o.output.content) (.error .eagain)]) =
        some (.error .eagain) := lastSend_concat _ _
    have hmod : ∀ b, Unnoted (.asked (.epollCtlMod o.fd .readWriteError) b) :=
      fun b => ⟨fun _ => rfl, fun _ => rfl⟩
    refine EpollContainer.wp_modSocket plain_prompt ho (fun _ => ?_) ?_ fun _ _ => ?_
    · exact closeSocket_prompt ho ha'
    · exact closeSocket_prompt ho (ha'.overlooked (hmod false).overlook)
    · refine ⟨o, ho, _, World.heap_put _ s _,
        (ha'.overlooked (hmod true).overlook).update _ rfl ha.state rfl, ?_⟩
      refine .inr (.inr (.inr ?_))
      rw [lastSend_concat, (hmod true).note, hlast]
  · intro h w o errno hw ho _
    obtain ⟨_, ho', ha⟩ := hw
    cases ho.symm.trans ho'
    exact closeSocket_prompt ho (ha.overlooked fun _ => rfl)

theorem sendPacket_prompt (hw : Prompt handler s ctx h w) (data : List UInt8) :
    wp (solo s returns) (prompt handler s) ctx (sendPacket s data)
      (fun _ => Prompt handler s ctx) h w := by
  obtain ⟨o, ho, ha, hd⟩ := id hw
  rw [sendPacket, wp_bind, wp_load ho]
  split
  · exact hw
  split
  · exact hw
  rw [wp_bind]
  refine wp_ask_idle plain_prompt rfl fun malloc _ _ => ?_
  have he : Unnoted (.asked .malloc malloc) := ⟨fun _ => rfl, fun _ => rfl⟩
  replace ha := ha.overlooked he.overlook
  rcases BlockBuffer.append_size malloc o.output data with heq | ⟨b', heq, -⟩
  · rw [heq]
    dsimp only
    rw [wp_bind, wp_store ho]
    exact ⟨_, w.heap_put s _, ha.update _ rfl ha.state rfl, hd.unnoted he.note⟩
  · rw [heq]
    dsimp only
    rw [wp_bind, wp_store ho]
    exact wp_seq (write_prompt (w.heap_put s _) (ha.update _ rfl ha.state rfl)) fun _ _ _ hw => hw

theorem handleWrite_prompt (hw : Prompt handler s ctx h w) :
    wp (solo s returns) (prompt handler s) ctx (handleWrite s) (fun _ => Prompt handler s ctx)
      h w := by
  obtain ⟨o, ho, ha, hd⟩ := id hw
  rw [handleWrite, wp_bind, wp_load ho]
  split
  case h_1 hconnecting =>
    rw [wp_bind, wp_store ho]
    have ha' := ha.update { o with state := .connected, timeout := 0 } rfl
      (fun hlisten => by cases hlisten) rfl
    refine modOrClose_prompt ⟨_, w.heap_put s _, ha', hd.imp_right (Or.imp_left ?_)⟩ _
    exact fun hclose => absurd (hconnecting.symm.trans hclose) (fun heq => by cases heq)
  case h_2 | h_3 => exact write_prompt ho ha
  all_goals exact hw

theorem handleTimeout_prompt (hw : Prompt handler s ctx h w) :
    wp (solo s returns) (prompt handler s) ctx (handleTimeout s)
      (fun _ => Prompt handler s ctx) h w := by
  rw [handleTimeout, wp_bind]
  refine wp_ask_idle plain_prompt rfl fun now _ _ => ?_
  have htime : Unnoted (.asked .time now) := ⟨fun _ => rfl, fun _ => rfl⟩
  replace hw := hw.unnoted htime
  obtain ⟨o, ho, ha, -⟩ := id hw
  rw [wp_bind, wp_load ho]
  split
  case h_4 | h_5 => exact hw
  all_goals
    split
    · exact closeSocket_prompt ho ha
    · exact hw

end TcpSocket

theorem Method.returning_prompt {x : NetM α} {value : α → Value} {m : Method}
    (hx : wp (solo s returns) (prompt handler s) ctx x (fun _ => Prompt handler s ctx) h w) :
    wp (solo s returns) (prompt handler s) ctx (returning x value)
      (fun v h' w' => (prompt handler s).inv ctx (h' ++ [.returned m v]) w' ∧
        (prompt handler s).rel ctx w w') h w :=
  wp_seq hx fun _ _ _ hw => ⟨hw.unnoted (.returned m _), trivial⟩

end

/-- Every method of the socket leaves nothing behind. -/
theorem sound_prompt {returns : Callback → Int → Prop} {handler : Bool} {s : SocketId} :
    (prompt handler s).Sound (solo s returns) Method.body where
  refl _ _ := trivial
  trans _ _ _ _ _ _ := trivial
  interferes := by
    intro ctx h w w' hw hinv
    obtain ⟨o, ho, ha, hd⟩ := hinv
    exact ⟨⟨o, hw.trans ho, ha, hd⟩, trivial⟩
  methods := by
    intro ctx h w m hm hinv
    have hw : Prompt handler s ctx (h ++ [.entered m]) w := Prompt.unnoted hinv (.entered m)
    obtain ⟨o, ho, ha, -⟩ := id hw
    cases m with
    | tcpListen | tcpConnect | udpListen | udpConnect | handleSockets => cases hm
    | handleRead t =>
        cases hm
        refine Method.returning_prompt ?_
        rw [SocketBase.handleRead, wp_bind, wp_load ho, ha.type]
        dsimp only
        rw [TcpSocket.handleRead, wp_bind, wp_load ho]
        split
        case h_1 hlisten => exact absurd hlisten ha.state
        case h_5 => exact hw
        all_goals exact TcpSocket.read_prompt hw maxReadBuffSize
    | handleWrite t =>
        cases hm
        refine Method.returning_prompt ?_
        rw [SocketBase.handleWrite, wp_bind, wp_load ho, ha.type]
        exact TcpSocket.handleWrite_prompt hw
    | handleError t =>
        cases hm
        refine Method.returning_prompt ?_
        rw [SocketBase.handleError, wp_bind, wp_load ho, ha.type]
        exact closeSocket_prompt ho ha
    | handleTimeout t =>
        cases hm
        refine Method.returning_prompt ?_
        rw [SocketBase.handleTimeout, wp_bind, wp_load ho, ha.type]
        exact TcpSocket.handleTimeout_prompt hw
    | close t =>
        cases hm
        refine Method.returning_prompt ?_
        rw [SocketBase.close, wp_bind, wp_load ho, ha.type]
        exact closeSocket_prompt ho ha
    | sendPacket t data =>
        cases hm
        refine Method.returning_prompt ?_
        rw [SocketBase.sendPacket, wp_bind, wp_load ho, ha.type]
        exact TcpSocket.sendPacket_prompt hw data

/-- An established socket without output, before any of its methods is called. -/
theorem prompt_initial {s : SocketId} {w : World} {o : Socket} (hs : w.heap s = some o)
    (ho : Established o) (hempty : o.output.size = 0) :
    (prompt o.handler s).inv [] [] w :=
  ⟨o, hs, ⟨ho.type, ho.state, rfl, fun _ => rfl⟩, .inr (.inr (.inl hempty))⟩

/-! ## Both ends -/

theorem Clean.of_append {inp : List UInt8} {h₁ h₂ : List NetEvent} (hclean : Clean inp (h₁ ++ h₂)) :
    Clean inp h₁ := by
  induction h₂ using List.reverseRecOn with
  | nil => rwa [List.append_nil] at hclean
  | append_singleton h₂ e ih =>
      rw [← List.append_assoc] at hclean
      exact ih hclean.of_concat

section

variable {s t : SocketId} {w v : World} {o p : Socket} {returns returns' : Callback → Int → Prop}

/-- The kernel has everything, unless the socket is closed or `send` has been refused. -/
theorem taken_of_prompt (hs : w.heap s = some o) (ho : Established o)
    (hout : o.output.content = []) {c : NetConfig}
    (hc : Reaches (solo s returns) Method.body (Config.start w) c) (hidle : c.running = none)
    (hopen : .handleClose s ∉ context c.suspended)
    (hstate : ∀ o', c.world.heap s = some o' → o'.state ≠ .close)
    (hlast : lastSend c.history ≠ some (.error .eagain)) :
    taken c.history = (offered c.history).flatten := by
  obtain ⟨o', ho', hdelivering⟩ :=
    Spec.inv_of_reaches sound_delivering (delivering_initial hs ho) hc hidle
  have hzero : o.output.size = 0 := by
    rw [← ho.output.length_content, hout]
    rfl
  obtain ⟨o'', ho'', -, hdrains⟩ :=
    Spec.inv_of_reaches sound_prompt (prompt_initial hs ho hzero) hc hidle
  cases ho'.symm.trans ho''
  have hempty : o'.output.content = [] := by
    rcases hdrains with hclosing | hclosed | hdrained | heagain
    · exact absurd hclosing hopen
    · exact absurd hclosed (hstate o' ho')
    · refine List.eq_nil_of_length_eq_zero ?_
      rw [hdelivering.established.output.length_content, hdrained]
    · exact absurd heagain hlast
  have hsends := hdelivering.sends
  rwa [hempty, hout, List.append_nil, List.append_nil, List.nil_append] at hsends

/-- The handler has been given everything which was received. -/
theorem handed_all (ht : v.heap t = some p) (hp : Established p) (hzero : p.output.size = 0)
    (hhandler : p.handler = true) {c : NetConfig}
    (hc : Reaches (solo t returns) Method.body (Config.start v) c) (hidle : c.running = none)
    (hclean : Clean p.input.content c.history) (hreceived : received c.history ≠ []) :
    ∃ h₁ x h₂, c.history =
      h₁ ++ .called (.handlePacket x (p.input.content ++ received c.history)) :: h₂ := by
  obtain ⟨_, -, hattended, -⟩ :=
    Spec.inv_of_reaches sound_prompt (prompt_initial ht hp hzero) hc hidle
  obtain ⟨h₁, x, data, h₂, hhistory, hrest⟩ :=
    exists_called_of_unseen (hattended.seen hhandler) hreceived
  have hbefore : Clean p.input.content h₁ := by
    rw [hhistory] at hclean
    exact hclean.of_append
  have hdata : data = p.input.content ++ received h₁ :=
    handed_received ht hp hc hhistory hbefore
  have hall : received c.history = received h₁ := by
    rw [hhistory, received, List.flatMap_append, List.flatMap_cons]
    change received h₁ ++ ([] ++ received h₂) = received h₁
    rw [hrest, List.append_nil, List.append_nil]
  exact ⟨h₁, x, h₂, by rw [hall, ← hdata, hhistory]⟩

/-- **Bytes which nobody holds back arrive.**  While the connection is there: what was
offered to an open socket has arrived or is under way, unless the kernel has refused the
last bytes; and when nothing is under way, the handler at the other end has been given
all of it. -/
theorem connection_delivers (hs : w.heap s = some o) (ho : Established o)
    (hout : o.output.content = []) (ht : v.heap t = some p) (hp : Established p)
    (hback : p.output.content = []) {c : Link.Config NetConfig NetConfig UInt8}
    (hc : Link.Reaches (endpoint s returns) (endpoint t returns') (connection w v) c)
    (hthere : c.lost = false) (hidle : c.near.running = none)
    (hopen : .handleClose s ∉ context c.near.suspended)
    (hstate : ∀ o', c.near.world.heap s = some o' → o'.state ≠ .close)
    (hlast : lastSend c.near.history ≠ some (.error .eagain)) :
    received c.far.history ++ c.outbound = (offered c.near.history).flatten ∧
      (c.outbound = [] → c.far.running = none → p.handler = true →
        Clean p.input.content c.far.history → (offered c.near.history).flatten ≠ [] →
        ∃ h₁ x h₂, c.far.history = h₁ ++ .called (.handlePacket x
          (p.input.content ++ (offered c.near.history).flatten)) :: h₂) := by
  have hinOrder : received c.far.history ++ c.outbound = taken c.near.history :=
    (hc.inOrder rfl rfl).whole hthere
  have hall : received c.far.history ++ c.outbound = (offered c.near.history).flatten :=
    hinOrder.trans (taken_of_prompt hs ho hout hc.near hidle hopen hstate hlast)
  refine ⟨hall, fun hnothing hfar hhandler hclean hsome => ?_⟩
  rw [hnothing, List.append_nil] at hall
  rw [← hall] at hsome ⊢
  have hzero : p.output.size = 0 := by
    rw [← hp.output.length_content, hback]
    rfl
  exact handed_all ht hp hzero hhandler hc.far hfar hclean hsome

end

/-- The theorem, for the run in which a frame is sent and received. -/
theorem connection_delivers_received :
    received receiver.history ++ [] = (offered sender.history).flatten ∧
      ∃ h₁ x h₂, receiver.history = h₁ ++ .called (.handlePacket x
        ([] ++ (offered sender.history).flatten)) :: h₂ := by
  have hopen : .handleClose 0 ∉ context sender.suspended := List.not_mem_nil
  have hstate : ∀ o', sender.world.heap 0 = some o' → o'.state ≠ .close := by
    intro o' ho'
    cases ho'
    decide
  obtain ⟨hall, hgiven⟩ := connection_delivers (show connectedWorld.heap 0 = some connectedSocket
    by rfl) established_connected (by rfl) (show connectedWorld.heap 0 = some connectedSocket
    by rfl) established_connected (by rfl) reaches_received rfl rfl hopen hstate (by decide)
  exact ⟨hall, hgiven rfl rfl rfl ⟨rfl, by decide⟩ (by decide)⟩

end Net
end Deps
