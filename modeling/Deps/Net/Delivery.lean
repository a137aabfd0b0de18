import Deps.Lib.Endings
import Deps.Net.StreamRuns

/-!
# What is sent, to the byte

The payloads of the `SendPacket` calls which were not refused, in the order of the
calls.  What the kernel took and what the output holds are these payloads at any
time, also while the socket is being closed and inside `HandleClose`; a method
which is running has handed the kernel their beginning.
-/

namespace Deps
namespace Net

open Reentrant

/-! ## What a history says -/

/-- A call of `SendPacket` adds its payload, a refusal takes it back.  A call which is
refused makes no callback, so its payload is the last one. -/
def offer (offered : List (List UInt8)) : NetEvent → List (List UInt8)
  | .entered (.sendPacket _ data) => offered ++ [data]
  | .returned (.sendPacket _ _) (.bool false) => offered.dropLast
  | _ => offered

def offered (h : List NetEvent) : List (List UInt8) := h.foldl offer []

@[simp] theorem offered_concat (h : List NetEvent) (e : NetEvent) :
    offered (h ++ [e]) = offer (offered h) e := by
  simp [offered]

/-- Without new calls the payloads become fewer at most. -/
theorem foldl_offer_prefix {es : List NetEvent} (hes : ∀ m, .entered m ∉ es)
    (before : List (List UInt8)) : es.foldl offer before <+: before := by
  induction es generalizing before with
  | nil => exact List.prefix_rfl
  | cons e rest ih =>
      have hrest := ih (fun m hmem => hes m (List.mem_cons_of_mem _ hmem)) (offer before e)
      refine hrest.trans ?_
      unfold offer
      split
      · exact absurd List.mem_cons_self (hes _)
      · exact List.dropLast_prefix before
      · exact List.prefix_rfl

/-- Events with which the kernel takes nothing and no payload is added or taken back. -/
structure Still (e : NetEvent) : Prop where
  portion : portion e = []
  offer : ∀ before, offer before e = before

theorem Still.asked {q : Question} {a : Answer q} (hportion : Net.portion (.asked q a) = []) :
    Still (.asked q a) := ⟨hportion, fun _ => rfl⟩

theorem Still.called (c : Callback) : Still (.called c) := ⟨rfl, fun _ => rfl⟩

theorem Still.resumed (c : Callback) (r : Int) : Still (.resumed c r) := ⟨rfl, fun _ => rfl⟩

/-! ## The invariant -/

/-- What the kernel took, the output and `gap` are what the output held at first and
the payloads; `gap` is what `SendPacket` has not appended yet. -/
structure Delivering (out gap : List UInt8) (h : List NetEvent) (o : Socket) : Prop where
  established : Established o
  sends : taken h ++ o.output.content ++ gap = out ++ (offered h).flatten

namespace Delivering

variable {out gap : List UInt8} {h : List NetEvent} {o o' : Socket} {e : NetEvent}

theorem still (hd : Delivering out gap h o) (he : Still e) : Delivering out gap (h ++ [e]) o where
  established := hd.established
  sends := by
    rw [taken_concat, he.portion, List.append_nil, offered_concat, he.offer]
    exact hd.sends

theorem update (hd : Delivering out gap h o) (ho' : Established o')
    (houtput : o'.output = o.output) : Delivering out gap h o' :=
  ⟨ho', houtput ▸ hd.sends⟩

/-- A change of other fields. -/
theorem touched (hd : Delivering out gap h o) (htype : o'.type = o.type)
    (hstate : o'.state = o.state) (hinput : o'.input = o.input) (houtput : o'.output = o.output) :
    Delivering out gap h o' := by
  obtain ⟨ht, hs, hi, hm, ho⟩ := hd.established
  exact hd.update ⟨htype ▸ ht, hstate ▸ hs, hinput ▸ hi, hinput ▸ hm, houtput ▸ ho⟩ houtput

theorem closed (hd : Delivering out gap h o) (fd : Fd) :
    Delivering out gap (h ++ closeEvents fd) (World.closedFields o) := by
  have hdel : Still (.asked (.epollCtlDel fd) ()) := .asked rfl
  have hclose : Still (.asked (.close fd) ()) := .asked rfl
  refine Delivering.update (o := o) ?_ { hd.established with state := nofun } rfl
  rw [closeEvents]
  split
  · rw [List.append_cons]
    exact (hd.still hdel).still hclose
  · exact hd.still hdel

/-- `send` takes bytes from the front of the output. -/
theorem sent (hd : Delivering out gap h o) (fd : Fd) (n : Nat) :
    Delivering out gap (h ++ [.asked (.send fd o.output.content) (.ok n)])
      { o with output := o.output.erase 0 n false } where
  established := hd.established.erase_output n
  sends := by
    obtain ⟨-, hcontent, -⟩ := BlockBuffer.erase_spec hd.established.output (Nat.zero_le _) n false
    have htaken : taken (h ++ [.asked (.send fd o.output.content) (.ok n)]) =
        taken h ++ o.output.content.take n := taken_concat _ _
    have hrest := List.take_append_drop n o.output.content
    have hoffered : offered (h ++ [.asked (.send fd o.output.content) (.ok n)]) = offered h :=
      offered_concat _ _
    rw [htaken, hcontent, hoffered, List.append_assoc (taken h)]
    simpa [hrest] using hd.sends

/-- `SendPacket` appends its payload. -/
theorem appended {data : List UInt8} (hd : Delivering out data h o) (ho' : Established o')
    (houtput : o'.output.content = o.output.content ++ data) : Delivering out [] h o' where
  established := ho'
  sends := by
    rw [houtput, ← List.append_assoc, List.append_nil]
    exact hd.sends

/-- `SendPacket` is called. -/
theorem entered (hd : Delivering out [] h o) (s : SocketId) (data : List UInt8) :
    Delivering out data (h ++ [.entered (.sendPacket s data)]) o where
  established := hd.established
  sends := by
    have hsends := hd.sends
    rw [List.append_nil] at hsends
    have htaken : taken (h ++ [.entered (.sendPacket s data)]) = taken h ++ [] := taken_concat _ _
    have hoffered : offered (h ++ [.entered (.sendPacket s data)]) = offered h ++ [data] :=
      offered_concat _ _
    rw [htaken, hoffered, List.append_nil, hsends, List.flatten_append, List.flatten_singleton,
      List.append_assoc]

end Delivering

/-- `Delivering` of the object `s` in the world, which lives. -/
def InDelivery (s : SocketId) (out gap : List UInt8) (h : List NetEvent) (w : World) : Prop :=
  ∃ o, w.heap s = some o ∧ Delivering out gap h o

/-- A `SendPacket` which has been refused, and nothing has happened since it was called
which would have added a payload. -/
def Declined (s : SocketId) (out data : List UInt8) (h : List NetEvent) (w : World) : Prop :=
  InDelivery s out data h w ∧ ∃ before, offered h = before ++ [data]

def delivering (s : SocketId) (out : List UInt8) : NetSpec where
  inv _ h w := InDelivery s out [] h w
  rel _ _ _ := True
  check _ _ := True
  tolerated _ := False

theorem plain_delivering {returns : Callback → Int → Prop} {s : SocketId} {out : List UInt8} :
    Plain (solo s returns) (delivering s out) :=
  ⟨id, fun _ => trivial⟩

/-! ## The methods -/

section

variable {returns : Callback → Int → Prop} {s : SocketId} {out gap : List UInt8}
  {ctx : List Callback} {h : List NetEvent} {w : World} {o : Socket} {α : Type}

theorem InDelivery.put {o' : Socket} (hd : Delivering out gap h o') :
    InDelivery s out gap h (w.put s o') :=
  ⟨o', w.heap_put s o', hd⟩

theorem InDelivery.still (hw : InDelivery s out gap h w) {e : NetEvent} (he : Still e) :
    InDelivery s out gap (h ++ [e]) w := by
  obtain ⟨o, ho, hd⟩ := hw
  exact ⟨o, ho, hd.still he⟩

/-- A refusal takes the payload back. -/
theorem Declined.returned {data : List UInt8} (hw : Declined s out data h w) (t : SocketId) :
    InDelivery s out [] (h ++ [.returned (.sendPacket t data) (.bool false)]) w := by
  obtain ⟨⟨o, ho, hd⟩, before, hbefore⟩ := hw
  refine ⟨o, ho, hd.established, ?_⟩
  have hsends := hd.sends
  have htaken : taken (h ++ [.returned (.sendPacket t data) (.bool false)]) = taken h ++ [] :=
    taken_concat _ _
  have hoffered : offered (h ++ [.returned (.sendPacket t data) (.bool false)]) =
      (offered h).dropLast := offered_concat _ _
  rw [hbefore, List.flatten_append, List.flatten_singleton, ← List.append_assoc] at hsends
  rw [htaken, hoffered, hbefore, List.dropLast_concat, List.append_nil, List.append_nil]
  exact List.append_cancel_right hsends

theorem touch_delivery (hw : InDelivery s out [] h w) :
    wp (solo s returns) (delivering s out) ctx (touch s) (fun _ => InDelivery s out []) h w := by
  obtain ⟨o, ho, hd⟩ := hw
  refine wp_touch plain_delivering ho fun now => .put ?_
  have he : Still (.asked .time now) := .asked rfl
  exact (hd.still he).touched rfl rfl rfl rfl

theorem closeSocket_delivery (hw : InDelivery s out [] h w) :
    wp (solo s returns) (delivering s out) ctx (closeSocket s) (fun _ => InDelivery s out [])
      h w := by
  obtain ⟨o, ho, hd⟩ := hw
  refine wp_closeSocket plain_delivering ho (fun _ => ?_) (fun _ => ?_) fun _ r h' w' hinv _ => ?_
  · exact ⟨_, w.heap_closed s o, hd.closed o.fd⟩
  · exact ⟨o, ho, hd.still (.called _)⟩
  · -- what `HandleClose` has sent is in the output, or the kernel has it
    obtain ⟨o', ho', hd'⟩ := hinv
    exact ⟨o', ho', _, w'.heap_closed s o', (hd'.still (.resumed _ r)).closed o'.fd⟩

theorem modSocket_delivery (hw : InDelivery s out [] h w) (events : Interest) :
    wp (solo s returns) (delivering s out) ctx (EpollContainer.modSocket (some s) events)
      (fun _ => InDelivery s out []) h w := by
  obtain ⟨o, ho, hd⟩ := hw
  have he : ∀ b, Still (.asked (.epollCtlMod o.fd events) b) := fun b => .asked rfl
  exact EpollContainer.wp_modSocket plain_delivering ho (fun _ => ⟨o, ho, hd⟩)
    ⟨o, ho, hd.still (he false)⟩ fun _ _ => ⟨o, ho, hd.still (he true)⟩

namespace TcpSocket

theorem modOrClose_delivery (hw : InDelivery s out [] h w) (events : Interest) :
    wp (solo s returns) (delivering s out) ctx (modOrClose s events)
      (fun _ => InDelivery s out []) h w := by
  refine wp_seq (modSocket_delivery hw events) fun modified h w hw => ?_
  cases modified with
  | false => exact closeSocket_delivery hw
  | true => exact hw

theorem read_delivery (hw : InDelivery s out [] h w) (size : Nat) :
    wp (solo s returns) (delivering s out) ctx (read s size) (fun _ => InDelivery s out [])
      h w := by
  refine wp_seq (touch_delivery hw) fun _ h w hw => ?_
  obtain ⟨o, ho, hd⟩ := hw
  rw [wp_bind, wp_load ho, wp_bind]
  refine wp_ask_idle plain_delivering rfl fun a _ _ => ?_
  have he : Still (.asked (.recv o.fd size) a) := .asked rfl
  replace hd := hd.still he
  rcases a with errno | _ | ⟨b, rest⟩
  · dsimp only
    split
    · exact ⟨o, ho, hd⟩
    · exact closeSocket_delivery ⟨o, ho, hd⟩
  · exact closeSocket_delivery ⟨o, ho, hd⟩
  · dsimp only
    rw [wp_bind]
    refine wp_appendInput plain_delivering ho fun malloc => ?_
    have hmalloc : Still (.asked .malloc malloc) := .asked rfl
    have hd' := (hd.still hmalloc).update
      (hd.established.append_input malloc (b :: rest)) rfl
    rw [wp_bind, wp_load (w.heap_put s _)]
    split
    · refine ⟨⟨_, w.heap_put s _, hd'.still (.called _)⟩, fun r h' w' _ hinv _ => ?_⟩
      exact InDelivery.still hinv (.resumed _ r)
    · exact .put hd'

theorem write_delivery (hw : InDelivery s out [] h w) :
    wp (solo s returns) (delivering s out) ctx (write s) (fun _ => InDelivery s out []) h w := by
  refine wp_seq (touch_delivery hw) fun _ h w hw => ?_
  obtain ⟨o, ho, hd⟩ := hw
  rw [wp_bind, wp_load ho]
  split
  · exact ⟨o, ho, hd⟩
  rename_i hsize
  refine wp_writeLoop plain_delivering (InDelivery s out []) ?_ ?_ ?_ ?_ ⟨o, ho, hd⟩ ho
    (Nat.pos_of_ne_zero (by omega)) le_rfl
  · intro h w o n hw ho _ _ _
    obtain ⟨_, ho', hd⟩ := hw
    cases ho.symm.trans ho'
    exact .put (hd.sent o.fd n)
  · intro h w o n hw ho _ _ _
    obtain ⟨_, ho', hd⟩ := hw
    cases ho.symm.trans ho'
    have hsent := hd.sent o.fd n
    split
    · refine modOrClose_delivery (.put ?_) _
      exact hsent.touched rfl rfl rfl rfl
    · exact .put hsent
  · intro h w o hw _ _
    have he : Still (.asked (.send o.fd o.output.content) (.error .eagain)) := .asked rfl
    refine wp_mono (fun modified h w hw => ?_) (modSocket_delivery (hw.still he) _)
    split
    · obtain ⟨o, ho, hd⟩ := hw
      exact ⟨o, ho, .put (hd.touched rfl rfl rfl rfl)⟩
    · exact closeSocket_delivery hw
  · intro h w o errno hw _ _
    have he : Still (.asked (.send o.fd o.output.content) (.error errno)) := .asked rfl
    exact closeSocket_delivery (hw.still he)

/-- `SendPacket` appends its payload, or refuses it. -/
theorem sendPacket_delivery {data : List UInt8} (hw : Declined s out data h w) :
    wp (solo s returns) (delivering s out) ctx (sendPacket s data)
      (fun b h w => if b then InDelivery s out [] h w else Declined s out data h w) h w := by
  obtain ⟨⟨o, ho, hd⟩, before, hbefore⟩ := hw
  rw [sendPacket, wp_bind, wp_load ho]
  split
  · exact ⟨⟨o, ho, hd⟩, before, hbefore⟩
  split
  · rename_i hdata
    have hnil : data = [] := List.eq_nil_of_length_eq_zero (by omega)
    subst hnil
    exact ⟨o, ho, hd⟩
  rw [wp_bind]
  refine wp_ask_idle plain_delivering rfl fun malloc _ _ => ?_
  have he : Still (.asked .malloc malloc) := .asked rfl
  replace hd := hd.still he
  have hest := hd.established.append_output malloc data
  rcases BlockBuffer.append_cases hd.established.output malloc data with
    ⟨-, b', heq, -, hcontent, -⟩ | ⟨-, heq⟩
  · rw [heq] at hest ⊢
    dsimp only
    rw [wp_bind, wp_store ho]
    have hw : InDelivery s out [] (h ++ [.asked .malloc malloc])
        (w.put s { o with output := b' }) := .put (hd.appended hest hcontent)
    exact wp_seq (write_delivery hw) fun _ _ _ hw => hw
  · rw [heq]
    dsimp only
    rw [wp_bind, wp_store ho]
    have hoffered : offered (h ++ [.asked .malloc malloc]) = offered h := offered_concat _ _
    exact ⟨.put (hd.touched rfl rfl rfl rfl), before, hoffered.trans hbefore⟩

theorem handleWrite_delivery (hw : InDelivery s out [] h w) :
    wp (solo s returns) (delivering s out) ctx (handleWrite s) (fun _ => InDelivery s out [])
      h w := by
  obtain ⟨o, ho, hd⟩ := hw
  rw [handleWrite, wp_bind, wp_load ho]
  split
  case h_1 =>
    rw [wp_bind, wp_store ho]
    have hest : Established { o with state := .connected, timeout := 0 } :=
      { hd.established with state := fun hlisten => by cases hlisten }
    exact modOrClose_delivery (.put (hd.update hest rfl)) _
  case h_2 | h_3 => exact write_delivery ⟨o, ho, hd⟩
  all_goals exact ⟨o, ho, hd⟩

theorem handleTimeout_delivery (hw : InDelivery s out [] h w) :
    wp (solo s returns) (delivering s out) ctx (handleTimeout s) (fun _ => InDelivery s out [])
      h w := by
  rw [handleTimeout, wp_bind]
  refine wp_ask_idle plain_delivering rfl fun now _ _ => ?_
  have he : Still (.asked .time now) := .asked rfl
  replace hw := hw.still he
  obtain ⟨o, ho, hd⟩ := id hw
  rw [wp_bind, wp_load ho]
  split
  case h_4 | h_5 => exact hw
  all_goals
    split
    · exact closeSocket_delivery hw
    · exact hw

end TcpSocket

theorem Method.returning_delivery {x : NetM α} {value : α → Value} {m : Method}
    (hreturn : ∀ a, Still (.returned m (value a)))
    (hx : wp (solo s returns) (delivering s out) ctx x (fun _ => InDelivery s out []) h w) :
    wp (solo s returns) (delivering s out) ctx (returning x value)
      (fun v h' w' => (delivering s out).inv ctx (h' ++ [.returned m v]) w' ∧
        (delivering s out).rel ctx w w') h w :=
  wp_seq hx fun a _ _ hw => ⟨hw.still (hreturn a), trivial⟩

end

/-- Every method of the socket keeps account of what is sent. -/
theorem sound_delivering {returns : Callback → Int → Prop} {s : SocketId} {out : List UInt8} :
    (delivering s out).Sound (solo s returns) Method.body where
  refl _ _ := trivial
  trans _ _ _ _ _ _ := trivial
  interferes := by
    intro ctx h w w' hw hinv
    obtain ⟨o, ho, hd⟩ := hinv
    exact ⟨⟨o, hw.trans ho, hd⟩, trivial⟩
  methods := by
    intro ctx h w m hm hinv
    obtain ⟨o, ho, hd⟩ := id hinv
    have htype := hd.established.type
    cases m with
    | tcpListen | tcpConnect | udpListen | udpConnect | handleSockets => cases hm
    | handleRead t =>
        cases hm
        have hw : InDelivery s out [] (h ++ [.entered (.handleRead s)]) w :=
          InDelivery.still hinv ⟨rfl, fun _ => rfl⟩
        refine Method.returning_delivery (fun _ => ⟨rfl, fun _ => rfl⟩) ?_
        rw [SocketBase.handleRead, wp_bind, wp_load ho, htype]
        dsimp only
        rw [TcpSocket.handleRead, wp_bind, wp_load ho]
        split
        case h_1 hlisten => exact absurd hlisten hd.established.state
        case h_5 => exact hw
        all_goals exact TcpSocket.read_delivery hw maxReadBuffSize
    | handleWrite t =>
        cases hm
        refine Method.returning_delivery (fun _ => ⟨rfl, fun _ => rfl⟩) ?_
        rw [SocketBase.handleWrite, wp_bind, wp_load ho, htype]
        exact TcpSocket.handleWrite_delivery (InDelivery.still hinv ⟨rfl, fun _ => rfl⟩)
    | handleError t =>
        cases hm
        refine Method.returning_delivery (fun _ => ⟨rfl, fun _ => rfl⟩) ?_
        rw [SocketBase.handleError, wp_bind, wp_load ho, htype]
        exact closeSocket_delivery (InDelivery.still hinv ⟨rfl, fun _ => rfl⟩)
    | handleTimeout t =>
        cases hm
        refine Method.returning_delivery (fun _ => ⟨rfl, fun _ => rfl⟩) ?_
        rw [SocketBase.handleTimeout, wp_bind, wp_load ho, htype]
        exact TcpSocket.handleTimeout_delivery (InDelivery.still hinv ⟨rfl, fun _ => rfl⟩)
    | close t =>
        cases hm
        refine Method.returning_delivery (fun _ => ⟨rfl, fun _ => rfl⟩) ?_
        rw [SocketBase.close, wp_bind, wp_load ho, htype]
        exact closeSocket_delivery (InDelivery.still hinv ⟨rfl, fun _ => rfl⟩)
    | sendPacket t data =>
        cases hm
        have hoffered : offered (h ++ [.entered (.sendPacket s data)]) = offered h ++ [data] :=
          offered_concat _ _
        have hx : wp (solo s returns) (delivering s out) ctx (SocketBase.sendPacket s data)
            (fun b h w => if b then InDelivery s out [] h w else Declined s out data h w)
            (h ++ [.entered (.sendPacket s data)]) w := by
          rw [SocketBase.sendPacket, wp_bind, wp_load ho, htype]
          exact TcpSocket.sendPacket_delivery ⟨⟨o, ho, hd.entered s data⟩, _, hoffered⟩
        refine wp_seq hx fun b h' w' hw' => ?_
        cases b with
        | false => exact ⟨Declined.returned hw' s, trivial⟩
        | true => exact ⟨InDelivery.still hw' ⟨rfl, fun _ => rfl⟩, trivial⟩

/-- An established socket, before any of its methods is called. -/
theorem delivering_initial {s : SocketId} {w : World} {o : Socket} (hs : w.heap s = some o)
    (ho : Established o) : (delivering s o.output.content).inv [] [] w :=
  ⟨o, hs, ho, by simp [taken, offered]⟩

/-- At any point of a run, also inside a method, the kernel has taken the beginning of
what the output held at first and the payloads. -/
theorem taken_begins {s : SocketId} {w : World} {o : Socket} (hs : w.heap s = some o)
    (ho : Established o) {returns : Callback → Int → Prop} {c : NetConfig}
    (hc : Reaches (solo s returns) Method.body (Config.start w) c) :
    taken c.history <+: o.output.content ++ (offered c.history).flatten := by
  have hinit := delivering_initial hs ho
  have hidle : ∀ {c : NetConfig}, Reaches (solo s returns) Method.body (Config.start w) c →
      c.running = none →
      taken c.history <+: o.output.content ++ (offered c.history).flatten := by
    intro c hc hidle
    obtain ⟨o', -, -, hsends⟩ := Spec.inv_of_reaches sound_delivering hinit hc hidle
    rw [List.append_nil] at hsends
    exact hsends ▸ List.prefix_append _ _
  obtain ⟨h, w', _ | ⟨m, x⟩, fs⟩ := c
  · exact hidle hc rfl
  have hanswers : ∀ w q, ∃ a w', (solo s returns).answers w q a w' :=
    fun w q => ⟨_, _, Obliging.answers ⟨true, [], 0⟩ w q⟩
  -- let the method go on: it takes more, and a refusal makes the payloads fewer
  obtain ⟨c', es, hreaches, hhistory, hes, hstop | ⟨why, hfault⟩⟩ :
      ∃ c' es, Reaches (solo s returns) Method.body ⟨h, w', some (m, x), fs⟩ c' ∧
        c'.history = h ++ es ∧ (∀ m', .entered m' ∉ es) ∧
        (c'.running = none ∨ ∃ why, c'.running = some (m, .fault why)) :=
    exists_idle_extension hanswers x m h w'
  · have hend := hidle (hc.trans hreaches) hstop
    rw [hhistory] at hend
    have htaken : taken h <+: taken (h ++ es) := by simp [taken]
    have hoffered : offered (h ++ es) <+: offered h := by
      rw [offered, List.foldl_append]
      exact foldl_offer_prefix hes _
    exact (htaken.trans hend).trans
      ((List.prefix_append_right_inj _).mpr hoffered.flatten)
  · exact (Spec.tolerated_of_reaches sound_delivering hinit (hc.trans hreaches) hfault).elim

end Net
end Deps
