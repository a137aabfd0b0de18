import Deps.Lib.Endings
import Deps.Net.Lifetimes

/-!
# Where datagrams are sent

`SendPacket` of a `UdpSocket` hands `m_peerAddr` to `sendto`.  `Connect` assigns the
field, `Listen` does not, and `Read` keeps what `recvfrom` says about the sender in a
local variable.  `peerOf` is the address which a history makes the right one.
-/

namespace Deps
namespace Net

open Reentrant ObjectInv

/-! ## The other side -/

structure Peer where
  /-- whether the socket was created by `Listen` -/
  listening : Bool
  /-- where an answer belongs; there is none before the first datagram -/
  addr : Option SockAddr

/-- A listening socket answers the sender of the last datagram. -/
def Peer.hear (p : Peer) : NetEvent → Peer
  | .entered (.udpConnect ip port _) => ⟨false, some ⟨ip, port⟩⟩
  | .entered (.udpListen _ _) => ⟨true, none⟩
  | .asked (.recvfrom _ _) (.ok (_, sender)) =>
      if p.listening then { p with addr := some sender } else p
  | _ => p

def peerOf (h : List NetEvent) : Peer := h.foldl Peer.hear ⟨false, none⟩

@[simp] theorem peerOf_concat (h : List NetEvent) (e : NetEvent) :
    peerOf (h ++ [e]) = (peerOf h).hear e := by
  simp [peerOf]

/-- What `m_peerAddr` is: a connected socket has the right address, a listening one has
none. -/
def Peer.Stored (p : Peer) (addr : Option SockAddr) : Prop :=
  if p.listening then addr = none else addr ≠ none ∧ addr = p.addr

/-- Every datagram was sent to such an address. -/
def Addressed (h : List NetEvent) : Prop :=
  ∀ h₁ fd data addr n h₂, h = h₁ ++ .asked (.sendto fd data addr) n :: h₂ → (peerOf h₁).Stored addr

theorem Peer.Stored.hear {p : Peer} {addr : Option SockAddr} {e : NetEvent} (h : p.Stored addr)
    (he : isPlain e = true) : (p.hear e).Stored addr := by
  unfold Peer.hear
  split
  · cases he
  · cases he
  · split
    · rename_i hlistening
      rw [Peer.Stored, if_pos hlistening] at h
      rw [Peer.Stored, if_pos hlistening]
      exact h
    · exact h
  · exact h

theorem addressed_nil : Addressed [] := fun _ _ _ _ _ _ heq => by simp at heq

theorem Addressed.concat {h : List NetEvent} {e : NetEvent} (hh : Addressed h)
    (he : ∀ fd data addr n, e = .asked (.sendto fd data addr) n → (peerOf h).Stored addr) :
    Addressed (h ++ [e]) := by
  intro h₁ fd data addr n h₂ heq
  rcases concat_eq_append_cons heq with ⟨rfl, rfl⟩ | ⟨h₃, rfl⟩
  · exact he fd data addr n rfl
  · exact hh h₁ fd data addr n h₃ rfl

/-- Nothing is sent. -/
theorem Addressed.plain {h : List NetEvent} {e : NetEvent} (hh : Addressed h)
    (he : isPlain e = true) : Addressed (h ++ [e]) := by
  refine hh.concat fun fd data addr n heq => ?_
  subst heq
  cases he

theorem Addressed.of_prefix {h h' : List NetEvent} (hbegins : h <+: h') (hh : Addressed h') :
    Addressed h := by
  obtain ⟨rest, rfl⟩ := hbegins
  intro h₁ fd data addr n h₂ heq
  refine hh h₁ fd data addr n (h₂ ++ rest) ?_
  rw [heq, List.append_assoc, List.cons_append]

/-- The object is a `UdpSocket`, with the address which the history says. -/
def directed : ObjectInv where
  absent := Addressed
  holds h o := Addressed h ∧ o.type = .udp ∧ (peerOf h).Stored o.peerAddr
  deleted := And.left
  waits he hh := hh.plain he
  passes he hh := by
    obtain ⟨haddressed, htype, hstored⟩ := hh
    rw [peerOf_concat]
    exact ⟨haddressed.plain he, htype, hstored.hear he⟩
  put htype _ hpeer hh := by
    obtain ⟨haddressed, htype', hstored⟩ := hh
    exact ⟨haddressed, htype.trans htype', hpeer ▸ hstored⟩
  closed := id

def udpCreates (_ : World) (m : Method) : Prop :=
  (∃ ip port handler, m = .udpConnect ip port handler) ∨ ∃ port handler, m = .udpListen port handler

section

variable {s : SocketId} {p : Peer} {ctx : List Callback} {h : List NetEvent} {w : World}

namespace UdpSocket

/-- The datagram goes to the address in the object. -/
theorem sendPacket_directed (data : List UInt8) :
    directed.Keeps udpCreates s ctx (sendPacket s data) := by
  refine keeps_touch.bind fun _ => keeps_load fun o h w ho hholds => ?_
  split
  · exact ⟨o, ho, hholds⟩
  split
  · exact ⟨o, ho, hholds⟩
  rw [wp_bind]
  refine wp_ask_idle plain rfl fun n _ _ => ?_
  obtain ⟨haddressed, htype, hstored⟩ := hholds
  have hsent : directed.At s (h ++ [.asked (.sendto o.fd data o.peerAddr) n]) w := by
    refine ⟨o, ho, haddressed.concat fun fd data addr n heq => ?_, htype, ?_⟩
    · cases heq
      exact hstored
    · rw [peerOf_concat]
      exact hstored
  cases n with
  | none => exact hsent
  | some n =>
      dsimp only
      split <;> exact hsent

theorem handleRead_directed (hctx : ∀ c ∈ ctx, c.socket = s) (size : Nat) :
    directed.Keeps udpCreates s ctx (SocketBase.handleRead s size) := by
  refine keeps_load fun o h w ho hholds => ?_
  rw [hholds.2.1]
  exact keeps_udpRead hctx size h w ⟨o, ho, hholds⟩

theorem handleWrite_directed (hw : directed.At s h w) :
    wp (lifetime udpCreates s) (directed.spec s) ctx (SocketBase.handleWrite s)
      (fun _ => directed.At s) (h ++ [.entered (.handleWrite s)]) w := by
  obtain ⟨o, ho, haddressed, htype, hstored⟩ := hw
  rw [SocketBase.handleWrite, wp_bind, wp_load ho, htype]
  have hentered : Addressed (h ++ [.entered (.handleWrite s)]) :=
    haddressed.concat fun _ _ _ _ heq => by cases heq
  refine wp_bind.mpr ((wp_load ho).mpr ⟨o, ho, hentered, htype, ?_⟩)
  rw [peerOf_concat]
  exact hstored

theorem virtual_sendPacket_directed (data : List UInt8) :
    directed.Keeps udpCreates s ctx (SocketBase.sendPacket s data) := by
  refine keeps_load fun o h w ho hholds => ?_
  rw [hholds.2.1]
  exact sendPacket_directed data h w ⟨o, ho, hholds⟩

/-! ## Creation -/

/-- The address which the object will have is right. -/
def Asked (addr : Option SockAddr) (h : List NetEvent) : Prop :=
  Addressed h ∧ (peerOf h).Stored addr

theorem Asked.plain {addr : Option SockAddr} {e : NetEvent} (he : isPlain e = true)
    (hh : Asked addr h) : Asked addr (h ++ [e]) := by
  refine ⟨hh.1.plain he, ?_⟩
  rw [peerOf_concat]
  exact hh.2.hear he

theorem keeps_setBufferSize : directed.Keeps udpCreates s ctx (setBufferSize s) :=
  keeps_load_only fun _ => (keeps_ask rfl).bind fun _ => keeps_pure ()

theorem listen_directed (hw : Awaits (Asked none) s h w) (port : Int) (handler : Bool) :
    wp (lifetime udpCreates s) (directed.spec s) [] (listen port handler)
      (fun _ => directed.Founded s) h w := by
  have hnone : ∀ {h w}, Awaits (Asked none) s h w → directed.Founded s h w :=
    fun hw => .inl ⟨hw.heap, hw.history.1⟩
  unfold listen
  refine hw.wp_ask Asked.plain rfl fun fd h w hw => ?_
  cases fd with
  | none => exact hnone hw
  | some fd =>
  refine hw.wp_ask Asked.plain rfl fun nonblock h w hw => ?_
  split
  · exact hnone hw
  refine hw.wp_ask Asked.plain rfl fun reuse h w hw => ?_
  split
  · exact hnone hw
  refine hw.wp_ask Asked.plain rfl fun bound h w hw => ?_
  split
  · exact hnone hw
  refine hw.wp_newUdp Asked.plain fun now h w hasked ho => ?_
  have hw : directed.At s h w := ⟨_, ho, hasked.1, rfl, hasked.2⟩
  refine wp_seq (keeps_addSocket .readError h w hw) fun added h w hw => ?_
  split
  · refine wp_seq (keeps_setBufferSize h w hw) fun _ h w hw => ?_
    exact wp_seq (keeps_setBufferSize h w hw) fun _ h w hw => .inr hw
  · exact wp_close_founded hw

theorem connect_directed {ip : UInt32} {port : UInt16}
    (hw : Awaits (Asked (some ⟨ip, port⟩)) s h w) (handler : Bool) :
    wp (lifetime udpCreates s) (directed.spec s) [] (connect ip port handler)
      (fun _ => directed.Founded s) h w := by
  have hnone : ∀ {h w}, Awaits (Asked (some ⟨ip, port⟩)) s h w → directed.Founded s h w :=
    fun hw => .inl ⟨hw.heap, hw.history.1⟩
  unfold connect
  refine hw.wp_ask Asked.plain rfl fun fd h w hw => ?_
  cases fd with
  | none => exact hnone hw
  | some fd =>
  refine hw.wp_ask Asked.plain rfl fun nonblock h w hw => ?_
  split
  · exact hnone hw
  refine hw.wp_newUdp Asked.plain fun now h w hasked ho => ?_
  have hw : directed.At s h w := ⟨_, ho, hasked.1, rfl, hasked.2⟩
  refine wp_seq (keeps_addSocket .readError h w hw) fun added h w hw => ?_
  split
  · exact .inr hw
  · exact wp_close_founded hw

end UdpSocket
end

/-! ## Runs -/

theorem sound_directed {s : SocketId} :
    (directed.spec s).Sound (lifetime udpCreates s) Method.body := by
  refine sound (fun hctx => UdpSocket.handleRead_directed hctx _)
    (fun _ => UdpSocket.handleWrite_directed)
    (fun data _ => UdpSocket.virtual_sendPacket_directed data) ?_
  intro h w m hheap hnext haddressed hm
  have hentered : Addressed (h ++ [.entered m]) :=
    haddressed.concat fun _ _ _ _ heq => by cases heq
  rcases hm with ⟨ip, port, handler, rfl⟩ | ⟨port, handler, rfl⟩
  · refine wp_seq (UdpSocket.connect_directed ⟨hheap, hnext, hentered, ?_⟩ handler) fun _ _ _ => id
    rw [peerOf_concat]
    exact ⟨Option.some_ne_none _, rfl⟩
  · refine wp_seq (UdpSocket.listen_directed ⟨hheap, hnext, hentered, ?_⟩ port handler)
      fun _ _ _ => id
    rw [peerOf_concat]
    rfl

/-- In every run: a datagram which `SendPacket` hands to `sendto` goes to the address
where it belongs if and only if `Connect` created the socket. -/
theorem datagram_addressed_iff {s : SocketId} {w : World} (hs : w.heap s = none) {c : NetConfig}
    (hc : Reaches (lifetime udpCreates s) Method.body (Config.start w) c)
    {before after : List NetEvent} {fd : Fd} {data : List UInt8} {addr : Option SockAddr}
    {n : Option Nat}
    (hsend : c.history = before ++ .asked (.sendto fd data addr) n :: after) :
    (addr ≠ none ∧ addr = (peerOf before).addr) ↔ (peerOf before).listening = false := by
  have hinv : ∀ ctx h w, (directed.spec s).inv ctx h w → Addressed h := by
    rintro ctx h w ⟨-, ⟨-, haddressed⟩ | ⟨-, o, -, haddressed, -⟩⟩ <;> exact haddressed
  have haddressed : Addressed c.history :=
    Spec.history_of_reaches sound_directed
      (fun w q => ⟨_, _, Obliging.answers ⟨true, [], 0⟩ w q⟩) (fun _ => id) Addressed.of_prefix hinv
      ⟨List.forall_mem_nil _, .inl ⟨hs, addressed_nil⟩⟩ hc
  have hstored : (peerOf before).Stored addr := haddressed before fd data addr n after hsend
  cases hlistening : (peerOf before).listening with
  | true =>
      rw [Peer.Stored, if_pos hlistening] at hstored
      simp [hstored]
  | false =>
      rw [Peer.Stored, hlistening] at hstored
      simpa using hstored

/-- A kernel which delivers a datagram of one byte whenever it is asked. -/
def deliver (w : World) : (q : Question) → Answer q
  | .recvfrom _ size => .ok (([7] : List UInt8).take size, ⟨5, 6⟩)
  | .sendto _ data _ => some data.length
  | q => (Obliging.mk true [] 0).answer w q

theorem answers_deliver (w : World) (q : Question) :
    Kernel.answers w q (deliver w q) (Kernel.effect w q (deliver w q)) := by
  refine ⟨?_, rfl⟩
  cases q with
  | recvfrom fd size => exact List.length_take_le _ _
  | sendto fd data addr => exact le_rfl
  | _ => exact (Obliging.mk true [] 0).permits_answer w _

/-- The run of these moves. -/
def udpPlayed (moves : List (Move Method)) : NetConfig :=
  (Config.start (World.initial 8 Kernel.idle 0)).play Method.body deliver Kernel.effect 100 moves

/-- The socket of a client sends a byte. -/
def clientSends : NetConfig :=
  udpPlayed [.enter (.udpConnect 1 2 true), .enter (.sendPacket 0 [9])]

theorem reaches_clientSends : Reaches (lifetime udpCreates 0) Method.body
    (Config.start (World.initial 8 Kernel.idle 0)) clientSends :=
  reaches_play answers_deliver ⟨⟨nofun, .inr ⟨rfl, rfl, .inl ⟨1, 2, true, rfl⟩⟩⟩,
    ⟨nofun, .inl ⟨rfl, Option.isSome_iff_ne_none.mp rfl⟩⟩, trivial⟩

theorem datagram_addressed_iff_client :
    ∃ before n after, clientSends.history =
        before ++ .asked (.sendto 3 [9] (some ⟨1, 2⟩)) n :: after ∧
      some (⟨1, 2⟩ : SockAddr) = (peerOf before).addr :=
  ⟨clientSends.history.take 8, some 1, clientSends.history.drop 9, rfl,
    ((datagram_addressed_iff rfl reaches_clientSends rfl).mpr rfl).2⟩

/-- A server answers from inside `HandlePacket`. -/
def serverAnswers : NetConfig :=
  udpPlayed [.enter (.udpListen 53 true), .enter (.handleRead 0), .enter (.sendPacket 0 [9])]

theorem reaches_serverAnswers : Reaches (lifetime udpCreates 0) Method.body
    (Config.start (World.initial 8 Kernel.idle 0)) serverAnswers := by
  refine reaches_play answers_deliver ⟨⟨nofun, .inr ⟨rfl, rfl, .inr ⟨53, true, rfl⟩⟩⟩,
    ⟨nofun, .inl ⟨rfl, Option.isSome_iff_ne_none.mp rfl⟩⟩, ⟨fun c hc => ?_, .inl ⟨rfl, ?_⟩⟩,
    trivial⟩
  · rw [List.mem_singleton.mp hc]
    rfl
  · exact Option.isSome_iff_ne_none.mp rfl

/-- The answer of a server goes to no address. -/
theorem answer_unaddressed :
    ¬∀ (s : SocketId) (w : World) (c : NetConfig) (before after : List NetEvent) (fd : Fd)
      (data : List UInt8) (addr : Option SockAddr) (n : Option Nat), w.heap s = none →
      Reaches (lifetime udpCreates s) Method.body (Config.start w) c →
      c.history = before ++ .asked (.sendto fd data addr) n :: after →
      addr ≠ none ∧ addr = (peerOf before).addr := by
  intro hall
  have hsend : serverAnswers.history = serverAnswers.history.take 17 ++
      .asked (.sendto 3 [9] none) (some 1) :: serverAnswers.history.drop 18 := rfl
  exact (hall 0 _ _ _ _ _ _ _ _ rfl reaches_serverAnswers hsend).1 rfl

end Net
end Deps
