import Deps.Net.ReceiveErrors

/-!
# Datagrams

A datagram may be empty.  `UdpSocket::Read` takes it for the end of a stream, as
`TcpSocket::Read` rightly does with an empty `recv`, and closes the socket.
-/

namespace Deps
namespace Net

open Reentrant Runs

/-- The `UdpSocket` has its descriptor and its state, and is registered. -/
def Serving (s : SocketId) (fd : Fd) (state : SocketState) (w : World) : Prop :=
  ∃ o, Attached s w o ∧ o.type = .udp ∧ o.fd = fd ∧ o.state = state

/-- The handler, and the rest of the process, leave the socket where it is. -/
def LeavesServing (s : SocketId) (w w' : World) : Prop :=
  ∀ fd state, Serving s fd state w → Serving s fd state w'

/-- A read event delivers a datagram, and the handler does not reject it; or
something else happens in the process. -/
structure DatagramStep (s : SocketId) (size : Nat) (w : World) (l : Option (List NetDeed))
    (w' : World) : Prop where
  step : ReadStep (LeavesServing s) s size w l w'
  received : ∀ t ∈ l, ∀ d ∈ t, ∀ errno, receipt d ≠ some (.error errno)
  counts : ∀ t ∈ l, ∀ data w₁ n w₂, .called (.handlePacket s data) w₁ n w₂ ∈ t → 0 ≤ n

/-- No empty datagram is received. -/
def NotEmpty (_ : World) (l : Option (List NetDeed)) : Prop :=
  ∀ t ∈ l, ∀ d ∈ t, receipt d ≠ some (.ok [])

section

variable {s : SocketId} {w w' : World} {o : Socket} {t : List NetDeed} {fd : Fd}
  {state : SocketState}

/-- New fields other than the descriptor and the state. -/
theorem Serving.put (ho : Attached s w o) (htype : o.type = .udp) (hfd : o.fd = fd)
    (hstate : o.state = state) {o' : Socket} (htype' : o'.type = o.type) (hfd' : o'.fd = o.fd)
    (hstate' : o'.state = o.state) : Serving s fd state (w.put s o') := by
  refine ⟨o', ⟨w.heap_put s o', ?_, ?_⟩, htype'.trans htype, hfd'.trans hfd,
    hstate'.trans hstate⟩
  · rw [hfd']
    exact ho.mapped
  · rw [hfd']
    exact ho.registered

/-- A datagram which the handler does not reject leaves the socket where it is. -/
theorem HandsOn.serving (hw : Serving s fd state w) (hs : w.heap s = some o)
    (hcounts : ∀ data w₁ n w₂, .called (.handlePacket s data) w₁ n w₂ ∈ t → 0 ≤ n)
    (h : HandsOn (beside (LeavesServing s)) s o w t w') : Serving s fd state w' := by
  obtain ⟨o', ho', htype, -⟩ := id hw
  cases hs.symm.trans ho'.heap
  cases h with
  | unheard => exact hw
  | heard _ hn hresumes =>
      have hcount := hcounts _ _ _ _ List.mem_cons_self
      have hafter := hn.1 fd state hw
      cases hresumes with
      | ignored htcp =>
          rw [htype] at htcp
          cases htcp
      | nothing => exact hafter
      | erased _ _ ho₁ =>
          obtain ⟨o₂, ho₂, htype₂, hfd₂, hstate₂⟩ := hafter
          cases ho₁.symm.trans ho₂.heap
          exact .put ho₂ htype₂ hfd₂ hstate₂ rfl rfl rfl
      | rejected _ hneg _ => exact absurd hcount (by omega)

/-- A read event which delivers a datagram leaves the socket where it is if and only
if the datagram is not empty. -/
theorem serving_iff (hfd : 0 ≤ fd) (hw : Serving s fd state w) (hs : w.heap s = some o)
    (hreceived : ∀ d ∈ t, ∀ errno, receipt d ≠ some (.error errno))
    (hcounts : ∀ data w₁ n w₂, .called (.handlePacket s data) w₁ n w₂ ∈ t → 0 ≤ n)
    (h : Reads (beside (LeavesServing s)) s w o t w') :
    Serving s fd state w' ↔ ∀ d ∈ t, receipt d ≠ some (.ok []) := by
  obtain ⟨o₀, hattached, htype, hfd', hstate⟩ := id hw
  cases hs.symm.trans hattached.heap
  cases h with
  | passed hd _ => exact absurd hd (hreceived _ (by simp) _)
  | @closed now d result t w' hd hresult hclose =>
      have hempty : receipt d = some (.ok []) := by
        rcases hresult with rfl | rfl
        · exact absurd hd (hreceived d (by simp) .eagain)
        · exact hd
      obtain ⟨-, -, w₁, o₁, -, -, hheap⟩ := closes (w.heap_put s _) hclose
      refine iff_of_false ?_ fun hno => hno d (by simp) hempty
      rintro ⟨o₂, ho₂, -, hfd₂, -⟩
      cases hheap.symm.trans ho₂.heap
      exact absurd hfd₂ (ne_neg_of_nonneg hfd).symm
  | @stored now d data malloc o' t w' hd hdata ho' hhands =>
      have hserving : Serving s fd state (w.put s o') :=
        .put hattached htype hfd' hstate (by rw [ho']) (by rw [ho']) (by rw [ho'])
      have ht : HasReceipt (.asked .time now :: d :: .asked .malloc malloc :: t) (.ok data) :=
        hhands.hasReceipt (w.heap_put s o') hd
      refine iff_of_true (hhands.serving hserving (w.heap_put s o') ?_) ?_
      · exact fun data' w₁ n w₂ hmem => hcounts data' w₁ n w₂ (by simp [hmem])
      · intro d' hd' hempty
        exact hdata (Except.ok.inj ((ht _).mp ⟨d', hd', hempty⟩)).symm

end

/-- In every run of datagrams whose handler neither rejects one nor closes the socket,
the socket stays in its state and registered if and only if no datagram is empty. -/
theorem datagrams_spare_iff {s : SocketId} {size : Nat} {fd : Fd} {state : SocketState}
    {w₀ w : World} {past : List (World × Option (List NetDeed))} (hfd : 0 ≤ fd)
    (hw₀ : Serving s fd state w₀) (hrun : Run (DatagramStep s size) w₀ past w) :
    (∀ e ∈ past, Serving s fd state e.1) ∧ Serving s fd state w ↔ Meets NotEmpty past := by
  refine hrun.forall_iff_meets (fun _ => True) (Serving s fd state) trivial hw₀
    (fun _ _ _ _ _ => trivial) ?_
  rintro w l w' - hw ⟨hstep, hreceived, hcounts⟩
  cases hstep with
  | @read t _ o ho _ _ hout =>
      obtain ⟨o', ho', htype, -⟩ := id hw
      cases ho.symm.trans ho'.heap
      have hreads := (UdpSocket.handleRead_reads ho htype hout).2
      have hiff := serving_iff hfd hw ho (hreceived t rfl) (hcounts t rfl) hreads
      simpa [NotEmpty] using hiff
  | other hrest => exact iff_of_true (hrest fd state hw) (fun _ h => by cases h)

/-! ## An empty datagram -/

/-- `Listen` has just opened the socket 0. -/
def udpWorld : World := (played ⟨true, [1], 4⟩ [.enter (.udpListen 53 true)]).world

def udpSocket : Socket := { UdpSocket.construct true with fd := 3, state := .listen }

theorem serving_udpWorld : Serving 0 3 .listen udpWorld :=
  ⟨udpSocket, ⟨rfl, rfl, by decide⟩, rfl, rfl, rfl⟩

def peer : SockAddr := ⟨1, 2⟩

theorem leavesServing_refl (s : SocketId) (w : World) : LeavesServing s w w :=
  fun _ _ hw => hw

/-- One empty datagram from anybody closes the socket. -/
theorem empty_datagram_closes :
    ∃ t w, Run (DatagramStep 0 maxReadBuffSize) udpWorld
        [(udpWorld, some (.asked .time 0 ::
          .asked (.recvfrom 3 maxReadBuffSize) (.ok ([], peer)) :: t))] w ∧
      Serving 0 3 .listen udpWorld ∧ ¬Serving 0 3 .listen w := by
  obtain ⟨t, r, w, hclose⟩ := exists_outcome_beside (leavesServing_refl 0) (closeSocket 0)
    (udpWorld.put 0 { udpSocket with lastAccessTime := 0 })
  obtain ⟨rfl, haloof, w₁, o₁, -, -, hheap⟩ := closes (udpWorld.heap_put 0 _) hclose
  have hread : Outcome (beside (LeavesServing 0)) (SocketBase.handleRead 0 maxReadBuffSize)
      udpWorld (.asked .time 0 ::
        .asked (.recvfrom 3 maxReadBuffSize) (.ok ([], peer)) :: t) (.ok ()) w :=
    ⟨0, udpWorld, _, ⟨trivial, rfl⟩, rfl, .ok ([], peer), _, _, ⟨Nat.zero_le _, rfl⟩, rfl, hclose⟩
  refine ⟨t, w, .snoc .start ⟨.read (o := udpSocket) rfl (by decide) rfl hread, ?_, ?_⟩,
    serving_udpWorld, ?_⟩
  · rintro _ ⟨⟩ d hd errno hreceipt
    simp only [List.mem_cons] at hd
    rcases hd with rfl | rfl | hd
    · cases hreceipt
    · cases hreceipt
    · rw [(haloof d hd).receipt] at hreceipt
      cases hreceipt
  · rintro _ ⟨⟩ data w₂ n w₃ hmem
    simp only [List.mem_cons, reduceCtorEq, false_or] at hmem
    exact absurd rfl ((haloof _ hmem).called _ _ _ _ _)
  · rintro ⟨o, ho, -, hfd, -⟩
    cases hheap.symm.trans ho.heap
    exact absurd hfd (show (-1 : Int) ≠ 3 by decide)

/-- The socket after a datagram of one byte. -/
def fedUdpWorld : World :=
  (udpWorld.put 0 { udpSocket with lastAccessTime := 0 }).put 0
    { udpSocket with
      lastAccessTime := 0
      input := (udpSocket.input.append (some fun _ => 0) [1]).2 }

theorem run_datagram :
    ∃ t, Run (DatagramStep 0 maxReadBuffSize) udpWorld [(udpWorld, some t)] fedUdpWorld ∧
      Meets NotEmpty [(udpWorld, some t)] := by
  have hsize : ([1] : List UInt8).length ≤ maxReadBuffSize := by decide
  have hread : Outcome (beside (LeavesServing 0)) (SocketBase.handleRead 0 maxReadBuffSize)
      udpWorld [.asked .time 0, .asked (.recvfrom 3 maxReadBuffSize) (.ok ([1], peer)),
        .asked .malloc (some fun _ => 0),
        .called (.handlePacket 0 (udpSocket.input.append (some fun _ => 0) [1]).2.content)
          fedUdpWorld 0 fedUdpWorld] (.ok ()) fedUdpWorld :=
    ⟨0, udpWorld, _, ⟨trivial, rfl⟩, rfl, .ok ([1], peer), _, _, ⟨hsize, rfl⟩, rfl,
      some fun _ => 0, _, _, ⟨trivial, rfl⟩, rfl, 0, fedUdpWorld, _,
      ⟨leavesServing_refl 0 _, fun o ho => ⟨o, ho, .inl rfl⟩⟩, rfl, rfl, rfl, rfl⟩
  refine ⟨_, .snoc .start ⟨.read (o := udpSocket) rfl (by decide) rfl hread, ?_, ?_⟩, ?_⟩
  · rintro _ ⟨⟩ d hd errno hreceipt
    simp only [List.mem_cons, List.not_mem_nil, or_false] at hd
    rcases hd with rfl | rfl | rfl | rfl <;> cases hreceipt
  · rintro _ ⟨⟩ data w₂ n w₃ hmem
    simp only [List.mem_cons, List.not_mem_nil, or_false, reduceCtorEq, false_or] at hmem
    injection hmem with _ _ hn _
    exact hn.ge
  · rintro e he _ ht d hd hreceipt
    rw [List.mem_singleton] at he
    subst he
    cases ht
    simp only [List.mem_cons, List.not_mem_nil, or_false] at hd
    rcases hd with rfl | rfl | rfl | rfl <;> cases hreceipt

/-- The theorem, for a datagram of one byte. -/
theorem datagrams_spare_iff_byte : Serving 0 3 .listen fedUdpWorld := by
  obtain ⟨t, hrun, hmeets⟩ := run_datagram
  exact ((datagrams_spare_iff (by decide) serving_udpWorld hrun).mpr hmeets).2

end Net
end Deps
