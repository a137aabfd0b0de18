import Deps.Net.Outcomes
import Deps.Net.StreamRuns

/-!
# What `Read` makes of what is received

`Read` is nearly the same in both classes of sockets.  `Reads` says once what
it may do; from this follow which results of `recv` and `recvfrom` close the
socket, and when received bytes reach the input.
-/

namespace Deps
namespace Net

open Reentrant Runs

/-! ## `Read` -/

/-- What `recv` or `recvfrom` delivers. -/
def receipt : NetDeed → Option (Except Errno (List UInt8))
  | .asked (.recv _ _) a => some a
  | .asked (.recvfrom _ _) (.ok (data, _)) => some (.ok data)
  | .asked (.recvfrom _ _) (.error errno) => some (.error errno)
  | _ => none

/-- What happens after `HandlePacket` has returned `n`. -/
inductive Resumes (env : NetSetting) (this : SocketId) (o : Socket) (n : Int) (w : World) :
    List NetDeed → World → Prop
  /-- a `TcpSocket` does not look at the count -/
  | ignored (htype : o.type = .tcp) : Resumes env this o n w [] w
  | nothing (htype : o.type = .udp) (hn : n = 0) : Resumes env this o n w [] w
  | erased {o'} (htype : o.type = .udp) (hn : 0 < n) (ho' : w.heap this = some o') :
      Resumes env this o n w [] (w.put this { o' with input := o'.input.erase 0 n.toNat false })
  | rejected {t w'} (htype : o.type = .udp) (hn : n < 0)
      (hclose : Outcome env (closeSocket this) w t (.ok ()) w') : Resumes env this o n w t w'

/-- What happens after bytes have been received and appended. -/
inductive HandsOn (env : NetSetting) (this : SocketId) (o : Socket) (w : World) :
    List NetDeed → World → Prop
  | unheard (hhandler : o.handler = false) : HandsOn env this o w [] w
  | heard {n w₁ t w'} (hhandler : o.handler = true)
      (hn : env.handles (.handlePacket this o.input.content) w n w₁)
      (hresumes : Resumes env this o n w₁ t w') :
      HandsOn env this o w (.called (.handlePacket this o.input.content) w n w₁ :: t) w'

/-- What `Read` may do on a socket with the fields `o`. -/
inductive Reads (env : NetSetting) (this : SocketId) (w : World) (o : Socket) :
    List NetDeed → World → Prop
  | passed {now d errno} (hd : receipt d = some (.error errno)) (herrno : errno ≠ .eagain) :
      Reads env this w o [.asked .time now, d] (w.put this { o with lastAccessTime := now })
  | closed {now d result t w'} (hd : receipt d = some result)
      (hresult : result = .error .eagain ∨ result = .ok [])
      (hclose : Outcome env (closeSocket this) (w.put this { o with lastAccessTime := now }) t
        (.ok ()) w') :
      Reads env this w o (.asked .time now :: d :: t) w'
  | stored {now d data malloc o' t w'} (hd : receipt d = some (.ok data)) (hdata : data ≠ [])
      (ho' : o' = { o with lastAccessTime := now, input := (o.input.append malloc data).2 })
      (hhands : HandsOn env this o' (w.put this o') t w') :
      Reads env this w o (.asked .time now :: d :: .asked .malloc malloc :: t) w'

section

variable {rest : World → World → Prop} {this : SocketId} {w w' : World} {o : Socket}
  {t : List NetDeed} {size : Nat} {r : Except NetFault Unit}

theorem live_of_handles (hs : w.heap this = some o) {c : Callback} (hc : c.socket = this) {n : Int}
    {w₁ : World} (h : (beside rest).handles c w n w₁) :
    ∃ o', w₁.heap this = some o' ∧ (o'.fd = o.fd ∨ o'.fd = -1) := by
  subst hc
  exact h.2 o hs

/-- A deed which neither receives anything nor stores it nor hands it on. -/
structure Aloof (d : NetDeed) : Prop where
  receipt : receipt d = none
  malloc : ∀ malloc, d ≠ .asked .malloc malloc
  called : ∀ s data w n w', d ≠ .called (.handlePacket s data) w n w'

/-- `Close` always ends, and leaves the fields of a closed object. -/
theorem closes (hs : w.heap this = some o)
    (h : Outcome (beside rest) (closeSocket this) w t r w') :
    r = .ok () ∧ (∀ d ∈ t, Aloof d) ∧ ∃ w₁ o₁, (w₁ = w ∨ rest w w₁) ∧ w₁.heap this = some o₁ ∧
      w'.heap this = some (World.closedFields o₁) := by
  obtain ⟨told, w₁, o₁, htold, ho₁, rfl, rfl, rfl⟩ := outcome_closeSocket id hs (fun n w₁ hn => by
    obtain ⟨o', ho', -⟩ := live_of_handles hs rfl hn
    simp [ho']) h
  refine ⟨rfl, fun d hd => ?_, w₁, o₁, ?_, ho₁, w₁.heap_closed this o₁⟩
  · rcases List.mem_append.mp hd with hd | hd
    · cases htold with
      | silent => cases hd
      | told => cases List.mem_singleton.mp hd; exact ⟨rfl, nofun, nofun⟩
    · unfold closeDeeds at hd
      split at hd <;> simp at hd
      · rcases hd with rfl | rfl <;> exact ⟨rfl, nofun, nofun⟩
      · subst hd
        exact ⟨rfl, nofun, nofun⟩
  · cases htold with
    | silent => exact .inl rfl
    | told _ hn => exact .inr hn.1

/-- The end of `Read` of a `TcpSocket`, which has a count of zero at hand. -/
theorem TcpSocket.handsOn (hs : w.heap this = some o) (htype : o.type = .tcp)
    (h : Outcome (beside rest) (do
      let pn : Int := 0
      let s ← load this
      if s.handler then
        let _ ← handlePacket this s.input.content
      if pn > 0 then
        store this fun s => { s with input := s.input.erase 0 pn.toNat false }
      else if pn < 0 then
        close this : NetM Unit) w t r w') :
    r = .ok () ∧ HandsOn (beside rest) this o w t w' := by
  rw [outcome_load hs] at h
  cases hhandler : o.handler with
  | false =>
      rw [hhandler] at h
      obtain ⟨rfl, rfl, rfl⟩ := h
      exact ⟨rfl, .unheard hhandler⟩
  | true =>
      rw [hhandler] at h
      obtain ⟨n, w₁, t', hn, rfl, rfl, rfl, rfl⟩ := h
      exact ⟨rfl, .heard hhandler hn (.ignored htype)⟩

theorem UdpSocket.handsOn (hs : w.heap this = some o) (htype : o.type = .udp)
    (h : Outcome (beside rest) (do
      let s ← load this
      let pn ← if s.handler then handlePacket this s.input.content else pure 0
      if pn > 0 then
        store this fun s => { s with input := s.input.erase 0 pn.toNat false }
      else if pn < 0 then
        close this : NetM Unit) w t r w') :
    r = .ok () ∧ HandsOn (beside rest) this o w t w' := by
  rw [outcome_load hs] at h
  cases hhandler : o.handler with
  | false =>
      rw [hhandler] at h
      obtain ⟨rfl, rfl, rfl⟩ := h
      exact ⟨rfl, .unheard hhandler⟩
  | true =>
      rw [hhandler] at h
      obtain ⟨n, w₁, t', hn, rfl, hcount⟩ := h
      obtain ⟨o₁, ho₁, -⟩ := live_of_handles hs rfl hn
      dsimp only [Prog.bind] at hcount
      split at hcount
      · rename_i hpos
        obtain ⟨rfl, rfl, rfl⟩ := (outcome_store ho₁).mp hcount
        exact ⟨rfl, .heard hhandler hn (.erased htype hpos ho₁)⟩
      split at hcount
      · rename_i hneg
        obtain ⟨rfl, -⟩ := closes ho₁ hcount
        exact ⟨rfl, .heard hhandler hn (.rejected htype hneg hcount)⟩
      · obtain ⟨rfl, rfl, rfl⟩ := hcount
        exact ⟨rfl, .heard hhandler hn (.nothing htype (by omega))⟩

theorem TcpSocket.reads (hs : w.heap this = some o) (htype : o.type = .tcp)
    (h : Outcome (beside rest) (TcpSocket.read this size) w t r w') :
    r = .ok () ∧ Reads (beside rest) this w o t w' := by
  rw [TcpSocket.read] at h
  obtain ⟨now, t₁, rfl, h₁⟩ := outcome_touch id hs h
  have htouched := w.heap_put this { o with lastAccessTime := now }
  rw [outcome_load htouched] at h₁
  obtain ⟨a, t₂, -, -, rfl, h₂⟩ := outcome_ask_idle id rfl h₁
  rcases a with errno | _ | ⟨b, bytes⟩
  · dsimp only at h₂
    split at h₂
    · rename_i herrno
      obtain ⟨rfl, rfl, rfl⟩ := h₂
      exact ⟨rfl, .passed rfl herrno⟩
    · rename_i herrno
      obtain ⟨rfl, -⟩ := closes htouched h₂
      exact ⟨rfl, .closed rfl (.inl (congrArg _ (not_not.mp herrno))) h₂⟩
  · obtain ⟨rfl, -⟩ := closes htouched h₂
    exact ⟨rfl, .closed rfl (.inr rfl) h₂⟩
  · obtain ⟨malloc, t₃, rfl, h₃⟩ := outcome_appendInput id htouched h₂
    rw [World.put_put] at h₃
    obtain ⟨rfl, hhands⟩ := TcpSocket.handsOn (World.heap_put _ _ _) (by exact htype) h₃
    exact ⟨rfl, .stored rfl (List.cons_ne_nil b bytes) rfl hhands⟩

theorem UdpSocket.reads (hs : w.heap this = some o) (htype : o.type = .udp)
    (h : Outcome (beside rest) (UdpSocket.read this size) w t r w') :
    r = .ok () ∧ Reads (beside rest) this w o t w' := by
  rw [UdpSocket.read] at h
  obtain ⟨now, t₁, rfl, h₁⟩ := outcome_touch id hs h
  have htouched := w.heap_put this { o with lastAccessTime := now }
  rw [outcome_load htouched] at h₁
  obtain ⟨a, t₂, -, -, rfl, h₂⟩ := outcome_ask_idle id rfl h₁
  rcases a with errno | ⟨_ | ⟨b, bytes⟩, addr⟩
  · dsimp only at h₂
    split at h₂
    · rename_i herrno
      obtain ⟨rfl, rfl, rfl⟩ := h₂
      exact ⟨rfl, .passed rfl herrno⟩
    · rename_i herrno
      obtain ⟨rfl, -⟩ := closes htouched h₂
      exact ⟨rfl, .closed rfl (.inl (congrArg _ (not_not.mp herrno))) h₂⟩
  · obtain ⟨rfl, -⟩ := closes htouched h₂
    exact ⟨rfl, .closed rfl (.inr rfl) h₂⟩
  · obtain ⟨malloc, t₃, rfl, h₃⟩ := outcome_appendInput id htouched h₂
    rw [World.put_put] at h₃
    obtain ⟨rfl, hhands⟩ := UdpSocket.handsOn (World.heap_put _ _ _) (by exact htype) h₃
    exact ⟨rfl, .stored rfl (List.cons_ne_nil b bytes) rfl hhands⟩

end

/-! ## Sockets which receive -/

/-- Read events lead to `Read`, unless the socket has been closed. -/
structure Receptive (o : Socket) : Prop where
  reads : o.fd = -1 ∨
    (o.type = .tcp → o.state = .accept ∨ o.state = .connecting ∨ o.state = .connected)
  input : o.input.Inv

def Receiving (s : SocketId) (w : World) : Prop := ∃ o, w.heap s = some o ∧ Receptive o

/-- The rest of the process may do anything with the socket, except make it another
kind of socket. -/
def Respects (s : SocketId) (w w' : World) : Prop := Receiving s w → Receiving s w'

section

variable {s : SocketId} {w w' : World} {o : Socket} {t : List NetDeed} {size : Nat}
  {r : Except NetFault Unit}

namespace Receptive

theorem touch (ho : Receptive o) (now : Int) : Receptive { o with lastAccessTime := now } :=
  ⟨ho.reads, ho.input⟩

theorem append (ho : Receptive o) (now : Int) (malloc : Malloc) (data : List UInt8) :
    Receptive { o with lastAccessTime := now, input := (o.input.append malloc data).2 } := by
  refine ⟨ho.reads, ?_⟩
  rcases BlockBuffer.append_cases ho.input malloc data with ⟨-, b', heq, hinv, -⟩ | ⟨-, heq⟩
  · rwa [heq]
  · rw [heq]
    exact ho.input

theorem erase (ho : Receptive o) (n : Nat) :
    Receptive { o with input := o.input.erase 0 n false } :=
  ⟨ho.reads, (BlockBuffer.erase_spec ho.input (Nat.zero_le _) n false).1⟩

theorem closed (ho : Receptive o) : Receptive (World.closedFields o) := ⟨.inl rfl, ho.input⟩

end Receptive

theorem Receiving.of_heap (hs : w.heap s = some o) (hw : Receiving s w) : Receptive o := by
  obtain ⟨o', ho', hreceptive⟩ := hw
  cases hs.symm.trans ho'
  exact hreceptive

/-- A read event on a `UdpSocket`. -/
theorem UdpSocket.handleRead_reads (hs : w.heap s = some o) (htype : o.type = .udp)
    {rest : World → World → Prop}
    (h : Outcome (beside rest) (SocketBase.handleRead s size) w t r w') :
    r = .ok () ∧ Reads (beside rest) s w o t w' := by
  rw [SocketBase.handleRead, outcome_load hs, htype] at h
  exact UdpSocket.reads hs htype h

/-- A read event on an open socket. -/
theorem handleRead_reads (hs : w.heap s = some o) (hopen : 0 ≤ o.fd) (ho : Receptive o)
    {rest : World → World → Prop}
    (h : Outcome (beside rest) (SocketBase.handleRead s size) w t r w') :
    r = .ok () ∧ Reads (beside rest) s w o t w' := by
  have hstate := ho.reads.resolve_left (ne_neg_of_nonneg hopen)
  cases htype : o.type with
  | tcp =>
      rw [SocketBase.handleRead, outcome_load hs, htype] at h
      dsimp only at h
      rw [TcpSocket.handleRead, outcome_load hs] at h
      rcases hstate htype with heq | heq | heq <;> rw [heq] at h <;>
        exact TcpSocket.reads hs htype h
  | udp => exact UdpSocket.handleRead_reads hs htype h

theorem Receiving.closes (hw : Receiving s w)
    (h : Outcome (beside (Respects s)) (closeSocket s) w t r w') : Receiving s w' := by
  obtain ⟨o, ho, hreceptive⟩ := id hw
  obtain ⟨-, -, w₁, o₁, hrest, ho₁, hheap⟩ := Net.closes ho h
  have hw₁ : Receiving s w₁ := by
    rcases hrest with rfl | hrest
    · exact hw
    · exact hrest hw
  exact ⟨_, hheap, (hw₁.of_heap ho₁).closed⟩

/-- A read event keeps the kind of socket. -/
theorem Receiving.reads (ho : Receptive o)
    (h : Reads (beside (Respects s)) s w o t w') : Receiving s w' := by
  have hput : ∀ {o'}, Receptive o' → Receiving s (w.put s o') :=
    fun ho' => ⟨_, w.heap_put s _, ho'⟩
  cases h with
  | passed => exact hput (ho.touch _)
  | closed _ _ hclose => exact (hput (ho.touch _)).closes hclose
  | stored _ _ ho' hhands =>
      have hw₁ := hput (ho' ▸ ho.append _ _ _)
      cases hhands with
      | unheard => exact hw₁
      | heard _ hn hresumes =>
          have hw₂ := hn.1 hw₁
          cases hresumes with
          | ignored => exact hw₂
          | nothing => exact hw₂
          | erased _ _ ho₂ => exact ⟨_, World.heap_put _ _ _, (hw₂.of_heap ho₂).erase _⟩
          | rejected _ _ hclose => exact hw₂.closes hclose

theorem Receiving.step {l : Option (List NetDeed)} (hw : Receiving s w)
    (hstep : ReadStep (Respects s) s size w l w') : Receiving s w' := by
  cases hstep with
  | read ho hopen _ hout =>
      have hreceptive := hw.of_heap ho
      exact .reads hreceptive (handleRead_reads ho hopen hreceptive hout).2
  | other hrest => exact hrest hw

end

/-! ## Receipts -/

section

variable {rest : World → World → Prop} {s : SocketId} {w w' : World} {o : Socket}
  {t : List NetDeed}

/-- The deeds contain one receipt, with this result. -/
def HasReceipt (t : List NetDeed) (result : Except Errno (List UInt8)) : Prop :=
  ∀ x, (∃ d ∈ t, receipt d = some x) ↔ x = result

theorem hasReceipt_cons {now : Int} {d : NetDeed} {result : Except Errno (List UInt8)}
    (hd : receipt d = some result) (ht : ∀ d ∈ t, receipt d = none) :
    HasReceipt (.asked .time now :: d :: t) result := by
  intro x
  constructor
  · rintro ⟨d', hd', hx⟩
    rcases List.mem_cons.mp hd' with rfl | hd'
    · cases hx
    rcases List.mem_cons.mp hd' with rfl | hd'
    · exact Option.some.inj (hx.symm.trans hd)
    · rw [ht d' hd'] at hx
      cases hx
  · rintro rfl
    exact ⟨d, List.mem_cons_of_mem _ List.mem_cons_self, hd⟩

/-- After `HandlePacket` nothing is received, and nothing handed on. -/
theorem Resumes.aloof {n : Int} (hs : w.heap s ≠ none)
    (h : Resumes (beside rest) s o n w t w') : ∀ d ∈ t, Aloof d := by
  cases h with
  | ignored | nothing | erased => exact List.forall_mem_nil _
  | rejected _ _ hclose =>
      obtain ⟨o₂, ho₂⟩ := Option.ne_none_iff_exists'.mp hs
      exact (closes ho₂ hclose).2.1

/-- What a socket hands on it has received and stored before. -/
theorem HandsOn.nothing_new (hs : w.heap s = some o)
    (h : HandsOn (beside rest) s o w t w') :
    ∀ d ∈ t, receipt d = none ∧ ∀ malloc, d ≠ .asked .malloc malloc := by
  cases h with
  | unheard => exact List.forall_mem_nil _
  | heard _ hn hresumes =>
      obtain ⟨o₂, ho₂, -⟩ := live_of_handles hs rfl hn
      have haloof := hresumes.aloof (by simp [ho₂])
      exact List.forall_mem_cons.mpr ⟨⟨rfl, nofun⟩, fun d hd =>
        ⟨(haloof d hd).receipt, (haloof d hd).malloc⟩⟩

/-- An event in which something is stored contains one receipt. -/
theorem HandsOn.hasReceipt (hs : w.heap s = some o) (h : HandsOn (beside rest) s o w t w')
    {now : Int} {d : NetDeed} {malloc : Malloc} {result : Except Errno (List UInt8)}
    (hd : receipt d = some result) :
    HasReceipt (.asked .time now :: d :: .asked .malloc malloc :: t) result :=
  hasReceipt_cons hd (List.forall_mem_cons.mpr ⟨rfl, fun d hd => (h.nothing_new hs d hd).1⟩)

end

theorem receiving_connected : Receiving 0 connectedWorld :=
  ⟨connectedSocket, rfl, .inr fun _ => .inr (.inr rfl), BlockBuffer.inv_new⟩

end Net
end Deps
