import Deps.Net.ContainerRuns
import Deps.Net.Outcomes

/-!
# Listening sockets

`Accept` closes the listening socket whenever `accept` or `fcntl` fails.  Some
failures say that the listening descriptor is no good, and after all others the
socket was meant to go on listening.
-/

namespace Deps
namespace Net

open Reentrant Runs

/-! ## Failures -/

/-- The errors which say that the listening descriptor itself is invalid. -/
def Errno.invalidates : Errno → Bool
  | .ebadf | .einval | .enotsock => true
  | _ => false

/-- `accept` says that its descriptor is invalid. -/
def invalidated : NetDeed → Bool
  | .asked (.accept _) (.error errno) => errno.invalidates
  | _ => false

/-- A failure which is about a client. -/
def mishap : NetDeed → Bool
  | .asked (.accept _) (.error errno) => !errno.invalidates
  | .asked (.fcntl _) nonblock => !nonblock
  | _ => false

/-! ## The listener -/

/-- The socket listens: it is in the map, and registered for reading. -/
structure Stands (l : SocketId) (w : World) (o : Socket) : Prop where
  heap : w.heap l = some o
  born : l < w.next
  type : o.type = .tcp
  state : o.state = .listen
  nonneg : 0 ≤ o.fd
  isOpen : w.kernel.isOpen o.fd = true
  mapped : w.container.socketMap.find o.fd = some l
  registered : ∃ events, w.kernel.interest o.fd = some events ∧ events.read = true

/-- The socket has been closed. -/
def Gone (l : SocketId) (w : World) : Prop :=
  ∃ o, w.heap l = some o ∧ o.type = .tcp ∧ o.state = .close

/-- The rest of the process leaves the listener alone. -/
structure Aside (l : SocketId) (w w' : World) : Prop where
  heap : w'.heap l = w.heap l
  next : w.next ≤ w'.next
  isOpen : ∀ o, w.heap l = some o → w'.kernel.isOpen o.fd = w.kernel.isOpen o.fd
  mapped : ∀ o, w.heap l = some o →
    w'.container.socketMap.find o.fd = w.container.socketMap.find o.fd
  interest : ∀ o, w.heap l = some o → w'.kernel.interest o.fd = w.kernel.interest o.fd

theorem not_gone_of_stands {l : SocketId} {w : World} {o : Socket} (hw : Stands l w o) :
    ¬Gone l w := by
  rintro ⟨o', ho', -, hclose⟩
  cases hw.heap.symm.trans ho'
  rw [hw.state] at hclose
  cases hclose

namespace Stands

variable {l s : SocketId} {w w' : World} {o o' : Socket}

theorem aside (hw : Stands l w o) (haside : Aside l w w') : Stands l w' o where
  heap := haside.heap.trans hw.heap
  born := hw.born.trans_le haside.next
  type := hw.type
  state := hw.state
  nonneg := hw.nonneg
  isOpen := (haside.isOpen o hw.heap).trans hw.isOpen
  mapped := (haside.mapped o hw.heap).trans hw.mapped
  registered := by
    rw [haside.interest o hw.heap]
    exact hw.registered

/-- The kernel hands out another descriptor. -/
theorem handOut (hw : Stands l w o) {fd : Fd} (hfd : w.kernel.Available fd) :
    fd ≠ o.fd ∧ Stands l { w with kernel := w.kernel.handOut fd } o := by
  have hne : fd ≠ o.fd := by
    rintro rfl
    have hopen := hw.isOpen
    rw [hfd.2] at hopen
    cases hopen
  exact ⟨hne, { hw with isOpen := by simpa [Kernel.handOut, hne.symm] using hw.isOpen }⟩

/-- A new object, and the fields which are set right afterwards. -/
theorem create (hw : Stands l w o) (c o' : Socket) :
    Stands l ((w.born c).put w.next o') o :=
  { hw with
    heap := by
      have hne : l ≠ w.next := hw.born.ne
      rw [World.heap_put_of_ne _ hne]
      simpa [World.born, hne] using hw.heap
    born := hw.born.trans (Nat.lt_succ_self _) }

theorem listed (hw : Stands l w o) {fd : Fd} (hne : fd ≠ o.fd)
    (habsent : w.container.socketMap.find fd = none) (events : Interest) :
    Stands l (w.listed s fd events) o :=
  { hw with
    mapped :=
      (OrderedMap.find_insert_of_absent KeyOrder.int_total habsent _ _).mpr (.inr hw.mapped)
    registered := by
      simpa [World.listed, Kernel.enroll, Kernel.register, hne.symm] using hw.registered }

/-- `Close` of another object. -/
theorem closed (hw : Stands l w o) (hs : s ≠ l) (hfd : o'.fd ≠ o.fd) :
    Stands l (w.closed s o') o where
  heap := (w.heap_closed_of_ne s o' hs.symm).trans hw.heap
  born := by
    rw [World.next_closed]
    exact hw.born
  type := hw.type
  state := hw.state
  nonneg := hw.nonneg
  isOpen := (w.isOpen_closed_of_ne s o' hfd.symm).trans hw.isOpen
  mapped := (w.find_closed s o').mpr ⟨hfd.symm, hw.mapped⟩
  registered := by
    rw [World.interest_closed, Function.update_of_ne hfd.symm]
    exact hw.registered

end Stands
/-! ## Closing the new connection -/

/-- These deeds concern only the connection with the descriptor `fd`, which the
object `client` has. -/
structure Spares (client : SocketId) (fd : Fd) (t : List NetDeed) : Prop where
  mishap : t.any mishap = false
  valid : t.any invalidated = false
  closes : ∀ fd', .asked (.close fd') () ∈ t → fd' = fd
  tells : ∀ c w₁ n w₂, .called c w₁ n w₂ ∈ t → c = .handleClose client

namespace Spares

variable {client : SocketId} {fd : Fd} {t t' : List NetDeed}

theorem append (ht : Spares client fd t) (ht' : Spares client fd t') :
    Spares client fd (t ++ t') where
  mishap := by rw [List.any_append, ht.mishap, ht'.mishap]; rfl
  valid := by rw [List.any_append, ht.valid, ht'.valid]; rfl
  closes fd' hmem := (List.mem_append.mp hmem).elim (ht.closes fd') (ht'.closes fd')
  tells c w₁ n w₂ hmem :=
    (List.mem_append.mp hmem).elim (ht.tells c w₁ n w₂) (ht'.tells c w₁ n w₂)

theorem nil : Spares client fd [] :=
  ⟨rfl, rfl, fun _ hmem => absurd hmem List.not_mem_nil, fun _ _ _ _ hmem =>
    absurd hmem List.not_mem_nil⟩

/-- A system call which does not fail because of the client. -/
theorem asked {q : Question} {a : Answer q} (hmishap : Net.mishap (.asked q a) = false)
    (hvalid : invalidated (.asked q a) = false) (hq : ∀ fd, q ≠ .close fd) :
    Spares client fd [.asked q a] where
  mishap := by simpa using hmishap
  valid := by simpa using hvalid
  closes fd' hmem := by
    have heq := List.mem_singleton.mp hmem
    injection heq with heq
    exact absurd heq.symm (hq fd')
  tells c w₁ n w₂ hmem := by cases List.mem_singleton.mp hmem

end Spares

section

variable {l s : SocketId} {w w' : World} {t : List NetDeed} {o o' : Socket}

theorem notifies_live {rest : World → World → Prop} (hs : w.heap s = some o) (n : Int) (w₁ : World)
    (h : (beside rest).handles (.handleClose s) w n w₁) : w₁.heap s ≠ none := by
  obtain ⟨-, hlive⟩ := h
  obtain ⟨o', ho', -⟩ := hlive o hs
  exact Option.ne_none_iff_exists'.mpr ⟨o', ho'⟩

/-- Closing a socket concerns this socket. -/
theorem spares_closing {env : NetSetting} {told : List NetDeed} (h : Notifies env s w o told w')
    {fd fd' : Fd} (hfd : fd' ≠ -1 → fd' = fd) : Spares s fd (told ++ closeDeeds fd') := by
  have htold : Spares s fd told := by
    cases h with
    | silent => exact .nil
    | told =>
        refine ⟨rfl, rfl, fun _ hmem => ?_, fun c w₁ n w₂ hmem => ?_⟩
        · cases List.mem_singleton.mp hmem
        · cases List.mem_singleton.mp hmem
          rfl
  refine htold.append ?_
  have hdel : Spares s fd [.asked (.epollCtlDel fd') ()] := .asked rfl rfl (by simp)
  unfold closeDeeds
  split
  · rename_i hneg
    have hclose : Spares s fd [.asked (.close fd') ()] := by
      refine ⟨rfl, rfl, fun fd'' hmem => ?_, fun c w₁ n w₂ hmem => ?_⟩
      · cases List.mem_singleton.mp hmem
        exact hfd hneg
      · cases List.mem_singleton.mp hmem
    exact hdel.append hclose
  · exact hdel

namespace Stands

/-- The listener itself is closed. -/
theorem closeSocket_self (hw : Stands l w o) {r : Except NetFault Unit}
    (h : Outcome (beside (Aside l)) (closeSocket l) w t r w') :
    r = .ok () ∧ Gone l w' ∧ t.any mishap = false ∧ t.any invalidated = false := by
  obtain ⟨told, w₁, o₁, htold, ho₁, rfl, rfl, rfl⟩ :=
    outcome_closeSocket id hw.heap (notifies_live hw.heap) h
  have htype : o₁.type = .tcp := by
    cases htold with
    | silent => cases ho₁.symm.trans hw.heap; exact hw.type
    | told _ hn =>
        cases ho₁.symm.trans (hw.aside hn.1).heap
        exact hw.type
  have hspares : Spares l o₁.fd (told ++ closeDeeds o₁.fd) := spares_closing htold fun _ => rfl
  exact ⟨rfl, ⟨_, w₁.heap_closed l o₁, htype, rfl⟩, hspares.mishap, hspares.valid⟩

/-- The listener stands while another socket is closed. -/
theorem closeSocket_client (hw : Stands l w o) (hs : w.heap s = some o') (hsl : s ≠ l)
    (hfd : o'.fd ≠ o.fd) {r : Except NetFault Unit}
    (h : Outcome (beside (Aside l)) (closeSocket s) w t r w') :
    r = .ok () ∧ Stands l w' o ∧ Spares s o'.fd t := by
  obtain ⟨told, w₁, o₁, htold, ho₁, rfl, rfl, rfl⟩ :=
    outcome_closeSocket id hs (notifies_live hs) h
  obtain ⟨hw₁, hfd₁⟩ : Stands l w₁ o ∧ (o₁.fd = o'.fd ∨ o₁.fd = -1) := by
    cases htold with
    | silent =>
        cases ho₁.symm.trans hs
        exact ⟨hw, .inl rfl⟩
    | told _ hn =>
        obtain ⟨o₂, ho₂, hfd₂⟩ := hn.2 o' hs
        cases ho₁.symm.trans ho₂
        exact ⟨hw.aside hn.1, hfd₂⟩
  have hne : o₁.fd ≠ o.fd := by
    rcases hfd₁ with heq | heq
    · rwa [heq]
    · rw [heq]
      exact (ne_neg_of_nonneg hw.nonneg).symm
  exact ⟨rfl, hw₁.closed hsl hne, spares_closing htold hfd₁.resolve_right⟩

/-- The last step of welcoming a client: it is closed if the option cannot be set. -/
theorem setNoDelay_client (hw : Stands l w o) (hs : w.heap s = some o') (hsl : s ≠ l)
    (hfd : o'.fd ≠ o.fd) {r : Except NetFault Unit}
    (h : Outcome (beside (Aside l)) (TcpSocket.enableTcpNoDelay s >>= fun nodelay =>
      if !nodelay then closeSocket s else pure ()) w t r w') :
    r = .ok () ∧ Stands l w' o ∧ Spares s o'.fd t := by
  rw [TcpSocket.enableTcpNoDelay, outcome_assoc, outcome_load hs] at h
  obtain ⟨nodelay, rest, -, -, rfl, hnodelay⟩ := outcome_ask_idle id rfl h
  have hset : Spares s o'.fd [.asked (.setsockopt o'.fd) nodelay] :=
    .asked rfl rfl (by simp)
  cases nodelay with
  | false =>
      obtain ⟨hr, hstands, hspares⟩ := hw.closeSocket_client hs hsl hfd hnodelay
      exact ⟨hr, hstands, hset.append hspares⟩
  | true =>
      obtain ⟨rfl, rfl, rfl⟩ := hnodelay
      exact ⟨rfl, hw, hset⟩

/-- What follows `accept` and `fcntl`: the new socket is made, and registered or closed. -/
theorem welcome (hw : Stands l w o) {fd : Fd} (hfd : fd ≠ o.fd) {handler : Bool}
    {f : Int → Socket → Socket} (hf : ∀ now c, (f now c).fd = fd) {r : Except NetFault Unit}
    (h : Outcome (beside (Aside l)) (do
      let s ← TcpSocket.create handler
      let now ← ask .time
      store s (f now)
      let added ← EpollContainer.addSocket (some s) .readError
      if !added then
        closeSocket s
      else
        let nodelay ← TcpSocket.enableTcpNoDelay s
        if !nodelay then
          closeSocket s
        else pure ()) w t r w') :
    r = .ok () ∧ Stands l w' o ∧ Spares w.next fd t := by
  obtain ⟨isResending, now, rest, rfl, hnew⟩ := outcome_create id h
  have hclient : w.next ≠ l := hw.born.ne'
  have hmade := hw.create (TcpSocket.construct handler isResending)
    (f now (TcpSocket.construct handler isResending))
  have hs := (w.born (TcpSocket.construct handler isResending)).heap_put w.next
    (f now (TcpSocket.construct handler isResending))
  have hclientFd := hf now (TcpSocket.construct handler isResending)
  generalize f now (TcpSocket.construct handler isResending) = client at hmade hs hnew hclientFd
  subst hclientFd
  have hcreate : Spares w.next client.fd
      [.asked .uninitialized isResending, .asked .time now] :=
    (Spares.asked rfl rfl (by simp)).append (.asked rfl rfl (by simp))
  rcases EpollContainer.outcome_addSocket id hs hnew with
    ⟨refused, rest', hrefused, rfl, hclose⟩ | ⟨rest', rfl, habsent, -, hadded⟩
  · obtain ⟨hr, hstands, hspares⟩ := hmade.closeSocket_client hs hclient hfd hclose
    have hrefusal : Spares w.next client.fd refused := by
      rcases hrefused with rfl | rfl
      · exact .nil
      · exact .asked rfl rfl (by simp)
    exact ⟨hr, hstands, hcreate.append (hrefusal.append hspares)⟩
  · have hlisted := hmade.listed (s := w.next) hfd habsent .readError
    have hadd : Spares w.next client.fd [.asked (.epollCtlAdd client.fd .readError) true] :=
      .asked rfl rfl (by simp)
    obtain ⟨hr, hstands, hspares⟩ := hlisted.setNoDelay_client (by exact hs) hclient hfd hadded
    exact ⟨hr, hstands, hcreate.append (hadd.append hspares)⟩

end Stands
end

/-! ## One event -/

/-- Only the new connection, whose object is the first new one, is discarded. -/
structure Discards (w : World) (t : List NetDeed) : Prop where
  closes : ∀ fd, .asked (.close fd) () ∈ t →
    ∃ listening addr, .asked (.accept listening) (.ok (fd, addr)) ∈ t
  tells : ∀ c w₁ n w₂, .called c w₁ n w₂ ∈ t → c = .handleClose w.next

/-- What a read event does to a listener. -/
inductive Survival (l : SocketId) (w : World) (t : List NetDeed) (w' : World) : Prop
  | standing {o} (hw' : Stands l w' o) (hmishap : t.any mishap = false)
      (hvalid : t.any invalidated = false) (hdiscards : Discards w t)
  | withdrawn (hw' : Gone l w') (hmishap : t.any mishap = false)
      (hinvalid : t.any invalidated = true)
  | lost (hw' : Gone l w') (hmishap : t.any mishap = true) (hvalid : t.any invalidated = false)

section

variable {l : SocketId} {w w' : World} {t : List NetDeed} {o : Socket}

theorem Stands.accept (hw : Stands l w o) {r : Except NetFault Unit}
    (h : Outcome (beside (Aside l)) (TcpSocket.accept l) w t r w') :
    r = .ok () ∧ Survival l w t w' := by
  rw [TcpSocket.accept, outcome_load hw.heap] at h
  obtain ⟨a, rest, hpermits, -, rfl, haccept⟩ := outcome_ask id h
  rcases a with errno | ⟨afd, addr⟩
  · -- the socket is closed, whatever the error says
    obtain ⟨hr, hgone, hmishap, hvalid⟩ := hw.closeSocket_self haccept
    refine ⟨hr, ?_⟩
    cases herrno : errno.invalidates with
    | true =>
        exact .withdrawn hgone (by simp [mishap, herrno, hmishap]) (by simp [invalidated, herrno])
    | false =>
        exact .lost hgone (by simp [mishap, herrno]) (by simp [invalidated, herrno, hvalid])
  · obtain ⟨hne, hstands⟩ := hw.handOut hpermits
    obtain ⟨nonblock, rest', -, -, rfl, hfcntl⟩ := outcome_ask_idle id rfl haccept
    cases nonblock with
    | false =>
        obtain ⟨hr, hgone, -, hvalid⟩ := hstands.closeSocket_self hfcntl
        exact ⟨hr, .lost hgone (by simp [mishap]) (by simp [invalidated, hvalid])⟩
    | true =>
        obtain ⟨hr, hstands', hspares⟩ := hstands.welcome hne (fun _ _ => rfl) hfcntl
        refine ⟨hr, .standing hstands' ?_ ?_ ⟨fun fd hmem => ?_, fun c w₁ n w₂ hmem => ?_⟩⟩
        · simp [mishap, hspares.mishap]
        · simp [invalidated, hspares.valid]
        · have hclose : .asked (.close fd) () ∈ rest' := by simpa using hmem
          rw [hspares.closes fd hclose]
          exact ⟨o.fd, addr, List.mem_cons_self⟩
        · have htold : .called c w₁ n w₂ ∈ rest' := by simpa using hmem
          exact hspares.tells c w₁ n w₂ htold

/-- A read event, delivered to a listening socket. -/
theorem Stands.handleRead (hw : Stands l w o) {size : Nat} {r : Except NetFault Unit}
    (h : Outcome (beside (Aside l)) (SocketBase.handleRead l size) w t r w') :
    r = .ok () ∧ Survival l w t w' := by
  rw [SocketBase.handleRead, outcome_load hw.heap, hw.type] at h
  dsimp only at h
  rw [TcpSocket.handleRead, outcome_load hw.heap, hw.state] at h
  exact hw.accept h

/-- A socket which has been closed does nothing about an event. -/
theorem Gone.handleRead (hw : Gone l w) {rest : World → World → Prop} {size : Nat}
    {r : Except NetFault Unit}
    (h : Outcome (beside rest) (SocketBase.handleRead l size) w t r w') :
    t = [] ∧ r = .ok () ∧ w' = w := by
  obtain ⟨o, ho, htype, hstate⟩ := hw
  rw [SocketBase.handleRead, outcome_load ho, htype] at h
  dsimp only at h
  rw [TcpSocket.handleRead, outcome_load ho, hstate] at h
  exact h

theorem Gone.aside (hw : Gone l w) (haside : Aside l w w') : Gone l w' := by
  obtain ⟨o, ho, hclosed⟩ := hw
  exact ⟨o, haside.heap.trans ho, hclosed⟩

end

/-! ## Runs -/

/-- The deeds of the read events of a run, in their order. -/
def deeds (past : List (World × Option (List NetDeed))) : List NetDeed :=
  past.flatMap fun e => e.2.getD []

/-- After every event the listener stands, unless `accept` has reported that its
descriptor is invalid, and until then only new connections are discarded. -/
structure Survives (l : SocketId) (past : List (World × Option (List NetDeed))) (w : World) :
    Prop where
  stands : (deeds past).any invalidated = false → ∃ o, Stands l w o
  discards : ∀ e ∈ past, ∀ t ∈ e.2, t.any invalidated = false → Discards e.1 t

/-- How a run of read events may stand. -/
inductive Progress (l : SocketId) (past : List (World × Option (List NetDeed))) (w : World) : Prop
  | standing {o} (hw : Stands l w o) (hmishap : (deeds past).any mishap = false)
      (hvalid : (deeds past).any invalidated = false)
      (hdiscards : ∀ e ∈ past, ∀ t ∈ e.2, t.any invalidated = false → Discards e.1 t)
  | withdrawn (hw : Gone l w) (hmishap : (deeds past).any mishap = false)
      (hinvalid : (deeds past).any invalidated = true)
      (hdiscards : ∀ e ∈ past, ∀ t ∈ e.2, t.any invalidated = false → Discards e.1 t)
  | lost (hw : Gone l w) (hmishap : (deeds past).any mishap = true)
      (hvalid : (deeds past).any invalidated = false)

section

variable {l : SocketId} {size : Nat} {w₀ w w' : World} {o : Socket}
  {past : List (World × Option (List NetDeed))} {t : List NetDeed}

theorem any_deeds_snoc (p : NetDeed → Bool) (e : World × Option (List NetDeed)) :
    (deeds (past ++ [e])).any p = ((deeds past).any p || (e.2.getD []).any p) := by
  simp [deeds]

theorem discards_snoc
    (hpast : ∀ e ∈ past, ∀ t ∈ e.2, t.any invalidated = false → Discards e.1 t)
    (hlast : t.any invalidated = false → Discards w t) :
    ∀ e ∈ past ++ [(w, some t)], ∀ t ∈ e.2, t.any invalidated = false → Discards e.1 t := by
  intro e he t' ht'
  rcases List.mem_append.mp he with he | he
  · exact hpast e he t' ht'
  · cases List.mem_singleton.mp he
    cases ht'
    exact hlast

/-- One more event. -/
theorem Progress.read (hp : Progress l past w)
    (h : Outcome (beside (Aside l)) (SocketBase.handleRead l size) w t (.ok ()) w') :
    Progress l (past ++ [(w, some t)]) w' := by
  have hnil : Discards w [] :=
    ⟨fun _ hmem => absurd hmem List.not_mem_nil, fun _ _ _ _ hmem => absurd hmem List.not_mem_nil⟩
  cases hp with
  | standing hw hmishap hvalid hdiscards =>
      obtain ⟨-, hsurvival⟩ := hw.handleRead h
      cases hsurvival with
      | standing hw' ht₁ ht₂ hlast =>
          exact .standing hw' (by simp [any_deeds_snoc, hmishap, ht₁])
            (by simp [any_deeds_snoc, hvalid, ht₂]) (discards_snoc hdiscards fun _ => hlast)
      | withdrawn hw' ht₁ ht₂ =>
          refine .withdrawn hw' (by simp [any_deeds_snoc, hmishap, ht₁])
            (by simp [any_deeds_snoc, ht₂]) (discards_snoc hdiscards fun hfalse => ?_)
          rw [ht₂] at hfalse
          cases hfalse
      | lost hw' ht₁ ht₂ =>
          exact .lost hw' (by simp [any_deeds_snoc, ht₁]) (by simp [any_deeds_snoc, hvalid, ht₂])
  | withdrawn hw hmishap hinvalid hdiscards =>
      obtain ⟨rfl, -, rfl⟩ := hw.handleRead h
      exact .withdrawn hw (by simp [any_deeds_snoc, hmishap]) (by simp [any_deeds_snoc, hinvalid])
        (discards_snoc hdiscards fun _ => hnil)
  | lost hw hmishap hvalid =>
      obtain ⟨rfl, -, rfl⟩ := hw.handleRead h
      exact .lost hw (by simp [any_deeds_snoc, hmishap]) (by simp [any_deeds_snoc, hvalid])

/-- Something else happens in the process. -/
theorem Progress.other (hp : Progress l past w) (haside : Aside l w w') :
    Progress l (past ++ [(w, none)]) w' := by
  have hdeeds : deeds (past ++ [(w, none)]) = deeds past := by simp [deeds]
  have hnone : (∀ e ∈ past, ∀ t ∈ e.2, t.any invalidated = false → Discards e.1 t) →
      ∀ e ∈ past ++ [(w, none)], ∀ t ∈ e.2, t.any invalidated = false → Discards e.1 t := by
    intro hpast e he t ht
    rcases List.mem_append.mp he with he | he
    · exact hpast e he t ht
    · cases List.mem_singleton.mp he
      cases ht
  cases hp with
  | standing hw hmishap hvalid hdiscards =>
      exact .standing (hw.aside haside) (hdeeds ▸ hmishap) (hdeeds ▸ hvalid) (hnone hdiscards)
  | withdrawn hw hmishap hinvalid hdiscards =>
      exact .withdrawn (hw.aside haside) (hdeeds ▸ hmishap) (hdeeds ▸ hinvalid) (hnone hdiscards)
  | lost hw hmishap hvalid =>
      exact .lost (hw.aside haside) (hdeeds ▸ hmishap) (hdeeds ▸ hvalid)

theorem progress_of_run (hw₀ : Stands l w₀ o) (hrun : Run (ReadStep (Aside l) l size) w₀ past w) :
    Progress l past w := by
  induction hrun with
  | start => exact .standing hw₀ rfl rfl (List.forall_mem_nil _)
  | snoc _ hstep ih =>
      cases hstep with
      | read _ _ _ hout => exact ih.read hout
      | other haside => exact ih.other haside

theorem Progress.survives_iff (hp : Progress l past w) :
    Survives l past w ↔ (deeds past).any mishap = false := by
  cases hp with
  | standing hw hmishap _ hdiscards => exact iff_of_true ⟨fun _ => ⟨_, hw⟩, hdiscards⟩ hmishap
  | withdrawn _ hmishap hinvalid hdiscards =>
      refine iff_of_true ⟨fun hvalid => ?_, hdiscards⟩ hmishap
      rw [hinvalid] at hvalid
      cases hvalid
  | lost hw hmishap hvalid =>
      refine iff_of_false (fun hsurvives => ?_) (by simp [hmishap])
      obtain ⟨o, hstands⟩ := hsurvives.stands hvalid
      exact not_gone_of_stands hstands hw

/-- In every run of read events on a listening socket no event fails; and the
listener survives its clients if and only if `accept` has failed with no other
errors than those about the listening descriptor, and `fcntl` has not failed. -/
theorem listener_survives_iff (hw₀ : Stands l w₀ o)
    (hrun : Run (ReadStep (Aside l) l size) w₀ past w) :
    (∀ t r w', Outcome (beside (Aside l)) (SocketBase.handleRead l size) w t r w' → r = .ok ()) ∧
      (Survives l past w ↔ (deeds past).any mishap = false) := by
  have hp := progress_of_run hw₀ hrun
  refine ⟨fun t r w' h => ?_, hp.survives_iff⟩
  cases hp with
  | standing hw => exact (hw.handleRead h).1
  | withdrawn hw => exact (hw.handleRead h).2.1
  | lost hw => exact (hw.handleRead h).2.1

/-! ## A client which vanishes -/

/-- `accept` may fail with any error. -/
theorem Stands.exists_accept_error (hw : Stands l w o) (size : Nat) (errno : Errno) :
    ∃ t w', ReadStep (Aside l) l size w (some (.asked (.accept o.fd) (.error errno) :: t)) w' := by
  have haside : ∀ w, Aside l w w := fun w =>
    ⟨rfl, le_rfl, fun _ _ => rfl, fun _ _ => rfl, fun _ _ => rfl⟩
  obtain ⟨t, r, w', hclose⟩ : ∃ t r w', Outcome (beside (Aside l)) (closeSocket l) w t r w' :=
    exists_outcome_beside haside _ w
  obtain ⟨rfl, -⟩ := hw.closeSocket_self hclose
  refine ⟨t, w', .read hw.heap hw.nonneg hw.mapped ?_⟩
  rw [SocketBase.handleRead, outcome_load hw.heap, hw.type]
  dsimp only
  rw [TcpSocket.handleRead, outcome_load hw.heap, hw.state]
  dsimp only
  rw [TcpSocket.accept, outcome_load hw.heap]
  exact ⟨.error errno, w, t, ⟨trivial, rfl⟩, rfl, hclose⟩

end

/-- `Listen` has just returned. -/
def listeningWorld : World := (played ⟨true, [1], 4⟩ [.enter (.tcpListen 80 10 true)]).world

def listeningSocket : Socket :=
  { TcpSocket.construct true false with fd := 3, state := .listen }

theorem stands_listening : Stands 0 listeningWorld listeningSocket where
  heap := rfl
  born := by decide
  type := rfl
  state := rfl
  nonneg := by decide
  isOpen := rfl
  mapped := rfl
  registered := ⟨.readError, rfl, rfl⟩

/-- A connection is aborted before it is accepted, and the listener is closed. -/
theorem listener_closed_by_client :
    ∃ t w, Run (ReadStep (Aside 0) 0 maxReadBuffSize) listeningWorld [(listeningWorld, some t)] w ∧
      ¬Survives 0 [(listeningWorld, some t)] w := by
  obtain ⟨t, w, hstep⟩ := stands_listening.exists_accept_error maxReadBuffSize .econnaborted
  refine ⟨_, w, .snoc .start hstep, fun hsurvives => ?_⟩
  have hquiet := (progress_of_run stands_listening (.snoc .start hstep)).survives_iff.mp hsurvives
  simp [deeds, mishap, Errno.invalidates] at hquiet

/-- The theorem, when the descriptor of the listener is invalid. -/
theorem listener_survives_iff_invalid :
    ∃ t w, Run (ReadStep (Aside 0) 0 maxReadBuffSize) listeningWorld [(listeningWorld, some t)] w ∧
      (Survives 0 [(listeningWorld, some t)] w ↔
        (deeds [(listeningWorld, some t)]).any mishap = false) := by
  obtain ⟨t, w, hstep⟩ := stands_listening.exists_accept_error maxReadBuffSize .ebadf
  exact ⟨_, w, .snoc .start hstep, (listener_survives_iff stands_listening (.snoc .start hstep)).2⟩

end Net
end Deps
