import Deps.Net.Listener

/-!
# Opening a socket

Every way of opening a socket gets a descriptor, sets it up, makes an object of it
and registers the object.  What fails after the object is made is undone by its
`Close`; when the descriptor cannot be set up, it is forgotten and stays open.
-/

namespace Deps
namespace Net

open Reentrant Runs

/-! ## What has to be undone -/

/-- Only open descriptors are registered, or belong to an object. -/
structure Tidy (w : World) : Prop where
  mapped : ∀ fd s, w.container.socketMap.find fd = some s → w.kernel.isOpen fd = true
  registered : ∀ fd, w.kernel.interest fd ≠ none → w.kernel.isOpen fd = true
  held : ∀ s fd, w.fdOf s = some fd → fd ≠ -1 → w.kernel.isOpen fd = true
  unborn : w.fdOf w.next = none

theorem Owned.tidy {pending : SocketId → Prop} {w : World} (hw : Owned pending w) : Tidy w where
  mapped fd s hs := by
    obtain ⟨hnonneg, hfd⟩ := hw.entry fd s hs
    exact hw.isOpen s fd hfd (ne_neg_of_nonneg hnonneg)
  registered fd hfd := by
    obtain ⟨s, hs⟩ := Option.ne_none_iff_exists'.mp (mt (hw.registered fd).mpr hfd)
    obtain ⟨hnonneg, hheld⟩ := hw.entry fd s hs
    exact hw.isOpen s fd hheld (ne_neg_of_nonneg hnonneg)
  held := hw.isOpen
  unborn := hw.unborn _ le_rfl

/-- The handler leaves descriptors, registrations and the descriptors of objects
alone. -/
structure Calm (w w' : World) : Prop where
  isOpen : w'.kernel.isOpen = w.kernel.isOpen
  interest : w'.kernel.interest = w.kernel.interest
  socketMap : w'.container.socketMap = w.container.socketMap
  fdOf : w'.fdOf = w.fdOf

/-- Descriptors, registrations and the map are as they were in `w`, and objects which
were made since wait for their deletion. -/
structure Undone (w w' : World) : Prop where
  isOpen : w'.kernel.isOpen = w.kernel.isOpen
  interest : w'.kernel.interest = w.kernel.interest
  socketMap : w'.container.socketMap = w.container.socketMap
  queued : ∀ s, w.fdOf s = none → w'.fdOf s ≠ none →
    s ∈ OrderedSet.elements w'.container.closeSockets

theorem Undone.refl (w : World) : Undone w w := ⟨rfl, rfl, rfl, fun _ hnone hsome =>
  absurd hnone hsome⟩

/-- Since `w₀` the object `s` was made with the descriptor `o.fd`, which may have been
registered. -/
structure Made (w₀ w : World) (s : SocketId) (o : Socket) : Prop where
  available : w₀.kernel.Available o.fd
  fresh : w₀.fdOf s = none
  heap : w.heap s = some o
  others : ∀ t, t ≠ s → w.fdOf t = w₀.fdOf t
  isOpen : w.kernel.isOpen = Function.update w₀.kernel.isOpen o.fd true
  interest : ∀ fd, fd ≠ o.fd → w.kernel.interest fd = w₀.kernel.interest fd
  socketMap : w.container.socketMap.erase o.fd = w₀.container.socketMap

section

variable {w₀ w w' : World} {s : SocketId} {o : Socket} {t : List NetDeed} {fd : Fd}

/-- A descriptor which is handed out is not registered. -/
theorem Tidy.absent (hw : Tidy w) (hfd : w.kernel.Available fd) :
    w.container.socketMap.find fd = none ∧ w.kernel.interest fd = none := by
  have hclosed : w.kernel.isOpen fd ≠ true := by simp [hfd.2]
  constructor
  · by_contra hne
    obtain ⟨s, hs⟩ := Option.ne_none_iff_exists'.mp hne
    exact hclosed (hw.mapped fd s hs)
  · by_contra hne
    exact hclosed (hw.registered fd hne)

/-- An open descriptor which is forgotten. -/
theorem not_undone_of_open (hfd : w.kernel.Available fd) (hopen : w'.kernel.isOpen fd = true) :
    ¬Undone w w' := by
  intro hundone
  rw [hundone.isOpen, hfd.2] at hopen
  cases hopen

theorem not_undone_handOut (hfd : w.kernel.Available fd) :
    ¬Undone w { w with kernel := w.kernel.handOut fd } :=
  not_undone_of_open hfd (by simp [Kernel.handOut])

/-- The object is made of a descriptor which was just handed out. -/
theorem Tidy.made (hw : Tidy w) (hfd : w.kernel.Available o.fd) (c : Socket) :
    Made w ((({ w with kernel := w.kernel.handOut o.fd } : World).born c).put w.next o)
      w.next o where
  available := hfd
  fresh := hw.unborn
  heap := World.heap_put _ _ _
  others t ht := by
    rw [World.fdOf, World.heap_put_of_ne _ ht]
    simp [World.born, World.fdOf, ht]
  isOpen := rfl
  interest _ _ := rfl
  socketMap := OrderedMap.erase_of_absent (hw.absent hfd).1

theorem Made.listed (h : Made w₀ w s o) (events : Interest) :
    Made w₀ (w.listed s o.fd events) s o where
  available := h.available
  fresh := h.fresh
  heap := h.heap
  others := h.others
  isOpen := h.isOpen
  interest fd hne := by
    simp only [World.listed, Kernel.enroll, Kernel.register, Function.update_of_ne hne]
    exact h.interest fd hne
  socketMap := by
    rw [World.listed, OrderedMap.erase_insert]
    exact h.socketMap

/-- The handler does not touch it. -/
theorem Made.calm (h : Made w₀ w s o) (hcalm : Calm w w') :
    ∃ o', Made w₀ w' s o' ∧ o'.fd = o.fd := by
  have hfd := congrFun hcalm.fdOf s
  rw [World.fdOf_eq_some h.heap] at hfd
  obtain ⟨o', ho', heq⟩ := Option.map_eq_some_iff.mp hfd
  refine ⟨o', ?_, heq⟩
  constructor
  · rw [heq]
    exact h.available
  · exact h.fresh
  · exact ho'
  · intro t ht
    rw [congrFun hcalm.fdOf t, h.others t ht]
  · rw [hcalm.isOpen, heq, h.isOpen]
  · intro fd hne
    rw [congrFun hcalm.interest fd, h.interest fd (heq ▸ hne)]
  · rw [hcalm.socketMap, heq, h.socketMap]

/-- `Close` without its callback undoes it all. -/
theorem Made.closed (hw₀ : Tidy w₀) (h : Made w₀ w s o) : Undone w₀ (w.closed s o) := by
  have hneg : o.fd ≠ -1 := ne_neg_of_nonneg h.available.1
  constructor
  · have hopen : (w.closed s o).kernel.isOpen =
        Function.update w.kernel.isOpen o.fd false := by
      simp only [World.closed, if_pos hneg]
      rfl
    rw [hopen, h.isOpen, Function.update_idem, ← h.available.2, Function.update_eq_self]
  · rw [World.interest_closed]
    funext fd
    by_cases hfd : fd = o.fd
    · subst hfd
      rw [Function.update_self, (hw₀.absent h.available).2]
    · rw [Function.update_of_ne hfd, h.interest fd hfd]
  · rw [World.container_closed]
    exact h.socketMap
  · intro t hnone hsome
    have hts : t = s := by
      by_contra hne
      rw [World.fdOf, w.heap_closed_of_ne s o hne] at hsome
      exact hsome ((h.others t hne).trans hnone)
    rw [hts, World.container_closed]
    exact (OrderedSet.mem_elements_insert KeyOrder.nat_total).mpr (.inl rfl)

end

/-! ## The ways of opening a socket -/

inductive Opening where
  | tcpListen (port backlog : Int) (handler : Bool)
  | tcpConnect (ip : UInt32) (port : UInt16) (handler : Bool)
  | udpListen (port : Int) (handler : Bool)
  | udpConnect (ip : UInt32) (port : UInt16) (handler : Bool)
  /-- a client of the listening socket `l` -/
  | accept (l : SocketId)

namespace Opening

/-- The call fails, and has done `t`; `Accept` gives up when the descriptor of the new
connection is not in the map at the end. -/
def GivesUp (w : World) (t : List NetDeed) (w' : World) : Opening → Prop
  | tcpListen port backlog handler =>
      Outcome (beside Calm) (TcpSocket.listen port backlog handler) w t (.ok false) w'
  | tcpConnect ip port handler =>
      Outcome (beside Calm) (TcpSocket.connect ip port handler) w t (.ok none) w'
  | udpListen port handler =>
      Outcome (beside Calm) (UdpSocket.listen port handler) w t (.ok false) w'
  | udpConnect ip port handler =>
      Outcome (beside Calm) (UdpSocket.connect ip port handler) w t (.ok none) w'
  | accept l =>
      Outcome (beside Calm) (TcpSocket.accept l) w t (.ok ()) w' ∧
        ∃ listening fd addr rest, t = .asked (.accept listening) (.ok (fd, addr)) :: rest ∧
          w'.container.socketMap.find fd = none

/-- A system call fails on a descriptor which no object has yet.  `Accept` sets
`TCP_NODELAY` only when there is one. -/
def abandons : Opening → NetDeed → Bool
  | _, .asked (.fcntl _) nonblock => !nonblock
  | accept _, _ => false
  | _, .asked (.setsockopt _) reuse => !reuse
  | _, .asked (.bind _ _) bound => !bound
  | _, .asked (.listen _ _) listening => !listening
  | _, _ => false

end Opening

section

variable {w₀ w w' : World} {s : SocketId} {o : Socket} {t : List NetDeed} {β : Type}

theorem any_abandons_closing {told : List NetDeed} {fd : Fd} {w₁ : World}
    (htold : Notifies (beside Calm) s w o told w₁) (op : Opening) :
    (told ++ closeDeeds fd).any op.abandons = false := by
  rw [List.any_append, Bool.or_eq_false_iff]
  constructor
  · cases htold with
    | silent => rfl
    | told => cases op <;> rfl
  · unfold closeDeeds
    split <;> cases op <;> rfl

/-- `Close` undoes the opening, whether the object has been registered or not. -/
theorem Made.close (hw₀ : Tidy w₀) (h : Made w₀ w s o) {r : Except NetFault Unit}
    (hout : Outcome (beside Calm) (closeSocket s) w t r w') :
    r = .ok () ∧ Undone w₀ w' ∧ ∀ op : Opening, t.any op.abandons = false := by
  obtain ⟨told, w₁, o₁, htold, ho₁, rfl, rfl, rfl⟩ :=
    outcome_closeSocket id h.heap (notifies_live h.heap) hout
  refine ⟨rfl, ?_, any_abandons_closing htold⟩
  cases htold with
  | silent =>
      cases h.heap.symm.trans ho₁
      exact h.closed hw₀
  | told _ hn =>
      obtain ⟨o₂, h₂, -⟩ := h.calm hn.1
      cases h₂.heap.symm.trans ho₁
      exact h₂.closed hw₀

/-- `Close` leaves the other descriptors open. -/
theorem isOpen_closeSocket (hs : w.heap s = some o) {fd : Fd} (hfd : o.fd ≠ fd)
    (hopen : w.kernel.isOpen fd = true) {r : Except NetFault Unit}
    (hout : Outcome (beside Calm) (closeSocket s) w t r w') : w'.kernel.isOpen fd = true := by
  obtain ⟨told, w₁, o₁, htold, ho₁, -, -, rfl⟩ :=
    outcome_closeSocket id hs (notifies_live hs) hout
  obtain ⟨hopen₁, heq⟩ : w₁.kernel.isOpen fd = true ∧ w₁.fdOf s = w.fdOf s := by
    cases htold with
    | silent => exact ⟨hopen, rfl⟩
    | told _ hn => exact ⟨(congrFun hn.1.isOpen fd).trans hopen, congrFun hn.1.fdOf s⟩
  rw [World.fdOf_eq_some ho₁, World.fdOf_eq_some hs] at heq
  rw [World.isOpen_closed_of_ne _ _ _ (Option.some.inj heq ▸ hfd.symm)]
  exact hopen₁

theorem Made.discard (hw₀ : Tidy w₀) (h : Made w₀ w s o) {b : β} {r : Except NetFault β}
    (hout : Outcome (beside Calm) (closeSocket s >>= fun _ => pure b) w t r w') :
    Undone w₀ w' ∧ ∀ op : Opening, t.any op.abandons = false := by
  rcases outcome_bind.mp hout with ⟨_, w₁, t₁, t₂, hclose, ⟨rfl, -, rfl⟩, rfl⟩ | ⟨why, hclose, -⟩
  · obtain ⟨-, hundone, hquiet⟩ := h.close hw₀ hclose
    rw [List.append_nil]
    exact ⟨hundone, hquiet⟩
  · obtain ⟨hr, -⟩ := h.close hw₀ hclose
    cases hr

theorem not_outcome_bind_pure {α : Type} {x : NetM α} {b b' : β} (hne : b' ≠ b) :
    ¬Outcome (beside Calm) (x >>= fun _ => pure b') w t (.ok b) w' := by
  intro hout
  rcases outcome_bind.mp hout with ⟨_, _, _, _, -, ⟨-, hr, -⟩, -⟩ | ⟨why, -, hr⟩
  · exact hne (Except.ok.inj hr).symm
  · cases hr

/-- The object is not registered, and closed. -/
theorem Made.refused (hw₀ : Tidy w₀) (h : Made w₀ w s o) {events : Interest}
    {f : Bool → NetM β} {b : β} (hrefused : f false = closeSocket s >>= fun _ => pure b)
    (hadded : ∀ w t w', ¬Outcome (beside Calm) (f true) w t (.ok b) w')
    (hout : Outcome (beside Calm) (EpollContainer.addSocket (some s) events >>= f) w t
      (.ok b) w') :
    Undone w₀ w' ∧ ∀ op : Opening, t.any op.abandons = false := by
  rcases EpollContainer.outcome_addSocket id h.heap hout with
    ⟨refused, rest, hdeeds, rfl, hclose⟩ | ⟨rest, rfl, -, -, hadd⟩
  · rw [hrefused] at hclose
    obtain ⟨hundone, hquiet⟩ := h.discard hw₀ hclose
    refine ⟨hundone, fun op => ?_⟩
    rw [List.any_append, hquiet op]
    rcases hdeeds with rfl | rfl <;> cases op <;> rfl
  · exact absurd hadd (hadded _ _ _)

/-- What `Accept` does with the object: it is closed unless it stays in the map. -/
theorem Made.welcome (hw₀ : Tidy w₀) (h : Made w₀ w s o) {r : Except NetFault Unit}
    (hout : Outcome (beside Calm) (do
      let added ← EpollContainer.addSocket (some s) .readError
      if !added then
        closeSocket s
      else
        let nodelay ← TcpSocket.enableTcpNoDelay s
        if !nodelay then
          closeSocket s
        else pure ()) w t r w')
    (hnone : w'.container.socketMap.find o.fd = none) :
    Undone w₀ w' ∧ ∀ l, t.any (Opening.accept l).abandons = false := by
  rcases EpollContainer.outcome_addSocket id h.heap hout with
    ⟨refused, rest, hdeeds, rfl, hclose⟩ | ⟨rest, rfl, habsent, -, hadded⟩
  · obtain ⟨-, hundone, hquiet⟩ := h.close hw₀ hclose
    refine ⟨hundone, fun l => ?_⟩
    rw [List.any_append, hquiet]
    rcases hdeeds with rfl | rfl <;> rfl
  · have hlisted := h.listed .readError
    have hadded' : Outcome (beside Calm) (TcpSocket.enableTcpNoDelay s >>= fun nodelay =>
        if !nodelay then closeSocket s else pure ()) (w.listed s o.fd .readError) rest r w' :=
      hadded
    rw [TcpSocket.enableTcpNoDelay, outcome_assoc, outcome_load hlisted.heap] at hadded'
    obtain ⟨nodelay, rest', -, -, rfl, hset⟩ := outcome_ask_idle id rfl hadded'
    cases nodelay with
    | false =>
        obtain ⟨-, hundone, hquiet⟩ := hlisted.close hw₀ hset
        refine ⟨hundone, fun l => ?_⟩
        simp [Opening.abandons, hquiet]
    | true =>
        -- the socket has been accepted
        obtain ⟨rfl, -, rfl⟩ := hset
        have hfound : (w.listed s o.fd .readError).container.socketMap.find o.fd = some s :=
          (OrderedMap.find_insert_of_absent KeyOrder.int_total habsent _ _).mpr (.inl ⟨rfl, rfl⟩)
        rw [hnone] at hfound
        cases hfound

/-- A call which has no object yet gives up, or goes on. -/
theorem undone_iff_of_answer {op : Opening} {deed : NetDeed} {ok : Bool} {g : NetM β} {b : β}
    (hforgotten : ¬Undone w₀ w) (habandons : op.abandons deed = !ok)
    (hout : Outcome (beside Calm) (if !ok then pure b else g) w t (.ok b) w')
    (hrest : Outcome (beside Calm) g w t (.ok b) w' →
      (Undone w₀ w' ↔ t.any op.abandons = false)) :
    Undone w₀ w' ↔ (deed :: t).any op.abandons = false := by
  rw [List.any_cons, habandons]
  cases ok with
  | false =>
      obtain ⟨rfl, -, rfl⟩ := hout
      exact iff_of_false hforgotten (by simp)
  | true => exact hrest hout

/-- How `Listen` and `Connect` begin. -/
theorem undone_iff_of_socket {op : Opening} {type : SocketType} {k : Option Fd → NetM β}
    {f : Fd → NetM β} {b : β}
    (hout : Outcome (beside Calm) (ask (.socket type) >>= k) w t (.ok b) w')
    (hnone : k none = pure b)
    (hsome : ∀ fd, k (some fd) = ask (.fcntl fd) >>= fun nonblock =>
      if !nonblock then pure b else f fd)
    (hrest : ∀ fd rest, w.kernel.Available fd →
      Outcome (beside Calm) (f fd) { w with kernel := w.kernel.handOut fd } rest (.ok b) w' →
      (Undone w w' ↔ rest.any op.abandons = false)) :
    Undone w w' ↔ t.any op.abandons = false := by
  obtain ⟨a, t₁, hpermits, -, rfl, h₁⟩ := outcome_ask id hout
  have hsocket : op.abandons (.asked (.socket type) a) = false := by cases op <;> rfl
  rw [List.any_cons, hsocket, Bool.false_or]
  cases a with
  | none =>
      rw [hnone] at h₁
      obtain ⟨rfl, -, rfl⟩ := h₁
      exact iff_of_true (.refl _) rfl
  | some fd =>
      rw [hsome] at h₁
      obtain ⟨nonblock, t₂, -, -, rfl, h₂⟩ := outcome_ask_idle id rfl h₁
      refine undone_iff_of_answer (not_undone_handOut hpermits) ?_ h₂ (hrest fd t₂ hpermits)
      cases op <;> rfl

end

/-! ## Each way of opening a socket -/

section

variable {w w' : World} {t : List NetDeed} {β : Type} (hw : Tidy w)
include hw

/-- A `TcpSocket` is made of a descriptor. -/
theorem TcpSocket.made_of_create {fd : Fd} (hfd : w.kernel.Available fd) {handler : Bool}
    {f : Int → Socket → Socket} (hf : ∀ now c, (f now c).fd = fd) {g : SocketId → NetM β}
    {r : Except NetFault β} (h : Outcome (beside Calm) (do
      let s ← create handler
      let now ← ask .time
      store s (f now)
      g s) { w with kernel := w.kernel.handOut fd } t r w') :
    ∃ o w₁ made rest, o.fd = fd ∧ Made w w₁ w.next o ∧ t = made ++ rest ∧
      (∀ op : Opening, made.any op.abandons = false) ∧
      Outcome (beside Calm) (g w.next) w₁ rest r w' := by
  obtain ⟨isResending, now, rest, rfl, hrest⟩ := outcome_create id h
  have ho := hf now (construct handler isResending)
  have hmade := hw.made (ho.symm ▸ hfd) (construct handler isResending)
  rw [ho] at hmade
  refine ⟨_, _, [.asked .uninitialized isResending, .asked .time now], rest, ho, hmade, rfl,
    fun op => ?_, hrest⟩
  cases op <;> rfl

/-- A `UdpSocket` is made of a descriptor. -/
theorem UdpSocket.made_of_create {fd : Fd} (hfd : w.kernel.Available fd) {handler : Bool}
    {f : Int → Socket → Socket} (hf : ∀ now c, (f now c).fd = fd) {g : SocketId → NetM β}
    {r : Except NetFault β} (h : Outcome (beside Calm) (do
      let s ← new (construct handler)
      let now ← ask .time
      store s (f now)
      g s) { w with kernel := w.kernel.handOut fd } t r w') :
    ∃ o w₁ made rest, o.fd = fd ∧ Made w w₁ w.next o ∧ t = made ++ rest ∧
      (∀ op : Opening, made.any op.abandons = false) ∧
      Outcome (beside Calm) (g w.next) w₁ rest r w' := by
  let w₁ : World := { w with kernel := w.kernel.handOut fd }
  have h' : Outcome (beside Calm) (ask .time >>= fun now =>
      store w₁.next (f now) >>= fun _ => g w₁.next) (w₁.born (construct handler)) t r w' := h
  obtain ⟨now, rest, -, -, rfl, hstore⟩ := outcome_ask_idle id rfl h'
  rw [outcome_store_bind (w₁.heap_born _)] at hstore
  have ho := hf now (construct handler)
  have hmade := hw.made (ho.symm ▸ hfd) (construct handler)
  rw [ho] at hmade
  refine ⟨_, _, [.asked .time now], rest, ho, hmade, rfl, fun op => ?_, hstore⟩
  cases op <;> rfl

theorem undone_tcpListen_iff {port backlog : Int} {handler : Bool}
    (h : Outcome (beside Calm) (TcpSocket.listen port backlog handler) w t (.ok false) w') :
    Undone w w' ↔ t.any (Opening.tcpListen port backlog handler).abandons = false := by
  unfold TcpSocket.listen at h
  refine undone_iff_of_socket h rfl (fun _ => rfl) fun fd t hfd h₂ => ?_
  have hforgotten := not_undone_handOut hfd
  obtain ⟨reuse, t₃, -, -, rfl, h₃⟩ := outcome_ask_idle id rfl h₂
  refine undone_iff_of_answer hforgotten rfl h₃ fun h₃ => ?_
  obtain ⟨bound, t₄, -, -, rfl, h₄⟩ := outcome_ask_idle id rfl h₃
  refine undone_iff_of_answer hforgotten rfl h₄ fun h₄ => ?_
  obtain ⟨listening, t₅, -, -, rfl, h₅⟩ := outcome_ask_idle id rfl h₄
  refine undone_iff_of_answer hforgotten rfl h₅ fun h₅ => ?_
  obtain ⟨o, w₁, made, rest, -, hmade, rfl, hquiet, hadd⟩ :=
    TcpSocket.made_of_create hw hfd (fun _ _ => rfl) h₅
  obtain ⟨hundone, hquiet'⟩ := hmade.refused hw rfl (fun _ _ _ hout => by cases hout.2.1) hadd
  refine iff_of_true hundone ?_
  simp [hquiet, hquiet']

theorem undone_tcpConnect_iff {ip : UInt32} {port : UInt16} {handler : Bool}
    (h : Outcome (beside Calm) (TcpSocket.connect ip port handler) w t (.ok none) w') :
    Undone w w' ↔ t.any (Opening.tcpConnect ip port handler).abandons = false := by
  unfold TcpSocket.connect at h
  refine undone_iff_of_socket h rfl (fun _ => rfl) fun fd t hfd h₂ => ?_
  obtain ⟨ret, t₃, -, -, rfl, h₃⟩ := outcome_ask_idle id rfl h₂
  obtain ⟨o, w₁, made, rest, -, hmade, rfl, hquiet, hrest⟩ :=
    TcpSocket.made_of_create hw hfd (fun _ _ => rfl) h₃
  -- whether the connection is there, or begins, the object is not registered
  have hgiven : Undone w w' ∧ ∀ op : Opening, rest.any op.abandons = false := by
    rcases ret with errno | _
    · by_cases hprogress : errno = .einprogress
      · subst hprogress
        exact hmade.refused hw rfl (fun _ _ _ hout =>
          not_outcome_bind_pure (Option.some_ne_none w.next) hout) hrest
      · have hclose : Outcome (beside Calm) (closeSocket w.next >>= fun _ => pure none) w₁ rest
            (.ok (none : Option SocketId)) w' := by
          cases errno <;> first | exact hrest | exact absurd rfl hprogress
        exact hmade.discard hw hclose
    · exact hmade.refused hw rfl (fun _ _ _ hout =>
          not_outcome_bind_pure (Option.some_ne_none w.next) hout) hrest
  refine iff_of_true hgiven.1 ?_
  simp [Opening.abandons, hquiet, hgiven.2]

theorem undone_udpListen_iff {port : Int} {handler : Bool}
    (h : Outcome (beside Calm) (UdpSocket.listen port handler) w t (.ok false) w') :
    Undone w w' ↔ t.any (Opening.udpListen port handler).abandons = false := by
  unfold UdpSocket.listen at h
  refine undone_iff_of_socket h rfl (fun _ => rfl) fun fd t hfd h₂ => ?_
  have hforgotten := not_undone_handOut hfd
  obtain ⟨reuse, t₃, -, -, rfl, h₃⟩ := outcome_ask_idle id rfl h₂
  refine undone_iff_of_answer hforgotten rfl h₃ fun h₃ => ?_
  obtain ⟨bound, t₄, -, -, rfl, h₄⟩ := outcome_ask_idle id rfl h₃
  refine undone_iff_of_answer hforgotten rfl h₄ fun h₄ => ?_
  obtain ⟨o, w₁, made, rest, -, hmade, rfl, hquiet, hadd⟩ :=
    UdpSocket.made_of_create hw hfd (fun _ _ => rfl) h₄
  have hgiven := hmade.refused hw rfl (fun _ _ _ hout => by
    rcases outcome_bind.mp hout with ⟨_, _, _, _, -, hpure, -⟩ | ⟨_, -, hr⟩
    · exact not_outcome_bind_pure (by decide) hpure
    · cases hr) hadd
  refine iff_of_true hgiven.1 ?_
  simp [hquiet, hgiven.2]

theorem undone_udpConnect_iff {ip : UInt32} {port : UInt16} {handler : Bool}
    (h : Outcome (beside Calm) (UdpSocket.connect ip port handler) w t (.ok none) w') :
    Undone w w' ↔ t.any (Opening.udpConnect ip port handler).abandons = false := by
  unfold UdpSocket.connect at h
  refine undone_iff_of_socket h rfl (fun _ => rfl) fun fd t hfd h₂ => ?_
  obtain ⟨o, w₁, made, rest, -, hmade, rfl, hquiet, hadd⟩ :=
    UdpSocket.made_of_create hw hfd (fun _ _ => rfl) h₂
  have hgiven := hmade.refused hw rfl (fun _ _ _ hout => by cases hout.2.1) hadd
  refine iff_of_true hgiven.1 ?_
  simp [hquiet, hgiven.2]

theorem undone_accept_iff {l : SocketId} (h : (Opening.accept l).GivesUp w t w') :
    Undone w w' ↔ t.any (Opening.accept l).abandons = false := by
  obtain ⟨h, listening, afd, addr, given, ht, hnone⟩ := h
  unfold TcpSocket.accept at h
  cases hl : w.heap l with
  | none =>
      rw [load, outcome_assoc, outcome_read, hl] at h
      cases h.2.1
  | some o =>
  rw [outcome_load hl] at h
  obtain ⟨a, t₁, hpermits, -, rfl, h₁⟩ := outcome_ask id h
  rcases a with errno | ⟨fd, addr'⟩
  · cases ht
  cases ht
  have hne : o.fd ≠ afd := by
    rintro rfl
    have hopen := hw.held l o.fd (World.fdOf_eq_some hl) (ne_neg_of_nonneg hpermits.1)
    rw [hpermits.2] at hopen
    cases hopen
  obtain ⟨nonblock, t₂, -, -, rfl, h₂⟩ := outcome_ask_idle id rfl h₁
  cases nonblock with
  | false =>
      -- the listening socket is closed, and the new descriptor stays open
      have hopen : (w.kernel.handOut afd).isOpen afd = true := by simp [Kernel.handOut]
      have hforgotten := isOpen_closeSocket (w := { w with kernel := w.kernel.handOut afd }) hl hne
        hopen h₂
      exact iff_of_false (not_undone_of_open hpermits hforgotten) (by simp [Opening.abandons])
  | true =>
  obtain ⟨c, w₁, made, rest, rfl, hmade, rfl, hquiet, hadd⟩ :=
    TcpSocket.made_of_create hw hpermits (fun _ _ => rfl) h₂
  obtain ⟨hundone, hquiet'⟩ := hmade.welcome hw hadd hnone
  refine iff_of_true hundone ?_
  simp [Opening.abandons, hquiet, hquiet' l]

end

theorem opening_undone_iff {w w' : World} {t : List NetDeed} (hw : Tidy w) (op : Opening)
    (h : op.GivesUp w t w') : Undone w w' ↔ t.any op.abandons = false := by
  cases op with
  | tcpListen port backlog handler => exact undone_tcpListen_iff hw h
  | tcpConnect ip port handler => exact undone_tcpConnect_iff hw h
  | udpListen port handler => exact undone_udpListen_iff hw h
  | udpConnect ip port handler => exact undone_udpConnect_iff hw h
  | accept l => exact undone_accept_iff hw h

/-- Whenever the application has control, only what is owned is open or registered. -/
theorem tidy_of_reaches {maxFdCount : Nat} {kernel : Kernel} {checkFd : Fd} {c : NetConfig}
    (hc : Reaches managed Method.body (Config.start (World.initial maxFdCount kernel checkFd)) c)
    (hidle : c.running = none) : Tidy c.world := by
  have hinit : ownership.inv [] [] (World.initial maxFdCount kernel checkFd) :=
    ⟨.initial maxFdCount kernel checkFd, EpollContainer.alive_nil _⟩
  exact (ownership.inv_of_reaches sound_ownership hinit hc hidle).1.tidy

/-- In every run, an opening which fails leaves nothing behind if and only if no system
call on its descriptor failed before there was an object. -/
theorem opening_leaks_nothing_iff (maxFdCount : Nat) (kernel : Kernel) (checkFd : Fd)
    {c : NetConfig}
    (hc : Reaches managed Method.body (Config.start (World.initial maxFdCount kernel checkFd)) c)
    (hidle : c.running = none) (op : Opening) {t : List NetDeed} {w' : World}
    (h : op.GivesUp c.world t w') :
    Undone c.world w' ↔ t.any op.abandons = false :=
  opening_undone_iff (tidy_of_reaches hc hidle) op h

/-- The registration of a connected `UdpSocket` is refused. -/
theorem opening_leaks_nothing_iff_refused :
    ∃ t w', (Opening.udpConnect 1 9 false).GivesUp (World.initial 8 Kernel.idle 0) t w' ∧
      t.any (Opening.udpConnect 1 9 false).abandons = false ∧
      (Undone (World.initial 8 Kernel.idle 0) w' ↔
        t.any (Opening.udpConnect 1 9 false).abandons = false) := by
  have h : ∃ t w', t.any (Opening.udpConnect 1 9 false).abandons = false ∧
      (Opening.udpConnect 1 9 false).GivesUp (World.initial 8 Kernel.idle 0) t w' := by
    refine ⟨_, _, ?_, some 3, _, _, ⟨⟨by decide, rfl⟩, rfl⟩, rfl, true, _, _, ⟨trivial, rfl⟩, rfl,
      0, _, _, ⟨trivial, rfl⟩, rfl, false, _, _, ⟨trivial, rfl⟩, rfl, (), _, _, ⟨trivial, rfl⟩, rfl,
      (), _, _, ⟨trivial, rfl⟩, rfl, rfl, rfl, rfl⟩
    rfl
  obtain ⟨t, w', hquiet, hout⟩ := h
  exact ⟨t, w', hout, hquiet, opening_leaks_nothing_iff 8 Kernel.idle 0 .refl rfl _ hout⟩

/-- The port is taken: `bind` fails, and the new descriptor stays open. -/
theorem listen_forgets_descriptor :
    ∃ t w', (Opening.tcpListen 80 10 false).GivesUp (World.initial 8 Kernel.idle 0) t w' ∧
      w'.kernel.isOpen 3 = true ∧ ¬Undone (World.initial 8 Kernel.idle 0) w' := by
  have hfd : (World.initial 8 Kernel.idle 0).kernel.Available 3 := ⟨by decide, rfl⟩
  refine ⟨_, _, ⟨some 3, _, _, ⟨hfd, rfl⟩, rfl, true, _, _, ⟨trivial, rfl⟩, rfl,
    true, _, _, ⟨trivial, rfl⟩, rfl, false, _, _, ⟨trivial, rfl⟩, rfl, rfl, rfl, rfl⟩, rfl, ?_⟩
  exact not_undone_of_open hfd rfl

end Net
end Deps
