import Deps.Lib.Outcome
import Deps.Lib.Runs
import Deps.Net.Rules

/-!
# Outcomes of the methods

What the operations on objects and on the container may have done when they are
over, and `Close` with them.  `ReadStep` is the run of a socket to which
`HandleSockets` delivers one read event after the other.
-/

namespace Deps
namespace Net

open Reentrant

abbrev NetSetting := Setting World Question Answer Callback

abbrev NetDeed := Deed World Question Answer Callback

/-- The system calls of `Close`, as deeds. -/
def closeDeeds (fd : Fd) : List NetDeed :=
  .asked (.epollCtlDel fd) () :: if fd ≠ -1 then [.asked (.close fd) ()] else []

/-- What `Close` does first: it tells the handler, when there is one. -/
inductive Notifies (env : NetSetting) (this : SocketId) (w : World) (o : Socket) :
    List NetDeed → World → Prop
  | silent (hhandler : o.handler = false) : Notifies env this w o [] w
  | told {n w₁} (hhandler : o.handler = true) (hn : env.handles (.handleClose this) w n w₁) :
      Notifies env this w o [.called (.handleClose this) w n w₁] w₁

section

variable {env : NetSetting} {w w' : World} {t : List NetDeed} {this : SocketId} {o : Socket}
  {α β : Type}

theorem outcome_load (hs : w.heap this = some o) {f : Socket → NetM β} {r : Except NetFault β} :
    Outcome env (load this >>= f) w t r w' ↔ Outcome env (f o) w t r w' := by
  rw [load, outcome_assoc, outcome_read, hs]
  exact Iff.rfl

theorem outcome_store (hs : w.heap this = some o) {g : Socket → Socket} {r : Except NetFault Unit} :
    Outcome env (store this g) w t r w' ↔ t = [] ∧ r = .ok () ∧ w' = w.put this (g o) := by
  rw [store, outcome_load hs]
  exact Iff.rfl

theorem outcome_store_bind (hs : w.heap this = some o) {g : Socket → Socket} {f : Unit → NetM β}
    {r : Except NetFault β} :
    Outcome env (store this g >>= f) w t r w' ↔ Outcome env (f ()) (w.put this (g o)) t r w' := by
  rw [outcome_bind]
  simp only [outcome_store hs]
  constructor
  · rintro (⟨_, _, _, t₂, ⟨rfl, -, rfl⟩, h, rfl⟩ | ⟨why, ⟨-, hwhy, -⟩, -⟩)
    · exact h
    · cases hwhy
  · exact fun h => .inl ⟨(), _, [], t, ⟨rfl, trivial, rfl⟩, h, rfl⟩

theorem outcome_members {f : EpollContainer → NetM β} {r : Except NetFault β} :
    Outcome env (EpollContainer.members >>= f) w t r w' ↔ Outcome env (f w.container) w t r w' :=
  Iff.rfl

theorem outcome_modifyMembers {g : EpollContainer → EpollContainer} {f : Unit → NetM β}
    {r : Except NetFault β} :
    Outcome env (EpollContainer.modifyMembers g >>= f) w t r w' ↔
      Outcome env (f ()) { w with container := g w.container } t r w' := Iff.rfl

variable (hkernel : ∀ {w q a w'}, env.answers w q a w' → Kernel.answers w q a w')
include hkernel

theorem outcome_ask {q : Question} {f : Answer q → NetM β} {r : Except NetFault β}
    (h : Outcome env (ask q >>= f) w t r w') :
    ∃ a rest, Kernel.permits w q a ∧ env.answers w q a (Kernel.effect w q a) ∧
      t = .asked q a :: rest ∧ Outcome env (f a) (Kernel.effect w q a) rest r w' := by
  obtain ⟨a, w₁, rest, ha, ht, hrest⟩ := h
  obtain ⟨hpermits, rfl⟩ := hkernel ha
  exact ⟨a, rest, hpermits, ha, ht, hrest⟩

theorem outcome_ask_idle {q : Question} (hq : q.isIdle = true) {f : Answer q → NetM β}
    {r : Except NetFault β} (h : Outcome env (ask q >>= f) w t r w') :
    ∃ a rest, Kernel.permits w q a ∧ env.answers w q a w ∧ t = .asked q a :: rest ∧
      Outcome env (f a) w rest r w' := by
  obtain ⟨a, rest, hpermits, ha, ht, hrest⟩ := outcome_ask hkernel h
  rw [Kernel.effect_of_isIdle hq] at ha hrest
  exact ⟨a, rest, hpermits, ha, ht, hrest⟩

theorem outcome_touch (hs : w.heap this = some o) {f : Unit → NetM β} {r : Except NetFault β}
    (h : Outcome env (touch this >>= f) w t r w') :
    ∃ now rest, t = .asked .time now :: rest ∧
      Outcome env (f ()) (w.put this { o with lastAccessTime := now }) rest r w' := by
  have h' : Outcome env (ask .time >>= fun now =>
      store this (fun s => { s with lastAccessTime := now }) >>= f) w t r w' := h
  obtain ⟨now, rest, -, -, ht, hrest⟩ := outcome_ask_idle hkernel rfl h'
  exact ⟨now, rest, ht, (outcome_store_bind hs).mp hrest⟩

theorem outcome_appendInput (hs : w.heap this = some o) {data : List UInt8} {f : Unit → NetM β}
    {r : Except NetFault β} (h : Outcome env (appendInput this data >>= f) w t r w') :
    ∃ malloc rest, t = .asked .malloc malloc :: rest ∧
      Outcome env (f ()) (w.put this { o with input := (o.input.append malloc data).2 })
        rest r w' := by
  have h' : Outcome env (ask .malloc >>= fun malloc =>
      store this (fun s => { s with input := (s.input.append malloc data).2 }) >>= f) w t r w' := h
  obtain ⟨malloc, rest, -, -, ht, hrest⟩ := outcome_ask_idle hkernel rfl h'
  exact ⟨malloc, rest, ht, (outcome_store_bind hs).mp hrest⟩

/-- `new TcpSocket`, and the fields which are set right afterwards. -/
theorem outcome_create {handler : Bool} {f : Int → Socket → Socket} {g : SocketId → NetM β}
    {r : Except NetFault β} (h : Outcome env (do
      let s ← TcpSocket.create handler
      let now ← ask .time
      store s (f now)
      g s) w t r w') :
    ∃ isResending now rest,
      t = .asked .uninitialized isResending :: .asked .time now :: rest ∧
      Outcome env (g w.next) ((w.born (TcpSocket.construct handler isResending)).put w.next
        (f now (TcpSocket.construct handler isResending))) rest r w' := by
  have h' : Outcome env (ask .uninitialized >>= fun isResending =>
      new (TcpSocket.construct handler isResending) >>= fun s =>
        ask .time >>= fun now => store s (f now) >>= fun _ => g s) w t r w' := h
  obtain ⟨isResending, rest, -, -, ht, hnew⟩ := outcome_ask_idle hkernel rfl h'
  have hborn : Outcome env (ask .time >>= fun now => store w.next (f now) >>= fun _ => g w.next)
      (w.born (TcpSocket.construct handler isResending)) rest r w' := hnew
  obtain ⟨now, rest', -, -, hrest, hstore⟩ := outcome_ask_idle hkernel rfl hborn
  rw [outcome_store_bind (w.heap_born _)] at hstore
  exact ⟨isResending, now, rest', ht.trans (congrArg _ hrest), hstore⟩

theorem EpollContainer.outcome_delSocket (hs : w.heap this = some o) {r : Except NetFault Bool}
    (h : Outcome env (delSocket (some this)) w t r w') :
    t = [.asked (.epollCtlDel o.fd) ()] ∧ r = .ok true ∧ w' = w.unlisted this o.fd := by
  simp only [delSocket, outcome_load hs] at h
  obtain ⟨_, rest, -, -, rfl, hrest⟩ := outcome_ask hkernel h
  rw [outcome_members] at hrest
  by_cases hsome : (w.container.socketMap.find o.fd).isSome
  · rw [if_pos (by exact hsome), outcome_modifyMembers, outcome_modifyMembers] at hrest
    obtain ⟨rfl, rfl, rfl⟩ := hrest
    refine ⟨rfl, rfl, ?_⟩
    simp only [World.unlisted, if_pos hsome]
    rfl
  · rw [if_neg (by exact hsome), outcome_modifyMembers] at hrest
    obtain ⟨rfl, rfl, rfl⟩ := hrest
    have hfind : w.container.socketMap.find o.fd = none := by simpa using hsome
    refine ⟨rfl, rfl, ?_⟩
    simp only [World.unlisted, if_neg hsome, OrderedMap.erase_of_absent hfind]
    rfl

/-- `Close` ends with the fields of a closed object, whatever the handler has done. -/
theorem outcome_closeSocket (hs : w.heap this = some o)
    (hlive : ∀ n w₁, env.handles (.handleClose this) w n w₁ → w₁.heap this ≠ none)
    {r : Except NetFault Unit} (h : Outcome env (closeSocket this) w t r w') :
    ∃ told w₁ o₁, Notifies env this w o told w₁ ∧ w₁.heap this = some o₁ ∧
      t = told ++ closeDeeds o₁.fd ∧ r = .ok () ∧ w' = w₁.closed this o₁ := by
  -- what follows the callback
  have hrest : ∀ {w : World} {o : Socket} {t : List NetDeed}, w.heap this = some o →
      Outcome env (do
        let _ ← EpollContainer.delSocket (some this)
        let s ← load this
        if s.fd ≠ -1 then
          ask (.close s.fd)
        store this World.closedFields : NetM Unit) w t r w' →
      t = closeDeeds o.fd ∧ r = .ok () ∧ w' = w.closed this o := by
    intro w o t hs h
    rcases outcome_bind.mp h with ⟨_, w₁, t₁, t₂, hdel, h, rfl⟩ | ⟨why, hdel, -⟩
    · obtain ⟨rfl, -, rfl⟩ := EpollContainer.outcome_delSocket hkernel hs hdel
      have hs' : (w.unlisted this o.fd).heap this = some o := hs
      rw [outcome_load hs'] at h
      by_cases hfd : o.fd ≠ -1
      · rw [if_pos hfd] at h
        obtain ⟨_, rest, -, -, rfl, hstore⟩ := outcome_ask hkernel h
        obtain ⟨rfl, rfl, rfl⟩ := (outcome_store (by exact hs)).mp hstore
        rw [closeDeeds, World.closed, if_pos hfd, if_pos hfd]
        exact ⟨rfl, rfl, rfl⟩
      · rw [if_neg hfd] at h
        obtain ⟨rfl, rfl, rfl⟩ := (outcome_store hs').mp h
        rw [closeDeeds, World.closed, if_neg hfd, if_neg hfd]
        exact ⟨rfl, rfl, rfl⟩
    · obtain ⟨-, hwhy, -⟩ := EpollContainer.outcome_delSocket hkernel hs hdel
      cases hwhy
  simp only [closeSocket, outcome_load hs] at h
  cases hhandler : o.handler with
  | false =>
      rw [hhandler] at h
      obtain ⟨rfl, rfl, rfl⟩ := hrest hs h
      exact ⟨[], w, o, .silent hhandler, hs, rfl, rfl, rfl⟩
  | true =>
      rw [hhandler] at h
      obtain ⟨n, w₁, rest, hn, rfl, h⟩ := h
      obtain ⟨o₁, ho₁⟩ := Option.ne_none_iff_exists'.mp (hlive n w₁ hn)
      obtain ⟨rfl, rfl, rfl⟩ := hrest ho₁ h
      exact ⟨_, w₁, o₁, .told hhandler hn, ho₁, rfl, rfl, rfl⟩

/-- `AddSocket` registers the socket, or changes nothing. -/
theorem EpollContainer.outcome_addSocket (hs : w.heap this = some o) {events : Interest}
    {f : Bool → NetM β} {r : Except NetFault β}
    (h : Outcome env (addSocket (some this) events >>= f) w t r w') :
    (∃ refused rest, (refused = [] ∨ refused = [.asked (.epollCtlAdd o.fd events) false]) ∧
        t = refused ++ rest ∧ Outcome env (f false) w rest r w') ∨
      ∃ rest, t = .asked (.epollCtlAdd o.fd events) true :: rest ∧
        w.container.socketMap.find o.fd = none ∧
        w.container.socketMap.size < w.container.maxFdCount ∧
        Outcome env (f true) (w.listed this o.fd events) rest r w' := by
  have hadd : ∀ {r₁ t₁ w₁}, Outcome env (addSocket (some this) events) w t₁ r₁ w₁ →
      (r₁ = .ok false ∧ w₁ = w ∧ (t₁ = [] ∨ t₁ = [.asked (.epollCtlAdd o.fd events) false])) ∨
        (r₁ = .ok true ∧ t₁ = [.asked (.epollCtlAdd o.fd events) true] ∧
          w₁ = w.listed this o.fd events ∧ w.container.socketMap.find o.fd = none ∧
          w.container.socketMap.size < w.container.maxFdCount) := by
    intro r₁ t₁ w₁ h
    simp only [addSocket, outcome_members] at h
    split at h
    · obtain ⟨rfl, rfl, rfl⟩ := h
      exact .inl ⟨rfl, rfl, .inl rfl⟩
    rename_i hroom
    rw [outcome_load hs] at h
    split at h
    · obtain ⟨rfl, rfl, rfl⟩ := h
      exact .inl ⟨rfl, rfl, .inl rfl⟩
    rename_i habsent
    obtain ⟨added, rest, -, -, rfl, hadded⟩ := outcome_ask hkernel h
    cases added with
    | false =>
        obtain ⟨rfl, rfl, rfl⟩ := hadded
        exact .inl ⟨rfl, rfl, .inr rfl⟩
    | true =>
        obtain ⟨rfl, rfl, rfl⟩ := hadded
        exact .inr ⟨rfl, rfl, rfl, by simpa using habsent, Nat.lt_of_not_le hroom⟩
  rcases outcome_bind.mp h with ⟨added, w₁, t₁, rest, h₁, hf, ht⟩ | ⟨why, h₁, -⟩
  · rcases hadd h₁ with ⟨hr, rfl, ht₁⟩ | ⟨hr, rfl, rfl, habsent, hroom⟩
    · cases hr
      exact .inl ⟨t₁, rest, ht₁, ht, hf⟩
    · cases hr
      exact .inr ⟨rest, ht, habsent, hroom, hf⟩
  · rcases hadd h₁ with ⟨hr, -⟩ | ⟨hr, -⟩ <;> cases hr

end

/-! ## Read events -/

/-- A process in which the kernel answers as it may.  While a callback runs
anything may happen which `rest` allows; the object the callback is about stays
alive, and keeps its descriptor unless it is closed. -/
def beside (rest : World → World → Prop) : NetSetting where
  answers := Kernel.answers
  handles c w _ w' := rest w w' ∧ ∀ o, w.heap c.socket = some o →
    ∃ o', w'.heap c.socket = some o' ∧ (o'.fd = o.fd ∨ o'.fd = -1)

theorem exists_outcome_beside {rest : World → World → Prop} (hrest : ∀ w, rest w w) {α : Type}
    (x : NetM α) (w : World) : ∃ t r w', Outcome (beside rest) x w t r w' := by
  refine exists_outcome (fun w q => ?_) (fun c w => ?_) x w
  · exact ⟨_, _, Obliging.answers ⟨true, [], 0⟩ w q⟩
  · exact ⟨0, w, hrest w, fun o ho => ⟨o, ho, .inl rfl⟩⟩

/-- Either the event loop delivers a read event to the socket, which is open and in
its map, or something else happens in the process. -/
inductive ReadStep (rest : World → World → Prop) (this : SocketId) (size : Nat) :
    World → Option (List NetDeed) → World → Prop
  | read {w t w' o} (ho : w.heap this = some o) (hopen : 0 ≤ o.fd)
      (hmapped : w.container.socketMap.find o.fd = some this)
      (hout : Outcome (beside rest) (SocketBase.handleRead this size) w t (.ok ()) w') :
      ReadStep rest this size w (some t) w'
  | other {w w'} (hrest : rest w w') : ReadStep rest this size w none w'

/-- The environment of such a run: the event loop enters `HandleRead`, and the rest
of the process does what `beside` allows. -/
def readEvents (rest : World → World → Prop) (this : SocketId) : NetEnvironment where
  answers := Kernel.answers
  enters ctx w m := ctx = [] ∧ m = .handleRead this ∧
    ∃ o, w.heap this = some o ∧ 0 ≤ o.fd ∧ w.container.socketMap.find o.fd = some this
  returns _ _ := True
  interferes ctx w w' :=
    match ctx with
    | [] => rest w w'
    | c :: _ => ∃ n, (beside rest).handles c w n w'

theorem reaches_of_readStep {rest : World → World → Prop} {this : SocketId} {w₀ w : World}
    {past : List (World × Option (List NetDeed))}
    (hrun : Runs.Run (ReadStep rest this maxReadBuffSize) w₀ past w) :
    ∃ h, Reaches (readEvents rest this) Method.body (Config.start w₀) ⟨h, w, none, []⟩ := by
  have hhandles : ∀ {c w n w'}, (beside rest).handles c w n w' →
      (readEvents rest this).returns c n ∧ (readEvents rest this).interferes [c] w w' :=
    fun hn => ⟨trivial, _, hn⟩
  induction hrun with
  | start => exact ⟨[], .refl⟩
  | @snoc _ w _ w' _ hstep ih =>
      obtain ⟨h, hw⟩ := ih
      cases hstep with
      | other hrest => exact ⟨h, hw.tail (.interfere hrest)⟩
      | @read t _ o ho hopen hmapped hout =>
          have hbody : Outcome (beside rest) (Method.body (.handleRead this)) w t
              (.ok .unit) w' :=
            outcome_bind.mpr (.inl ⟨(), w', t, [], hout, ⟨rfl, rfl, rfl⟩, (List.append_nil t).symm⟩)
          have henter : Step (readEvents rest this) Method.body ⟨h, w, none, []⟩
              ⟨h ++ [.entered (.handleRead this)], w,
                some (.handleRead this, Method.body (.handleRead this)), []⟩ :=
            .enter ⟨rfl, rfl, o, ho, hopen, hmapped⟩
          have hreaches : Reaches (readEvents rest this) Method.body
              ⟨h ++ [.entered (.handleRead this)], w,
                some (.handleRead this, Method.body (.handleRead this)), []⟩
              ⟨h ++ [.entered (.handleRead this)] ++ t.flatMap Deed.events, w',
                some (.handleRead this, .done .unit), []⟩ :=
            hbody.reaches id hhandles
          exact ⟨_, ((hw.tail henter).trans hreaches).tail .done⟩

end Net
end Deps
