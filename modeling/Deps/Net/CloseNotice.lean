import Deps.Lib.Endings
import Deps.Lib.Runs
import Deps.Net.NoticeRuns
import Deps.Net.Outcomes

/-!
# One notice for each close

`Close` tells the handler before it changes the state of the socket, and does not
look whether it has done so already.
-/

namespace Deps
namespace Net

open Reentrant Runs

/-- A step of the library or of the application. -/
def NetStep (c : NetConfig) (_ : Unit) (c' : NetConfig) : Prop := Step managed Method.body c c'

/-- If `Close` is about to tell a handler, then the object has not been closed
before, and no other `HandleClose` for it is running. -/
def Orderly (c : NetConfig) : Prop :=
  ∀ m s k, c.running = some (m, .call (.handleClose s) k) →
    ¬c.world.Waiting s ∧ .handleClose s ∉ context c.suspended

/-- What should hold in every state of a run. -/
structure NotifiedOnce (c : NetConfig) : Prop where
  atMostOnce : ∀ s, notices s c.history ≤ 1
  /-- what `CheckCloseSocket` would delete, if the application had it called now -/
  beforeDeletion : c.running = none → ∀ env : NetSetting,
    (∀ {w q a w'}, env.answers w q a w' → Kernel.answers w q a w') → ∀ {t r w'},
    Outcome env EpollContainer.checkCloseSocket c.world t r w' → ∀ {s o}, c.world.heap s = some o →
    o.handler = true → w'.heap s = none → notices s c.history = 1

/-- Handlers which close the socket they handle, or send packets to it. -/
def attentive : NetEnvironment where
  answers := Kernel.answers
  enters ctx w m := managed.enters ctx w m ∧
    ∀ c ∈ ctx.head?, m = .close c.socket ∨ ∃ data, m = .sendPacket c.socket data
  returns _ _ := True
  interferes _ _ _ := False

/-- The handler of an object is not told while it is being told. -/
def Unnested (ctx : List Callback) (c : Callback) : Prop :=
  ∀ s, c = .handleClose s → .handleClose s ∉ ctx

/-! ## The notices of a run -/

section

variable {w₀ : World} {past : List (NetConfig × Unit)} {c c' : NetConfig}

theorem exists_run_of_reaches (hc : Reaches managed Method.body (Config.start w₀) c) :
    ∃ past, Run NetStep (Config.start w₀) past c := by
  induction hc with
  | refl => exact ⟨[], .start⟩
  | tail _ hstep ih =>
      obtain ⟨past, hrun⟩ := ih
      exact ⟨past ++ [(_, ())], hrun.snoc hstep⟩

theorem history_of_step (hstep : NetStep c () c') :
    ∃ es, c'.history = c.history ++ es := by
  cases hstep with
  | act => exact ⟨[], (List.append_nil _).symm⟩
  | interfere => exact ⟨[], (List.append_nil _).symm⟩
  | _ => exact ⟨_, rfl⟩

theorem notices_le_of_step (hstep : NetStep c () c') (s : SocketId) :
    notices s c.history ≤ notices s c'.history := by
  obtain ⟨es, hes⟩ := history_of_step hstep
  rw [hes, notices_append]
  exact Nat.le_add_right _ _

/-- What is known of the states of runs. -/
structure Regular (c : NetConfig) : Prop where
  told : noticing.Safe managed c
  owned : ownership.Safe managed c

theorem Regular.step (hc : Regular c) (hstep : NetStep c () c') : Regular c' :=
  ⟨hc.told.step sound_noticing hstep, hc.owned.step sound_ownership hstep⟩

theorem regular_start (maxFdCount : Nat) (kernel : Kernel) (checkFd : Fd) :
    Regular (Config.start (World.initial maxFdCount kernel checkFd)) :=
  ⟨⟨.initial maxFdCount kernel checkFd, trivial⟩,
    ⟨.initial maxFdCount kernel checkFd, EpollContainer.alive_nil _⟩, trivial⟩

theorem orderly_of_not_call
    (hno : ∀ m s k, c.running ≠ some (m, .call (.handleClose s) k)) : Orderly c :=
  fun m s k hcall => absurd hcall (hno m s k)

/-- Telling a handler is its first notice if and only if it is orderly. -/
theorem notices_called_le_one_iff {h : List NetEvent} {w : World} {m : Method} {s : SocketId}
    {k : Int → NetM Value} {fs : List (Frame World Question Answer Callback NetFault Method Value)}
    (hc : Regular ⟨h, w, some (m, .call (.handleClose s) k), fs⟩) :
    notices s (h ++ [.called (.handleClose s)]) ≤ 1 ↔
      ¬w.Waiting s ∧ .handleClose s ∉ context fs := by
  obtain ⟨⟨_, _, htold, _⟩, ⟨_, _, ⟨-, halive⟩, _⟩⟩ := hc
  replace htold : Told (.handleClose s :: context fs) (h ++ [.called (.handleClose s)]) w := htold
  have hlive : w.heap s ≠ none := halive _ List.mem_cons_self
  have hnested : nested s (.handleClose s :: context fs) = nested s (context fs) + 1 := by
    rw [nested_cons, if_pos (closes_eq_true.mpr rfl)]
  rw [← nested_eq_zero]
  constructor
  · intro hle
    have hopen : ¬w.Waiting s := by
      intro hwaiting
      obtain ⟨o, ho⟩ := Option.ne_none_iff_exists'.mp hlive
      have hhandler := htold.handled s o List.mem_cons_self ho
      have hlt := htold.told s o hwaiting ho hhandler
      omega
    have huntold := htold.untold s hlive hopen
    exact ⟨hopen, by omega⟩
  · rintro ⟨hopen, hzero⟩
    have huntold := htold.untold s hlive hopen
    omega

theorem once_step_iff (hc : Regular c) (honce : ∀ s, notices s c.history ≤ 1)
    (hstep : NetStep c () c') : (∀ s, notices s c'.history ≤ 1) ↔ Orderly c := by
  have hquiet : ∀ e : NetEvent, (∀ s, notifies s e = false) →
      ∀ s, notices s (c.history ++ [e]) ≤ 1 := by
    intro e he s
    rw [notices_append, notices, notices, List.countP_singleton, he]
    exact honce s
  cases hstep with
  | act => exact iff_of_true honce (orderly_of_not_call fun _ _ _ hcall => by cases hcall)
  | ask ha =>
      exact iff_of_true (hquiet _ fun _ => rfl)
        (orderly_of_not_call fun _ _ _ hcall => by cases hcall)
  | done =>
      exact iff_of_true (hquiet _ fun _ => rfl)
        (orderly_of_not_call fun _ _ _ hcall => by cases hcall)
  | enter hm =>
      exact iff_of_true (hquiet _ fun _ => rfl)
        (orderly_of_not_call fun _ _ _ hcall => by cases hcall)
  | resume hr =>
      exact iff_of_true (hquiet _ fun _ => rfl)
        (orderly_of_not_call fun _ _ _ hcall => by cases hcall)
  | interfere hw => exact hw.elim
  | @call h w m called k fs =>
      cases called with
      | handlePacket s data =>
          refine iff_of_true (fun t => ?_) (orderly_of_not_call fun _ _ _ hcall => by cases hcall)
          rw [notices_called]
          exact honce t
      | handleClose s =>
          constructor
          · intro hle m' s' k' hcall
            cases hcall
            exact (notices_called_le_one_iff hc).mp (hle s)
          · intro horderly t
            by_cases hts : s = t
            · subst hts
              exact (notices_called_le_one_iff hc).mpr (horderly m s k rfl)
            · have hcloses : ¬(Callback.handleClose s).closes t = true :=
                fun hcloses => hts (Callback.handleClose.inj (closes_eq_true.mp hcloses))
              rw [notices_called, if_neg hcloses]
              exact honce t

theorem regular_of_run (hstart : Regular (Config.start w₀))
    (hrun : Run NetStep (Config.start w₀) past c) : Regular c :=
  hrun.inv hstart fun _ _ _ hc hstep => hc.step hstep

/-- No object was told more than once if and only if every step was orderly. -/
theorem once_iff_meets (hstart : Regular (Config.start w₀))
    (hrun : Run NetStep (Config.start w₀) past c) :
    (∀ s, notices s c.history ≤ 1) ↔ Meets (fun c _ => Orderly c) past := by
  induction hrun with
  | start => exact iff_of_true (fun _ => Nat.zero_le 1) meets_nil
  | @snoc past c l c' hrun hstep ih =>
      rw [meets_snoc, ← ih]
      have hregular := regular_of_run hstart hrun
      constructor
      · intro honce
        -- what was told before is in the history still
        have hbefore : ∀ s, notices s c.history ≤ 1 :=
          fun s => (notices_le_of_step hstep s).trans (honce s)
        exact ⟨hbefore, (once_step_iff hregular hbefore hstep).mp honce⟩
      · exact fun h => (once_step_iff hregular h.1 hstep).mpr h.2

end

/-! ## Deletion -/

section

variable {env : NetSetting} {w w' : World} {t : List NetDeed}

theorem heap_of_deleteEach (hkernel : ∀ {w q a w'}, env.answers w q a w' → Kernel.answers w q a w')
    {ss : List SocketId} {r : Except NetFault Unit}
    (h : Outcome env (EpollContainer.deleteEach ss) w t r w') {s : SocketId} (hs : s ∉ ss) :
    w'.heap s = w.heap s := by
  induction ss generalizing w t with
  | nil =>
      obtain ⟨-, -, rfl⟩ := h
      rfl
  | cons s' rest ih =>
      obtain ⟨hne, hrest⟩ := not_or.mp (mt List.mem_cons.mpr hs)
      rw [EpollContainer.deleteEach, delete, outcome_assoc, outcome_read] at h
      cases hs' : w.heap s' with
      | none =>
          rw [hs'] at h
          obtain ⟨-, -, rfl⟩ := h
          rfl
      | some o =>
          rw [hs'] at h
          obtain ⟨_, rest', -, -, rfl, hnext⟩ := outcome_ask hkernel h
          rw [ih hnext hrest]
          exact Function.update_of_ne hne _ _

/-- `CheckCloseSocket` deletes closed objects only. -/
theorem waiting_of_deleted (hkernel : ∀ {w q a w'}, env.answers w q a w' → Kernel.answers w q a w')
    {r : Except NetFault Unit} (h : Outcome env EpollContainer.checkCloseSocket w t r w')
    {s : SocketId} {o : Socket} (hs : w.heap s = some o) (hgone : w'.heap s = none) :
    w.Waiting s := by
  by_contra hopen
  rw [EpollContainer.checkCloseSocket, outcome_members] at h
  have hkept : w'.heap s = w.heap s := by
    rcases outcome_bind.mp h with ⟨_, w₁, t₁, t₂, hdelete, hclear, -⟩ | ⟨why, hdelete, -⟩
    · obtain ⟨-, -, rfl⟩ := hclear
      exact heap_of_deleteEach hkernel hdelete hopen
    · exact heap_of_deleteEach hkernel hdelete hopen
  rw [hgone, hs] at hkept
  cases hkept

theorem notifiedOnce_iff {c : NetConfig} (hc : Regular c) :
    NotifiedOnce c ↔ ∀ s, notices s c.history ≤ 1 := by
  refine ⟨NotifiedOnce.atMostOnce, fun honce => ⟨honce, ?_⟩⟩
  intro hidle env hkernel t r w' h s o hs hhandler hgone
  have htold := hc.told
  rw [Spec.Safe, hidle] at htold
  have hlt := htold.1.told s o (waiting_of_deleted hkernel h hs hgone) hs hhandler
  have hle := honce s
  omega

end

/-! ## Callbacks of `Close` and `SendPacket` -/

section

variable {P : Callback → Prop} {this : SocketId}

theorem callsOnly_load : (load this).CallsOnly P := by
  refine Prog.CallsOnly.bind (fun _ => trivial) fun w => ?_
  split <;> trivial

theorem callsOnly_store (f : Socket → Socket) : (store this f).CallsOnly P :=
  callsOnly_load.bind fun _ _ => trivial

theorem callsOnly_ask (q : Question) : (ask q).CallsOnly P := fun _ => trivial

theorem callsOnly_touch : (touch this).CallsOnly P :=
  (callsOnly_ask _).bind fun _ => callsOnly_store _

theorem callsOnly_modSocket (events : Interest) :
    (EpollContainer.modSocket (some this) events).CallsOnly P := by
  refine callsOnly_load.bind fun o => Prog.CallsOnly.bind (fun _ => trivial) fun c => ?_
  split
  · trivial
  · exact callsOnly_ask _

theorem callsOnly_delSocket : (EpollContainer.delSocket (some this)).CallsOnly P := by
  refine callsOnly_load.bind fun o => (callsOnly_ask _).bind fun _ => ?_
  refine Prog.CallsOnly.bind (fun _ => trivial) fun c => ?_
  split
  · exact fun _ _ => trivial
  · exact fun _ => trivial

variable (hclose : P (.handleClose this))
include hclose

theorem callsOnly_closeSocket : (closeSocket this).CallsOnly P := by
  have hrest : (do
      let _ ← EpollContainer.delSocket (some this)
      let s ← load this
      if s.fd ≠ -1 then
        ask (.close s.fd)
      store this World.closedFields : NetM Unit).CallsOnly P := by
    refine callsOnly_delSocket.bind fun _ => callsOnly_load.bind fun o => ?_
    split
    · exact (callsOnly_ask _).bind fun _ => callsOnly_store _
    · exact callsOnly_store _
  refine callsOnly_load.bind fun o => ?_
  split
  · exact ⟨hclose, fun _ => hrest⟩
  · exact hrest

theorem callsOnly_modOrClose (events : Interest) :
    (TcpSocket.modOrClose this events).CallsOnly P := by
  refine (callsOnly_modSocket _).bind fun modified => ?_
  split
  · exact callsOnly_closeSocket hclose
  · trivial

theorem callsOnly_writeLoop (turns : Nat) : (TcpSocket.writeLoop this turns).CallsOnly P := by
  induction turns with
  | zero => trivial
  | succ turns ih =>
      refine callsOnly_load.bind fun o => (callsOnly_ask _).bind fun sent => ?_
      cases sent with
      | error errno =>
          dsimp only
          split
          · refine (callsOnly_modSocket _).bind fun modified => ?_
            split
            · exact callsOnly_closeSocket hclose
            · exact callsOnly_store _
          · exact callsOnly_closeSocket hclose
      | ok n =>
          refine (callsOnly_store _).bind fun _ => callsOnly_load.bind fun o => ?_
          split
          · split
            · exact (callsOnly_store _).bind fun _ => callsOnly_modOrClose hclose _
            · trivial
          · exact ih

theorem callsOnly_sendPacket (data : List UInt8) :
    (SocketBase.sendPacket this data).CallsOnly P := by
  refine callsOnly_load.bind fun o => ?_
  split
  · refine callsOnly_load.bind fun o => ?_
    split
    · trivial
    split
    · trivial
    refine (callsOnly_ask _).bind fun malloc => ?_
    generalize o.output.append malloc data = appended
    obtain ⟨appended, output⟩ := appended
    refine (callsOnly_store _).bind fun _ => ?_
    split
    · refine Prog.CallsOnly.bind ?_ fun _ => trivial
      refine callsOnly_touch.bind fun _ => callsOnly_load.bind fun o => ?_
      split
      · trivial
      · exact callsOnly_writeLoop hclose _
    · trivial
  · refine callsOnly_touch.bind fun _ => callsOnly_load.bind fun o => ?_
    split
    · trivial
    split
    · trivial
    refine (callsOnly_ask _).bind fun sent => ?_
    cases sent with
    | none => trivial
    | some n =>
        dsimp only
        split <;> trivial

theorem callsOnly_close : (SocketBase.close this).CallsOnly P := by
  refine callsOnly_load.bind fun o => ?_
  split <;> exact callsOnly_closeSocket hclose

end

/-- What a handler which handles `c` makes the library call back. -/
def Follows (c c' : Callback) : Prop := c' = .handleClose c.socket

/-- How many more callbacks may be nested in the innermost one. -/
def nestings : List Callback → Nat
  | [] => 1
  | c :: ctx => if nested c.socket (c :: ctx) = 0 then 1 else 0

theorem callsOnly_body_attentive {c : Callback} {ctx : List Callback} {w : World} {m : Method}
    (hm : attentive.enters (c :: ctx) w m) : (Method.body m).CallsOnly (Follows c) := by
  have hfollows : Follows c (.handleClose c.socket) := rfl
  rcases hm.2 c rfl with rfl | ⟨data, rfl⟩
  · exact (callsOnly_close hfollows).bind fun _ => trivial
  · exact (callsOnly_sendPacket hfollows data).bind fun _ => trivial

theorem nestings_lt {c c' : Callback} {ctx : List Callback} (hfollows : Follows c c')
    (hmay : Unnested (c :: ctx) c') : nestings (c' :: c :: ctx) < nestings (c :: ctx) := by
  subst hfollows
  have hzero : nested c.socket (c :: ctx) = 0 := nested_eq_zero.mpr (hmay c.socket rfl)
  have hone : nested c.socket (.handleClose c.socket :: c :: ctx) = 1 := by
    rw [nested_cons, if_pos (closes_eq_true.mpr rfl), hzero]
  rw [nestings, nestings, if_pos hzero]
  show (if nested c.socket _ = 0 then 1 else 0) < 1
  rw [hone]
  exact Nat.zero_lt_one

/-- **Notices of a close.**  In every run: every object has been told at most once that
it is being closed, and before `CheckCloseSocket` deletes it, if and only if each call
of `HandleClose` was for an object which had not been closed before, outside of every
other such call for it.  As long as no `HandleClose` for an object is nested in another
one, every call of `Close` ends, however often handlers close and send. -/
theorem close_notified_once_iff (maxFdCount : Nat) (kernel : Kernel) (checkFd : Fd)
    {past : List (NetConfig × Unit)} {c : NetConfig}
    (hrun : Run NetStep (Config.start (World.initial maxFdCount kernel checkFd)) past c) :
    (NotifiedOnce c ↔ Meets (fun c _ => Orderly c) past) ∧
      (∀ limits, Ends attentive Method.body Unnested (c, limits)) ∧
      ∀ m x, c.running = some (m, x) → (∃ c', NetStep c () c') ∨ x = .fault .invalidIterator := by
  have hstart := regular_start maxFdCount kernel checkFd
  have hc := regular_of_run hstart hrun
  refine ⟨(notifiedOnce_iff hc).trans (once_iff_meets hstart hrun), fun limits => ?_,
    fun m x hrunning => ?_⟩
  · exact ends callsOnly_body_attentive nestings_lt _
  · have hanswers : ∀ w q, ∃ a w', managed.answers w q a w' :=
      fun w q => ⟨_, _, Obliging.answers ⟨true, [], 0⟩ w q⟩
    rcases exists_step_of_running hanswers hrunning with hstep | ⟨why, rfl⟩
    · exact .inl hstep
    · have howned := hc.owned
      rw [Spec.Safe, hrunning] at howned
      obtain ⟨_, _, rfl⟩ := howned
      exact .inr rfl

/-! ## A socket which is closed twice -/

/-- A client with a handler. -/
def clientMoves : List (Move Method) := [.enter (.tcpConnect 1 2 true)]

/-- The socket is closed, and its handler returns. -/
def closeMoves : List (Move Method) := clientMoves ++ [.enter (.close 0), .resume 0]

def clientWorld : World := (played ⟨true, [1], 4⟩ clientMoves).world

/-- From any state with the open client, `Close` gets to its handler. -/
theorem reaches_nested (h : List NetEvent)
    (fs : List (Frame World Question Answer Callback NetFault Method Value)) :
    ∃ h' k, Reaches managed Method.body ⟨h, clientWorld, none, fs⟩
      ⟨h', clientWorld, none, ⟨.handleClose 0, .close 0, k⟩ :: fs⟩ := by
  let entered : NetConfig :=
    ⟨h ++ [.entered (.close 0)], clientWorld, some (.close 0, Method.body (.close 0)), fs⟩
  have henter : Step managed Method.body ⟨h, clientWorld, none, fs⟩ entered :=
    .enter (managed_close rfl)
  have hcall : Reaches managed Method.body entered
      (entered.advance (Obliging.answer ⟨true, [1], 4⟩) Kernel.effect 3) :=
    reaches_advance (Obliging.answers _) 3 _
  exact ⟨_, _, .head henter hcall⟩

/-- A handler which closes the socket whenever it is told: it is told again and again,
and no call of `Close` returns. -/
theorem exists_nested_closes (n : Nat) :
    ∃ c, Reaches managed Method.body (Config.start (World.initial 8 Kernel.idle 0)) c ∧
      c.running = none ∧ c.world = clientWorld ∧
      context c.suspended = List.replicate n (.handleClose 0) := by
  induction n with
  | zero =>
      refine ⟨played ⟨true, [1], 4⟩ clientMoves, ?_, rfl, rfl, rfl⟩
      exact reaches_played _ ⟨⟨nofun, nofun⟩, trivial⟩
  | succ n ih =>
      obtain ⟨⟨h, w, _, fs⟩, hc, rfl, rfl, hcontext⟩ := ih
      obtain ⟨h', k, hnested⟩ := reaches_nested h fs
      refine ⟨_, hc.trans hnested, rfl, rfl, ?_⟩
      exact congrArg (List.cons _) hcontext

/-- A socket is closed twice before it is deleted; and any number of its calls of
`HandleClose` may be running at once. -/
theorem close_notified_twice :
    (∃ past c, Run NetStep (Config.start (World.initial 8 Kernel.idle 0)) past c ∧
      notices 0 c.history = 2 ∧ ¬NotifiedOnce c) ∧
    ∀ n, ∃ c, Reaches managed Method.body (Config.start (World.initial 8 Kernel.idle 0)) c ∧
      context c.suspended = List.replicate n (.handleClose 0) := by
  refine ⟨?_, fun n => ?_⟩
  · have htwice : Reaches managed Method.body (Config.start (World.initial 8 Kernel.idle 0))
        (played ⟨true, [1], 4⟩ (closeMoves ++ [.enter (.close 0)])) :=
      reaches_played _ ⟨⟨nofun, nofun⟩, managed_close rfl, fun _ _ => trivial, managed_close rfl,
        trivial⟩
    obtain ⟨past, hrun⟩ := exists_run_of_reaches htwice
    have hnotices : notices 0 (played ⟨true, [1], 4⟩ (closeMoves ++ [.enter (.close 0)])).history =
        2 := by rfl
    refine ⟨past, _, hrun, hnotices, fun honce => ?_⟩
    have hle := honce.atMostOnce 0
    omega
  · obtain ⟨c, hc, -, -, hcontext⟩ := exists_nested_closes n
    exact ⟨c, hc, hcontext⟩

/-- The theorem for a socket which is closed once. -/
theorem close_notified_once_iff_client :
    ∃ past c, Run NetStep (Config.start (World.initial 8 Kernel.idle 0)) past c ∧
      notices 0 c.history = 1 ∧ NotifiedOnce c := by
  have honce : Reaches managed Method.body (Config.start (World.initial 8 Kernel.idle 0))
      (played ⟨true, [1], 4⟩ closeMoves) :=
    reaches_played _ ⟨⟨nofun, nofun⟩, managed_close rfl, fun _ _ => trivial, trivial⟩
  obtain ⟨past, hrun⟩ := exists_run_of_reaches honce
  have hstart := regular_start 8 Kernel.idle 0
  have htold := (regular_of_run hstart hrun).told
  have hnotices : ∀ s, notices s (played ⟨true, [1], 4⟩ closeMoves).history ≤ 1 := by
    intro s
    cases s with
    | zero => exact Nat.le_refl 1
    | succ s =>
        -- there is one object only
        have hnext : (played ⟨true, [1], 4⟩ closeMoves).world.next ≤ s + 1 := Nat.le_add_left 1 s
        rw [(htold.1.unborn (s + 1) hnext).2.2.1]
        exact Nat.zero_le 1
  refine ⟨past, _, hrun, by rfl, ?_⟩
  have hmeets := (once_iff_meets hstart hrun).mp hnotices
  exact (close_notified_once_iff 8 Kernel.idle 0 hrun).1.mpr hmeets

end Net
end Deps
