import Deps.Net.ContainerRuns

/-!
# The byte streams of a socket

What `recv` delivers goes to the input of a socket, and from there to the handler;
what `SendPacket` accepts goes through the output to `send`.  This file says how
the methods of an established `TcpSocket` move these bytes, over runs in which
the application calls any method of the socket at any time.
-/

namespace Deps
namespace Net

open Reentrant

/-! ## What a history says -/

/-- The bytes which `recv` delivers. -/
def chunk : NetEvent → List UInt8
  | .asked (.recv _ _) (.ok bytes) => bytes
  | _ => []

def received (h : List NetEvent) : List UInt8 := h.flatMap chunk

/-- The number of bytes which the handler says it has consumed. -/
def count : NetEvent → Nat
  | .resumed (.handlePacket _ _) r => r.toNat
  | _ => 0

def consumed (h : List NetEvent) : Nat := (h.map count).sum

/-- The bytes which `send` takes. -/
def portion : NetEvent → List UInt8
  | .asked (.send _ data) (.ok n) => data.take n
  | _ => []

def taken (h : List NetEvent) : List UInt8 := h.flatMap portion

/-- The payload of a `SendPacket` which returns true. -/
def payload : NetEvent → List UInt8
  | .returned (.sendPacket _ data) (.bool true) => data
  | _ => []

def accepted (h : List NetEvent) : List UInt8 := h.flatMap payload

@[simp] theorem received_concat (h : List NetEvent) (e : NetEvent) :
    received (h ++ [e]) = received h ++ chunk e := by
  simp [received]

theorem received_concat_nil (h : List NetEvent) {e : NetEvent} (he : chunk e = []) :
    received (h ++ [e]) = received h := by
  rw [received_concat, he, List.append_nil]

@[simp] theorem taken_concat (h : List NetEvent) (e : NetEvent) :
    taken (h ++ [e]) = taken h ++ portion e := by
  simp [taken]

@[simp] theorem accepted_concat (h : List NetEvent) (e : NetEvent) :
    accepted (h ++ [e]) = accepted h ++ payload e := by
  simp [accepted]

/-- Events which are not about the input. -/
structure Quiet (e : NetEvent) : Prop where
  chunk : chunk e = []
  called : ∀ s data, e ≠ .called (.handlePacket s data)
  resumed : ∀ s data r, e ≠ .resumed (.handlePacket s data) r

/-- Events which move no bytes at all. -/
structure Silent (e : NetEvent) : Prop extends Quiet e where
  portion : portion e = []
  payload : payload e = []

theorem Silent.asked {q : Question} {a : Answer q} (hchunk : Net.chunk (.asked q a) = [])
    (hportion : Net.portion (.asked q a) = []) : Silent (.asked q a) :=
  ⟨⟨hchunk, nofun, nofun⟩, hportion, rfl⟩

theorem Silent.entered (m : Method) : Silent (.entered m) :=
  ⟨⟨rfl, nofun, nofun⟩, rfl, rfl⟩

theorem Silent.returned {m : Method} {v : Value} (hpayload : Net.payload (.returned m v) = []) :
    Silent (.returned m v) :=
  ⟨⟨rfl, nofun, nofun⟩, rfl, hpayload⟩

theorem Silent.closed (s : SocketId) (r : Int) : Silent (.resumed (.handleClose s) r) :=
  ⟨⟨rfl, nofun, nofun⟩, rfl, rfl⟩

/-! ## The invariant -/

/-- The greatest size of an input or an output: 4 MiB. -/
def streamLimit : Nat := 1024 * 4096

/-- An allocation fails. -/
def refused : NetEvent → Bool
  | .asked .malloc none => true
  | _ => false

/-- No allocation failed, and what has been received fits into an input which
held `inp` at first. -/
def Clean (inp : List UInt8) (h : List NetEvent) : Prop :=
  h.any refused = false ∧ (inp ++ received h).length ≤ streamLimit

/-- Every call of the handler was given the bytes which had been received and not
been consumed. -/
def Presented (inp : List UInt8) (h : List NetEvent) : Prop :=
  ∀ h₁ s data h₂, h = h₁ ++ .called (.handlePacket s data) :: h₂ →
    data = (inp ++ received h₁).drop (consumed h₁)

/-- What does not depend on the history. -/
structure Established (o : Socket) : Prop where
  type : o.type = .tcp
  state : o.state ≠ .listen
  input : o.input.Inv
  inputMax : o.input.maxblocks = socketConfig.maxBlocks
  output : o.output.Inv

/-- The input has everything that was received, and so has every call of the
handler. -/
structure Receives (returns : Callback → Int → Prop) (inp : List UInt8) (ctx : List Callback)
    (h : List NetEvent) (o : Socket) : Prop where
  content : Clean inp h → o.input.content = inp ++ received h
  presented : Clean inp h → ∀ h₁ s data h₂, h = h₁ ++ .called (.handlePacket s data) :: h₂ →
    data = inp ++ received h₁
  counts : ∀ s data r, .resumed (.handlePacket s data) r ∈ h →
    returns (.handlePacket s data) r ∧ received h ≠ []
  inside : ∀ s data, .handlePacket s data ∈ ctx → received h ≠ []

/-- What the kernel took and what is left is what `SendPacket` accepted, and
`pending`, which it has not accepted yet. -/
def Sends (out pending : List UInt8) (h : List NetEvent) (o : Socket) : Prop :=
  taken h ++ o.output.content = out ++ accepted h ++ pending

theorem Clean.of_concat {inp : List UInt8} {h : List NetEvent} {e : NetEvent}
    (hclean : Clean inp (h ++ [e])) : Clean inp h := by
  obtain ⟨hmalloc, hfits⟩ := hclean
  rw [List.any_append, Bool.or_eq_false_iff] at hmalloc
  rw [received_concat, ← List.append_assoc, List.length_append] at hfits
  exact ⟨hmalloc.1, by omega⟩

/-- Splitting a longer history at an event. -/
theorem concat_eq_append_cons {α : Type} {h h₁ h₂ : List α} {e x : α}
    (heq : h ++ [e] = h₁ ++ x :: h₂) : (h = h₁ ∧ e = x) ∨ ∃ h₃, h = h₁ ++ x :: h₃ := by
  rcases List.eq_nil_or_concat h₂ with rfl | ⟨h₃, y, rfl⟩
  · exact .inl ⟨(List.append_inj' heq rfl).1, by simpa using (List.append_inj' heq rfl).2⟩
  · refine .inr ⟨h₃, ?_⟩
    rw [List.concat_eq_append, ← List.cons_append, ← List.append_assoc] at heq
    exact (List.append_inj' heq rfl).1

namespace Receives

variable {returns : Callback → Int → Prop} {inp : List UInt8} {ctx : List Callback}
  {h : List NetEvent} {o o' : Socket} {e : NetEvent}

theorem update (hr : Receives returns inp ctx h o) (hinput : o'.input = o.input) :
    Receives returns inp ctx h o' :=
  { hr with content := hinput ▸ hr.content }

theorem quiet (hr : Receives returns inp ctx h o) (he : Quiet e) :
    Receives returns inp ctx (h ++ [e]) o where
  content hclean := by
    rw [received_concat_nil h he.chunk]
    exact hr.content hclean.of_concat
  presented hclean h₁ s data h₂ heq := by
    rcases concat_eq_append_cons heq with ⟨-, rfl⟩ | ⟨h₃, rfl⟩
    · exact absurd rfl (he.called s data)
    · exact hr.presented hclean.of_concat h₁ s data h₃ rfl
  counts s data r hmem := by
    rcases List.mem_append.mp hmem with hmem | hmem
    · rw [received_concat, he.chunk, List.append_nil]
      exact hr.counts s data r hmem
    · exact absurd (List.mem_singleton.mp hmem).symm (he.resumed s data r)
  inside s data hmem := by
    rw [received_concat_nil h he.chunk]
    exact hr.inside s data hmem

theorem received_append (h : List NetEvent) (fd : Fd) (size : Nat) (data : List UInt8)
    (malloc : Malloc) :
    received (h ++ [.asked (.recv fd size) (.ok data)] ++ [.asked .malloc malloc]) =
      received h ++ data := by
  rw [received_concat_nil _ rfl, received_concat]
  rfl

theorem context {ctx' : List Callback} (hr : Receives returns inp ctx h o)
    (hctx : ∀ s data, .handlePacket s data ∈ ctx' → .handlePacket s data ∈ ctx) :
    Receives returns inp ctx' h o :=
  { hr with inside := fun s data hmem => hr.inside s data (hctx s data hmem) }

/-- `recv` delivers bytes, and they are appended to the input. -/
theorem append (hr : Receives returns inp ctx h o) (ho : Established o) {fd : Fd} {size : Nat}
    {data : List UInt8} {malloc : Malloc} (hdata : data ≠ []) :
    Receives returns inp ctx (h ++ [.asked (.recv fd size) (.ok data)] ++ [.asked .malloc malloc])
      { o with input := (o.input.append malloc data).2 } where
  content hclean := by
    have hsome : malloc.isSome = true := by
      refine Option.isSome_iff_ne_none.mpr ?_
      rintro rfl
      simpa [refused] using hclean.1
    have hcontent := hr.content hclean.of_concat.of_concat
    have hfits := hclean.2
    rw [received_append, ← List.append_assoc] at hfits
    -- the input grows below its 4 MiB, so the append has no reason to fail
    have hgrants : BlockBuffer.Grants malloc o.input (o.input.size + data.length) := by
      refine .inr ⟨?_, hsome⟩
      rw [← ho.input.length_content, hcontent, BlockBuffer.maxsize, ho.inputMax]
      rw [List.length_append] at hfits
      exact hfits
    rcases BlockBuffer.append_cases ho.input malloc data with
      ⟨-, b', heq, -, hcontent', -⟩ | ⟨hno, -⟩
    · rw [received_append, heq, hcontent', hcontent, List.append_assoc]
    · exact absurd hgrants hno
  presented hclean h₁ s data h₂ heq := by
    rcases concat_eq_append_cons heq with ⟨-, hne⟩ | ⟨h₃, heq⟩
    · cases hne
    rcases concat_eq_append_cons heq with ⟨-, hne⟩ | ⟨h₄, rfl⟩
    · cases hne
    · exact hr.presented hclean.of_concat.of_concat h₁ s data h₄ rfl
  counts s data' r hmem := by
    have hmem' : Event.resumed (.handlePacket s data') r ∈ h := by simpa using hmem
    refine ⟨(hr.counts s data' r hmem').1, ?_⟩
    rw [received_append]
    exact List.append_ne_nil_of_right_ne_nil _ hdata
  inside s data' _ := by
    rw [received_append]
    exact List.append_ne_nil_of_right_ne_nil _ hdata

/-- The handler is given the input. -/
theorem called (hr : Receives returns inp ctx h o) (hreceived : received h ≠ []) (s : SocketId) :
    Receives returns inp (.handlePacket s o.input.content :: ctx)
      (h ++ [.called (.handlePacket s o.input.content)]) o where
  content hclean := by
    rw [received_concat_nil h rfl]
    exact hr.content hclean.of_concat
  presented hclean h₁ t data h₂ heq := by
    rcases concat_eq_append_cons heq with ⟨rfl, hevent⟩ | ⟨h₃, rfl⟩
    · cases hevent
      exact hr.content hclean.of_concat
    · exact hr.presented hclean.of_concat h₁ t data h₃ rfl
  counts t data r hmem := by
    have hmem' : Event.resumed (.handlePacket t data) r ∈ h := by simpa using hmem
    rw [received_concat_nil h rfl]
    exact hr.counts t data r hmem'
  inside _ _ _ := by rwa [received_concat_nil h rfl]

/-- The handler returns a count. -/
theorem resumed {s : SocketId} {data : List UInt8} {r : Int}
    (hr : Receives returns inp (.handlePacket s data :: ctx) h o)
    (hreturns : returns (.handlePacket s data) r) :
    Receives returns inp ctx (h ++ [.resumed (.handlePacket s data) r]) o where
  content hclean := by
    rw [received_concat_nil h rfl]
    exact hr.content hclean.of_concat
  presented hclean h₁ t data h₂ heq := by
    rcases concat_eq_append_cons heq with ⟨-, heq⟩ | ⟨h₃, rfl⟩
    · cases heq
    · exact hr.presented hclean.of_concat h₁ t data h₃ rfl
  counts t data' r' hmem := by
    have hreceived := hr.inside s data List.mem_cons_self
    rw [received_concat_nil h rfl]
    rcases List.mem_append.mp hmem with hmem | hmem
    · exact hr.counts t data' r' hmem
    -- the call of the handler which returns here had something to look at
    · cases List.mem_singleton.mp hmem
      exact ⟨hreturns, hreceived⟩
  inside t data' hmem := by
    rw [received_concat_nil h rfl]
    exact hr.inside t data' (List.mem_cons_of_mem _ hmem)

end Receives

namespace Established

variable {o : Socket}

theorem append_input (ho : Established o) (malloc : Malloc) (data : List UInt8) :
    Established { o with input := (o.input.append malloc data).2 } := by
  rcases BlockBuffer.append_cases ho.input malloc data with
    ⟨-, b', heq, hinv, -, hmax, -⟩ | ⟨-, heq⟩
  · exact { ho with input := by rwa [heq], inputMax := by rw [heq, ← ho.inputMax, ← hmax] }
  · exact { ho with
      input := by rw [heq]; exact ho.input
      inputMax := by rw [heq]; exact ho.inputMax }

theorem append_output (ho : Established o) (malloc : Malloc) (data : List UInt8) :
    Established { o with output := (o.output.append malloc data).2 } := by
  rcases BlockBuffer.append_cases ho.output malloc data with ⟨-, b', heq, hinv, -⟩ | ⟨-, heq⟩
  · exact { ho with output := by rwa [heq] }
  · exact { ho with output := by rw [heq]; exact ho.output }

theorem erase_output (ho : Established o) (n : Nat) :
    Established { o with output := o.output.erase 0 n false } :=
  { ho with output := (BlockBuffer.erase_spec ho.output (Nat.zero_le _) n false).1 }

end Established

/-- Events which are not about the output. -/
theorem Sends.quiet {out pending : List UInt8} {h : List NetEvent} {o o' : Socket} {e : NetEvent}
    (hs : Sends out pending h o) (hportion : portion e = []) (hpayload : payload e = [])
    (houtput : o'.output = o.output) : Sends out pending (h ++ [e]) o' := by
  rw [Sends, taken_concat, accepted_concat, hportion, hpayload, List.append_nil, List.append_nil,
    houtput]
  exact hs

/-- What holds of an established socket `o`: its own part of `SendPacket` and of
`Read` is done, unless it is being closed. -/
structure Flows (returns : Callback → Int → Prop) (s : SocketId) (inp out : List UInt8)
    (ctx : List Callback) (pending : List UInt8) (h : List NetEvent) (o : Socket) : Prop where
  established : Established o
  receives : Receives returns inp ctx h o
  sends : .handleClose s ∈ ctx ∨ o.state = .close ∨ Sends out pending h o

namespace Flows

variable {returns : Callback → Int → Prop} {s : SocketId} {inp out pending : List UInt8}
  {ctx : List Callback} {h : List NetEvent} {o o' : Socket} {e : NetEvent}

theorem silent (hf : Flows returns s inp out ctx pending h o) (he : Silent e) :
    Flows returns s inp out ctx pending (h ++ [e]) o where
  established := hf.established
  receives := hf.receives.quiet he.toQuiet
  sends := hf.sends.imp_right (Or.imp_right fun hs => hs.quiet he.portion he.payload rfl)

/-- A change of other fields. -/
theorem update (hf : Flows returns s inp out ctx pending h o) (htype : o'.type = o.type)
    (hstate : o'.state = o.state) (hinput : o'.input = o.input) (houtput : o'.output = o.output) :
    Flows returns s inp out ctx pending h o' where
  established := by
    obtain ⟨ht, hs, hi, hm, ho⟩ := hf.established
    exact ⟨htype ▸ ht, hstate ▸ hs, hinput ▸ hi, hinput ▸ hm, houtput ▸ ho⟩
  receives := hf.receives.update hinput
  sends := by
    rw [hstate, Sends, houtput]
    exact hf.sends

theorem closeEvents (hf : Flows returns s inp out ctx pending h o) (fd : Fd) :
    Flows returns s inp out ctx pending (h ++ Net.closeEvents fd) o := by
  have hdel : Silent (.asked (.epollCtlDel fd) ()) := .asked rfl rfl
  have hclose : Silent (.asked (.close fd) ()) := .asked rfl rfl
  rw [Net.closeEvents]
  split
  · rw [List.append_cons]
    exact (hf.silent hdel).silent hclose
  · exact hf.silent hdel

/-- `Close` without its callback; nothing is pending afterwards. -/
theorem closed (hf : Flows returns s inp out ctx pending h o) (pending' : List UInt8) :
    Flows returns s inp out ctx pending' (h ++ Net.closeEvents o.fd) (World.closedFields o) where
  established := { hf.established with state := nofun }
  receives := (hf.closeEvents o.fd).receives.update rfl
  sends := .inr (.inl rfl)

/-- `HandleClose` is called: what is pending does not matter any more. -/
theorem enterClose (hf : Flows returns s inp out ctx pending h o) :
    Flows returns s inp out (.handleClose s :: ctx) [] (h ++ [.called (.handleClose s)]) o where
  established := hf.established
  receives := by
    have he : Quiet (.called (.handleClose s)) := ⟨rfl, nofun, nofun⟩
    exact (hf.receives.quiet he).context fun t data hmem => by simpa using hmem
  sends := .inl List.mem_cons_self

/-- `HandleClose` returns, and `Close` goes on. -/
theorem exitClose (hf : Flows returns s inp out (.handleClose s :: ctx) pending h o) (r : Int)
    (pending' : List UInt8) :
    Flows returns s inp out ctx pending'
      (h ++ [.resumed (.handleClose s) r] ++ Net.closeEvents o.fd)
      (World.closedFields o) where
  established := { hf.established with state := nofun }
  receives := by
    have he : Silent (.resumed (.handleClose s) r) := .closed s r
    have hr := ((hf.silent he).closeEvents o.fd).receives
    exact (hr.context fun t data => List.mem_cons_of_mem _).update rfl
  sends := .inr (.inl rfl)

/-- `Read` appends what `recv` delivers. -/
theorem append (hf : Flows returns s inp out ctx pending h o) (fd : Fd) (size : Nat)
    {data : List UInt8} (malloc : Malloc) (hdata : data ≠ []) :
    Flows returns s inp out ctx pending
      (h ++ [.asked (.recv fd size) (.ok data)] ++ [.asked .malloc malloc])
      { o with input := (o.input.append malloc data).2 } where
  established := hf.established.append_input malloc data
  receives := hf.receives.append hf.established hdata
  sends := hf.sends.imp_right (Or.imp_right fun hs => (hs.quiet rfl rfl rfl).quiet rfl rfl rfl)

/-- `HandlePacket` is called with the input. -/
theorem enterPacket (hf : Flows returns s inp out ctx [] h o) (hreceived : received h ≠ []) :
    Flows returns s inp out (.handlePacket s o.input.content :: ctx) []
      (h ++ [.called (.handlePacket s o.input.content)]) o where
  established := hf.established
  receives := hf.receives.called hreceived s
  sends := hf.sends.imp (List.mem_cons_of_mem _) (Or.imp_right fun hs => hs.quiet rfl rfl rfl)

/-- `HandlePacket` returns. -/
theorem exitPacket {data : List UInt8} {r : Int}
    (hf : Flows returns s inp out (.handlePacket s data :: ctx) [] h o)
    (hreturns : returns (.handlePacket s data) r) :
    Flows returns s inp out ctx [] (h ++ [.resumed (.handlePacket s data) r]) o where
  established := hf.established
  receives := hf.receives.resumed hreturns
  sends := by
    refine hf.sends.imp (fun hmem => ?_) (Or.imp_right fun hs => hs.quiet rfl rfl rfl)
    simpa using hmem

/-- `SendPacket` has appended to the output and does not know yet what becomes of it. -/
theorem appended (hf : Flows returns s inp out ctx [] h o) {data : List UInt8}
    (ho' : Established o') (hstate : o'.state = o.state) (hinput : o'.input = o.input)
    (houtput : o'.output.content = o.output.content ++ data) :
    Flows returns s inp out ctx data h o' where
  established := ho'
  receives := hf.receives.update hinput
  sends := by
    rw [hstate]
    refine hf.sends.imp_right (Or.imp_right fun hs => ?_)
    rw [Sends, houtput, ← List.append_assoc, hs, List.append_nil]

/-- `SendPacket` returns true. -/
theorem returned (t : SocketId) {data : List UInt8}
    (hf : Flows returns s inp out ctx data h o) :
    Flows returns s inp out ctx [] (h ++ [.returned (.sendPacket t data) (.bool true)]) o where
  established := hf.established
  receives := by
    have he : Quiet (.returned (.sendPacket t data) (.bool true)) := ⟨rfl, nofun, nofun⟩
    exact hf.receives.quiet he
  sends := by
    refine hf.sends.imp_right (Or.imp_right fun hs => ?_)
    rw [Sends] at hs
    rw [Sends, taken_concat, accepted_concat]
    simpa [portion, payload] using hs

/-- A connection is there. -/
theorem connected (hf : Flows returns s inp out ctx pending h o)
    (hstate : o.state = .connecting) :
    Flows returns s inp out ctx pending h { o with state := .connected, timeout := 0 } where
  established := { hf.established with state := nofun }
  receives := hf.receives.update rfl
  sends := by
    rcases hf.sends with hmem | hclose | hs
    · exact .inl hmem
    -- a socket which is connecting is not closed
    · rw [hstate] at hclose
      cases hclose
    · exact .inr (.inr hs)

/-- `send` takes bytes from the front of the output. -/
theorem sent (hf : Flows returns s inp out ctx pending h o) {fd : Fd} (n : Nat) :
    Flows returns s inp out ctx pending (h ++ [.asked (.send fd o.output.content) (.ok n)])
      { o with output := o.output.erase 0 n false } where
  established := hf.established.erase_output n
  receives := by
    have he : Quiet (.asked (.send fd o.output.content) (.ok n)) := ⟨rfl, nofun, nofun⟩
    exact (hf.receives.quiet he).update rfl
  sends := by
    refine hf.sends.imp_right (Or.imp_right fun hs => ?_)
    obtain ⟨-, hcontent, -⟩ := BlockBuffer.erase_spec hf.established.output (Nat.zero_le _) n false
    rw [Sends] at hs
    rw [Sends, taken_concat, accepted_concat, hcontent]
    simpa [portion, payload] using hs

end Flows

/-! ## The methods -/

/-- The application calls methods of `s`, which return as `returns` says; the rest
of the process leaves the object alone. -/
def solo (s : SocketId) (returns : Callback → Int → Prop) : NetEnvironment where
  answers := Kernel.answers
  enters _ _ m := m.target = some s
  returns := returns
  interferes _ w w' := w'.heap s = w.heap s

/-- `Flows` of the object `s` in the world. -/
def InFlow (returns : Callback → Int → Prop) (s : SocketId) (inp out : List UInt8)
    (ctx : List Callback) (pending : List UInt8) (h : List NetEvent) (w : World) : Prop :=
  ∃ o, w.heap s = some o ∧ Flows returns s inp out ctx pending h o

def flowing (returns : Callback → Int → Prop) (s : SocketId) (inp out : List UInt8) : NetSpec where
  inv ctx h w := InFlow returns s inp out ctx [] h w
  rel _ _ _ := True
  check _ _ := True
  tolerated _ := False

theorem plain_flowing {returns : Callback → Int → Prop} {s : SocketId} {inp out : List UInt8} :
    Plain (solo s returns) (flowing returns s inp out) :=
  ⟨id, fun _ => trivial⟩

section

variable {returns : Callback → Int → Prop} {s : SocketId} {inp out pending : List UInt8}
  {ctx : List Callback} {h : List NetEvent} {w : World} {o : Socket} {α β : Type}
  {post : β → List NetEvent → World → Prop}

theorem InFlow.put {o' : Socket} (hf : Flows returns s inp out ctx pending h o') :
    InFlow returns s inp out ctx pending h (w.put s o') :=
  ⟨o', w.heap_put s o', hf⟩

theorem InFlow.silent (hw : InFlow returns s inp out ctx pending h w) {e : NetEvent}
    (he : Silent e) : InFlow returns s inp out ctx pending (h ++ [e]) w := by
  obtain ⟨o, ho, hf⟩ := hw
  exact ⟨o, ho, hf.silent he⟩

theorem touch_flow (hw : InFlow returns s inp out ctx pending h w) :
    wp (solo s returns) (flowing returns s inp out) ctx (touch s)
      (fun _ => InFlow returns s inp out ctx pending) h w := by
  obtain ⟨o, ho, hf⟩ := hw
  refine wp_touch plain_flowing ho fun now => .put ?_
  have he : Silent (.asked .time now) := .asked rfl rfl
  exact (hf.silent he).update rfl rfl rfl rfl

theorem closeSocket_flow (hw : InFlow returns s inp out ctx pending h w) (pending' : List UInt8) :
    wp (solo s returns) (flowing returns s inp out) ctx (closeSocket s)
      (fun _ => InFlow returns s inp out ctx pending') h w := by
  obtain ⟨o, ho, hf⟩ := hw
  refine wp_closeSocket plain_flowing ho (fun _ => ?_) (fun _ => ?_) (fun _ r h' w' hinv _ => ?_)
  · exact ⟨_, w.heap_closed s o, hf.closed pending'⟩
  · exact ⟨o, ho, hf.enterClose⟩
  · obtain ⟨o', ho', hf'⟩ := hinv
    exact ⟨o', ho', _, w'.heap_closed s o', hf'.exitClose r pending'⟩

theorem modSocket_flow (hw : InFlow returns s inp out ctx pending h w) (events : Interest) :
    wp (solo s returns) (flowing returns s inp out) ctx
      (EpollContainer.modSocket (some s) events)
      (fun _ => InFlow returns s inp out ctx pending) h w := by
  obtain ⟨o, ho, hf⟩ := hw
  have he : ∀ b, Silent (.asked (.epollCtlMod o.fd events) b) := fun b => .asked rfl rfl
  exact EpollContainer.wp_modSocket plain_flowing ho (fun _ => ⟨o, ho, hf⟩)
    ⟨o, ho, hf.silent (he false)⟩ fun _ _ => ⟨o, ho, hf.silent (he true)⟩

namespace TcpSocket

theorem modOrClose_flow (hw : InFlow returns s inp out ctx pending h w) (events : Interest) :
    wp (solo s returns) (flowing returns s inp out) ctx (modOrClose s events)
      (fun _ => InFlow returns s inp out ctx pending) h w := by
  refine wp_seq (modSocket_flow hw events) fun modified h w hw => ?_
  cases modified with
  | false => exact closeSocket_flow hw pending
  | true => exact hw

theorem read_flow (hw : InFlow returns s inp out ctx [] h w) (size : Nat) :
    wp (solo s returns) (flowing returns s inp out) ctx (read s size)
      (fun _ => InFlow returns s inp out ctx []) h w := by
  refine wp_seq (touch_flow hw) fun _ h w hw => ?_
  obtain ⟨o, ho, hf⟩ := hw
  rw [wp_bind, wp_load ho, wp_bind]
  refine wp_ask_idle plain_flowing rfl fun a _ _ => ?_
  rcases a with errno | _ | ⟨b, rest⟩
  · have he : Silent (.asked (.recv o.fd size) (.error errno)) := .asked rfl rfl
    dsimp only
    split
    · exact ⟨o, ho, hf.silent he⟩
    · exact closeSocket_flow ⟨o, ho, hf.silent he⟩ []
  · have he : Silent (.asked (.recv o.fd size) (.ok [])) := .asked rfl rfl
    exact closeSocket_flow ⟨o, ho, hf.silent he⟩ []
  · dsimp only
    rw [wp_bind]
    refine wp_appendInput plain_flowing ho fun malloc => ?_
    have hf' := hf.append o.fd size malloc (List.cons_ne_nil b rest)
    have hreceived : received (h ++ [.asked (.recv o.fd size) (.ok (b :: rest))] ++
        [.asked .malloc malloc]) ≠ [] := by
      rw [Receives.received_append]
      exact List.append_ne_nil_of_right_ne_nil _ (List.cons_ne_nil b rest)
    rw [wp_bind, wp_load (w.heap_put s _)]
    split
    · refine ⟨⟨_, w.heap_put s _, hf'.enterPacket hreceived⟩, fun r h' w' hr hinv _ => ?_⟩
      obtain ⟨o', ho', hf''⟩ := hinv
      exact ⟨o', ho', hf''.exitPacket hr⟩
    · exact .put hf'

/-- The loop of `Write`, with what `SendPacket` has appended. -/
theorem write_flow (hw : InFlow returns s inp out ctx pending h w) :
    wp (solo s returns) (flowing returns s inp out) ctx (write s)
      (fun _ => InFlow returns s inp out ctx pending) h w := by
  refine wp_seq (touch_flow hw) fun _ h w hw => ?_
  obtain ⟨o, ho, hf⟩ := hw
  rw [wp_bind, wp_load ho]
  split
  · exact ⟨o, ho, hf⟩
  rename_i hsize
  refine wp_writeLoop plain_flowing (InFlow returns s inp out ctx pending) ?_ ?_ ?_ ?_
    ⟨o, ho, hf⟩ ho (Nat.pos_of_ne_zero (by omega)) le_rfl
  · intro h w o n hw ho _ _ _
    obtain ⟨_, ho', hf⟩ := hw
    cases ho.symm.trans ho'
    exact .put (hf.sent n)
  · intro h w o n hw ho _ _ _
    obtain ⟨_, ho', hf⟩ := hw
    cases ho.symm.trans ho'
    split
    · refine modOrClose_flow (.put ?_) _
      exact (hf.sent n).update rfl rfl rfl rfl
    · exact .put (hf.sent n)
  · intro h w o hw _ _
    have he : Silent (.asked (.send o.fd o.output.content) (.error .eagain)) := .asked rfl rfl
    refine wp_mono (fun modified h w hw => ?_) (modSocket_flow (hw.silent he) _)
    split
    · obtain ⟨o, ho, hf⟩ := hw
      exact ⟨o, ho, .put (hf.update rfl rfl rfl rfl)⟩
    · exact closeSocket_flow hw pending
  · intro h w o errno hw _ _
    have he : Silent (.asked (.send o.fd o.output.content) (.error errno)) := .asked rfl rfl
    exact closeSocket_flow (hw.silent he) pending

/-- What a `SendPacket` that returns true has appended, it has accepted. -/
theorem sendPacket_flow (hw : InFlow returns s inp out ctx [] h w) (data : List UInt8) :
    wp (solo s returns) (flowing returns s inp out) ctx (sendPacket s data)
      (fun b => InFlow returns s inp out ctx (if b then data else [])) h w := by
  obtain ⟨o, ho, hf⟩ := hw
  rw [sendPacket, wp_bind, wp_load ho]
  split
  · exact ⟨o, ho, hf⟩
  split
  · rename_i hdata
    have hnil : data = [] := List.eq_nil_of_length_eq_zero (by omega)
    subst hnil
    exact ⟨o, ho, hf⟩
  rw [wp_bind]
  refine wp_ask_idle plain_flowing rfl fun malloc _ _ => ?_
  have he : Silent (.asked .malloc malloc) := .asked rfl rfl
  replace hf := hf.silent he
  have hest := hf.established.append_output malloc data
  rcases BlockBuffer.append_cases hf.established.output malloc data with
    ⟨-, b', heq, -, hcontent, -⟩ | ⟨-, heq⟩
  -- the payload is in the output now, and accepted when the call returns true
  · rw [heq] at hest ⊢
    dsimp only
    rw [wp_bind, wp_store ho]
    have hw : InFlow returns s inp out ctx data (h ++ [.asked .malloc malloc])
        (w.put s { o with output := b' }) := .put (hf.appended hest rfl rfl hcontent)
    exact wp_seq (write_flow hw) fun _ _ _ hw => hw
  · rw [heq]
    dsimp only
    rw [wp_bind, wp_store ho]
    exact .put (hf.update rfl rfl rfl rfl)

theorem handleWrite_flow (hw : InFlow returns s inp out ctx [] h w) :
    wp (solo s returns) (flowing returns s inp out) ctx (handleWrite s)
      (fun _ => InFlow returns s inp out ctx []) h w := by
  obtain ⟨o, ho, hf⟩ := hw
  rw [handleWrite, wp_bind, wp_load ho]
  split
  case h_1 =>
    rename_i hstate
    rw [wp_bind, wp_store ho]
    exact modOrClose_flow (.put (hf.connected hstate)) _
  case h_2 | h_3 => exact write_flow ⟨o, ho, hf⟩
  all_goals exact ⟨o, ho, hf⟩

theorem handleTimeout_flow (hw : InFlow returns s inp out ctx [] h w) :
    wp (solo s returns) (flowing returns s inp out) ctx (handleTimeout s)
      (fun _ => InFlow returns s inp out ctx []) h w := by
  rw [handleTimeout, wp_bind]
  refine wp_ask_idle plain_flowing rfl fun now _ _ => ?_
  have he : Silent (.asked .time now) := .asked rfl rfl
  replace hw := hw.silent he
  obtain ⟨o, ho, hf⟩ := id hw
  rw [wp_bind, wp_load ho]
  split
  case h_4 | h_5 => exact hw
  all_goals
    split
    · exact closeSocket_flow hw []
    · exact hw

end TcpSocket

theorem Method.returning_flow {x : NetM α} {value : α → Value} {m : Method}
    (hreturn : ∀ a, Silent (.returned m (value a)))
    (hx : wp (solo s returns) (flowing returns s inp out) ctx x
      (fun _ => InFlow returns s inp out ctx []) h w) :
    wp (solo s returns) (flowing returns s inp out) ctx (returning x value)
      (fun v h' w' => (flowing returns s inp out).inv ctx (h' ++ [.returned m v]) w' ∧
        (flowing returns s inp out).rel ctx w w') h w :=
  wp_seq hx fun a _ _ hw => ⟨hw.silent (hreturn a), trivial⟩

end

/-- Every method of the socket keeps its streams. -/
theorem sound_flowing {returns : Callback → Int → Prop} {s : SocketId} {inp out : List UInt8} :
    (flowing returns s inp out).Sound (solo s returns) Method.body where
  refl _ _ := trivial
  trans _ _ _ _ _ _ := trivial
  interferes := by
    intro ctx h w w' hw hinv
    obtain ⟨o, ho, hf⟩ := hinv
    exact ⟨⟨o, hw.trans ho, hf⟩, trivial⟩
  methods := by
    intro ctx h w m hm hinv
    have hw : InFlow returns s inp out ctx [] (h ++ [.entered m]) w :=
      InFlow.silent hinv (.entered m)
    obtain ⟨o, ho, hf⟩ := id hw
    have htype := hf.established.type
    cases m with
    | tcpListen | tcpConnect | udpListen | udpConnect | handleSockets => cases hm
    | handleRead t =>
        cases hm
        refine Method.returning_flow (fun _ => .returned rfl) ?_
        rw [SocketBase.handleRead, wp_bind, wp_load ho, htype]
        dsimp only
        rw [TcpSocket.handleRead, wp_bind, wp_load ho]
        split
        case h_1 hlisten => exact absurd hlisten hf.established.state
        case h_5 => exact hw
        all_goals exact TcpSocket.read_flow hw maxReadBuffSize
    | handleWrite t =>
        cases hm
        refine Method.returning_flow (fun _ => .returned rfl) ?_
        rw [SocketBase.handleWrite, wp_bind, wp_load ho, htype]
        exact TcpSocket.handleWrite_flow hw
    | handleError t =>
        cases hm
        refine Method.returning_flow (fun _ => .returned rfl) ?_
        rw [SocketBase.handleError, wp_bind, wp_load ho, htype]
        exact closeSocket_flow hw []
    | handleTimeout t =>
        cases hm
        refine Method.returning_flow (fun _ => .returned rfl) ?_
        rw [SocketBase.handleTimeout, wp_bind, wp_load ho, htype]
        exact TcpSocket.handleTimeout_flow hw
    | close t =>
        cases hm
        refine Method.returning_flow (fun _ => .returned rfl) ?_
        rw [SocketBase.close, wp_bind, wp_load ho, htype]
        exact closeSocket_flow hw []
    | sendPacket t data =>
        cases hm
        have hx : wp (solo s returns) (flowing returns s inp out) ctx (SocketBase.sendPacket s data)
            (fun b => InFlow returns s inp out ctx (if b then data else []))
            (h ++ [.entered (.sendPacket s data)]) w := by
          rw [SocketBase.sendPacket, wp_bind, wp_load ho, htype]
          exact TcpSocket.sendPacket_flow hw data
        refine wp_seq hx fun b h' w' hw' => ?_
        cases b with
        | false => exact ⟨hw'.silent (.returned rfl), trivial⟩
        | true =>
            obtain ⟨o, ho, hf⟩ := hw'
            exact ⟨⟨o, ho, hf.returned s⟩, trivial⟩

/-- An established socket, before any of its methods is called. -/
theorem flowing_initial {returns : Callback → Int → Prop} {s : SocketId} {w : World} {o : Socket}
    (hs : w.heap s = some o) (ho : Established o) :
    (flowing returns s o.input.content o.output.content).inv [] [] w := by
  refine ⟨o, hs, ho, ⟨fun _ => ?_, fun _ h₁ t data h₂ heq => ?_, nofun, nofun⟩, .inr (.inr ?_)⟩
  · exact (List.append_nil _).symm
  · cases h₁ <;> cases heq
  · simp [Sends, taken, accepted]

/-! ## A connected socket -/

/-- `Connect` has just returned the socket 0. -/
def connectedWorld : World := (played ⟨true, [1], 4⟩ [.enter (.tcpConnect 1 2 true)]).world

def connectedSocket : Socket :=
  { TcpSocket.construct true false with fd := 3, peerAddr := some ⟨1, 2⟩, state := .connected }

theorem established_connected : Established connectedSocket where
  type := rfl
  state := nofun
  input := BlockBuffer.inv_new
  inputMax := rfl
  output := BlockBuffer.inv_new

end Net
end Deps
