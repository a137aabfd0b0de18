import Deps.Lib.Network
import Deps.Net.Connection
import Deps.Net.Datagrams

/-!
# Datagrams on a network

Any number of processes, with a `UdpSocket` each, on a network which loses, delays,
duplicates and reorders datagrams.  `UdpSocket::Read` appends every datagram to the
one input of the socket, whoever has sent it.  When the datagrams are packets, and
the handlers take whole packets, the input is never out of step: a handler is given
whole packets only.
-/

namespace Deps
namespace Net

open Reentrant

/-! ## What a history says -/

/-- The datagram which `recvfrom` delivers. -/
def arrival : NetEvent → List (List UInt8)
  | .asked (.recvfrom _ _) (.ok (data, _)) => [data]
  | _ => []

def arrivals (h : List NetEvent) : List (List UInt8) := h.flatMap arrival

/-- The datagram which `sendto` takes, and where it is to go. -/
def posting : NetEvent → List (List UInt8 × Option SockAddr)
  | .asked (.sendto _ data addr) (some _) => [(data, addr)]
  | _ => []

def posted (h : List NetEvent) : List (List UInt8 × Option SockAddr) := h.flatMap posting

/-- The bytes which the handler says it has unpacked. -/
def unpacking : NetEvent → List UInt8
  | .resumed (.handlePacket _ data) r => data.take r.toNat
  | _ => []

def unpacked (h : List NetEvent) : List UInt8 := h.flatMap unpacking

@[simp] theorem arrivals_concat (h : List NetEvent) (e : NetEvent) :
    arrivals (h ++ [e]) = arrivals h ++ arrival e := by
  simp [arrivals]

@[simp] theorem unpacked_concat (h : List NetEvent) (e : NetEvent) :
    unpacked (h ++ [e]) = unpacked h ++ unpacking e := by
  simp [unpacked]

/-- No allocation failed, and what had arrived and was not unpacked was never more than
an input holds. -/
def Spared (h : List NetEvent) : Prop :=
  h.any refused = false ∧
    ∀ h₁, h₁ <+: h → (arrivals h₁).flatten.length ≤ (unpacked h₁).length + streamLimit

theorem Spared.of_prefix {h h' : List NetEvent} (hbegins : h <+: h') (hh : Spared h') :
    Spared h := by
  obtain ⟨more, rfl⟩ := hbegins
  obtain ⟨hmalloc, hfits⟩ := hh
  rw [List.any_append, Bool.or_eq_false_iff] at hmalloc
  exact ⟨hmalloc.1, fun h₁ hh₁ => hfits h₁ (hh₁.trans (List.prefix_append _ _))⟩

/-- Everything which arrived is a frame. -/
def Delimits (len : List UInt8 → Option Nat) (h : List NetEvent) : Prop :=
  ∀ d ∈ arrivals h, Frames.Delimited len d

theorem Delimits.of_prefix {len : List UInt8 → Option Nat} {h h' : List NetEvent}
    (hbegins : h <+: h') (hh : Delimits len h') : Delimits len h := by
  obtain ⟨more, rfl⟩ := hbegins
  intro d hd
  refine hh d ?_
  rw [arrivals, List.flatMap_append]
  exact List.mem_append_left _ hd

/-- The handler takes some of the whole frames which it is given, or none. -/
def TakesFrames (len : List UInt8 → Option Nat) : Callback → Int → Prop
  | .handlePacket _ data, n =>
      ∃ k, n.toNat = ((Frames.whole len data).1.take k).flatten.length
  | .handleClose _, _ => True

/-- Events with which no datagram arrives, and none is unpacked. -/
structure Mute (e : NetEvent) : Prop where
  arrival : arrival e = []
  unpacking : unpacking e = []

/-- A datagram is sent, or a handler called for one. -/
def isTrade : NetEvent → Bool
  | .asked (.sendto _ _ _) _ => true
  | .called (.handlePacket _ _) => true
  | _ => false

/-- Events which are not about datagrams at all. -/
structure Apart (e : NetEvent) : Prop extends Mute e where
  trade : isTrade e = false

/-! ## The input -/

/-- The datagrams `done` have been unpacked, and `left` are in the input.  They arrived
in this order, and no others did, unless one could not be stored. -/
structure Inbox (h : List NetEvent) (done left : List (List UInt8)) (content : List UInt8) :
    Prop where
  arrived : (done ++ left).Sublist (arrivals h)
  all : Spared h → done ++ left = arrivals h
  unpacked : unpacked h = done.flatten
  content : content = left.flatten

namespace Inbox

variable {len : List UInt8 → Option Nat} {h : List NetEvent} {done left : List (List UInt8)}
  {content data : List UInt8} {e : NetEvent} {s : SocketId}

theorem mute (hi : Inbox h done left content) (he : Mute e) :
    Inbox (h ++ [e]) done left content := by
  have harrivals : arrivals (h ++ [e]) = arrivals h := by
    rw [arrivals_concat, he.arrival, List.append_nil]
  have hunpacked : Net.unpacked (h ++ [e]) = Net.unpacked h := by
    rw [unpacked_concat, he.unpacking, List.append_nil]
  exact ⟨harrivals ▸ hi.arrived,
    fun hspared => harrivals ▸ hi.all (hspared.of_prefix (List.prefix_append _ _)),
    hunpacked ▸ hi.unpacked, hi.content⟩

/-- The events of a read which delivers `d`. -/
theorem arrivals_read (h : List NetEvent) (fd : Fd) (size : Nat) (d : List UInt8)
    (sender : SockAddr) (malloc : Malloc) :
    arrivals (h ++ [.asked (.recvfrom fd size) (.ok (d, sender))] ++ [.asked .malloc malloc]) =
      arrivals h ++ [d] := by
  rw [arrivals_concat, arrivals_concat]
  exact List.append_nil _

theorem unpacked_read (h : List NetEvent) (fd : Fd) (size : Nat)
    (a : Answer (.recvfrom fd size)) (malloc : Malloc) :
    Net.unpacked (h ++ [.asked (.recvfrom fd size) a] ++ [.asked .malloc malloc]) =
      Net.unpacked h := by
  rw [unpacked_concat, unpacked_concat]
  exact (List.append_nil _).trans (List.append_nil _)

/-- A datagram is appended to the input, or it is lost for a good reason. -/
theorem read {b : BlockBuffer socketConfig} (hi : Inbox h done left b.content) (hb : b.Inv)
    (hmax : b.maxblocks = socketConfig.maxBlocks) (fd : Fd) (size : Nat) (d : List UInt8)
    (sender : SockAddr) (malloc : Malloc) :
    ∃ left', Inbox (h ++ [.asked (.recvfrom fd size) (.ok (d, sender))] ++
      [.asked .malloc malloc]) done left' (b.append malloc d).2.content := by
  have hprefix : h <+: h ++ [.asked (.recvfrom fd size) (.ok (d, sender))] ++
      [.asked .malloc malloc] := by
    rw [List.append_assoc]
    exact List.prefix_append _ _
  rcases BlockBuffer.append_cases hb malloc d with ⟨-, b', heq, -, hcontent, -⟩ | ⟨hno, heq⟩
  · refine ⟨left ++ [d], ?_, fun hspared => ?_, ?_, ?_⟩
    · rw [arrivals_read, ← List.append_assoc]
      exact hi.arrived.append_right [d]
    · rw [arrivals_read, ← List.append_assoc, hi.all (hspared.of_prefix hprefix)]
    · rw [unpacked_read]
      exact hi.unpacked
    · rw [heq, hcontent, hi.content, List.flatten_append, List.flatten_singleton]
  · refine ⟨left, ?_, fun hspared => ?_, ?_, ?_⟩
    · rw [arrivals_read]
      exact hi.arrived.trans (List.sublist_append_left _ _)
    -- an allocation failed, or there were too many bytes
    · refine absurd (.inr ⟨?_, ?_⟩) hno
      · have hall := hi.all (hspared.of_prefix hprefix)
        have hfits := hspared.2 _ List.prefix_rfl
        rw [arrivals_read, unpacked_read, hi.unpacked, ← hall] at hfits
        simp only [List.flatten_append, List.flatten_singleton, List.length_append] at hfits
        rw [← hb.length_content, hi.content, BlockBuffer.maxsize, hmax]
        show left.flatten.length + d.length ≤ streamLimit
        omega
      · refine Option.isSome_iff_ne_none.mpr ?_
        rintro rfl
        simpa [refused] using hspared.1
    · rw [unpacked_read]
      exact hi.unpacked
    · rw [heq]
      exact hi.content

/-- The handler has taken whole frames. -/
theorem resumed (hi : Inbox h done left data) (hstable : Frames.Stable len)
    (hframes : Delimits len h) {r : Int} (hr : TakesFrames len (.handlePacket s data) r) :
    ∃ done' left', Inbox (h ++ [.resumed (.handlePacket s data) r]) done' left'
      (data.drop r.toNat) := by
  obtain ⟨k, hk⟩ := hr
  have hleft : ∀ f ∈ left, Frames.Delimited len f := fun f hf =>
    hframes f (hi.arrived.subset (List.mem_append_right _ hf))
  rw [hi.content, Frames.whole_flatten hstable hleft] at hk
  have hsplit : data = (left.take k).flatten ++ (left.drop k).flatten := by
    rw [← List.flatten_append, List.take_append_drop]
    exact hi.content
  have hall : done ++ left.take k ++ left.drop k = done ++ left := by
    rw [List.append_assoc, List.take_append_drop]
  have harrivals : arrivals (h ++ [.resumed (.handlePacket s data) r]) = arrivals h ++ [] :=
    arrivals_concat _ _
  rw [List.append_nil] at harrivals
  refine ⟨done ++ left.take k, left.drop k, ?_, fun hspared => ?_, ?_, ?_⟩
  · rw [hall, harrivals]
    exact hi.arrived
  · rw [hall, harrivals]
    exact hi.all (hspared.of_prefix (List.prefix_append _ _))
  · have hunpacked : Net.unpacked (h ++ [.resumed (.handlePacket s data) r]) =
        Net.unpacked h ++ data.take r.toNat := unpacked_concat _ _
    rw [hunpacked, hi.unpacked, hk, hsplit, List.take_left, List.flatten_append]
  · rw [hk, hsplit, List.drop_left]

end Inbox

/-! ## The invariant -/

/-- What is sent was given to `SendPacket`, and is not empty. -/
def Posts (s : SocketId) (h : List NetEvent) : Prop :=
  ∀ h₁ fd data addr n h₂, h = h₁ ++ .asked (.sendto fd data addr) n :: h₂ →
    data ≠ [] ∧ .entered (.sendPacket s data) ∈ h₁

theorem Posts.of_prefix {s : SocketId} {h h' : List NetEvent} (hbegins : h <+: h')
    (hh : Posts s h') : Posts s h := by
  obtain ⟨more, rfl⟩ := hbegins
  intro h₁ fd data addr n h₂ heq
  refine hh h₁ fd data addr n (h₂ ++ more) ?_
  rw [heq, List.append_assoc, List.cons_append]

theorem Posts.of_posted {s : SocketId} {h : List NetEvent} (hh : Posts s h)
    {d : List UInt8 × Option SockAddr} (hd : d ∈ posted h) :
    d.1 ≠ [] ∧ .entered (.sendPacket s d.1) ∈ h := by
  obtain ⟨e, he, hposting⟩ := List.mem_flatMap.mp hd
  obtain ⟨h₁, h₂, rfl⟩ := List.append_of_mem he
  unfold posting at hposting
  split at hposting
  · cases List.mem_singleton.mp hposting
    exact (hh h₁ _ _ _ _ h₂ rfl).imp_right (List.mem_append_left _)
  · cases hposting

/-- The handler was given datagrams which were not torn. -/
def HandedFrames (len : List UInt8 → Option Nat) (h : List NetEvent) : Prop :=
  Delimits len h → ∀ h₁ x data h₂, h = h₁ ++ .called (.handlePacket x data) :: h₂ →
    ∃ done left, Inbox h₁ done left data

/-- What the history says, whatever the object is like now. -/
structure Traded (s : SocketId) (len : List UInt8 → Option Nat) (h : List NetEvent) : Prop where
  handed : HandedFrames len h
  posts : Posts s h

/-- What holds of the `UdpSocket` with the fields `o`. -/
structure Trades (s : SocketId) (len : List UInt8 → Option Nat) (ctx : List Callback)
    (h : List NetEvent) (o : Socket) : Prop extends Traded s len h where
  type : o.type = .udp
  input : o.input.Inv
  inputMax : o.input.maxblocks = socketConfig.maxBlocks
  /-- while the handler looks at the input, it stays as it is -/
  inside : ∀ data, .handlePacket s data ∈ ctx → o.input.content = data
  inbox : Delimits len h → ∃ done left, Inbox h done left o.input.content

section

variable {s : SocketId} {len : List UInt8 → Option Nat} {ctx ctx' : List Callback}
  {h : List NetEvent} {o o' : Socket} {e : NetEvent}

theorem Delimits.of_concat (hframes : Delimits len (h ++ [e])) : Delimits len h :=
  hframes.of_prefix (List.prefix_append _ _)

theorem Traded.concat (ht : Traded s len h) (he : isTrade e = false) :
    Traded s len (h ++ [e]) where
  handed hframes h₁ x data h₂ heq := by
    rcases concat_eq_append_cons heq with ⟨-, rfl⟩ | ⟨h₃, rfl⟩
    · cases he
    · exact ht.handed hframes.of_concat h₁ x data h₃ rfl
  posts h₁ fd data addr n h₂ heq := by
    rcases concat_eq_append_cons heq with ⟨-, rfl⟩ | ⟨h₃, rfl⟩
    · cases he
    · exact ht.posts h₁ fd data addr n h₃ rfl

/-- The handler is called. -/
theorem Traded.called (ht : Traded s len h) {data : List UInt8}
    (hdata : Delimits len h → ∃ done left, Inbox h done left data) :
    Traded s len (h ++ [.called (.handlePacket s data)]) where
  handed hframes h₁ x data' h₂ heq := by
    rcases concat_eq_append_cons heq with ⟨rfl, hevent⟩ | ⟨h₃, rfl⟩
    · cases hevent
      exact hdata hframes.of_concat
    · exact ht.handed hframes.of_concat h₁ x data' h₃ rfl
  posts h₁ fd data' addr n h₂ heq := by
    rcases concat_eq_append_cons heq with ⟨-, hne⟩ | ⟨h₃, rfl⟩
    · cases hne
    · exact ht.posts h₁ fd data' addr n h₃ rfl

/-- A datagram is sent. -/
theorem Traded.post (ht : Traded s len h) {data : List UInt8} (hdata : data ≠ [])
    (hentered : .entered (.sendPacket s data) ∈ h) (fd : Fd) (addr : Option SockAddr)
    (n : Option Nat) : Traded s len (h ++ [.asked (.sendto fd data addr) n]) where
  handed hframes h₁ x data' h₂ heq := by
    rcases concat_eq_append_cons heq with ⟨-, hne⟩ | ⟨h₃, rfl⟩
    · cases hne
    · exact ht.handed hframes.of_concat h₁ x data' h₃ rfl
  posts h₁ fd' data' addr' n' h₂ heq := by
    rcases concat_eq_append_cons heq with ⟨rfl, hevent⟩ | ⟨h₃, rfl⟩
    · cases hevent
      exact ⟨hdata, hentered⟩
    · exact ht.posts h₁ fd' data' addr' n' h₃ rfl

namespace Trades

theorem apart (ht : Trades s len ctx h o) (he : Apart e) : Trades s len ctx (h ++ [e]) o :=
  { ht with
    toTraded := ht.toTraded.concat he.trade
    inbox := fun hframes => by
      obtain ⟨done, left, hi⟩ := ht.inbox hframes.of_concat
      exact ⟨done, left, hi.mute he.toMute⟩ }

/-- A change of other fields. -/
theorem update (ht : Trades s len ctx h o) (htype : o'.type = o.type)
    (hinput : o'.input = o.input) : Trades s len ctx h o' :=
  { ht with
    type := htype.trans ht.type
    input := hinput ▸ ht.input
    inputMax := hinput ▸ ht.inputMax
    inside := hinput ▸ ht.inside
    inbox := hinput ▸ ht.inbox }

theorem context (ht : Trades s len ctx h o)
    (hctx : ∀ data, .handlePacket s data ∈ ctx' → .handlePacket s data ∈ ctx) :
    Trades s len ctx' h o :=
  { ht with inside := fun data hmem => ht.inside data (hctx data hmem) }

theorem closed (ht : Trades s len ctx h o) (fd : Fd) :
    Trades s len ctx (h ++ closeEvents fd) (World.closedFields o) := by
  have hdel : Apart (.asked (.epollCtlDel fd) ()) := ⟨⟨rfl, rfl⟩, rfl⟩
  have hclose : Apart (.asked (.close fd) ()) := ⟨⟨rfl, rfl⟩, rfl⟩
  refine update (o := o) ?_ rfl rfl
  rw [closeEvents]
  split
  · rw [List.append_cons]
    exact (ht.apart hdel).apart hclose
  · exact ht.apart hdel

/-- `HandleClose` is called, with the methods which it may call in turn. -/
theorem enterClose (ht : Trades s len ctx h o) :
    Trades s len (.handleClose s :: ctx) (h ++ [.called (.handleClose s)]) o := by
  refine (ht.apart ⟨⟨rfl, rfl⟩, rfl⟩).context fun data hmem => ?_
  rcases List.mem_cons.mp hmem with heq | hmem
  · cases heq
  · exact hmem

theorem exitClose (ht : Trades s len (.handleClose s :: ctx) h o) (r : Int) :
    Trades s len ctx (h ++ [.resumed (.handleClose s) r]) o :=
  (ht.apart ⟨⟨rfl, rfl⟩, rfl⟩).context fun _ => List.mem_cons_of_mem _

/-- An empty datagram is no frame. -/
theorem empty (ht : Trades s len ctx h o) (fd : Fd) (size : Nat) (sender : SockAddr) :
    Trades s len ctx (h ++ [.asked (.recvfrom fd size) (.ok ([], sender))]) o :=
  { ht with
    toTraded := ht.toTraded.concat rfl
    inbox := fun hframes => by
      have harrivals : arrivals (h ++ [.asked (.recvfrom fd size) (.ok ([], sender))]) =
          arrivals h ++ [[]] := arrivals_concat _ _
      have hmem : [] ∈ arrivals (h ++ [.asked (.recvfrom fd size) (.ok ([], sender))]) := by
        rw [harrivals]
        exact List.mem_append_right _ (List.mem_singleton_self _)
      cases (hframes [] hmem).pos }

section

variable (hctx : ∀ data, .handlePacket s data ∉ ctx)
include hctx

/-- `recvfrom` delivers a datagram, outside of the handler. -/
theorem read (ht : Trades s len ctx h o) (fd : Fd) (size : Nat) (d : List UInt8)
    (sender : SockAddr) (malloc : Malloc) :
    Trades s len ctx
      (h ++ [.asked (.recvfrom fd size) (.ok (d, sender))] ++ [.asked .malloc malloc])
      { o with input := (o.input.append malloc d).2 } := by
  have hgrown : (o.input.append malloc d).2.Inv ∧
      (o.input.append malloc d).2.maxblocks = socketConfig.maxBlocks := by
    rcases BlockBuffer.append_cases ht.input malloc d with
      ⟨-, b', heq, hinv, -, hmax, -⟩ | ⟨-, heq⟩
    · rw [heq]
      exact ⟨hinv, hmax.trans ht.inputMax⟩
    · rw [heq]
      exact ⟨ht.input, ht.inputMax⟩
  have hreceived : Traded s len (h ++ [.asked (.recvfrom fd size) (.ok (d, sender))]) :=
    ht.toTraded.concat rfl
  refine ⟨hreceived.concat rfl, ht.type, hgrown.1, hgrown.2,
    fun data hmem => absurd hmem (hctx data), fun hframes => ?_⟩
  obtain ⟨done, left, hi⟩ := ht.inbox hframes.of_concat.of_concat
  exact ⟨done, hi.read ht.input ht.inputMax fd size d sender malloc⟩

/-- The handler is given the input. -/
theorem enterPacket (ht : Trades s len ctx h o) :
    Trades s len (.handlePacket s o.input.content :: ctx)
      (h ++ [.called (.handlePacket s o.input.content)]) o where
  toTraded := ht.toTraded.called ht.inbox
  type := ht.type
  input := ht.input
  inputMax := ht.inputMax
  inside data hmem := by
    rcases List.mem_cons.mp hmem with heq | hmem
    · cases heq
      rfl
    · exact absurd hmem (hctx data)
  inbox hframes := by
    obtain ⟨done, left, hi⟩ := ht.inbox hframes.of_concat
    exact ⟨done, left, hi.mute ⟨rfl, rfl⟩⟩

/-- The handler has taken whole frames, and they leave the input. -/
theorem exitPacket {data : List UInt8} (ht : Trades s len (.handlePacket s data :: ctx) h o)
    (hstable : Frames.Stable len) {r : Int} (hr : TakesFrames len (.handlePacket s data) r)
    (htype : o'.type = o.type) (hinput : o'.input.Inv)
    (hmax : o'.input.maxblocks = o.input.maxblocks)
    (hcontent : o'.input.content = o.input.content.drop r.toNat) :
    Trades s len ctx (h ++ [.resumed (.handlePacket s data) r]) o' where
  toTraded := ht.toTraded.concat rfl
  type := htype.trans ht.type
  input := hinput
  inputMax := hmax.trans ht.inputMax
  inside data' hmem := absurd hmem (hctx data')
  inbox hframes := by
    obtain ⟨done, left, hi⟩ := ht.inbox hframes.of_concat
    rw [ht.inside data List.mem_cons_self] at hi hcontent
    rw [hcontent]
    exact hi.resumed hstable hframes.of_concat hr

end

/-- `SendPacket` sends its payload. -/
theorem post (ht : Trades s len ctx h o) {data : List UInt8} (hdata : data ≠ [])
    (hentered : .entered (.sendPacket s data) ∈ h) (fd : Fd) (addr : Option SockAddr)
    (n : Option Nat) : Trades s len ctx (h ++ [.asked (.sendto fd data addr) n]) o :=
  { ht with
    toTraded := ht.toTraded.post hdata hentered fd addr n
    inbox := fun hframes => by
      obtain ⟨done, left, hi⟩ := ht.inbox hframes.of_concat
      exact ⟨done, left, hi.mute ⟨rfl, rfl⟩⟩ }

end Trades
end

/-! ## The methods -/

/-- As `solo`, but nobody reads the socket while its handler looks at what was read. -/
def reading (s : SocketId) (returns : Callback → Int → Prop) : NetEnvironment where
  answers := Kernel.answers
  enters ctx _ m := m.target = some s ∧ (m = .handleRead s → ∀ data, .handlePacket s data ∉ ctx)
  returns := returns
  interferes _ w w' := w'.heap s = w.heap s

/-- `Trades` of the object `s` in the world. -/
def InTrade (s : SocketId) (len : List UInt8 → Option Nat) (ctx : List Callback)
    (h : List NetEvent) (w : World) : Prop :=
  ∃ o, w.heap s = some o ∧ Trades s len ctx h o

def trading (s : SocketId) (len : List UInt8 → Option Nat) : NetSpec where
  inv ctx h w := InTrade s len ctx h w
  rel _ _ _ := True
  check _ _ := True
  tolerated _ := False

section

variable {s : SocketId} {len : List UInt8 → Option Nat} {ctx : List Callback}
  {h : List NetEvent} {w : World} {o : Socket} {α : Type}

theorem plain_trading {returns : Callback → Int → Prop} :
    Plain (reading s returns) (trading s len) := ⟨id, fun _ => trivial⟩

theorem InTrade.put {o' : Socket} (ht : Trades s len ctx h o') :
    InTrade s len ctx h (w.put s o') := ⟨o', w.heap_put s o', ht⟩

theorem InTrade.apart (hw : InTrade s len ctx h w) {e : NetEvent} (he : Apart e) :
    InTrade s len ctx (h ++ [e]) w := by
  obtain ⟨o, ho, ht⟩ := hw
  exact ⟨o, ho, ht.apart he⟩

theorem closeSocket_trade {returns : Callback → Int → Prop} (hw : InTrade s len ctx h w) :
    wp (reading s returns) (trading s len) ctx (closeSocket s) (fun _ => InTrade s len ctx)
      h w := by
  obtain ⟨o, ho, ht⟩ := hw
  refine wp_closeSocket plain_trading ho (fun _ => ?_) (fun _ => ?_) fun _ r h' w' hinv _ => ?_
  · exact ⟨_, w.heap_closed s o, ht.closed o.fd⟩
  · exact ⟨o, ho, ht.enterClose⟩
  · obtain ⟨o', ho', ht'⟩ := hinv
    exact ⟨o', ho', _, w'.heap_closed s o', (ht'.exitClose r).closed o'.fd⟩

theorem touch_trade {returns : Callback → Int → Prop} (hw : InTrade s len ctx h w) :
    wp (reading s returns) (trading s len) ctx (touch s) (fun _ => InTrade s len ctx) h w := by
  obtain ⟨o, ho, ht⟩ := hw
  refine wp_touch plain_trading ho fun now => .put ?_
  have htime : Apart (.asked .time now) := ⟨⟨rfl, rfl⟩, rfl⟩
  exact (ht.apart htime).update rfl rfl

namespace UdpSocket

theorem read_trade (hstable : Frames.Stable len) (hctx : ∀ data, .handlePacket s data ∉ ctx)
    (hw : InTrade s len ctx h w) (size : Nat) :
    wp (reading s (TakesFrames len)) (trading s len) ctx (read s size)
      (fun _ => InTrade s len ctx) h w := by
  refine wp_seq (touch_trade hw) fun _ h w hw => ?_
  obtain ⟨o, ho, ht⟩ := hw
  rw [wp_bind, wp_load ho, wp_bind]
  refine wp_ask_idle plain_trading rfl fun a _ _ => ?_
  rcases a with errno | ⟨_ | ⟨b, rest⟩, sender⟩
  · have hfails : Apart (.asked (.recvfrom o.fd size) (.error errno)) := ⟨⟨rfl, rfl⟩, rfl⟩
    dsimp only
    split
    · exact ⟨o, ho, ht.apart hfails⟩
    · exact closeSocket_trade ⟨o, ho, ht.apart hfails⟩
  · exact closeSocket_trade ⟨o, ho, ht.empty o.fd size sender⟩
  dsimp only
  rw [wp_bind]
  refine wp_appendInput plain_trading ho fun malloc => ?_
  have hread := ht.read hctx o.fd size (b :: rest) sender malloc
  rw [wp_bind, wp_load (w.heap_put s _)]
  split
  · refine ⟨⟨_, w.heap_put s _, hread.enterPacket hctx⟩, fun pn h' w' hpn hinv _ => ?_⟩
    obtain ⟨o', ho', ht'⟩ := hinv
    show wp _ _ _ (if pn > 0 then _ else _) _ _ _
    split
    · rename_i hpos
      rw [wp_store ho']
      obtain ⟨hinput, hcontent, hmax, -⟩ :=
        BlockBuffer.erase_spec ht'.input (Nat.zero_le _) pn.toNat false
      rw [List.take_zero, List.nil_append, Nat.zero_add] at hcontent
      exact .put (ht'.exitPacket hctx hstable hpn rfl hinput hmax hcontent)
    · rename_i hneg
      -- nothing was taken
      have hzero : pn.toNat = 0 := Int.toNat_of_nonpos (by omega)
      have ht'' : InTrade s len ctx (h' ++ [.resumed (.handlePacket s _) pn]) w' :=
        ⟨o', ho', ht'.exitPacket hctx hstable hpn rfl ht'.input rfl (by rw [hzero]; rfl)⟩
      split
      · exact closeSocket_trade ht''
      · exact ht''
  · exact .put hread

theorem sendPacket_trade {returns : Callback → Int → Prop} (hw : InTrade s len ctx h w)
    {data : List UInt8} (hentered : .entered (.sendPacket s data) ∈ h) :
    wp (reading s returns) (trading s len) ctx (sendPacket s data) (fun _ => InTrade s len ctx)
      h w := by
  rw [sendPacket, touch, wp_bind, wp_bind]
  refine wp_ask_idle plain_trading rfl fun now _ _ => ?_
  have htime : Apart (.asked .time now) := ⟨⟨rfl, rfl⟩, rfl⟩
  obtain ⟨o, ho, ht⟩ := hw
  replace ht := ht.apart htime
  rw [wp_store ho, wp_bind, wp_load (w.heap_put s _)]
  replace ht : Trades s len ctx _ { o with lastAccessTime := now } := ht.update rfl rfl
  split
  · exact .put ht
  split
  · exact .put ht
  rename_i hdata
  have hne : data ≠ [] := by
    rintro rfl
    exact hdata Nat.one_pos
  rw [wp_bind]
  refine wp_ask_idle plain_trading rfl fun n _ _ => ?_
  have hposted := ht.post hne (List.mem_append_left _ hentered) o.fd o.peerAddr n
  cases n with
  | none => exact .put hposted
  | some n =>
      dsimp only
      split <;> exact .put hposted

theorem handleTimeout_trade {returns : Callback → Int → Prop} (hw : InTrade s len ctx h w) :
    wp (reading s returns) (trading s len) ctx (handleTimeout s) (fun _ => InTrade s len ctx)
      h w := by
  rw [handleTimeout, wp_bind]
  refine wp_ask_idle plain_trading rfl fun now _ _ => ?_
  have htime : Apart (.asked .time now) := ⟨⟨rfl, rfl⟩, rfl⟩
  replace hw := hw.apart htime
  obtain ⟨o, ho, -⟩ := id hw
  rw [wp_bind, wp_load ho]
  split
  · split
    · exact closeSocket_trade hw
    · exact hw
  · exact hw

end UdpSocket
end

/-- Every method of the socket keeps the boundaries of the datagrams. -/
theorem sound_trading {s : SocketId} {len : List UInt8 → Option Nat}
    (hstable : Frames.Stable len) :
    (trading s len).Sound (reading s (TakesFrames len)) Method.body where
  refl _ _ := trivial
  trans _ _ _ _ _ _ := trivial
  interferes := by
    intro ctx h w w' hw hinv
    obtain ⟨o, ho, ht⟩ := hinv
    exact ⟨⟨o, hw.trans ho, ht⟩, trivial⟩
  methods := by
    intro ctx h w m hm hinv
    obtain ⟨htarget, hreads⟩ := hm
    have hw : InTrade s len ctx (h ++ [.entered m]) w := InTrade.apart hinv ⟨⟨rfl, rfl⟩, rfl⟩
    obtain ⟨o, ho, ht⟩ := id hw
    have htype := ht.type
    have hreturn : ∀ {h w} {v : Value}, InTrade s len ctx h w →
        (trading s len).inv ctx (h ++ [.returned m v]) w ∧ True :=
      fun hw => ⟨hw.apart ⟨⟨rfl, rfl⟩, rfl⟩, trivial⟩
    cases m with
    | tcpListen | tcpConnect | udpListen | udpConnect | handleSockets => cases htarget
    | handleRead t =>
        cases htarget
        refine wp_seq ?_ fun _ _ _ => hreturn
        rw [SocketBase.handleRead, wp_bind, wp_load ho, htype]
        exact UdpSocket.read_trade hstable (hreads rfl) hw maxReadBuffSize
    | handleWrite t =>
        cases htarget
        refine wp_seq ?_ fun _ _ _ => hreturn
        rw [SocketBase.handleWrite, wp_bind, wp_load ho, htype]
        exact wp_bind.mpr ((wp_load ho).mpr hw)
    | handleError t =>
        cases htarget
        refine wp_seq ?_ fun _ _ _ => hreturn
        rw [SocketBase.handleError, wp_bind, wp_load ho, htype]
        exact closeSocket_trade hw
    | handleTimeout t =>
        cases htarget
        refine wp_seq ?_ fun _ _ _ => hreturn
        rw [SocketBase.handleTimeout, wp_bind, wp_load ho, htype]
        exact UdpSocket.handleTimeout_trade hw
    | close t =>
        cases htarget
        refine wp_seq ?_ fun _ _ _ => hreturn
        rw [SocketBase.close, wp_bind, wp_load ho, htype]
        exact closeSocket_trade hw
    | sendPacket t data =>
        cases htarget
        refine wp_seq ?_ fun _ _ _ => hreturn
        rw [SocketBase.sendPacket, wp_bind, wp_load ho, htype]
        exact UdpSocket.sendPacket_trade hw (List.mem_append_right _ (List.mem_singleton_self _))

/-- A `UdpSocket` with nothing in its input. -/
structure Vacant (o : Socket) : Prop where
  type : o.type = .udp
  input : o.input.Inv
  inputMax : o.input.maxblocks = socketConfig.maxBlocks
  content : o.input.content = []

section

variable {s : SocketId} {len : List UInt8 → Option Nat} {w : World} {o : Socket} {c : NetConfig}

theorem trading_initial (hs : w.heap s = some o) (ho : Vacant o) : (trading s len).inv [] [] w := by
  refine ⟨o, hs, ⟨fun _ h₁ x data h₂ heq => ?_, fun h₁ fd data addr n h₂ heq => ?_⟩, ho.type,
    ho.input, ho.inputMax, fun _ hmem => absurd hmem List.not_mem_nil, fun _ => ⟨[], [], ?_⟩⟩
  · cases h₁ <;> cases heq
  · cases h₁ <;> cases heq
  · exact ⟨List.nil_sublist _, fun _ => rfl, rfl, ho.content⟩

variable (hstable : Frames.Stable len) (hs : w.heap s = some o) (ho : Vacant o)
  (hc : Reaches (reading s (TakesFrames len)) Method.body (Config.start w) c)
include hstable hs ho hc

theorem posts_of_reaches : Posts s c.history := by
  refine Spec.history_of_reaches (sound_trading hstable)
    (fun w q => ⟨_, _, Obliging.answers ⟨true, [], 0⟩ w q⟩) (fun _ => id) Posts.of_prefix ?_
    (trading_initial hs ho) hc
  rintro ctx h w ⟨o, -, ht⟩
  exact ht.posts

/-- As long as frames arrive, the handler is given whole ones. -/
theorem handed_of_reaches (hframes : Delimits len c.history) {h₁ h₂ : List NetEvent}
    {x : SocketId} {data : List UInt8}
    (hcalled : c.history = h₁ ++ .called (.handlePacket x data) :: h₂) :
    ∃ done left, Inbox h₁ done left data := by
  obtain ⟨c₁, hc₁, hidle, hhistory⟩ := exists_called_of_reaches hc hcalled
  obtain ⟨o', -, ht⟩ :=
    Spec.inv_of_reaches (sound_trading hstable) (trading_initial hs ho) hc₁ hidle
  have hbegins : c₁.history <+: c.history := by
    rw [hhistory, hcalled]
    exact ⟨h₂, by rw [List.append_assoc, List.singleton_append]⟩
  exact ht.handed (hframes.of_prefix hbegins) h₁ x data [] hhistory

end

/-! ## The network -/

/-- A process with a socket, as the network sees it. -/
def node (s : SocketId) (returns : Callback → Int → Prop) :
    Network.Party NetConfig (List UInt8 × Option SockAddr) (List UInt8) where
  step := Step (reading s returns) Method.body
  sent c := posted c.history
  received c := arrivals c.history

/-- Processes with sockets at these addresses.  `recvfrom` cuts a datagram off where
the buffer ends.  An address which was never assigned may be anybody's. -/
def datagramNetwork {ι : Type} (address : ι → SockAddr) (sockets : ι → SocketId)
    (returns : ι → Callback → Int → Prop) :
    Network.Parties ι NetConfig (List UInt8 × Option SockAddr) (List UInt8) where
  party i := node (sockets i) (returns i)
  carries _ d i b := (∀ addr ∈ d.2, addr = address i) ∧ b = d.1.take maxReadBuffSize

section

variable {ι : Type} {address : ι → SockAddr} {sockets : ι → SocketId}

theorem remembers_datagramNetwork {returns : ι → Callback → Int → Prop} :
    (datagramNetwork address sockets returns).Remembers := by
  constructor
  · intro i c c' hstep d hd
    obtain ⟨es, hes⟩ := hstep.history_prefix
    show d ∈ posted c'.history
    rw [← hes, posted, List.flatMap_append]
    exact List.mem_append_left _ hd
  · intro i c c' hstep d hd
    obtain ⟨es, hes⟩ := hstep.history_prefix
    show d ∈ arrivals c'.history
    rw [← hes, arrivals, List.flatMap_append]
    exact List.mem_append_left _ hd

/-- A packet is never longer than the buffer of `recvfrom`. -/
theorem Packet.length_frame_le {h : Host} {p : Packet} {e : Encoder} (hp : p.EncodedBy h e) :
    e.frame.length ≤ maxReadBuffSize := by
  rw [← (Packet.layout hp).length]
  exact (UInt16.toNat_lt _).le

variable [DecidableEq ι] {hosts : ι → Host} {start : ι → World} {objects : ι → Socket}
  {c : ι → NetConfig}

/-- **Packets arrive whole or not at all.**  On a network which loses, delays,
duplicates and reorders datagrams, between any number of processes whose handlers take
whole packets: what a handler is given are whole packets, with nothing left over, each
of which was sent to its address.  They are given in the order of their arrival and
unpacked once for each arrival at most, and all of them if they could be stored. -/
theorem packets_exchanged (hagree : ∀ i j, (hosts i).Agrees (hosts j))
    (hstart : ∀ i, (start i).heap (sockets i) = some (objects i))
    (hvacant : ∀ i, Vacant (objects i))
    (hc : Network.Reaches
      (datagramNetwork address sockets fun i => TakesFrames (frameLength (hosts i)))
      (fun i => Config.start (start i)) c)
    (hpackets : ∀ i s data, .entered (.sendPacket s data) ∈ (c i).history → data ≠ [] →
      ∃ (p : Packet) (e : Encoder), p.EncodedBy (hosts i) e ∧
        p.message.wire.VoidsFit p.message.value ∧ data = e.frame)
    {i : ι} {h₁ h₂ : List NetEvent} {x : SocketId} {data : List UInt8}
    (hcalled : (c i).history = h₁ ++ .called (.handlePacket x data) :: h₂) :
    ∃ done left, (done ++ left).Sublist (arrivals h₁) ∧
      (Spared h₁ → done ++ left = arrivals h₁) ∧ unpacked h₁ = done.flatten ∧
      Frames.whole (frameLength (hosts i)) data = (left, []) ∧ data = left.flatten ∧
      ∀ f ∈ left, ∃ (j : ι) (p : Packet) (e : Encoder), p.EncodedBy (hosts j) e ∧ f = e.frame ∧
        p.DecodedFrom (hosts i) e ∧
        ∃ addr, (f, addr) ∈ posted (c j).history ∧ ∀ a ∈ addr, a = address i := by
  -- where a datagram comes from
  have harrival : ∀ f ∈ arrivals (c i).history, ∃ (j : ι) (p : Packet) (e : Encoder),
      p.EncodedBy (hosts j) e ∧ p.message.wire.VoidsFit p.message.value ∧ f = e.frame ∧
        ∃ addr, (f, addr) ∈ posted (c j).history ∧ ∀ a ∈ addr, a = address i := by
    intro f hf
    obtain ⟨j, ⟨sent, addr⟩, hposted, haddr, rfl⟩ :=
      hc.delivers remembers_datagramNetwork (fun _ => rfl) hf
    obtain ⟨hne, hentered⟩ :=
      (posts_of_reaches (stable_frameLength _) (hstart j) (hvacant j) (hc.party j)).of_posted
        hposted
    obtain ⟨p, e, hp, hvoids, rfl⟩ := hpackets j _ _ hentered hne
    rw [List.take_of_length_le (Packet.length_frame_le hp)]
    exact ⟨j, p, e, hp, hvoids, rfl, addr, hposted, haddr⟩
  have hframes : Delimits (frameLength (hosts i)) (c i).history := by
    intro f hf
    obtain ⟨j, p, e, hp, -, rfl, -⟩ := harrival f hf
    exact Packet.delimited (hagree j i) hp
  obtain ⟨done, left, hinbox⟩ :=
    handed_of_reaches (stable_frameLength _) (hstart i) (hvacant i) (hc.party i) hframes hcalled
  have hleft : ∀ f ∈ left, f ∈ arrivals (c i).history := by
    intro f hf
    rw [hcalled, arrivals, List.flatMap_append]
    exact List.mem_append_left _ (hinbox.arrived.subset (List.mem_append_right _ hf))
  refine ⟨done, left, hinbox.arrived, hinbox.all, hinbox.unpacked, ?_, hinbox.content,
    fun f hf => ?_⟩
  · rw [hinbox.content]
    exact Frames.whole_flatten (stable_frameLength _) fun f hf => hframes f (hleft f hf)
  · obtain ⟨j, p, e, hp, hvoids, rfl, hposted⟩ := harrival f (hleft f hf)
    exact ⟨j, p, e, hp, rfl, (Packet.layout hp).decodedOn (hagree j i) hvoids, hposted⟩

end

/-- `Connect` has just opened the socket 0. -/
def udpClientWorld : World := (played ⟨true, [], 0⟩ [.enter (.udpConnect 1 2 true)]).world

def udpClientSocket : Socket :=
  { UdpSocket.construct true with fd := 3, peerAddr := some ⟨1, 2⟩, state := .connected }

/-- The client is `true`, the server `false`. -/
def exchangeAddress : Bool → SockAddr
  | true => ⟨5, 6⟩
  | false => ⟨1, 2⟩

def exchangeWorld : Bool → World
  | true => udpClientWorld
  | false => udpWorld

def exchangeSocket : Bool → Socket
  | true => udpClientSocket
  | false => udpSocket

/-- A kernel which takes every datagram, and delivers the frame. -/
def relay (w : World) : (q : Question) → Answer q
  | .recvfrom _ size => .ok (emptyFrame.take size, ⟨5, 6⟩)
  | .sendto _ data _ => some data.length
  | q => (Obliging.mk true [] 0).answer w q

theorem answers_relay (w : World) (q : Question) :
    Kernel.answers w q (relay w q) (Kernel.effect w q (relay w q)) := by
  refine ⟨?_, rfl⟩
  cases q with
  | recvfrom fd size => exact List.length_take_le _ _
  | sendto fd data addr => exact le_rfl
  | _ => exact (Obliging.mk true [] 0).permits_answer w _

/-- The client sends the frame. -/
def clientRun : NetConfig :=
  (Config.start udpClientWorld).play Method.body relay Kernel.effect 100
    [.enter (.sendPacket 0 emptyFrame)]

/-- The server reads it, and calls its handler. -/
def serverRun : NetConfig :=
  (Config.start udpWorld).play Method.body relay Kernel.effect 100 [.enter (.handleRead 0)]

def exchanged : Bool → NetConfig
  | true => clientRun
  | false => serverRun

theorem vacant_exchange (b : Bool) : Vacant (exchangeSocket b) := by
  cases b <;> exact ⟨rfl, BlockBuffer.inv_new, rfl, rfl⟩

theorem reaches_exchanged {returns : Bool → Callback → Int → Prop} :
    Network.Reaches (datagramNetwork exchangeAddress (fun _ => 0) returns)
      (fun b => Config.start (exchangeWorld b)) exchanged := by
  have hclient : Reaches (reading 0 (returns true)) Method.body (Config.start udpClientWorld)
      clientRun := reaches_play answers_relay ⟨⟨rfl, fun heq => by cases heq⟩, trivial⟩
  have hserver : Reaches (reading 0 (returns false)) Method.body (Config.start udpWorld)
      serverRun := reaches_play answers_relay ⟨⟨rfl, fun _ _ => List.not_mem_nil⟩, trivial⟩
  have hremembers : (datagramNetwork exchangeAddress (fun _ => 0) returns).Remembers :=
    remembers_datagramNetwork
  have hsent := Network.Reaches.of_party (i := true) (c := fun b => Config.start (exchangeWorld b))
    hremembers hclient fun f hf => by cases hf
  have hreceived := Network.Reaches.of_party (i := false)
    (c := Function.update (fun b => Config.start (exchangeWorld b)) true clientRun) hremembers
    hserver fun f hf => by
      cases List.mem_singleton.mp hf
      exact ⟨true, Bool.noConfusion, (emptyFrame, some ⟨1, 2⟩), List.mem_singleton_self _,
        fun a ha => (Option.some.inj ha).symm, rfl⟩
  have hend : Function.update (Function.update (fun b => Config.start (exchangeWorld b)) true
      clientRun) false serverRun = exchanged := by
    funext b
    cases b <;> rfl
  exact hend ▸ hsent.trans hreceived

/-- The theorem, for the call in which the server's handler is given the frame. -/
theorem packets_exchanged_one : ∃ before done left,
    serverRun.history = before ++ [.called (.handlePacket 0 emptyFrame)] ∧
      (Spared before → done ++ left = arrivals before) ∧
      Frames.whole (frameLength .x86) emptyFrame = (left, []) ∧
      ∀ f ∈ left, ∃ (j : Bool) (p : Packet) (e : Encoder), p.EncodedBy .x86 e ∧ f = e.frame ∧
        p.DecodedFrom .x86 e ∧
        ∃ addr, (f, addr) ∈ posted (exchanged j).history ∧
          ∀ a ∈ addr, a = exchangeAddress false := by
  obtain ⟨e, he⟩ := emptyPacket.exists_encodedBy Host.agrees_x86 trivial (by decide)
  have hcalled : (exchanged false).history =
      serverRun.history.take 4 ++ .called (.handlePacket 0 emptyFrame) :: [] := rfl
  have hclient : clientRun.history = [.entered (.sendPacket 0 emptyFrame), .asked .time 0,
      .asked (.sendto 3 emptyFrame (some ⟨1, 2⟩)) (some 12),
      .returned (.sendPacket 0 emptyFrame) (.bool true)] := rfl
  have hserver : serverRun.history = [.entered (.handleRead 0), .asked .time 0,
      .asked (.recvfrom 3 maxReadBuffSize) (.ok (emptyFrame, ⟨5, 6⟩)),
      .asked .malloc (some fun _ => 0), .called (.handlePacket 0 emptyFrame)] := rfl
  have hpackets : ∀ b s data, .entered (.sendPacket s data) ∈ (exchanged b).history →
      data ≠ [] → ∃ (p : Packet) (e : Encoder), p.EncodedBy .x86 e ∧
        p.message.wire.VoidsFit p.message.value ∧ data = e.frame := by
    intro b s data hmem _
    cases b with
    | true =>
        rw [exchanged, hclient] at hmem
        obtain ⟨rfl, rfl⟩ : s = 0 ∧ data = emptyFrame := by simpa using hmem
        exact ⟨emptyPacket, e, he, trivial, (frame_emptyPacket he).symm⟩
    | false =>
        rw [exchanged, hserver] at hmem
        simp at hmem
  have hstart : ∀ b, (exchangeWorld b).heap 0 = some (exchangeSocket b) :=
    fun b => by cases b <;> rfl
  obtain ⟨done, left, -, hall, -, hwhole, -, hleft⟩ :=
    packets_exchanged (fun _ _ => Host.agrees_x86) hstart vacant_exchange reaches_exchanged
      hpackets hcalled
  exact ⟨_, done, left, hcalled, hall, hwhole, hleft⟩

end Net
end Deps
