import Deps.Lib.Frames
import Deps.Lib.Link
import Deps.Net.Delivery
import Deps.Net.Framing

/-!
# A connection from end to end

Two processes, each with an established `TcpSocket`, and the bytes which are under
way between them: what `send` takes at one end is what `recv` delivers at the other,
until the connection is lost.  Each process calls any methods of its socket at any
time; the steps of the two interleave.
-/

namespace Deps
namespace Net

open Reentrant

/-- A process with an established socket, as the other end of the connection sees it. -/
def endpoint (s : SocketId) (returns : Callback → Int → Prop) : Link.Party NetConfig UInt8 where
  step := Step (solo s returns) Method.body
  sent c := taken c.history
  received c := received c.history

/-- The connection is there, and no method of the two sockets has been called. -/
def connection (w v : World) : Link.Config NetConfig NetConfig UInt8 :=
  .start (Config.start w) (Config.start v)

/-- The payloads offered to a socket which had `out` to send already. -/
def stream (out : List UInt8) (h : List NetEvent) : List UInt8 := out ++ (offered h).flatten

/-- As long as the input could hold everything, every call of the handler was given
what the input held at first and then the beginning of `sent`. -/
def Handed (inp sent : List UInt8) (h : List NetEvent) : Prop :=
  ∀ h₁ x data h₂, h = h₁ ++ .called (.handlePacket x data) :: h₂ → Clean inp h₁ →
    ∃ arrived, data = inp ++ arrived ∧ arrived <+: sent

/-! ## The bytes -/

section

variable {s t : SocketId} {w v : World} {o p : Socket} {returns returns' : Callback → Int → Prop}

/-- The handler is given everything which has been received by then. -/
theorem handed_received (ht : v.heap t = some p) (hp : Established p) {c : NetConfig}
    (hc : Reaches (solo t returns) Method.body (Config.start v) c) {h₁ h₂ : List NetEvent}
    {x : SocketId} {data : List UInt8}
    (hcalled : c.history = h₁ ++ .called (.handlePacket x data) :: h₂)
    (hclean : Clean p.input.content h₁) : data = p.input.content ++ received h₁ := by
  obtain ⟨c₁, hc₁, hidle, hhistory⟩ := exists_called_of_reaches hc hcalled
  obtain ⟨p', -, -, hreceives, -⟩ :=
    Spec.inv_of_reaches sound_flowing (flowing_initial ht hp) hc₁ hidle
  rw [hhistory] at hreceives
  refine hreceives.presented ?_ h₁ x data [] rfl
  -- the call itself neither allocates nor receives
  obtain ⟨hmalloc, hfits⟩ := hclean
  refine ⟨?_, ?_⟩
  · rw [List.any_append, hmalloc]
    rfl
  · rwa [received_concat_nil _ rfl]

variable {c : Link.Config NetConfig NetConfig UInt8}

/-- What one end receives has been offered to the socket at the other. -/
theorem received_begins_stream (hs : w.heap s = some o) (ho : Established o)
    (hc : Link.Reaches (endpoint s returns) (endpoint t returns') (connection w v) c) :
    received c.far.history <+: stream o.output.content c.near.history := by
  have harrived : received c.far.history <+: taken c.near.history :=
    hc.received_begins rfl rfl
  exact harrived.trans (taken_begins hs ho hc.near)

theorem handed_stream (hs : w.heap s = some o) (ho : Established o) (ht : v.heap t = some p)
    (hp : Established p)
    (hc : Link.Reaches (endpoint s returns) (endpoint t returns') (connection w v) c) :
    Handed p.input.content (stream o.output.content c.near.history) c.far.history := by
  intro h₁ x data h₂ hcalled hclean
  refine ⟨received h₁, handed_received ht hp hc.far hcalled hclean, ?_⟩
  have hbefore : received h₁ <+: received c.far.history := by
    rw [hcalled]
    simp [received]
  exact hbefore.trans (received_begins_stream hs ho hc)

theorem endpoint_grows : (endpoint s returns).Grows := by
  constructor
  · intro c c' hstep
    obtain ⟨es, hes⟩ := hstep.history_prefix
    show taken c.history <+: taken c'.history
    rw [← hes]
    simp [taken]
  · intro c c' hstep
    obtain ⟨es, hes⟩ := hstep.history_prefix
    show received c.history <+: received c'.history
    rw [← hes]
    simp [received]

/-- **Bytes arrive as they were sent.**  However the two processes take turns: what the
handler at one end is given is what its input held at first and then a beginning of what
the output at the other end held at first and of the payloads which `SendPacket` did not
refuse there, in the order of the calls; and while the connection is there, what has been
received, what is under way and what the output holds are all of these bytes. -/
theorem connection_conserves (hs : w.heap s = some o) (ho : Established o)
    (ht : v.heap t = some p) (hp : Established p)
    (hc : Link.Reaches (endpoint s returns) (endpoint t returns') (connection w v) c) :
    Handed p.input.content (stream o.output.content c.near.history) c.far.history ∧
      Handed o.input.content (stream p.output.content c.far.history) c.near.history ∧
      (c.lost = false → c.near.running = none → ∃ o', c.near.world.heap s = some o' ∧
        received c.far.history ++ c.outbound ++ o'.output.content =
          stream o.output.content c.near.history) := by
  refine ⟨handed_stream hs ho ht hp hc, handed_stream ht hp hs ho hc.turned, ?_⟩
  intro hthere hidle
  obtain ⟨o', ho', -, hsends⟩ :=
    Spec.inv_of_reaches sound_delivering (delivering_initial hs ho) hc.near hidle
  refine ⟨o', ho', ?_⟩
  have hall : received c.far.history ++ c.outbound = taken c.near.history :=
    (hc.inOrder rfl rfl).whole hthere
  rw [hall, stream, ← hsends, List.append_nil]

end

/-! ## One packet on its way -/

/-- The frame of a packet without a message. -/
def emptyFrame : List UInt8 := [12, 0, 1, 0, 7, 0, 0, 0, 2, 0, 0, 0]

/-- The kernel takes all of the frame. -/
def sender : NetConfig :=
  (Config.start connectedWorld).play Method.body (Obliging.answer ⟨true, [], 12⟩) Kernel.effect 100
    [.enter (.sendPacket 0 emptyFrame)]

/-- The frame is received, and the handler is called. -/
def receiver : NetConfig :=
  (Config.start connectedWorld).play Method.body (Obliging.answer ⟨true, emptyFrame, 0⟩)
    Kernel.effect 100 [.enter (.handleRead 0)]

/-- First the frame is sent, and then it is received. -/
theorem reaches_received :
    Link.Reaches (endpoint 0 fun _ _ => True) (endpoint 0 fun _ _ => True)
      (connection connectedWorld connectedWorld) ⟨sender, receiver, [], [], false⟩ := by
  have hsender :
      Reaches (solo 0 fun _ _ => True) Method.body (Config.start connectedWorld) sender :=
    reaches_play (Obliging.answers _) ⟨rfl, trivial⟩
  have hreceiver :
      Reaches (solo 0 fun _ _ => True) Method.body (Config.start connectedWorld) receiver :=
    reaches_play (Obliging.answers _) ⟨rfl, trivial⟩
  have hout : Link.Reaches (endpoint 0 fun _ _ => True) (endpoint 0 fun _ _ => True)
      (connection connectedWorld connectedWorld)
      ⟨sender, Config.start connectedWorld, [] ++ emptyFrame, [], false⟩ :=
    .of_near endpoint_grows hsender rfl rfl
  -- the receiver is the near party of the link which is turned round
  have hback : Link.Reaches (endpoint 0 fun _ _ => True) (endpoint 0 fun _ _ => True)
      ⟨Config.start connectedWorld, sender, [], emptyFrame ++ [], false⟩
      ⟨receiver, sender, [] ++ [], [], false⟩ :=
    .of_near endpoint_grows hreceiver rfl rfl
  exact hout.trans hback.turned

/-- The theorem, for this run. -/
theorem connection_conserves_received :
    Handed [] (stream [] sender.history) receiver.history ∧
      Handed [] (stream [] receiver.history) sender.history ∧
      (false = false → sender.running = none → ∃ o', sender.world.heap 0 = some o' ∧
        received receiver.history ++ [] ++ o'.output.content = stream [] sender.history) :=
  connection_conserves (by rfl) established_connected (by rfl) established_connected
    reaches_received

/-! ## The packets -/

/-- The length field at the front of the data, when it is there. -/
def frameLength (h : Host) (data : List UInt8) : Option Nat :=
  (Decoder.pickLen h data).map UInt16.toNat

theorem stable_frameLength (h : Host) : Frames.Stable (frameLength h) := by
  intro data n hn more
  have hthere : 0 + 2 ≤ data.length := by
    by_contra hshort
    rw [frameLength, Decoder.pickLen, Decoder.pick16, if_neg hshort] at hn
    cases hn
  have hmore : 0 + 2 ≤ (data ++ more).length := by
    rw [List.length_append]
    omega
  rw [frameLength, Decoder.pickLen, Decoder.pick16, if_pos hthere] at hn
  rw [frameLength, Decoder.pickLen, Decoder.pick16, if_pos hmore, List.drop_zero,
    List.take_append_of_le_length (by omega)]
  exact hn

theorem Packet.delimited {a b : Host} (hab : a.Agrees b) {p : Packet} {e : Encoder}
    (hp : p.EncodedBy a e) : Frames.Delimited (frameLength b) e.frame := by
  have hlayout := Packet.layout hp
  have hlength := hlayout.length
  constructor
  · rw [hlayout.frame, List.length_append, Encoder.length_headerBytes]
    exact Nat.add_pos_left (by decide) _
  · intro rest
    have hpick := (Decoder.pick_headerBytes hab e.packetHeader (p.message.bytes a ++ rest)).1
    rw [← List.append_assoc, ← hlayout.frame] at hpick
    rw [frameLength, hpick, Option.map_some, hlength]

/-- **Packets arrive as they were sent.**  When the output and the input at the other end
are empty at first and every payload is the frame of an encoded packet, the whole frames
in what the handler at the other end is given are those of the first packets, in order,
and each of them is decoded to the packet it was made from; what is left over is the
beginning of the next frame. -/
theorem packets_arrive {a b : Host} (hab : a.Agrees b) {s t : SocketId} {w v : World}
    {o p : Socket} (hs : w.heap s = some o) (ho : Established o) (hout : o.output.content = [])
    (ht : v.heap t = some p) (hp : Established p) (hinp : p.input.content = [])
    {returns returns' : Callback → Int → Prop} {c : Link.Config NetConfig NetConfig UInt8}
    (hc : Link.Reaches (endpoint s returns) (endpoint t returns') (connection w v) c)
    {sent : List (Packet × Encoder)} (hsent : ∀ q ∈ sent, q.1.EncodedBy a q.2)
    (hvoids : ∀ q ∈ sent, q.1.message.wire.VoidsFit q.1.message.value)
    (hoffered : offered c.near.history = sent.map fun q => q.2.frame)
    {h₁ h₂ : List NetEvent} {x : SocketId} {data : List UInt8}
    (hcalled : c.far.history = h₁ ++ .called (.handlePacket x data) :: h₂) (hclean : Clean [] h₁) :
    ∃ arrived later rest, sent = arrived ++ later ∧
      Frames.whole (frameLength b) data = (arrived.map fun q => q.2.frame, rest) ∧
      (∀ q ∈ arrived, q.1.DecodedFrom b q.2) ∧
      rest <+: (later.map fun q => q.2.frame).flatten ∧
      ∀ q ∈ later.head?, rest.length < q.2.frame.length := by
  obtain ⟨arrived, rfl, harrived⟩ :=
    handed_stream hs ho ht hp hc h₁ x data h₂ hcalled (hinp ▸ hclean)
  rw [stream, hout, hoffered, List.nil_append] at harrived
  rw [hinp, List.nil_append]
  have hframes : ∀ f ∈ sent.map (fun q => q.2.frame), Frames.Delimited (frameLength b) f := by
    intro f hf
    obtain ⟨q, hq, rfl⟩ := List.mem_map.mp hf
    exact Packet.delimited hab (hsent q hq)
  obtain ⟨done, ahead, rest, hsplit, -, hwhole, hrest, hnext⟩ :=
    Frames.whole_of_prefix (stable_frameLength b) hframes harrived
  obtain ⟨first, later, rfl, rfl, rfl⟩ := List.map_eq_append_iff.mp hsplit
  refine ⟨first, later, rest, rfl, hwhole, fun q hq => ?_, hrest, fun q hq => ?_⟩
  · have hmem : q ∈ first ++ later := List.mem_append_left _ hq
    exact (Packet.layout (hsent q hmem)).decodedOn hab (hvoids q hmem)
  · refine hnext _ ?_
    rw [List.head?_map]
    exact Option.mem_map_of_mem _ hq

def emptyPacket : Packet := ⟨1, 7, 2, none, ⟨.voidmable, ()⟩⟩

theorem frame_emptyPacket {e : Encoder} (he : emptyPacket.EncodedBy .x86 e) :
    e.frame = emptyFrame := by
  have hlayout := Packet.layout he
  have hbody : emptyPacket.message.bytes .x86 = [] := rfl
  have hframe := hlayout.frame
  rw [hbody, List.append_nil] at hframe
  have hlength : e.packetHeader.getLength = 12 := by
    have hlen := hlayout.length
    rw [hframe, Encoder.length_headerBytes] at hlen
    exact UInt16.toNat_inj.mp hlen
  rw [hframe, Encoder.headerBytes, hlength, hlayout.mainCmd, hlayout.seq, hlayout.subCmd,
    hlayout.checkCode]
  decide

/-- The theorem, for the run in which one packet arrives. -/
theorem packets_arrive_received :
    ∃ e data, emptyPacket.EncodedBy .x86 e ∧ ∃ arrived later rest,
      [(emptyPacket, e)] = arrived ++ later ∧
      Frames.whole (frameLength .x86) data = (arrived.map fun q => q.2.frame, rest) ∧
      (∀ q ∈ arrived, q.1.DecodedFrom .x86 q.2) ∧
      rest <+: (later.map fun q => q.2.frame).flatten ∧
      ∀ q ∈ later.head?, rest.length < q.2.frame.length := by
  obtain ⟨e, he⟩ := emptyPacket.exists_encodedBy Host.agrees_x86 trivial (by decide)
  have hcalled : receiver.history =
      receiver.history.take 4 ++ .called (.handlePacket 0 emptyFrame) :: [] := rfl
  refine ⟨e, emptyFrame, he, packets_arrive Host.agrees_x86 (show connectedWorld.heap 0 = some
    connectedSocket by rfl) established_connected (by rfl) (show connectedWorld.heap 0 = some
    connectedSocket by rfl) established_connected (by rfl) reaches_received ?_ ?_ ?_ hcalled ?_⟩
  · exact List.forall_mem_singleton.mpr he
  · exact List.forall_mem_singleton.mpr trivial
  · rw [List.map_singleton, frame_emptyPacket he]
    rfl
  · exact ⟨rfl, by decide⟩

end Net
end Deps
