import Deps.Net.Encoding

/-!
# Framing

A stream of packets is cut back into its frames by the length fields, and every
frame reads back, through the fixed-offset accessors and through `deserialize`
alike, to the header and the message it was made from.
-/

namespace Deps
namespace Net

/-! ## Containers inside a packet -/

namespace Wire

/-- Every value of the type is encoded to at least one byte. -/
def occupies : {α : Type} → Wire α → Bool
  | _, .voidmable => false
  | _, .pair a b => occupies a || occupies b
  | _, .record field rest => occupies field || occupies rest
  | _, _ => true

/-- The containers whose elements take no byte have fewer than `2 ^ 32` elements. -/
def VoidsFit : {α : Type} → Wire α → α → Prop
  | _, .pair a b, p => VoidsFit a p.1 ∧ VoidsFit b p.2
  | _, .vector a, c => (occupies a = false → c.length < 2 ^ 32) ∧ ∀ x ∈ c, VoidsFit a x
  | _, .map _ a b, c =>
      ((occupies a || occupies b) = false → c.size < 2 ^ 32) ∧
        ∀ e ∈ c.entries, VoidsFit a e.1 ∧ VoidsFit b e.2
  | _, .set _ a, c =>
      (occupies a = false → c.size < 2 ^ 32) ∧ ∀ x ∈ OrderedSet.elements c, VoidsFit a x
  | _, .record field rest, p => VoidsFit field p.1 ∧ VoidsFit rest p.2
  | _, _, _ => True

theorem length_bytes_pos (h : Host) {α : Type} (w : Wire α) (v : α)
    (hocc : w.occupies = true) : 0 < (w.bytes h v).length := by
  induction w with
  | pair a b iha ihb =>
      rw [bytes, List.length_append]
      rcases (Bool.or_eq_true _ _).mp hocc with ha | hb
      · exact Nat.add_pos_left (iha v.1 ha) _
      · exact Nat.add_pos_right _ (ihb v.2 hb)
  | record field rest ihf ihr =>
      rw [bytes, List.length_append]
      rcases (Bool.or_eq_true _ _).mp hocc with hf | hr
      · exact Nat.add_pos_left (ihf v.1 hf) _
      · exact Nat.add_pos_right _ (ihr v.2 hr)
  | voidmable => cases hocc
  | _ => simp [bytes]

theorem length_le_length_flatMap {α β : Type} {f : α → List β} {l : List α}
    (hpos : ∀ x ∈ l, 0 < (f x).length) : l.length ≤ (l.flatMap f).length := by
  induction l with
  | nil => exact le_rfl
  | cons x rest ih =>
      have hx := hpos x List.mem_cons_self
      have hrest := ih fun y hy => hpos y (List.mem_cons_of_mem _ hy)
      rw [List.flatMap_cons, List.length_append, List.length_cons]
      omega

theorem length_le_of_mem_flatMap {α β : Type} {f : α → List β} {l : List α} {x : α}
    (hx : x ∈ l) : (f x).length ≤ (l.flatMap f).length := by
  obtain ⟨before, after, rfl⟩ := List.append_of_mem hx
  simp
  omega

/-- A count is below `2 ^ 32` when the elements are, or take no byte. -/
theorem count_lt {α : Type} {layout : α → List UInt8} {l : List α} {occ : Bool}
    (hpos : occ = true → ∀ x ∈ l, 0 < (layout x).length)
    (hvoid : occ = false → l.length < 2 ^ 32)
    (hlen : (l.flatMap layout).length < 2 ^ 32) : l.length < 2 ^ 32 := by
  cases occ with
  | false => exact hvoid rfl
  | true => exact (length_le_length_flatMap (hpos rfl)).trans_lt hlen

/-- In an encoding of fewer than `2 ^ 32` bytes every count of elements fits. -/
theorem containersFit_of_length (h : Host) {α : Type} (w : Wire α) (v : α)
    (hvoid : w.VoidsFit v) (hlen : (w.bytes h v).length < 2 ^ 32) : w.ContainersFit v := by
  induction w with
  | pair a b iha ihb =>
      rw [bytes, List.length_append] at hlen
      exact ⟨iha v.1 hvoid.1 (by omega), ihb v.2 hvoid.2 (by omega)⟩
  | record field rest ihf ihr =>
      rw [bytes, List.length_append] at hlen
      exact ⟨ihf v.1 hvoid.1 (by omega), ihr v.2 hvoid.2 (by omega)⟩
  | vector a ih =>
      rw [bytes, List.length_append] at hlen
      have hloop : (v.flatMap (a.bytes h)).length < 2 ^ 32 := by omega
      exact ⟨count_lt (fun hocc x _ => a.length_bytes_pos h x hocc) hvoid.1 hloop,
        fun x hx => ih x (hvoid.2 x hx) ((length_le_of_mem_flatMap hx).trans_lt hloop)⟩
  | map order a b iha ihb =>
      rw [bytes, List.length_append] at hlen
      have hloop : (v.entries.flatMap fun e => a.bytes h e.1 ++ b.bytes h e.2).length < 2 ^ 32 := by
        omega
      refine ⟨count_lt (fun hocc e _ => (a.pair b).length_bytes_pos h e hocc) hvoid.1 hloop,
        fun e he => ?_⟩
      have hentry := (length_le_of_mem_flatMap (f := fun e => a.bytes h e.1 ++ b.bytes h e.2)
        he).trans_lt hloop
      rw [List.length_append] at hentry
      exact ⟨iha e.1 (hvoid.2 e he).1 (by omega), ihb e.2 (hvoid.2 e he).2 (by omega)⟩
  | set order a ih =>
      rw [bytes, List.length_append] at hlen
      have hloop : ((OrderedSet.elements v).flatMap (a.bytes h)).length < 2 ^ 32 := by omega
      have hcount : (OrderedSet.elements v).length = v.size := List.length_map _
      refine ⟨?_, fun x hx =>
        ih x (hvoid.2 x hx) ((length_le_of_mem_flatMap hx).trans_lt hloop)⟩
      rw [← hcount]
      exact count_lt (fun hocc x _ => a.length_bytes_pos h x hocc)
        (fun hno => hcount ▸ hvoid.1 hno) hloop
  | _ => trivial

end Wire

/-! ## One packet -/

/-- What a sender chooses for a packet. -/
structure Packet : Type 1 where
  mainCmd : UInt16
  seq : UInt32
  subCmd : UInt16
  checkCodeFunc : Option (List UInt8 → UInt16)
  message : Message

namespace Packet

/-- Fill in the header fields, then serialize. -/
def encode (h : Host) (p : Packet) : EncoderM Unit := do
  Encoder.editHeader fun header => header.setMainCmd p.mainCmd
  Encoder.setSeq p.seq
  Encoder.serialize h p.subCmd p.message p.checkCodeFunc

theorem encode_eq (h : Host) (p : Packet) (start : Encoder) :
    p.encode h start = Encoder.serialize h p.subCmd p.message p.checkCodeFunc
      { start with packetHeader := (start.packetHeader.setMainCmd p.mainCmd).setSeq p.seq } := by
  rw [encode, Throwing.bind_of_ok (show Encoder.editHeader _ start = (.ok (), _) from rfl),
    Throwing.bind_of_ok (show Encoder.setSeq _ _ = (.ok (), _) from rfl)]

/-- The check code of a packet with the given body. -/
def checkCode (p : Packet) (body : List UInt8) : UInt16 :=
  match p.checkCodeFunc with
  | some checkCodeFunc => checkCodeFunc body
  | none => 0

end Packet

/-- A fresh encoder, or one which was cleared after any use. -/
inductive Encoder.Ready (h : Host) : Encoder → Prop
  | fresh {mallocs : Nat → Malloc} {e : Encoder} (hnew : Encoder.new mallocs = .ok e) :
      Ready h e
  | cleared {e e' : Encoder} (he : Encoder.Reachable h e)
      (hclear : Encoder.clear e = (.ok (), e')) : Ready h e'

/-- The bytes `data()[0 .. size())`. -/
def Encoder.frame (e : Encoder) : List UInt8 := Region.view e.data e.size

/-- `e` is a fresh or cleared encoder after it serialized the packet, within
`MAX_PACKET_SIZE`. -/
def Packet.EncodedBy (h : Host) (p : Packet) (e : Encoder) : Prop :=
  ∃ start, Encoder.Ready h start ∧ p.encode h start = (.ok (), e) ∧ e.size ≤ maxPacketSize

theorem Encoder.Ready.spec {h : Host} {e : Encoder} (he : Encoder.Ready h e) :
    e.Inv ∧ e.pb.content.length = Encoder.headerSize := by
  cases he with
  | fresh hnew =>
      obtain ⟨hinv, -, hcontent⟩ := Encoder.new_ok hnew
      exact ⟨hinv, by rw [hcontent, List.length_replicate]⟩
  | @cleared used _ hreach hclear =>
      have hused := hreach.inv
      obtain ⟨e', heq, hinv, -, hcontent⟩ := Encoder.clear_spec hused
      rw [heq] at hclear
      cases hclear
      have hle := hused.headerSize_le
      refine ⟨hinv, ?_⟩
      rw [hcontent, List.length_take, hused.pb.length_content]
      omega

/-- The layout of a serialized packet: header bytes which tell the length and
carry the fields, then the message. -/
structure Packet.Layout (h : Host) (p : Packet) (e : Encoder) : Prop where
  frame : e.frame = Encoder.headerBytes h e.packetHeader ++ p.message.bytes h
  length : e.packetHeader.getLength.toNat = e.frame.length
  mainCmd : e.packetHeader.getMainCmd = p.mainCmd
  seq : e.packetHeader.getSeq = p.seq
  subCmd : e.packetHeader.getSubCmd = p.subCmd
  checkCode : e.packetHeader.getCheckCode = p.checkCode (p.message.bytes h)
  strings : p.message.wire.StringsFit p.message.value
  short : (p.message.bytes h).length < 2 ^ 16

theorem Packet.layout {h : Host} {p : Packet} {e : Encoder} (hp : p.EncodedBy h e) :
    p.Layout h e := by
  obtain ⟨start, hready, hencode, hsize⟩ := hp
  obtain ⟨hstart, hlen⟩ := hready.spec
  let edited : Encoder :=
    { start with packetHeader := (start.packetHeader.setMainCmd p.mainCmd).setSeq p.seq }
  have hedited : edited.Inv := hstart.update _ hstart.pb hstart.headerSize_le
  have hserialize : Encoder.serialize h p.subCmd p.message p.checkCodeFunc edited = (.ok (), e) :=
    (p.encode_eq h start).symm.trans hencode
  rcases Encoder.serialize_cases h hedited p.subCmd p.message p.checkCodeFunc with
    ⟨hmarshal, e', heq, he', hheader, hcontent⟩ | ⟨err, e', -, heq, -⟩
  swap
  · rw [heq] at hserialize
    cases hserialize
  rw [heq] at hserialize
  cases hserialize
  -- a fresh or cleared buffer holds the header bytes and nothing behind them
  have hbody : (start.pb.content ++ p.message.bytes h).drop Encoder.headerSize =
      p.message.bytes h := List.drop_left' hlen
  have hframe : e.frame = Encoder.headerBytes h e.packetHeader ++ p.message.bytes h :=
    (he'.view_data.trans hcontent).trans (by rw [show edited.pb = start.pb from rfl, hbody])
  have htotal : (start.pb.content ++ p.message.bytes h).length = e.frame.length := by
    rw [hframe, List.length_append, List.length_append, hlen, Encoder.length_headerBytes]
  have hframelen : e.frame.length = e.size := by
    rw [he'.size_eq, ← he'.pb.length_content]
    exact congrArg List.length he'.view_data
  have hshort : e.frame.length < 65536 := by
    rw [hframelen]
    exact Nat.lt_succ_of_le hsize
  refine ⟨hframe, ?_, by rw [hheader]; rfl, by rw [hheader]; rfl, by rw [hheader]; rfl, ?_, ?_, ?_⟩
  · rw [hheader]
    show (UInt16.ofNat (start.pb.content ++ p.message.bytes h).length).toNat = _
    rw [htotal]
    exact UInt16.toNat_ofNat_of_lt' hshort
  · rw [hheader]
    show p.checkCode ((start.pb.content ++ p.message.bytes h).drop Encoder.headerSize) = _
    rw [hbody]
  · exact ((p.message.marshal_appends h).ok hstart.pb hmarshal).1
  · rw [hframe, List.length_append] at hshort
    exact lt_of_le_of_lt (Nat.le_add_left _ _) hshort

/-- A message whose strings fit and which leaves room for the header is encoded. -/
theorem Packet.exists_encodedBy {h : Host} (hab : h.Agrees h) (p : Packet)
    (hs : p.message.wire.StringsFit p.message.value)
    (hroom : Encoder.headerSize + (p.message.bytes h).length ≤ maxPacketSize) :
    ∃ e, p.EncodedBy h e := by
  obtain ⟨start, hnew, halloc⟩ := Encoder.new_zeroMallocs
  obtain ⟨hstart, -, hcontent⟩ := Encoder.new_ok hnew
  have hsize : start.pb.size = Encoder.headerSize := by
    rw [← hstart.pb.length_content, hcontent, List.length_replicate]
  have hmax : Encoder.headerSize + (p.message.bytes h).length ≤ 65536 :=
    hroom.trans (by decide)
  have hmarshal := (p.message.marshal_appends h).room hstart.pb hs halloc (hsize ▸ hmax)
  have hedited := hstart.update ((start.packetHeader.setMainCmd p.mainCmd).setSeq p.seq)
    hstart.pb hstart.headerSize_le
  rcases Encoder.serialize_cases h hedited p.subCmd p.message p.checkCodeFunc with
    ⟨-, e, heq, -⟩ | ⟨err, e, herr, -⟩
  · obtain ⟨-, htotal, -⟩ := Encoder.storedLength h hab hedited heq
    rw [hedited.size_eq] at htotal
    exact ⟨e, start, .fresh hnew, (p.encode_eq h start).trans heq,
      (htotal.trans (by rw [hsize])).trans_le hroom⟩
  · rw [hmarshal.1] at herr
    cases herr

/-! ## Decoding one packet -/

namespace Decoder

open Wire (At Pops Consumed)

variable {α β : Type}

theorem popField_spec {pop : UnpackM β} {bytes : List UInt8} {field : β}
    (hpop : Pops pop bytes field) (set : PacketHeader → β → PacketHeader) {d : Decoding α}
    {tail : List UInt8} (hat : At d.up (bytes ++ tail)) :
    ∃ up, popField pop set d =
        (.ok (), { d with up := up, packetHeader := set d.packetHeader field }) ∧
      At up tail := by
  obtain ⟨up, heq, hup⟩ := hpop d.up tail hat
  refine ⟨up, ?_, hup.tail⟩
  have hon : onUnpack pop d = (.ok field, { d with up := up }) := by
    rw [onUnpack, heq]
  rw [popField, Throwing.bind_of_ok hon]
  rfl

/-- `deserialize` reads back header bytes and the message behind them, whatever
the header object held before. -/
theorem deserialize_spec {a b : Host} (hab : a.Agrees b) (header start : PacketHeader)
    (m : Message) (hs : m.wire.StringsFit m.value) (hc : m.wire.ContainersFit m.value)
    {up : Unpack} (hat : At up (Encoder.headerBytes a header ++ m.bytes a)) :
    ∃ up', deserialize b m.wire ⟨up, start, m.wire.fresh⟩ = (.ok (), ⟨up', header, m.value⟩) := by
  rw [Encoder.headerBytes] at hat
  simp only [List.append_assoc] at hat
  let start₁ := start.setLength header.getLength
  let start₂ := start₁.setMainCmd header.getMainCmd
  let start₃ := start₂.setSeq header.getSeq
  let start₄ := start₃.setSubCmd header.getSubCmd
  obtain ⟨up₁, heq₁, hat₁⟩ := popField_spec (Wire.pops_uint16 hab.uint16 header.getLength)
    PacketHeader.setLength (d := ⟨up, start, m.wire.fresh⟩) hat
  obtain ⟨up₂, heq₂, hat₂⟩ := popField_spec (Wire.pops_uint16 hab.uint16 header.getMainCmd)
    PacketHeader.setMainCmd (d := ⟨up₁, start₁, m.wire.fresh⟩) hat₁
  obtain ⟨up₃, heq₃, hat₃⟩ := popField_spec (Wire.pops_uint32 hab.uint32 header.getSeq)
    PacketHeader.setSeq (d := ⟨up₂, start₂, m.wire.fresh⟩) hat₂
  obtain ⟨up₄, heq₄, hat₄⟩ := popField_spec (Wire.pops_uint16 hab.uint16 header.getSubCmd)
    PacketHeader.setSubCmd (d := ⟨up₃, start₃, m.wire.fresh⟩) hat₃
  obtain ⟨up₅, heq₅, hat₅⟩ := popField_spec (Wire.pops_uint16 hab.uint16 header.getCheckCode)
    PacketHeader.setCheckCode (d := ⟨up₄, start₄, m.wire.fresh⟩) hat₄
  rw [← List.append_nil (m.bytes a)] at hat₅
  obtain ⟨up₆, heq₆, -⟩ := Wire.extract_bytes a b hab m.wire m.value hs hc up₅ [] hat₅
  refine ⟨up₆, ?_⟩
  rw [deserialize, Throwing.bind_of_ok heq₁, Throwing.bind_of_ok heq₂, Throwing.bind_of_ok heq₃,
    Throwing.bind_of_ok heq₄, Throwing.bind_of_ok heq₅, unmarshal]
  simp only [heq₆]
  rfl

end Decoder

/-! ## A stream of packets -/

/-- Cut off `pickLen` bytes as long as there is a length field at the front. -/
def takeFrames (h : Host) : Nat → List UInt8 → List (List UInt8)
  | 0, _ => []
  | fuel + 1, stream =>
      match Decoder.pickLen h stream with
      | none => []
      | some len => stream.take len.toNat :: takeFrames h fuel (stream.drop len.toNat)

/-- The frames of a stream; there are not more of them than bytes. -/
def frames (h : Host) (stream : List UInt8) : List (List UInt8) :=
  takeFrames h stream.length stream

theorem takeFrames_flatten {a b : Host} (hab : a.Agrees b) (l : List (List UInt8))
    (hl : ∀ frame ∈ l, ∃ header body, frame = Encoder.headerBytes a header ++ body ∧
      header.getLength.toNat = frame.length) {fuel : Nat} (hfuel : l.flatten.length ≤ fuel) :
    takeFrames b fuel l.flatten = l := by
  induction l generalizing fuel with
  | nil =>
      cases fuel with
      | zero => rfl
      | succ fuel => rfl
  | cons frame rest ih =>
      obtain ⟨header, body, hframe, hlength⟩ := hl frame List.mem_cons_self
      have hpos : 0 < frame.length := by
        rw [hframe, List.length_append, Encoder.length_headerBytes]
        exact Nat.add_pos_left (by decide) _
      rw [List.flatten_cons, List.length_append] at hfuel
      -- each frame takes a header of bytes off the stream, so the fuel lasts
      obtain ⟨fuel, rfl⟩ := Nat.exists_eq_succ_of_ne_zero (show fuel ≠ 0 by omega)
      have hpick : Decoder.pickLen b (frame ++ rest.flatten) = some header.getLength := by
        rw [hframe, List.append_assoc]
        exact (Decoder.pick_headerBytes hab header _).1
      have hrest := ih (fun f hf => hl f (List.mem_cons_of_mem _ hf))
        (show rest.flatten.length ≤ fuel by omega)
      rw [List.flatten_cons, takeFrames, hpick]
      simp only [hlength, List.take_left, List.drop_left, hrest]

/-- What a receiver reads from the frame of `p`, on the accessors and with
`deserialize` into a fresh message. -/
structure Packet.DecodedFrom (h : Host) (p : Packet) (e : Encoder) : Prop where
  pickLen : Decoder.pickLen h e.frame = some e.packetHeader.getLength
  pickCmd : Decoder.pickCmd h e.frame = some e.packetHeader.getMainCmd
  pickSeq : Decoder.pickSeq h e.frame = some e.packetHeader.getSeq
  pickSubCmd : Decoder.pickSubCmd h e.frame = some e.packetHeader.getSubCmd
  pickCheckCode : Decoder.pickCheckCode h e.frame = some e.packetHeader.getCheckCode
  length : e.packetHeader.getLength.toNat = e.frame.length
  mainCmd : e.packetHeader.getMainCmd = p.mainCmd
  seq : e.packetHeader.getSeq = p.seq
  subCmd : e.packetHeader.getSubCmd = p.subCmd
  checkCode : e.packetHeader.getCheckCode = p.checkCode (e.frame.drop Encoder.headerSize)
  deserialize : ∀ header, ∃ up, Decoder.deserialize h p.message.wire
    ⟨Decoder.new e.frame e.packetHeader.getLength, header, p.message.wire.fresh⟩ =
      (.ok (), ⟨up, e.packetHeader, p.message.value⟩)

/-- The frame is read on a host which agrees with the one that wrote it. -/
theorem Packet.Layout.decodedOn {a b : Host} (hab : a.Agrees b) {p : Packet} {e : Encoder}
    (hp : p.Layout a e) (hvoid : p.message.wire.VoidsFit p.message.value) :
    p.DecodedFrom b e := by
  obtain ⟨hlen, hcmd, hseq, hsub, hcode⟩ :=
    Decoder.pick_headerBytes hab e.packetHeader (p.message.bytes a)
  rw [← hp.frame] at hlen hcmd hseq hsub hcode
  refine ⟨hlen, hcmd, hseq, hsub, hcode, hp.length, hp.mainCmd, hp.seq, hp.subCmd, ?_, ?_⟩
  · rw [hp.checkCode, hp.frame, List.drop_left' (Encoder.length_headerBytes a e.packetHeader)]
  · intro header
    have hc : p.message.wire.ContainersFit p.message.value :=
      Wire.containersFit_of_length a p.message.wire p.message.value hvoid
        (hp.short.trans (by decide))
    refine Decoder.deserialize_spec hab e.packetHeader header p.message hp.strings hc ?_
    refine ⟨Nat.zero_le _, hp.frame, ?_⟩
    rw [← hp.frame, ← hp.length]
    exact le_rfl

theorem Packet.Layout.decodedFrom {h : Host} (hab : h.Agrees h) {p : Packet} {e : Encoder}
    (hp : p.Layout h e) (hvoid : p.message.wire.VoidsFit p.message.value) :
    p.DecodedFrom h e :=
  hp.decodedOn hab hvoid

/-- **Framing and packet round trip.**  Packets which were each serialized by a
fresh or cleared encoder are cut back into their frames, and each frame reads
back to its header, check code and message. -/
theorem packets_roundTrip (sent : List (Packet × Encoder))
    (hsent : ∀ s ∈ sent, s.1.EncodedBy .x86 s.2)
    (hvoids : ∀ s ∈ sent, s.1.message.wire.VoidsFit s.1.message.value) :
    frames .x86 (sent.map fun s => s.2.frame).flatten = sent.map (fun s => s.2.frame) ∧
      ∀ s ∈ sent, s.1.DecodedFrom .x86 s.2 := by
  constructor
  · refine takeFrames_flatten Host.agrees_x86 _ (fun frame hframe => ?_) le_rfl
    obtain ⟨s, hs, rfl⟩ := List.mem_map.mp hframe
    have hlayout := Packet.layout (hsent s hs)
    exact ⟨_, _, hlayout.frame, hlayout.length⟩
  · exact fun s hs => (Packet.layout (hsent s hs)).decodedFrom Host.agrees_x86 (hvoids s hs)

/-- An empty packet and one with a string and a check code. -/
theorem packets_roundTrip_two :
    let empty : Packet := ⟨1, 7, 2, none, ⟨.voidmable, ()⟩⟩
    let hello : Packet :=
      ⟨1, 8, 3, some fun body => UInt16.ofNat body.length, ⟨.string, [104, 105]⟩⟩
    ∃ e e', let sent := [(empty, e), (hello, e')]
      frames .x86 (sent.map fun s => s.2.frame).flatten = sent.map (fun s => s.2.frame) ∧
        ∀ s ∈ sent, s.1.DecodedFrom .x86 s.2 := by
  intro empty hello
  obtain ⟨e, he⟩ := empty.exists_encodedBy Host.agrees_x86 trivial (by decide)
  obtain ⟨e', he'⟩ := hello.exists_encodedBy Host.agrees_x86
    (show 2 ≤ 0xFFFF by decide) (by decide)
  refine ⟨e, e', packets_roundTrip _ ?_ ?_⟩
  · simpa using ⟨he, he'⟩
  · simp [empty, hello, Wire.VoidsFit]

/-- A packet with a vector of `n` records without fields. -/
def voidsPacket (n : Nat) : Packet :=
  ⟨1, 0, 0, none, ⟨.vector .voidmable, List.replicate n ()⟩⟩

/-- Only the count of the records travels, truncated to 32 bits. -/
theorem voidsPacket_bytes (h : Host) (n : Nat) :
    (voidsPacket n).message.bytes h = h.store 4 (h.xhtonl (UInt32.ofNat n)).toNat := by
  have hnil : (List.replicate n ()).flatMap (Wire.bytes h .voidmable) = [] :=
    List.flatMap_eq_nil_iff.mpr fun _ _ => rfl
  have hcount : (List.replicate n ()).length = n := List.length_replicate
  show h.store 4 (h.xhtonl (UInt32.ofNat (List.replicate n ()).length)).toNat ++
    (List.replicate n ()).flatMap (Wire.bytes h .voidmable) = _
  rw [hnil, hcount, List.append_nil]

/-- Without a bound on containers of empty records the round trip fails: a vector of
`2 ^ 32` of them has the frame of the empty vector. -/
theorem voids_lost :
    ¬ ∀ sent : List (Packet × Encoder), (∀ s ∈ sent, s.1.EncodedBy .x86 s.2) →
      frames .x86 (sent.map fun s => s.2.frame).flatten = sent.map (fun s => s.2.frame) ∧
        ∀ s ∈ sent, s.1.DecodedFrom .x86 s.2 := by
  intro hall
  have hbytes := voidsPacket_bytes .x86 (2 ^ 32)
  have hstrings : (voidsPacket (2 ^ 32)).message.wire.StringsFit
      (voidsPacket (2 ^ 32)).message.value := ⟨trivial, fun _ _ => trivial⟩
  obtain ⟨e, he⟩ := (voidsPacket (2 ^ 32)).exists_encodedBy Host.agrees_x86 hstrings
    (by rw [hbytes, Host.length_store]; decide)
  have hsent : ∀ s ∈ [(voidsPacket (2 ^ 32), e)], s.1.EncodedBy .x86 s.2 := by
    simpa using he
  have hdecoded := (hall _ hsent).2 _ (List.mem_singleton_self _)
  obtain ⟨up, hvoids⟩ := hdecoded.deserialize PacketHeader.cleared
  -- the frame is also the one of the empty vector
  have hframe : e.frame = Encoder.headerBytes .x86 e.packetHeader ++
      (voidsPacket 0).message.bytes .x86 := by
    rw [(Packet.layout he).frame, hbytes, voidsPacket_bytes]
    rfl
  have hat : Wire.At (Decoder.new e.frame e.packetHeader.getLength)
      (Encoder.headerBytes .x86 e.packetHeader ++ (voidsPacket 0).message.bytes .x86) :=
    ⟨Nat.zero_le _, hframe, by rw [← hframe]; exact hdecoded.length.ge⟩
  obtain ⟨up', hempty⟩ := Decoder.deserialize_spec Host.agrees_x86 e.packetHeader
    PacketHeader.cleared (voidsPacket 0).message ⟨trivial, fun _ _ => trivial⟩
    ⟨by decide, fun _ _ => trivial⟩ hat
  have heq := hvoids.symm.trans hempty
  have hvalue : List.replicate (2 ^ 32) () = [] := by
    injection heq with _ heq
    injection heq
  exact absurd (congrArg List.length hvalue) (by rw [List.length_replicate]; decide)

end Net
end Deps
