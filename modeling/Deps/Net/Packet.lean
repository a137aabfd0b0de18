import Deps.Net.Wire

/-!
# Packets

`net/packet.h`: the packet header, the `Encoder` which marshals one message
behind twelve reserved bytes and then fills them in, and the two ways of reading
a packet, the fixed-offset accessors `pickLen` to `pickCheckCode` and the
sequential `Decoder`.
-/

namespace Deps
namespace Net

def maxPacketSize : Nat := 65535
def mainProtoHeaderSize : Nat := 8
def subProtoHeaderSize : Nat := 4

inductive MainProtoType where
  | unknown
  | paxos

def MainProtoType.toUInt16 : MainProtoType → UInt16
  | unknown => 0
  | paxos => 1

structure ProtoHeader where
  length : UInt16
  cmd : UInt16
  seq : UInt32
  deriving DecidableEq, Repr

structure SubProtoHeader where
  cmd : UInt16
  checkCode : UInt16
  deriving DecidableEq, Repr

structure PacketHeader where
  mainProtoHeader : ProtoHeader
  subProtoHeader : SubProtoHeader
  deriving DecidableEq, Repr

namespace PacketHeader

/-- What `clear`, and the constructor which calls it, make of a header. -/
def cleared : PacketHeader where
  mainProtoHeader := {
    length := UInt16.ofNat (mainProtoHeaderSize + subProtoHeaderSize)
    cmd := MainProtoType.paxos.toUInt16
    seq := 0 }
  subProtoHeader := { cmd := 0, checkCode := 0 }

variable (header : PacketHeader)

def getMainCmd : UInt16 := header.mainProtoHeader.cmd

def setMainCmd (cmd : UInt16) : PacketHeader :=
  { header with mainProtoHeader := { header.mainProtoHeader with cmd := cmd } }

def getSeq : UInt32 := header.mainProtoHeader.seq

def setSeq (seq : UInt32) : PacketHeader :=
  { header with mainProtoHeader := { header.mainProtoHeader with seq := seq } }

def getLength : UInt16 := header.mainProtoHeader.length

def setLength (len : UInt16) : PacketHeader :=
  { header with mainProtoHeader := { header.mainProtoHeader with length := len } }

def getSubCmd : UInt16 := header.subProtoHeader.cmd

def setSubCmd (cmd : UInt16) : PacketHeader :=
  { header with subProtoHeader := { header.subProtoHeader with cmd := cmd } }

def getCheckCode : UInt16 := header.subProtoHeader.checkCode

def setCheckCode (checkcode : UInt16) : PacketHeader :=
  { header with subProtoHeader := { header.subProtoHeader with checkCode := checkcode } }

end PacketHeader

/-- A `Marshallable` object: its schema and its value. -/
structure Message : Type 1 where
  {α : Type}
  wire : Wire α
  value : α

def Message.marshal (h : Host) (m : Message) : PackM Unit := m.wire.push h m.value

/-! ## `Encoder` -/

structure Encoder where
  packetHeader : PacketHeader
  pb : PackBuffer
  headPack : Pack
  bodyPack : Pack

/-- A method of `Encoder`. -/
abbrev EncoderM := Throwing PackError Encoder

namespace Encoder

/-- The sum of the two header sizes, as the class spells it in every method. -/
def headerSize : Nat := mainProtoHeaderSize + subProtoHeaderSize

/-- The constructor. -/
def new (mallocs : Nat → Malloc) : Except PackError Encoder :=
  let packs : PackM (Pack × Pack) := do
    let headPack ← Pack.new 0
    let bodyPack ← Pack.new headerSize
    pure (headPack, bodyPack)
  match packs (PackBuffer.new mallocs) with
  | (.ok (headPack, bodyPack), pb) => .ok ⟨PacketHeader.cleared, pb, headPack, bodyPack⟩
  | (.error e, _) => .error e

/-- Call the packet buffer. -/
def onBuffer {α : Type} (x : PackM α) : EncoderM α := fun e =>
  match x e.pb with
  | (r, pb) => (r, { e with pb := pb })

/-- `getHeader()` returns a reference, through which any field can be changed. -/
def editHeader (edit : PacketHeader → PacketHeader) : EncoderM Unit := fun e =>
  (.ok (), { e with packetHeader := edit e.packetHeader })

/-- The copy constructor. -/
def copy (mallocs : Nat → Malloc) (s : Encoder) : Except PackError Encoder :=
  let copyBytes : EncoderM Unit := do
    editHeader fun _ => s.packetHeader
    let _ ← onBuffer (Pack.replace 0 ((s.headPack.data s.pb).take headerSize))
    onBuffer (Pack.push (s.bodyPack.data s.pb))
  match new mallocs with
  | .error e => .error e
  | .ok encoder =>
      match copyBytes encoder with
      | (.ok (), encoder) => .ok encoder
      | (.error e, _) => .error e

/-- The storage behind the pointer `data()`. -/
def data (e : Encoder) : List UInt8 := e.pb.bb.storage

def body (e : Encoder) : List UInt8 := e.bodyPack.data e.pb

def bodySize (e : Encoder) : Nat := e.bodyPack.size e.pb

def size (e : Encoder) : Nat := (headerSize + e.bodySize) % sizeModulus

def clear : EncoderM Unit := do
  onBuffer (PackBuffer.resize (0 + headerSize))
  editHeader fun _ => PacketHeader.cleared

def setSeq (seq : UInt32) : EncoderM Unit := editHeader fun header => header.setSeq seq

/-- Store the header fields at their offsets. -/
def replaceHeader (h : Host) (header : PacketHeader) : PackM Unit := do
  let _ ← Pack.replaceUint16 h 0 header.getLength
  let _ ← Pack.replaceUint16 h 2 header.getMainCmd
  let _ ← Pack.replaceUint32 h 4 header.getSeq
  let _ ← Pack.replaceUint16 h 8 header.getSubCmd
  let _ ← Pack.replaceUint16 h 10 header.getCheckCode
  pure ()

/-- The check code function gets the body, and is taken not to change it. -/
def serialize (h : Host) (subCmd : UInt16) (m : Message)
    (checkCodeFunc : Option (List UInt8 → UInt16)) : EncoderM Unit := do
  onBuffer (m.marshal h)
  let e ← get
  let checkcode :=
    match checkCodeFunc with
    | some checkCodeFunc => checkCodeFunc e.body
    | none => 0
  editHeader fun header => header.setLength (UInt16.ofNat e.size)
  editHeader fun header => header.setSubCmd subCmd
  editHeader fun header => header.setCheckCode checkcode
  let e ← get
  onBuffer (replaceHeader h e.packetHeader)

end Encoder

/-! ## `Decoder` -/

namespace Decoder

def minSize : Nat := mainProtoHeaderSize + subProtoHeaderSize

def maxSize : Nat := maxPacketSize

/-- The two bytes at `offset`; there is no value when they are not all there. -/
def pick16 (h : Host) (offset : Nat) (data : List UInt8) : Option UInt16 :=
  if offset + 2 ≤ data.length then
    some (h.xhtons (UInt16.ofNat (h.load ((data.drop offset).take 2))))
  else none

def pickLen (h : Host) (data : List UInt8) : Option UInt16 := pick16 h 0 data

def pickCmd (h : Host) (data : List UInt8) : Option UInt16 := pick16 h 2 data

def pickSeq (h : Host) (data : List UInt8) : Option UInt32 :=
  if 4 + 4 ≤ data.length then
    some (h.xhtonl (UInt32.ofNat (h.load ((data.drop 4).take 4))))
  else none

def pickSubCmd (h : Host) (data : List UInt8) : Option UInt16 := pick16 h 8 data

def pickCheckCode (h : Host) (data : List UInt8) : Option UInt16 := pick16 h 10 data

/-- The constructor, `Decoder(data, sz)`. -/
def new (data : List UInt8) (sz : UInt16) : Unpack := ⟨data, 0, sz.toNat⟩

/-- The objects which `deserialize` works on: its unpacker, and the header and
the message it was given to fill. -/
structure Decoding (α : Type) where
  up : Unpack
  packetHeader : PacketHeader
  msg : α

variable {α β : Type}

/-- Call the unpacker. -/
def onUnpack (x : UnpackM β) : Throwing Fault (Decoding α) β := fun d =>
  match x d.up with
  | (r, up) => (r, { d with up := up })

/-- `packetHeader.set(up.pop());` -/
def popField (pop : UnpackM β) (set : PacketHeader → β → PacketHeader) :
    Throwing Fault (Decoding α) Unit := do
  let field ← onUnpack pop
  modify fun d => { d with packetHeader := set d.packetHeader field }

/-- `msg.unmarshal(up);` -/
def unmarshal (h : Host) (w : Wire α) : Throwing Fault (Decoding α) Unit := fun d =>
  match w.extract h d.up d.msg with
  | (r, up, msg) => (r, { d with up := up, msg := msg })

def deserialize (h : Host) (w : Wire α) : Throwing Fault (Decoding α) Unit := do
  popField (Unpack.popUint16 h) PacketHeader.setLength
  popField (Unpack.popUint16 h) PacketHeader.setMainCmd
  popField (Unpack.popUint32 h) PacketHeader.setSeq
  popField (Unpack.popUint16 h) PacketHeader.setSubCmd
  popField (Unpack.popUint16 h) PacketHeader.setCheckCode
  unmarshal h w

end Decoder
end Net
end Deps
