import Deps.Net.Packet
import Deps.Net.WireRoundTrip

/-!
# What the encoder writes

`Encoder.Inv` is the invariant of every encoder a program can get hold of: the
two views stand at the offsets `0` and `12` and the reserved header bytes are
there.  Under it `serialize` appends the message and overwrites the first twelve
bytes, which never fails, or it throws (`serialize_cases`).  The last part is
about the sixteen bits for the length: they hold it unless it is exactly `65536`.
-/

namespace Deps
namespace Net

/-- The encoding of a message. -/
def Message.bytes (h : Host) (m : Message) : List UInt8 := m.wire.bytes h m.value

theorem Message.marshal_appends (h : Host) (m : Message) :
    Appends (m.marshal h) (m.bytes h) (m.wire.StringsFit m.value) :=
  Wire.push_appends h m.wire m.value

namespace Encoder

/-- The twelve bytes of a header. -/
def headerBytes (h : Host) (header : PacketHeader) : List UInt8 :=
  h.store 2 (h.xhtons header.getLength).toNat ++
    (h.store 2 (h.xhtons header.getMainCmd).toNat ++
      (h.store 4 (h.xhtonl header.getSeq).toNat ++
        (h.store 2 (h.xhtons header.getSubCmd).toNat ++
          h.store 2 (h.xhtons header.getCheckCode).toNat)))

@[simp] theorem length_headerBytes (h : Host) (header : PacketHeader) :
    (headerBytes h header).length = headerSize := by
  simp [headerBytes, headerSize, mainProtoHeaderSize, subProtoHeaderSize]

/-! ## Replacing the header -/

/-- Replace one field after the other, starting at `pos`. -/
def replaceFields : Nat → List (List UInt8) → PackM Unit
  | _, [] => pure ()
  | pos, field :: fields => do
      let _ ← Pack.replace pos field
      replaceFields (pos + field.length) fields

/-- Replacing fields which lie inside the content writes all of them. -/
theorem replaceFields_spec (fields : List (List UInt8)) {st : PackBuffer} (hst : st.Inv)
    {done rest : List UInt8} (hcontent : st.content = done ++ rest)
    (hroom : fields.flatten.length ≤ rest.length) :
    ∃ st', replaceFields done.length fields st = (.ok (), st') ∧ st'.Inv ∧
      st'.content = done ++ fields.flatten ++ rest.drop fields.flatten.length := by
  induction fields generalizing st done rest with
  | nil => exact ⟨st, rfl, hst, by simpa using hcontent⟩
  | cons field fields ih =>
      have hlen := hst.length_content
      rw [hcontent, List.length_append] at hlen
      rw [List.flatten_cons, List.length_append] at hroom
      obtain ⟨mid, heq, hmid, hmidcontent⟩ :=
        PackBuffer.replace_inside hst (show done.length + field.length ≤ st.size by omega)
      have hreplace : Pack.replace done.length field st =
          (.ok (done.length + field.length), mid) := by
        rw [Pack.replace, Throwing.bind_of_ok heq]
        rfl
      have hnext : mid.content = (done ++ field) ++ rest.drop field.length := by
        rw [hmidcontent, hcontent, List.take_left, List.drop_append]
        simp
      obtain ⟨st', heq', hst', hcontent'⟩ := ih hmid hnext (by rw [List.length_drop]; omega)
      rw [List.length_append] at heq'
      refine ⟨st', ?_, hst', ?_⟩
      · rw [replaceFields, Throwing.bind_of_ok hreplace]
        exact heq'
      · rw [hcontent', List.flatten_cons, List.drop_drop, List.length_append]
        simp only [List.append_assoc]

/-- Storing the header fields overwrites the first twelve bytes, and does not throw. -/
theorem replaceHeader_spec (h : Host) (header : PacketHeader) {st : PackBuffer} (hst : st.Inv)
    (hsize : headerSize ≤ st.size) :
    ∃ st', replaceHeader h header st = (.ok (), st') ∧ st'.Inv ∧
      st'.content = headerBytes h header ++ st.content.drop headerSize := by
  have hfields := replaceFields_spec
    [h.store 2 (h.xhtons header.getLength).toNat,
      h.store 2 (h.xhtons header.getMainCmd).toNat,
      h.store 4 (h.xhtonl header.getSeq).toNat,
      h.store 2 (h.xhtons header.getSubCmd).toNat,
      h.store 2 (h.xhtons header.getCheckCode).toNat] hst (List.nil_append _).symm
  rw [hst.length_content] at hfields
  have hflat : (headerBytes h header).length = headerSize := length_headerBytes h header
  simp only [headerBytes] at hflat
  simp only [List.flatten_cons, List.flatten_nil, List.append_nil, List.nil_append, hflat]
    at hfields
  obtain ⟨st', heq, hinv, hcontent⟩ := hfields hsize
  refine ⟨st', ?_, hinv, hcontent⟩
  simp only [replaceFields, List.length_nil, Host.length_store] at heq
  exact heq

/-! ## The invariant -/

structure Inv (e : Encoder) : Prop where
  pb : e.pb.Inv
  headPack : e.headPack.offset = 0
  bodyPack : e.bodyPack.offset = headerSize
  headerSize_le : headerSize ≤ e.pb.size

namespace Inv

variable {e : Encoder}

theorem size_eq (he : e.Inv) : e.size = e.pb.size := by
  have hle := he.headerSize_le
  have hsmall : e.pb.size < sizeModulus := he.pb.size_le.trans_lt (by decide)
  rw [size, bodySize, Pack.size, he.bodyPack, sizeSub_eq_sub hle hsmall,
    Nat.add_sub_cancel' hle, Nat.mod_eq_of_lt hsmall]

theorem body_eq (he : e.Inv) : e.body = e.pb.content.drop headerSize := by
  rw [body, Pack.data, he.bodyPack]

/-- The bytes `data()[0 .. size())` are the content of the buffer. -/
theorem view_data (he : e.Inv) : Region.view e.data e.size = e.pb.content := by
  rw [he.size_eq]
  rfl

end Inv

/-- A change of the header fields and of the buffer behind the two views. -/
theorem Inv.update {e : Encoder} (he : e.Inv) (header : PacketHeader) {pb : PackBuffer}
    (hpb : pb.Inv) (hsize : headerSize ≤ pb.size) :
    Inv { e with packetHeader := header, pb := pb } :=
  ⟨hpb, he.headPack, he.bodyPack, hsize⟩

/-- A constructed encoder holds twelve zero bytes and a cleared header. -/
theorem new_ok {mallocs : Nat → Malloc} {e : Encoder} (hnew : new mallocs = .ok e) :
    e.Inv ∧ e.packetHeader = PacketHeader.cleared ∧
      e.pb.content = List.replicate headerSize 0 := by
  unfold new at hnew
  rcases Pack.new_cases (PackBuffer.inv_new mallocs) 0 with
    ⟨st, heq, hst, hcontent⟩ | ⟨err, st, heq, -⟩
  swap
  · simp only [Throwing.bind_of_error heq] at hnew
    cases hnew
  have hnil : st.content = [] := hcontent
  have hsize : st.size = 0 := by rw [← hst.length_content, hnil, List.length_nil]
  simp only [Throwing.bind_of_ok heq] at hnew
  rcases Pack.new_cases hst headerSize with ⟨st', heq', hst', hcontent'⟩ | ⟨err, st', heq', -⟩
  swap
  · simp only [Throwing.bind_of_error heq'] at hnew
    cases hnew
  rw [hnil, List.nil_append] at hcontent'
  have hsize' : st'.size = headerSize := by
    rw [← hst'.length_content, hcontent', List.length_replicate]
  simp only [Throwing.bind_of_ok heq'] at hnew
  cases hnew
  refine ⟨⟨hst', rfl, ?_, hsize'.ge⟩, rfl, hcontent'⟩
  show st.size + headerSize = headerSize
  omega

/-- `clear` truncates the buffer to the header bytes, and does not throw. -/
theorem clear_spec {e : Encoder} (he : e.Inv) :
    ∃ e', clear e = (.ok (), e') ∧ e'.Inv ∧ e'.packetHeader = PacketHeader.cleared ∧
      e'.pb.content = e.pb.content.take headerSize := by
  have hle := he.headerSize_le
  obtain ⟨st', hinv, -, ⟨heq, hcontent⟩ | ⟨-, -, hlt⟩⟩ :=
    PackBuffer.resize_cases he.pb (0 + headerSize)
  swap
  · omega
  have hbuffer : onBuffer (PackBuffer.resize (0 + headerSize)) e =
      (.ok (), { e with pb := st' }) := by
    rw [onBuffer, heq]
  have hzero : 0 + headerSize - e.pb.size = 0 := by omega
  rw [hzero, List.replicate_zero, List.append_nil, Nat.zero_add] at hcontent
  have hsize : headerSize ≤ st'.size := by
    rw [← hinv.length_content, hcontent, List.length_take, he.pb.length_content]
    omega
  refine ⟨{ e with pb := st', packetHeader := PacketHeader.cleared }, ?_,
    he.update _ hinv hsize, rfl, hcontent⟩
  rw [clear, Throwing.bind_of_ok hbuffer]
  rfl

/-! ## `serialize` -/

/-- The header which `serialize` stores when the buffer then holds `content`. -/
def finalHeader (header : PacketHeader) (subCmd : UInt16)
    (checkCodeFunc : Option (List UInt8 → UInt16)) (content : List UInt8) : PacketHeader :=
  let checkcode :=
    match checkCodeFunc with
    | some checkCodeFunc => checkCodeFunc (content.drop headerSize)
    | none => 0
  ((header.setLength (UInt16.ofNat content.length)).setSubCmd subCmd).setCheckCode checkcode

/-- When the message could be marshalled, the header is overwritten and nothing
throws any more; otherwise the exception of the message is passed on. -/
theorem serialize_cases (h : Host) {e : Encoder} (he : e.Inv) (subCmd : UInt16) (m : Message)
    (checkCodeFunc : Option (List UInt8 → UInt16)) :
    ((m.marshal h e.pb).1 = .ok () ∧
      ∃ e', serialize h subCmd m checkCodeFunc e = (.ok (), e') ∧ e'.Inv ∧
        e'.packetHeader = finalHeader e.packetHeader subCmd checkCodeFunc
          (e.pb.content ++ m.bytes h) ∧
        e'.pb.content = headerBytes h e'.packetHeader ++
          (e.pb.content ++ m.bytes h).drop headerSize) ∨
      ∃ err e', (m.marshal h e.pb).1 = .error err ∧
        serialize h subCmd m checkCodeFunc e = (.error err, e') ∧ e'.Inv := by
  have happends := m.marshal_appends h
  have hinv := happends.inv he.pb
  rcases hmarshal : m.marshal h e.pb with ⟨r, pb⟩
  rw [hmarshal] at hinv
  cases r with
  | error err =>
      obtain ⟨written, -, hcontent⟩ := happends.error he.pb (by rw [hmarshal])
      -- part of the message may be left behind the header bytes
      have hsize : headerSize ≤ pb.size := by
        rw [hmarshal] at hcontent
        rw [← hinv.length_content, hcontent, List.length_append, he.pb.length_content]
        exact Nat.le_add_right_of_le he.headerSize_le
      refine .inr ⟨err, { e with pb := pb }, rfl, ?_, he.update _ hinv hsize⟩
      exact Throwing.bind_of_error (by rw [onBuffer, hmarshal])
  | ok u =>
      obtain ⟨-, hcontent⟩ := happends.ok he.pb (by rw [hmarshal])
      rw [hmarshal] at hcontent
      simp only at hcontent hinv
      have hsize : headerSize ≤ pb.size := by
        rw [← hinv.length_content, hcontent, List.length_append, he.pb.length_content]
        exact Nat.le_add_right_of_le he.headerSize_le
      have hmid : Inv { e with pb := pb } := he.update _ hinv hsize
      let header := finalHeader e.packetHeader subCmd checkCodeFunc pb.content
      -- the header lies inside the content, so no replacement needs memory
      obtain ⟨st', heq, hst', hfinal⟩ := replaceHeader_spec h header hinv hsize
      have hsize' : headerSize ≤ st'.size := by
        rw [← hst'.length_content, hfinal, List.length_append, length_headerBytes]
        exact Nat.le_add_right _ _
      rw [← hcontent]
      refine .inl ⟨rfl, { e with packetHeader := header, pb := st' }, ?_,
        he.update _ hst' hsize', rfl, hfinal⟩
      rw [serialize, Throwing.bind_of_ok (show onBuffer (m.marshal h) e = (.ok (), _) by
        rw [onBuffer, hmarshal])]
      have hheader : ((e.packetHeader.setLength (UInt16.ofNat ({ e with pb := pb } : Encoder).size)
          ).setSubCmd subCmd).setCheckCode
          (match checkCodeFunc with
            | some checkCodeFunc => checkCodeFunc ({ e with pb := pb } : Encoder).body
            | none => 0) = header := by
        rw [hmid.size_eq, hmid.body_eq]
        simp only [header, finalHeader, hinv.length_content]
      have hbuffer : onBuffer (replaceHeader h header) { e with packetHeader := header, pb := pb } =
          (.ok (), { e with packetHeader := header, pb := st' }) := by
        rw [onBuffer, heq]
      rw [← hheader] at hbuffer ⊢
      exact hbuffer

/-! ## Runs -/

/-- The copy constructor replaces the reserved bytes of a new buffer by those of
the source, and pushes the body behind them. -/
theorem copy_eq {mallocs : Nat → Malloc} {s fresh : Encoder} (hs : s.Inv)
    (hnew : new mallocs = .ok fresh) :
    ∃ st, st.Inv ∧ (fresh.pb.Allocates → st.Allocates) ∧
      st.content = s.pb.content.take headerSize ∧
      copy mallocs s =
        match Pack.push (s.pb.content.drop headerSize) st with
        | (.ok (), pb) => .ok { fresh with packetHeader := s.packetHeader, pb := pb }
        | (.error err, _) => .error err := by
  obtain ⟨hfresh, -, hzeros⟩ := new_ok hnew
  have hslen := hs.pb.length_content
  have hle := hs.headerSize_le
  have hfreshle := hfresh.headerSize_le
  have hhead : (s.pb.content.take headerSize).length = headerSize := by
    rw [List.length_take]
    omega
  obtain ⟨st, heq, hst, hcontent⟩ := PackBuffer.replace_inside hfresh.pb
    (show 0 + (s.pb.content.take headerSize).length ≤ fresh.pb.size by omega)
  rw [hhead, hzeros, List.take_zero, List.nil_append, List.drop_eq_nil_of_le (by simp),
    List.append_nil] at hcontent
  refine ⟨st, hst, fun halloc => ?_, hcontent, ?_⟩
  · have hkeeps := PackBuffer.orThrow_allocates "replace buffer overflow"
      (fun malloc bb => bb.replace malloc 0 (s.pb.content.take headerSize)) fresh.pb halloc
    rw [PackBuffer.replace] at heq
    rwa [heq] at hkeeps
  · have hdata : s.headPack.data s.pb = s.pb.content := by
      rw [Pack.data, hs.headPack, List.drop_zero]
    have hbody : s.bodyPack.data s.pb = s.pb.content.drop headerSize := by
      rw [Pack.data, hs.bodyPack]
    have hedit : editHeader (fun _ => s.packetHeader) fresh =
        (.ok (), { fresh with packetHeader := s.packetHeader }) := rfl
    have hreplace : onBuffer (Pack.replace 0 (s.pb.content.take headerSize))
        { fresh with packetHeader := s.packetHeader } =
          (.ok (0 + (s.pb.content.take headerSize).length),
            { fresh with packetHeader := s.packetHeader, pb := st }) := by
      rw [onBuffer, Pack.replace, Throwing.bind_of_ok heq]
      rfl
    unfold copy
    simp only [hnew, hdata, hbody]
    rw [Throwing.bind_of_ok hedit, Throwing.bind_of_ok hreplace, onBuffer]
    rcases Pack.push (s.pb.content.drop headerSize) st with ⟨err | u, pb⟩ <;> rfl

/-- A copy has the header fields and the content of its source. -/
theorem copy_ok {mallocs : Nat → Malloc} {s e : Encoder} (hs : s.Inv)
    (hcopy : copy mallocs s = .ok e) :
    e.Inv ∧ e.packetHeader = s.packetHeader ∧ e.pb.content = s.pb.content := by
  rcases hnew : new mallocs with err | fresh
  · unfold copy at hcopy
    simp only [hnew] at hcopy
    cases hcopy
  obtain ⟨hfresh, -, -⟩ := new_ok hnew
  obtain ⟨st, hst, -, hcontent, heq⟩ := copy_eq hs hnew
  have happends := Appends.push (s.pb.content.drop headerSize)
  have hinv := happends.inv hst
  rw [heq] at hcopy
  rcases hpush : Pack.push (s.pb.content.drop headerSize) st with ⟨err | u, pb⟩
  · simp only [hpush] at hcopy
    cases hcopy
  · obtain ⟨-, hpushed⟩ := happends.ok hst (by rw [hpush])
    simp only [hpush] at hcopy hpushed hinv
    cases hcopy
    have hcopied : pb.content = s.pb.content := by
      rw [hpushed, hcontent, List.take_append_drop]
    refine ⟨hfresh.update _ hinv ?_, rfl, hcopied⟩
    rw [← hinv.length_content, hcopied, hs.pb.length_content]
    exact hs.headerSize_le

/-- The encoder is replaced by a copy of it, if that can be constructed. -/
def becomeCopy (mallocs : Nat → Malloc) : EncoderM Unit := fun e =>
  match copy mallocs e with
  | .ok e' => (.ok (), e')
  | .error err => (.error err, e)

/-- What a program can do with an encoder. -/
inductive Op : Type 1 where
  | setSeq (seq : UInt32)
  | editHeader (edit : PacketHeader → PacketHeader)
  | clear
  | serialize (subCmd : UInt16) (m : Message) (checkCodeFunc : Option (List UInt8 → UInt16))
  | copy (mallocs : Nat → Malloc)

def Op.exec (h : Host) : Op → EncoderM Unit
  | .setSeq seq => Encoder.setSeq seq
  | .editHeader edit => Encoder.editHeader edit
  | .clear => Encoder.clear
  | .serialize subCmd m checkCodeFunc => Encoder.serialize h subCmd m checkCodeFunc
  | .copy mallocs => becomeCopy mallocs

/-- The encoders which a program can get hold of, catching every exception. -/
inductive Reachable (h : Host) : Encoder → Prop
  | new {mallocs : Nat → Malloc} {e : Encoder} (hnew : Encoder.new mallocs = .ok e) :
      Reachable h e
  | step {e : Encoder} (he : Reachable h e) (op : Op) : Reachable h (op.exec h e).2

theorem Op.exec_inv (h : Host) (op : Op) {e : Encoder} (he : e.Inv) :
    (op.exec h e).2.Inv := by
  cases op with
  | setSeq seq => exact he.update _ he.pb he.headerSize_le
  | editHeader edit => exact he.update _ he.pb he.headerSize_le
  | clear =>
      obtain ⟨e', heq, he', -⟩ := clear_spec he
      have hexec : exec h .clear e = (.ok (), e') := heq
      simp only [hexec]
      exact he'
  | serialize subCmd m checkCodeFunc =>
      show (Encoder.serialize h subCmd m checkCodeFunc e).2.Inv
      rcases serialize_cases h he subCmd m checkCodeFunc with
        ⟨-, e', heq, he', -⟩ | ⟨err, e', -, heq, he'⟩ <;>
      · rw [heq]
        exact he'
  | copy mallocs =>
      show (becomeCopy mallocs e).2.Inv
      unfold becomeCopy
      split
      · rename_i e' hcopy
        exact (copy_ok he hcopy).1
      · exact he

theorem Reachable.inv {h : Host} {e : Encoder} (he : Reachable h e) : e.Inv := by
  induction he with
  | new hnew => exact (new_ok hnew).1
  | step _ op ih => exact op.exec_inv h ih

end Encoder

/-! ## Reading a header back -/

namespace Decoder

variable {a b : Host}

theorem pick16_store (hab : a.Agrees b) {data rest : List UInt8} {offset : Nat} {x : UInt16}
    (hdrop : data.drop offset = a.store 2 (a.xhtons x).toNat ++ rest) :
    pick16 b offset data = some x := by
  have hlen := congrArg List.length hdrop
  rw [List.length_drop, List.length_append, Host.length_store] at hlen
  rw [pick16, if_pos (by omega), hdrop, List.take_left' (a.length_store 2 _), hab.uint16]

theorem pick32_store (hab : a.Agrees b) {data rest : List UInt8} {x : UInt32}
    (hdrop : data.drop 4 = a.store 4 (a.xhtonl x).toNat ++ rest) :
    pickSeq b data = some x := by
  have hlen := congrArg List.length hdrop
  rw [List.length_drop, List.length_append, Host.length_store] at hlen
  rw [pickSeq, if_pos (by omega), hdrop, List.take_left' (a.length_store 4 _), hab.uint32]

variable (hab : a.Agrees b) (header : PacketHeader) (body : List UInt8)
include hab

/-- The fixed-offset accessors find the fields of the header. -/
theorem pick_headerBytes :
    let data := Encoder.headerBytes a header ++ body
    pickLen b data = some header.getLength ∧ pickCmd b data = some header.getMainCmd ∧
      pickSeq b data = some header.getSeq ∧ pickSubCmd b data = some header.getSubCmd ∧
      pickCheckCode b data = some header.getCheckCode := by
  intro data
  let len := a.store 2 (a.xhtons header.getLength).toNat
  let cmd := a.store 2 (a.xhtons header.getMainCmd).toNat
  let seq := a.store 4 (a.xhtonl header.getSeq).toNat
  let subCmd := a.store 2 (a.xhtons header.getSubCmd).toNat
  let code := a.store 2 (a.xhtons header.getCheckCode).toNat
  have hlen : data.drop 0 = len ++ (cmd ++ (seq ++ (subCmd ++ (code ++ body)))) := by
    simp [data, Encoder.headerBytes, len, cmd, seq, subCmd, code]
  have hcmd : data.drop 2 = cmd ++ (seq ++ (subCmd ++ (code ++ body))) := by
    rw [← List.drop_drop (i := 2) (j := 0), hlen, List.drop_left' (a.length_store 2 _)]
  have hseq : data.drop 4 = seq ++ (subCmd ++ (code ++ body)) := by
    rw [← List.drop_drop (i := 2) (j := 2), hcmd, List.drop_left' (a.length_store 2 _)]
  have hsub : data.drop 8 = subCmd ++ (code ++ body) := by
    rw [← List.drop_drop (i := 4) (j := 4), hseq, List.drop_left' (a.length_store 4 _)]
  have hcode : data.drop 10 = code ++ body := by
    rw [← List.drop_drop (i := 2) (j := 8), hsub, List.drop_left' (a.length_store 2 _)]
  exact ⟨pick16_store hab hlen, pick16_store hab hcmd, pick32_store hab hseq,
    pick16_store hab hsub, pick16_store hab hcode⟩

end Decoder

/-! ## The length field -/

namespace Encoder

/-- The calls of a run, each with the encoder it is made on. -/
def trace (h : Host) : List Op → Encoder → List (Op × Encoder)
  | [], _ => []
  | op :: ops, e => (op, e) :: trace h ops (op.exec h e).2

/-- If the call is a `serialize` which returns, the length stored at offset 0
equals `size()`. -/
def Op.Honest (h : Host) (e : Encoder) : Op → Prop
  | .serialize subCmd m checkCodeFunc =>
      ∀ e', Encoder.serialize h subCmd m checkCodeFunc e = (.ok (), e') →
        ∃ len, Decoder.pickLen h e'.data = some len ∧ len.toNat = e'.size
  | _ => True

/-- The call is a `serialize` whose message can be marshalled and takes the
buffer to one byte more than `MAX_PACKET_SIZE`. -/
def Op.Overfills (h : Host) (e : Encoder) : Op → Prop
  | .serialize _ m _ =>
      (m.marshal h e.pb).1 = .ok () ∧ e.size + (m.bytes h).length = maxPacketSize + 1
  | _ => False

/-- The stored length is the size, truncated to sixteen bits. -/
theorem storedLength (h : Host) (hab : h.Agrees h) {e : Encoder} (he : e.Inv) {subCmd : UInt16}
    {m : Message} {checkCodeFunc : Option (List UInt8 → UInt16)} {e' : Encoder}
    (heq : serialize h subCmd m checkCodeFunc e = (.ok (), e')) :
    e'.Inv ∧ e'.size = e.size + (m.bytes h).length ∧ e'.size ≤ maxPacketSize + 1 ∧
      Decoder.pickLen h e'.data = some (UInt16.ofNat e'.size) := by
  rcases serialize_cases h he subCmd m checkCodeFunc with
    ⟨-, e'', heq', he', hheader, hcontent⟩ | ⟨err, e'', -, heq', -⟩
  swap
  · rw [heq'] at heq
    cases heq
  rw [heq'] at heq
  cases heq
  have hle := he.headerSize_le
  have htotal : (e.pb.content ++ m.bytes h).length = e.pb.size + (m.bytes h).length := by
    rw [List.length_append, he.pb.length_content]
  have hsize : e'.pb.size = e.pb.size + (m.bytes h).length := by
    rw [← he'.pb.length_content, hcontent, List.length_append, length_headerBytes,
      List.length_drop, htotal]
    omega
  have hlength : e'.packetHeader.getLength = UInt16.ofNat e'.size := by
    rw [he'.size_eq, hsize, ← htotal, hheader]
    rfl
  refine ⟨he', by rw [he'.size_eq, he.size_eq, hsize], ?_, ?_⟩
  · rw [he'.size_eq]
    exact he'.pb.size_le
  · have hdata : e'.data = e'.pb.content ++ e'.data.drop e'.pb.size :=
      (List.take_append_drop _ _).symm
    rw [hdata, hcontent, List.append_assoc, (Decoder.pick_headerBytes hab _ _).1, hlength]

/-- One call is honest exactly when it does not fill the buffer to the last byte. -/
theorem Op.honest_iff (h : Host) (hab : h.Agrees h) {e : Encoder} (he : e.Inv) (op : Op) :
    op.Honest h e ↔ ¬ op.Overfills h e := by
  cases op with
  | serialize subCmd m checkCodeFunc =>
      constructor
      · rintro hhonest ⟨hmarshal, htotal⟩
        -- 65536 is stored as 0
        rcases serialize_cases h he subCmd m checkCodeFunc with
          ⟨-, e', heq, -⟩ | ⟨err, e', herr, -⟩
        · obtain ⟨-, hsize, -, hlen⟩ := storedLength h hab he heq
          obtain ⟨len, hpick, hlen'⟩ := hhonest e' heq
          rw [hlen, hsize, htotal] at hpick
          rw [hsize, htotal, ← Option.some.inj hpick] at hlen'
          exact absurd hlen' (by decide)
        · rw [hmarshal] at herr
          cases herr
      · intro hfits e' heq
        obtain ⟨-, hsize, hle, hlen⟩ := storedLength h hab he heq
        refine ⟨_, hlen, UInt16.toNat_ofNat_of_lt' ?_⟩
        have hmarshal : (m.marshal h e.pb).1 = .ok () := by
          rcases serialize_cases h he subCmd m checkCodeFunc with
            ⟨hok, -⟩ | ⟨err, e'', -, heq', -⟩
          · exact hok
          · rw [heq'] at heq
            cases heq
        have hne : e'.size ≠ maxPacketSize + 1 := fun htotal =>
          hfits ⟨hmarshal, hsize.symm.trans htotal⟩
        show e'.size < 65536
        rw [maxPacketSize] at hle hne
        omega
  | setSeq seq => exact iff_of_true trivial id
  | editHeader edit => exact iff_of_true trivial id
  | clear => exact iff_of_true trivial id
  | copy mallocs => exact iff_of_true trivial id

/-- **The length field tells the truth in every call of a run** exactly when no
call of the run takes the buffer to one byte more than `MAX_PACKET_SIZE`. -/
theorem trace_honest_iff {e : Encoder} (he : Reachable .x86 e) (ops : List Op) :
    (∀ step ∈ trace .x86 ops e, step.1.Honest .x86 step.2) ↔
      ∀ step ∈ trace .x86 ops e, ¬ step.1.Overfills .x86 step.2 := by
  induction ops generalizing e with
  | nil => exact iff_of_true nofun nofun
  | cons op ops ih =>
      rw [trace, List.forall_mem_cons, List.forall_mem_cons, ih (.step he op)]
      exact and_congr_left' (op.honest_iff .x86 Host.agrees_x86 he.inv)

/-- Storage of zeros, whenever it is asked for. -/
def zeroMallocs : Nat → Malloc := fun _ => some fun _ => 0

theorem new_zeroMallocs : ∃ e, new zeroMallocs = .ok e ∧ e.pb.Allocates :=
  ⟨_, rfl, fun _ => rfl⟩

theorem trace_honest_iff_fresh :
    let ops : List Op := [.setSeq 7, .serialize 1 ⟨.uint8, 5⟩ none, .clear]
    ∃ e, new zeroMallocs = .ok e ∧
      ((∀ step ∈ trace .x86 ops e, step.1.Honest .x86 step.2) ↔
        ∀ step ∈ trace .x86 ops e, ¬ step.1.Overfills .x86 step.2) := by
  obtain ⟨e, hnew, -⟩ := new_zeroMallocs
  exact ⟨e, hnew, trace_honest_iff (.new hnew) _⟩

/-- A string of 65522 bytes makes a packet of 65536 bytes, whose length field is 0. -/
theorem serialize_dishonest :
    ∃ e, new zeroMallocs = .ok e ∧
      ¬ ∀ step ∈ trace .x86 [.serialize 0 ⟨.string, List.replicate 65522 0⟩ none] e,
        step.1.Honest .x86 step.2 := by
  obtain ⟨e, hnew, halloc⟩ := new_zeroMallocs
  obtain ⟨he, -, hcontent⟩ := new_ok hnew
  refine ⟨e, hnew, fun hall => ?_⟩
  have hsize : e.pb.size = 12 := by
    rw [← he.pb.length_content, hcontent, List.length_replicate]
    rfl
  let m : Message := ⟨.string, List.replicate 65522 0⟩
  have hlen : (m.bytes .x86).length = 65524 := by
    simp only [Message.bytes, Wire.bytes, m, List.length_append, Host.length_store,
      List.length_replicate]
  have hfits : m.wire.StringsFit m.value := by
    show (List.replicate 65522 (0 : UInt8)).length ≤ 0xFFFF
    rw [List.length_replicate]
    omega
  have hmarshal := (m.marshal_appends .x86).room he.pb hfits halloc (by omega)
  refine (Op.honest_iff .x86 Host.agrees_x86 he _).mp (hall _ List.mem_cons_self)
    ⟨hmarshal.1, ?_⟩
  rw [he.size_eq, hsize, hlen]
  rfl

end Encoder
end Net
end Deps
