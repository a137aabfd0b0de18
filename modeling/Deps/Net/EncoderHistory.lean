import Deps.Net.Encoding

/-!
# What an encoder remembers

A cleared encoder keeps the twelve reserved bytes and the blocks of its earlier
packets, and a copy is built in a buffer of its own.  `PackBuffer.Alike n` relates
two buffers which hold the same bytes from `n` on; as long as `malloc` delivers,
no method of `Encoder` can tell two such buffers apart, whatever was written
before.  The last part is about the calls of `serialize` which throw.
-/

namespace Deps
namespace Net

namespace PackBuffer

/-! ## Allocation -/

/-- While `malloc` delivers, `append` throws only for want of room. -/
theorem append_room {st : PackBuffer} (hst : st.Inv) (halloc : st.Allocates)
    (bytes : List UInt8) :
    ∃ st', st'.Inv ∧ st'.Allocates ∧
      ((st.size + bytes.length ≤ 65536 ∧ append bytes st = (.ok (), st') ∧
          st'.content = st.content ++ bytes) ∨
        (65536 < st.size + bytes.length ∧
          append bytes st = (.error ⟨"append buffer overflow"⟩, st') ∧
          st'.content = st.content)) := by
  obtain ⟨st', hinv, hmallocs, hcases⟩ := append_cases hst bytes
  have halloc' : st'.Allocates := by
    intro i
    rw [hmallocs]
    exact halloc (i + 1)
  refine ⟨st', hinv, halloc', ?_⟩
  rcases hcases with ⟨heq, hcontent⟩ | ⟨heq, hcontent, hfail⟩
  · have hlen := hinv.length_content
    have hle := hinv.size_le
    rw [hcontent, List.length_append, hst.length_content] at hlen
    exact .inl ⟨by omega, heq, hcontent⟩
  · refine .inr ⟨Nat.lt_of_not_le fun hroom => ?_, heq, hcontent⟩
    have hsome := halloc 0
    rw [hfail hroom] at hsome
    cases hsome

/-- While `malloc` delivers, `resize` does not throw up to the maximum. -/
theorem resize_room {st : PackBuffer} (hst : st.Inv) (halloc : st.Allocates) {n : Nat}
    (hroom : n ≤ 65536) :
    ∃ st', resize n st = (.ok (), st') ∧ st'.Inv ∧ st'.Allocates ∧
      st'.content = st.content.take n ++ List.replicate (n - st.size) 0 := by
  have halloc' : (resize n st).2.Allocates := orThrow_allocates _ _ st halloc
  obtain ⟨st', hinv, -, ⟨heq, hcontent⟩ | ⟨heq, -, -⟩⟩ := resize_cases hst n
  · rw [heq] at halloc'
    exact ⟨st', heq, hinv, halloc', hcontent⟩
  · exfalso
    rcases BlockBuffer.resize_cases hst.bb (st.mallocs 0) n 0 with ⟨-, bb, hok, -⟩ | ⟨hno, -⟩
    · have herr := congrArg Prod.fst heq
      simp only [resize, orThrow, hok] at herr
      cases herr
    · exact hno (.inr ⟨hst.maxsize ▸ hroom, halloc 0⟩)

/-! ## Buffers which agree from a byte on -/

/-- Two buffers hold the same number of bytes, and the same bytes from `n` on.
The blocks they own and the cells behind the content may differ. -/
structure Alike (n : Nat) (a b : PackBuffer) : Prop where
  inv_left : a.Inv
  inv_right : b.Inv
  allocates_left : a.Allocates
  allocates_right : b.Allocates
  le_size : n ≤ a.size
  size : a.size = b.size
  content : a.content.drop n = b.content.drop n

namespace Alike

variable {n : Nat} {a b : PackBuffer}

/-- Buffers of equal content are alike from the first byte on. -/
theorem of_content (ha : a.Inv) (hb : b.Inv) (halloca : a.Allocates) (hallocb : b.Allocates)
    (hcontent : a.content = b.content) : Alike 0 a b where
  inv_left := ha
  inv_right := hb
  allocates_left := halloca
  allocates_right := hallocb
  le_size := Nat.zero_le _
  size := by rw [← ha.length_content, ← hb.length_content, hcontent]
  content := by rw [hcontent]

theorem content_eq (h : Alike 0 a b) : a.content = b.content := h.content

/-- What two alike buffers hold after both were appended the same bytes. -/
theorem appended (h : Alike n a b) {a' b' : PackBuffer} (ha : a'.Inv) (hb : b'.Inv)
    (halloca : a'.Allocates) (hallocb : b'.Allocates) {written : List UInt8}
    (hcontenta : a'.content = a.content ++ written)
    (hcontentb : b'.content = b.content ++ written) : Alike n a' b' where
  inv_left := ha
  inv_right := hb
  allocates_left := halloca
  allocates_right := hallocb
  le_size := by
    rw [← ha.length_content, hcontenta, List.length_append, h.inv_left.length_content]
    exact Nat.le_add_right_of_le h.le_size
  size := by
    rw [← ha.length_content, ← hb.length_content, hcontenta, hcontentb, List.length_append,
      List.length_append, h.inv_left.length_content, h.inv_right.length_content, h.size]
  content := by
    have hlea : n ≤ a.content.length := by
      rw [h.inv_left.length_content]
      exact h.le_size
    have hleb : n ≤ b.content.length := by
      rw [h.inv_right.length_content, ← h.size]
      exact h.le_size
    rw [hcontenta, hcontentb, List.drop_append_of_le_length hlea,
      List.drop_append_of_le_length hleb, h.content]

theorem append_respects (bytes : List UInt8) :
    Throwing.Respects (Alike n) (append bytes) := by
  intro a b h
  have hsize := h.size
  obtain ⟨a', ha, halloca, hcasesa⟩ := append_room h.inv_left h.allocates_left bytes
  obtain ⟨b', hb, hallocb, hcasesb⟩ := append_room h.inv_right h.allocates_right bytes
  rcases hcasesa with ⟨hrooma, heqa, hcontenta⟩ | ⟨hrooma, heqa, hcontenta⟩ <;>
    rcases hcasesb with ⟨hroomb, heqb, hcontentb⟩ | ⟨hroomb, heqb, hcontentb⟩
  · rw [heqa, heqb]
    exact ⟨rfl, h.appended ha hb halloca hallocb hcontenta hcontentb⟩
  · omega
  · omega
  · rw [heqa, heqb]
    exact ⟨rfl, h.appended ha hb halloca hallocb (hcontenta.trans (List.append_nil _).symm)
      (hcontentb.trans (List.append_nil _).symm)⟩

end Alike
end PackBuffer

/-! ## Marshalling -/

namespace Wire

open PackBuffer (Alike)

variable {n : Nat}

theorem pushEach_respects {α : Type} {push : α → PackM Unit}
    (hpush : ∀ x, Throwing.Respects (Alike n) (push x)) (l : List α) :
    Throwing.Respects (Alike n) (pushEach push l) := by
  induction l with
  | nil => exact .pure ()
  | cons x rest ih => exact (hpush x).bind fun _ => ih

theorem pushVarstr_respects (h : Host) (s : List UInt8) :
    Throwing.Respects (Alike n) (Pack.pushVarstr h s) := by
  unfold Pack.pushVarstr
  split
  · exact .throw _
  · exact (Alike.append_respects _).bind fun _ => Alike.append_respects s

/-- **`operator<<` does not look at what is in the buffer.** -/
theorem push_respects (h : Host) {α : Type} (w : Wire α) (v : α) :
    Throwing.Respects (Alike n) (w.push h v) := by
  induction w with
  | bool => exact Alike.append_respects _
  | uint8 => exact Alike.append_respects _
  | uint16 => exact Alike.append_respects _
  | uint32 => exact Alike.append_respects _
  | uint64 => exact Alike.append_respects _
  | int64 => exact Alike.append_respects _
  | double => exact Alike.append_respects _
  | string => exact pushVarstr_respects h v
  | pair a b iha ihb => exact (iha v.1).bind fun _ => ihb v.2
  | vector a ih => exact (Alike.append_respects _).bind fun _ => pushEach_respects ih v
  | map order a b iha ihb =>
      exact (Alike.append_respects _).bind fun _ =>
        pushEach_respects (fun e => (iha e.1).bind fun _ => ihb e.2) v.entries
  | set order a ih =>
      exact (Alike.append_respects _).bind fun _ =>
        pushEach_respects ih (OrderedSet.elements v)
  | voidmable => exact .pure ()
  | record field rest ihf ihr => exact (ihf v.1).bind fun _ => ihr v.2

end Wire

/-! ## Construction -/

theorem Pack.new_room {st : PackBuffer} (hst : st.Inv) (halloc : st.Allocates) {off : Nat}
    (hroom : st.size + off ≤ 65536) :
    ∃ st', Pack.new off st = (.ok ⟨st.size + off⟩, st') ∧ st'.Inv ∧ st'.Allocates ∧
      st'.size = st.size + off := by
  obtain ⟨st', heq, hinv, halloc', hcontent⟩ := PackBuffer.resize_room hst halloc hroom
  refine ⟨st', Throwing.bind_of_ok heq, hinv, halloc', ?_⟩
  rw [← hinv.length_content, hcontent, List.length_append, List.length_take,
    List.length_replicate, hst.length_content]
  omega

namespace Encoder

/-- The bytes `data()[0 .. size())`. -/
def packet (e : Encoder) : List UInt8 := Region.view e.data e.size

theorem Inv.packet_eq {e : Encoder} (he : e.Inv) : e.packet = e.pb.content := he.view_data

/-- While `malloc` delivers, an encoder can be constructed. -/
theorem new_allocates {mallocs : Nat → Malloc} (halloc : ∀ i, (mallocs i).isSome = true) :
    ∃ e, new mallocs = .ok e ∧ e.pb.Allocates := by
  have hstart : (PackBuffer.new mallocs).Allocates := halloc
  have hsize : (PackBuffer.new mallocs).size = 0 := rfl
  obtain ⟨st, heq, hst, hallocst, hsizest⟩ :=
    Pack.new_room (PackBuffer.inv_new mallocs) hstart
      (show (PackBuffer.new mallocs).size + 0 ≤ 65536 by omega)
  have hroom : st.size + headerSize ≤ 65536 := by
    rw [hsizest, hsize]
    decide
  obtain ⟨st', heq', -, hallocst', -⟩ := Pack.new_room hst hallocst hroom
  unfold new
  simp only [Throwing.bind_of_ok heq, Throwing.bind_of_ok heq']
  exact ⟨_, rfl, hallocst'⟩

/-- While `malloc` delivers, an encoder can be copied. -/
theorem copy_allocates {mallocs : Nat → Malloc} (halloc : ∀ i, (mallocs i).isSome = true)
    {s : Encoder} (hs : s.Inv) : ∃ e, copy mallocs s = .ok e ∧ e.pb.Allocates := by
  obtain ⟨fresh, hnew, hfresh⟩ := new_allocates halloc
  obtain ⟨st, hst, hallocst, hcontent, heq⟩ := copy_eq hs hnew
  have hlen := hs.pb.length_content
  have hle := hs.headerSize_le
  have hroom : st.size + (s.pb.content.drop headerSize).length ≤ 65536 := by
    have hmax := hs.pb.size_le
    rw [← hst.length_content, hcontent, List.length_take, List.length_drop]
    omega
  obtain ⟨st', -, hallocst', ⟨-, happend, -⟩ | ⟨hover, -, -⟩⟩ :=
    PackBuffer.append_room hst (hallocst hfresh) (s.pb.content.drop headerSize)
  · rw [heq, Pack.push, happend]
    exact ⟨_, rfl, hallocst'⟩
  · omega

/-! ## Encoders which agree from a byte on -/

/-- Two encoders with the same header fields, whose buffers hold the same bytes
from `n` on. -/
structure Alike (n : Nat) (a b : Encoder) : Prop where
  inv_left : a.Inv
  inv_right : b.Inv
  header : a.packetHeader = b.packetHeader
  pb : PackBuffer.Alike n a.pb b.pb

namespace Alike

variable {n : Nat} {a b : Encoder}

/-- Encoders of equal header and content are alike from the first byte on. -/
theorem of_content (ha : a.Inv) (hb : b.Inv) (hheader : a.packetHeader = b.packetHeader)
    (halloca : a.pb.Allocates) (hallocb : b.pb.Allocates)
    (hcontent : a.pb.content = b.pb.content) : Alike 0 a b :=
  ⟨ha, hb, hheader, .of_content ha.pb hb.pb halloca hallocb hcontent⟩

theorem refl (ha : a.Inv) (halloc : a.pb.Allocates) : Alike 0 a a :=
  of_content ha ha rfl halloc halloc rfl

theorem size_eq (h : Alike n a b) : a.size = b.size := by
  rw [h.inv_left.size_eq, h.inv_right.size_eq, h.pb.size]

/-- Past the reserved bytes the two packets are equal. -/
theorem body_eq (h : Alike n a b) (hn : n ≤ headerSize) :
    a.packet.drop headerSize = b.packet.drop headerSize := by
  have hsplit : headerSize = n + (headerSize - n) := by omega
  rw [h.inv_left.packet_eq, h.inv_right.packet_eq, hsplit, ← List.drop_drop, h.pb.content,
    List.drop_drop]

theorem packet_eq (h : Alike 0 a b) : a.packet = b.packet := by
  rw [h.inv_left.packet_eq, h.inv_right.packet_eq, h.pb.content_eq]

/-- Equal contents are alike from any byte of the header on. -/
theorem weaken (h : Alike 0 a b) (hn : n ≤ headerSize) : Alike n a b where
  inv_left := h.inv_left
  inv_right := h.inv_right
  header := h.header
  pb := { h.pb with
    le_size := hn.trans h.inv_left.headerSize_le
    content := by rw [h.pb.content_eq] }

end Alike

/-! ## One call on two encoders -/

theorem onBuffer_allocates {α : Type} {x : PackM α}
    (hx : Throwing.Keeps PackBuffer.Allocates x) :
    Throwing.Keeps (fun e : Encoder => e.pb.Allocates) (onBuffer x) := by
  intro e he
  have hpb := hx e.pb he
  unfold onBuffer
  rcases hrun : x e.pb with ⟨r, pb⟩
  rw [hrun] at hpb
  exact hpb

theorem clear_allocates : Throwing.Keeps (fun e : Encoder => e.pb.Allocates) clear :=
  (onBuffer_allocates (PackBuffer.orThrow_allocates _ _)).bind fun _ _ he => he

theorem replaceHeader_allocates (h : Host) (header : PacketHeader) :
    Throwing.Keeps PackBuffer.Allocates (replaceHeader h header) := by
  have hreplace : ∀ pos bytes, Throwing.Keeps PackBuffer.Allocates (Pack.replace pos bytes) :=
    fun pos bytes => (PackBuffer.orThrow_allocates _ _).bind fun _ => .pure _
  unfold replaceHeader
  exact (hreplace _ _).bind fun _ => (hreplace _ _).bind fun _ => (hreplace _ _).bind fun _ =>
    (hreplace _ _).bind fun _ => (hreplace _ _).bind fun _ => .pure ()

theorem clear_alike {n : Nat} (hn : n ≤ headerSize) {a b : Encoder} (hab : Alike n a b) :
    (clear a).1 = .ok () ∧ (clear b).1 = .ok () ∧ Alike n (clear a).2 (clear b).2 := by
  have halloca := clear_allocates a hab.pb.allocates_left
  have hallocb := clear_allocates b hab.pb.allocates_right
  obtain ⟨a', heqa, ha, hheadera, hcontenta⟩ := clear_spec hab.inv_left
  obtain ⟨b', heqb, hb, hheaderb, hcontentb⟩ := clear_spec hab.inv_right
  rw [heqa] at halloca
  rw [heqb] at hallocb
  rw [heqa, heqb]
  refine ⟨rfl, rfl, ha, hb, hheadera.trans hheaderb.symm, ?_⟩
  have hsize : ∀ {e e' : Encoder}, e.Inv → e'.Inv →
      e'.pb.content = e.pb.content.take headerSize → e'.pb.size = headerSize := by
    intro e e' he he' hcontent
    rw [← he'.pb.length_content, hcontent, List.length_take, he.pb.length_content]
    exact Nat.min_eq_left he.headerSize_le
  exact {
    inv_left := ha.pb
    inv_right := hb.pb
    allocates_left := halloca
    allocates_right := hallocb
    le_size := by rw [hsize hab.inv_left ha hcontenta]; exact hn
    size := by rw [hsize hab.inv_left ha hcontenta, hsize hab.inv_right hb hcontentb]
    content := by rw [hcontenta, hcontentb, List.drop_take, List.drop_take, hab.pb.content] }

/-- A `serialize` whose message cannot be marshalled only leaves what of the
message was written. -/
theorem serialize_error (h : Host) (e : Encoder) (subCmd : UInt16) (m : Message)
    (checkCodeFunc : Option (List UInt8 → UInt16)) {err : PackError}
    (herr : (m.marshal h e.pb).1 = .error err) :
    serialize h subCmd m checkCodeFunc e =
      (.error err, { e with pb := (m.marshal h e.pb).2 }) := by
  have hbuffer : onBuffer (m.marshal h) e =
      (.error err, { e with pb := (m.marshal h e.pb).2 }) := by
    rw [← herr]
    rfl
  exact Throwing.bind_of_error hbuffer

/-- It leaves the header alone, and what it wrote is a beginning of the message. -/
theorem serialize_left (h : Host) {e : Encoder} (he : e.Inv) (subCmd : UInt16) (m : Message)
    (checkCodeFunc : Option (List UInt8 → UInt16)) {err : PackError} {e' : Encoder}
    (hthrows : serialize h subCmd m checkCodeFunc e = (.error err, e')) :
    e'.Inv ∧ e'.packetHeader = e.packetHeader ∧
      ∃ written, written <+: m.bytes h ∧ e'.packet = e.packet ++ written := by
  rcases serialize_cases h he subCmd m checkCodeFunc with
    ⟨-, e'', heq, -⟩ | ⟨err', e'', herr, heq, hinv'⟩
  · rw [heq] at hthrows
    cases hthrows
  rw [heq] at hthrows
  cases hthrows
  have hleft := serialize_error h e subCmd m checkCodeFunc herr
  rw [heq] at hleft
  obtain ⟨written, hprefix, hcontent⟩ := (m.marshal_appends h).error he.pb herr
  have hpb : e'.pb = (m.marshal h e.pb).2 := congrArg (fun r => r.2.pb) hleft
  have hheader : e'.packetHeader = e.packetHeader := congrArg (fun r => r.2.packetHeader) hleft
  rw [← hpb] at hcontent
  exact ⟨hinv', hheader, written, hprefix, by rw [hinv'.packet_eq, he.packet_eq, hcontent]⟩

theorem serialize_allocates (h : Host) (subCmd : UInt16) (m : Message)
    (checkCodeFunc : Option (List UInt8 → UInt16)) {e : Encoder} (he : e.Inv)
    (halloc : e.pb.Allocates) :
    (serialize h subCmd m checkCodeFunc e).2.pb.Allocates := by
  have hself : PackBuffer.Alike 0 e.pb e.pb := .of_content he.pb he.pb halloc halloc rfl
  have hmarshal := (m.wire.push_respects h m.value e.pb e.pb hself).2.allocates_left
  have hbuffer : (onBuffer (m.marshal h) e).2.pb.Allocates := hmarshal
  unfold serialize
  rcases Throwing.bind_split (onBuffer (m.marshal h)) _ e with
    ⟨u, mid, heq, hbind⟩ | ⟨err, mid, heq, hbind⟩ <;>
    rw [heq] at hbuffer <;> rw [hbind]
  · exact onBuffer_allocates (replaceHeader_allocates h _) _ hbuffer
  · exact hbuffer

/-- The header of a finished packet depends on the bytes behind the reserved ones. -/
theorem finalHeader_congr {header : PacketHeader} {content content' : List UInt8}
    (hlen : content.length = content'.length)
    (hbody : content.drop headerSize = content'.drop headerSize) (subCmd : UInt16)
    (checkCodeFunc : Option (List UInt8 → UInt16)) :
    finalHeader header subCmd checkCodeFunc content =
      finalHeader header subCmd checkCodeFunc content' := by
  simp only [finalHeader, hlen, hbody]

/-- `serialize` returns on both encoders, which then hold the same packet, or it
throws the same on both. -/
theorem serialize_alike (h : Host) {n : Nat} (hn : n ≤ headerSize) {a b : Encoder}
    (hab : Alike n a b) (subCmd : UInt16) (m : Message)
    (checkCodeFunc : Option (List UInt8 → UInt16)) :
    let run := serialize h subCmd m checkCodeFunc
    ((run a).1 = .ok () ∧ (run b).1 = .ok () ∧ Alike 0 (run a).2 (run b).2) ∨
      ∃ err, (run a).1 = .error err ∧ (run b).1 = .error err ∧ Alike n (run a).2 (run b).2 := by
  intro run
  have halloca := serialize_allocates h subCmd m checkCodeFunc hab.inv_left
    hab.pb.allocates_left
  have hallocb := serialize_allocates h subCmd m checkCodeFunc hab.inv_right
    hab.pb.allocates_right
  obtain ⟨hsame, hmarshalled⟩ := m.wire.push_respects h m.value a.pb b.pb hab.pb
  change (m.marshal h a.pb).1 = (m.marshal h b.pb).1 at hsame
  change PackBuffer.Alike n (m.marshal h a.pb).2 (m.marshal h b.pb).2 at hmarshalled
  rcases serialize_cases h hab.inv_left subCmd m checkCodeFunc with
    ⟨hoka, a', heqa, ha, hheadera, hcontenta⟩ | ⟨err, a', herra, heqa, ha⟩ <;>
  rcases serialize_cases h hab.inv_right subCmd m checkCodeFunc with
    ⟨hokb, b', heqb, hb, hheaderb, hcontentb⟩ | ⟨err', b', herrb, heqb, hb⟩
  · left
    have hbody : (a.pb.content ++ m.bytes h).drop headerSize =
        (b.pb.content ++ m.bytes h).drop headerSize := by
      have hlea := hab.inv_left.headerSize_le
      have hleb := hab.inv_right.headerSize_le
      have hpacket := hab.body_eq hn
      rw [hab.inv_left.packet_eq, hab.inv_right.packet_eq] at hpacket
      rw [← hab.inv_left.pb.length_content] at hlea
      rw [← hab.inv_right.pb.length_content] at hleb
      rw [List.drop_append_of_le_length hlea, List.drop_append_of_le_length hleb, hpacket]
    have hlen : (a.pb.content ++ m.bytes h).length = (b.pb.content ++ m.bytes h).length := by
      rw [List.length_append, List.length_append, hab.inv_left.pb.length_content,
        hab.inv_right.pb.length_content, hab.pb.size]
    have hheader : a'.packetHeader = b'.packetHeader := by
      rw [hheadera, hheaderb, hab.header]
      exact finalHeader_congr hlen hbody subCmd checkCodeFunc
    simp only [run, heqa, heqb] at halloca hallocb ⊢
    refine ⟨trivial, trivial, .of_content ha hb hheader halloca hallocb ?_⟩
    rw [hcontenta, hcontentb, hheader, hbody]
  · rw [hoka, herrb] at hsame
    cases hsame
  · rw [herra, hokb] at hsame
    cases hsame
  · right
    rw [herra] at hsame
    have hlefta := serialize_error h a subCmd m checkCodeFunc herra
    have hleftb := serialize_error h b subCmd m checkCodeFunc hsame.symm
    have hinva : (run a).2.Inv := by simp only [run, heqa]; exact ha
    have hinvb : (run b).2.Inv := by simp only [run, heqb]; exact hb
    refine ⟨err, ?_⟩
    simp only [run, hlefta, hleftb] at hinva hinvb ⊢
    exact ⟨trivial, trivial, hinva, hinvb, hab.header, hmarshalled⟩

/-! ## Runs on two encoders -/

/-- The storage which the call itself brings along is there. -/
def Op.Allocates : Op → Prop
  | .copy mallocs => ∀ i, (mallocs i).isSome = true
  | _ => True

/-- The call is a `serialize` which returns normally. -/
def Op.Completes (h : Host) (e : Encoder) : Op → Prop
  | .serialize subCmd m checkCodeFunc =>
      (Encoder.serialize h subCmd m checkCodeFunc e).1 = .ok ()
  | _ => False

/-- The encoder at the end of a run. -/
def run (h : Host) : List Op → Encoder → Encoder
  | [], e => e
  | op :: ops, e => run h ops (op.exec h e).2

/-- What the calls of a run return or throw. -/
def outcomes (h : Host) (ops : List Op) (e : Encoder) : List (Except PackError Unit) :=
  (trace h ops e).map fun step => (step.1.exec h step.2).1

/-- Some `serialize` of the run returned normally. -/
def Completed (h : Host) (ops : List Op) (e : Encoder) : Prop :=
  ∃ step ∈ trace h ops e, step.1.Completes h step.2

theorem Op.exec_copy (h : Host) {mallocs : Nat → Malloc} {e e' : Encoder}
    (hcopy : Encoder.copy mallocs e = .ok e') :
    Op.exec h (.copy mallocs) e = (.ok (), e') := by
  show becomeCopy mallocs e = _
  unfold becomeCopy
  split
  · rename_i e'' hcopy'
    rw [hcopy] at hcopy'
    cases hcopy'
    rfl
  · rename_i err hcopy'
    rw [hcopy] at hcopy'
    cases hcopy'

theorem Op.exec_alike (h : Host) {n : Nat} (hn : n ≤ headerSize) {a b : Encoder}
    (hab : Alike n a b) (op : Op) (hop : op.Allocates) :
    (op.exec h a).1 = (op.exec h b).1 ∧
      Alike n (op.exec h a).2 (op.exec h b).2 ∧
      (op.Completes h a → Alike 0 (op.exec h a).2 (op.exec h b).2) := by
  have hedit : ∀ edit : PacketHeader → PacketHeader,
      Alike n (Encoder.editHeader edit a).2 (Encoder.editHeader edit b).2 := fun edit =>
    ⟨hab.inv_left.update _ hab.inv_left.pb hab.inv_left.headerSize_le,
      hab.inv_right.update _ hab.inv_right.pb hab.inv_right.headerSize_le,
      congrArg edit hab.header, hab.pb⟩
  cases op with
  | setSeq seq => exact ⟨rfl, hedit _, False.elim⟩
  | editHeader edit => exact ⟨rfl, hedit edit, False.elim⟩
  | clear =>
      obtain ⟨hoka, hokb, hcleared⟩ := clear_alike hn hab
      exact ⟨hoka.trans hokb.symm, hcleared, False.elim⟩
  | serialize subCmd m checkCodeFunc =>
      rcases serialize_alike h hn hab subCmd m checkCodeFunc with
        ⟨hoka, hokb, hsame⟩ | ⟨err, herra, herrb, hpart⟩
      · exact ⟨hoka.trans hokb.symm, hsame.weaken hn, fun _ => hsame⟩
      · refine ⟨herra.trans herrb.symm, hpart, fun hok => ?_⟩
        rw [Op.Completes, herra] at hok
        cases hok
  | copy mallocs =>
      have hmallocs : ∀ i, (mallocs i).isSome = true := hop
      obtain ⟨a', hcopya, halloca⟩ := copy_allocates hmallocs hab.inv_left
      obtain ⟨b', hcopyb, hallocb⟩ := copy_allocates hmallocs hab.inv_right
      obtain ⟨ha, hheadera, hcontenta⟩ := copy_ok hab.inv_left hcopya
      obtain ⟨hb, hheaderb, hcontentb⟩ := copy_ok hab.inv_right hcopyb
      have hlena : a'.pb.size = a.pb.size := by
        rw [← ha.pb.length_content, hcontenta, hab.inv_left.pb.length_content]
      have hlenb : b'.pb.size = b.pb.size := by
        rw [← hb.pb.length_content, hcontentb, hab.inv_right.pb.length_content]
      rw [Op.exec_copy h hcopya, Op.exec_copy h hcopyb]
      refine ⟨rfl, ⟨ha, hb, by rw [hheadera, hheaderb, hab.header], ?_⟩, False.elim⟩
      exact {
        inv_left := ha.pb
        inv_right := hb.pb
        allocates_left := halloca
        allocates_right := hallocb
        le_size := hlena ▸ hab.pb.le_size
        size := by rw [hlena, hlenb, hab.pb.size]
        content := by rw [hcontenta, hcontentb, hab.pb.content] }

/-- A run answers the same on two encoders which agree from `n` on, and once it
completed a packet they agree altogether. -/
theorem run_alike (h : Host) {n : Nat} (hn : n ≤ headerSize) {a b : Encoder}
    (hab : Alike n a b) (ops : List Op) (hops : ∀ op ∈ ops, op.Allocates) :
    outcomes h ops a = outcomes h ops b ∧ Alike n (run h ops a) (run h ops b) ∧
      (Completed h ops a → Alike 0 (run h ops a) (run h ops b)) := by
  induction ops generalizing n a b with
  | nil =>
      refine ⟨rfl, hab, ?_⟩
      rintro ⟨step, hmem, -⟩
      cases hmem
  | cons op ops ih =>
      obtain ⟨hop, hops'⟩ := List.forall_mem_cons.mp hops
      obtain ⟨hsame, hnext, hcomplete⟩ := op.exec_alike h hn hab hop
      obtain ⟨hrest, hend, hcompleted⟩ := ih hn hnext hops'
      refine ⟨?_, hend, ?_⟩
      · unfold outcomes trace
        rw [List.map_cons, List.map_cons, hsame]
        exact congrArg _ hrest
      · rintro ⟨step, hmem, hstep⟩
        rcases List.mem_cons.mp hmem with rfl | hmem
        · exact (ih (Nat.zero_le _) (hcomplete hstep) hops').2.1
        · exact hcompleted ⟨step, hmem, hstep⟩

/-- A run cannot tell two encoders apart by what is returned and thrown, by the
header fields, the size and the bytes behind the reserved ones. -/
structure AnswersAlike (h : Host) (ops : List Op) (a b : Encoder) : Prop where
  outcomes : outcomes h ops a = outcomes h ops b
  packetHeader : (run h ops a).packetHeader = (run h ops b).packetHeader
  size : (run h ops a).size = (run h ops b).size
  body : (run h ops a).packet.drop headerSize = (run h ops b).packet.drop headerSize

theorem Alike.answers {h : Host} {n : Nat} (hn : n ≤ headerSize) {a b : Encoder}
    (hab : Alike n a b) {ops : List Op} (hops : ∀ op ∈ ops, op.Allocates) :
    AnswersAlike h ops a b := by
  obtain ⟨hsame, hend, -⟩ := run_alike h hn hab ops hops
  exact ⟨hsame, hend.header, hend.size_eq, hend.body_eq hn⟩

/-! ## The reserved bytes -/

theorem Inv.headerSize_le_packet {e : Encoder} (he : e.Inv) : headerSize ≤ e.packet.length := by
  rw [he.packet_eq, he.pb.length_content]
  exact he.headerSize_le

theorem clear_packet {e e' : Encoder} (he : e.Inv) (hclear : clear e = (.ok (), e')) :
    e'.packet = e.packet.take headerSize := by
  obtain ⟨e'', heq, he'', -, hcontent⟩ := clear_spec he
  rw [heq] at hclear
  cases hclear
  rw [he''.packet_eq, he.packet_eq, hcontent]

theorem Op.exec_copy_packet (h : Host) (mallocs : Nat → Malloc) {e : Encoder} (he : e.Inv) :
    (Op.exec h (.copy mallocs) e).2.packet = e.packet := by
  show (becomeCopy mallocs e).2.packet = e.packet
  unfold becomeCopy
  split
  · rename_i e' hcopy
    obtain ⟨he', -, hcontent⟩ := copy_ok he hcopy
    rw [he'.packet_eq, he.packet_eq, hcontent]
  · rfl

/-- Nothing but a `serialize` which returns writes the reserved bytes. -/
theorem Op.exec_reserved (h : Host) (op : Op) {e : Encoder} (he : e.Inv)
    (hop : ¬ op.Completes h e) :
    (op.exec h e).2.packet.take headerSize = e.packet.take headerSize := by
  cases op with
  | setSeq seq => rfl
  | editHeader edit => rfl
  | clear =>
      obtain ⟨e', heq, -⟩ := clear_spec he
      show (Encoder.clear e).2.packet.take headerSize = _
      rw [heq, clear_packet he heq, List.take_take, Nat.min_self]
  | serialize subCmd m checkCodeFunc =>
      show (Encoder.serialize h subCmd m checkCodeFunc e).2.packet.take headerSize = _
      rcases hrun : Encoder.serialize h subCmd m checkCodeFunc e with ⟨err | u, e'⟩
      · obtain ⟨-, -, written, -, hpacket⟩ := serialize_left h he subCmd m checkCodeFunc hrun
        rw [hpacket, List.take_append_of_le_length he.headerSize_le_packet]
      · exact absurd (by rw [Op.Completes, hrun]) hop
  | copy mallocs => rw [Op.exec_copy_packet h mallocs he]

theorem run_reserved (h : Host) (ops : List Op) {e : Encoder} (he : e.Inv)
    (hops : ¬ Completed h ops e) :
    (run h ops e).packet.take headerSize = e.packet.take headerSize := by
  induction ops generalizing e with
  | nil => rfl
  | cons op ops ih =>
      have hop : ¬ op.Completes h e := fun hcompletes =>
        hops ⟨(op, e), List.mem_cons_self, hcompletes⟩
      have hrest : ¬ Completed h ops (op.exec h e).2 := by
        rintro ⟨step, hmem, hcompletes⟩
        exact hops ⟨step, List.mem_cons_of_mem _ hmem, hcompletes⟩
      exact (ih (op.exec_inv h he) hrest).trans (op.exec_reserved h he hop)

/-! ## After `clear` -/

/-- A cleared encoder differs from a new one in the reserved bytes only. -/
theorem clear_alike_new {e fresh : Encoder} (he : e.Inv) (halloc : e.pb.Allocates)
    {mallocs : Nat → Malloc} (hnew : new mallocs = .ok fresh)
    (hfresh : fresh.pb.Allocates) :
    ∃ e', clear e = (.ok (), e') ∧ Alike headerSize e' fresh := by
  obtain ⟨e', heq, he', hheader, hcontent⟩ := clear_spec he
  obtain ⟨hinv, hcleared, hzeros⟩ := new_ok hnew
  have halloc' := clear_allocates e halloc
  rw [heq] at halloc'
  have hsize : e'.pb.size = headerSize := by
    rw [← he'.pb.length_content, hcontent, List.length_take, he.pb.length_content]
    exact Nat.min_eq_left he.headerSize_le
  have hsize' : fresh.pb.size = headerSize := by
    rw [← hinv.pb.length_content, hzeros, List.length_replicate]
  refine ⟨e', heq, he', hinv, hheader.trans hcleared.symm, ?_⟩
  exact {
    inv_left := he'.pb
    inv_right := hinv.pb
    allocates_left := halloc'
    allocates_right := hfresh
    le_size := hsize.ge
    size := hsize.trans hsize'.symm
    content := by
      rw [hcontent, hzeros, List.drop_eq_nil_of_le (List.length_take_le _ _),
        List.drop_eq_nil_of_le (List.length_replicate).le] }

/-- **The history of an encoder does not matter after `clear`**, but for the
reserved bytes, which are the old ones as long as no `serialize` has returned;
and a copy is as good as its source. -/
theorem history_free (h : Host) {e : Encoder} (he : Reachable h e) (halloc : e.pb.Allocates)
    {mallocs : Nat → Malloc} (hmallocs : ∀ i, (mallocs i).isSome = true) :
    (e.size = e.pb.size ∧ e.packet.length = e.size ∧ headerSize ≤ e.size) ∧
      (∃ e' fresh, clear e = (.ok (), e') ∧ new mallocs = .ok fresh ∧
        ∀ ops : List Op, (∀ op ∈ ops, op.Allocates) →
          AnswersAlike h ops e' fresh ∧
            (Completed h ops e' → (run h ops e').packet = (run h ops fresh).packet) ∧
            (¬ Completed h ops e' →
              (run h ops e').packet.take headerSize = e.packet.take headerSize)) ∧
      ∃ copied, copy mallocs e = .ok copied ∧
        copied.packetHeader = e.packetHeader ∧ copied.packet = e.packet ∧
        ∀ ops : List Op, (∀ op ∈ ops, op.Allocates) →
          AnswersAlike h ops copied e ∧ (run h ops copied).packet = (run h ops e).packet := by
  have hinv := he.inv
  have hsize := hinv.size_eq
  refine ⟨⟨hsize, ?_, hsize ▸ hinv.headerSize_le⟩, ?_, ?_⟩
  · rw [hinv.packet_eq, hinv.pb.length_content, hsize]
  · obtain ⟨fresh, hnew, hfresh⟩ := new_allocates hmallocs
    obtain ⟨e', heq, halike⟩ := clear_alike_new hinv halloc hnew hfresh
    refine ⟨e', fresh, heq, hnew, fun ops hops => ⟨halike.answers le_rfl hops, ?_, ?_⟩⟩
    · intro hcompleted
      exact ((run_alike h le_rfl halike ops hops).2.2 hcompleted).packet_eq
    · intro hnone
      rw [run_reserved h ops halike.inv_left hnone, clear_packet hinv heq, List.take_take,
        Nat.min_self]
  · obtain ⟨copied, hcopy, hcopied⟩ := copy_allocates hmallocs hinv
    obtain ⟨hinv', hheader, hcontent⟩ := copy_ok hinv hcopy
    have halike : Alike 0 copied e := .of_content hinv' hinv hheader hcopied halloc hcontent
    refine ⟨copied, hcopy, hheader, halike.packet_eq, fun ops hops => ?_⟩
    exact ⟨halike.answers (Nat.zero_le _) hops,
      (run_alike h (Nat.zero_le _) halike ops hops).2.1.packet_eq⟩

theorem zeroMallocs_isSome (i : Nat) : (zeroMallocs i).isSome = true := rfl

/-- A packet without a body, on a new encoder. -/
theorem serialize_empty :
    ∃ e done, new zeroMallocs = .ok e ∧ e.packet = List.replicate 12 0 ∧
      serialize .x86 0 ⟨.voidmable, ()⟩ none e = (.ok (), done) ∧ Reachable .x86 done ∧
      done.pb.Allocates ∧ done.packet = [12, 0, 1, 0, 0, 0, 0, 0, 0, 0, 0, 0] := by
  obtain ⟨e, hnew, halloc⟩ := new_allocates zeroMallocs_isSome
  obtain ⟨he, hheader, hzeros⟩ := new_ok hnew
  have hallocdone := serialize_allocates .x86 0 ⟨.voidmable, ()⟩ none he halloc
  rcases serialize_cases .x86 he 0 ⟨.voidmable, ()⟩ none with
    ⟨-, done, heq, hdone, hfinal, hcontent⟩ | ⟨err, done, herr, -, -⟩
  · have hreach : Reachable .x86 (serialize .x86 0 ⟨.voidmable, ()⟩ none e).2 :=
      .step (.new hnew) (.serialize 0 ⟨.voidmable, ()⟩ none)
    rw [heq] at hallocdone hreach
    refine ⟨e, done, hnew, ?_, heq, hreach, hallocdone, ?_⟩
    · rw [he.packet_eq, hzeros]
      rfl
    · rw [hdone.packet_eq, hcontent, hfinal, hheader, hzeros]
      decide
  · cases herr

theorem history_free_empty :
    ∃ e, e.packet = [12, 0, 1, 0, 0, 0, 0, 0, 0, 0, 0, 0] ∧
      ∃ e' fresh, clear e = (.ok (), e') ∧ new zeroMallocs = .ok fresh ∧
        AnswersAlike .x86 [.setSeq 7, .serialize 1 ⟨.uint8, 5⟩ none] e' fresh ∧
        (run .x86 [.setSeq 7] e').packet.take headerSize =
          [12, 0, 1, 0, 0, 0, 0, 0, 0, 0, 0, 0] := by
  obtain ⟨e, done, -, -, -, hreach, halloc, hpacket⟩ := serialize_empty
  obtain ⟨-, ⟨e', fresh, hclear, hnew, hanswers⟩, -⟩ :=
    history_free .x86 hreach halloc zeroMallocs_isSome
  refine ⟨done, hpacket, e', fresh, hclear, hnew, (hanswers _ ?_).1, ?_⟩
  · intro op hop
    fin_cases hop <;> trivial
  · have hop : ∀ op ∈ [Op.setSeq 7], op.Allocates := List.forall_mem_singleton.mpr trivial
    have hnone : ¬ Completed .x86 [.setSeq 7] e' := by
      rintro ⟨step, hmem, hcompletes⟩
      cases List.mem_singleton.mp hmem
      exact hcompletes
    rw [(hanswers _ hop).2.2 hnone, hpacket]
    rfl

/-- After a packet and a `clear` the reserved bytes are not those of a new encoder. -/
theorem clear_keeps_reserved :
    ∃ e e' fresh, Reachable .x86 e ∧ e.pb.Allocates ∧ clear e = (.ok (), e') ∧
      new zeroMallocs = .ok fresh ∧ e'.packet ≠ fresh.packet := by
  obtain ⟨fresh, done, hnew, hzeros, -, hreach, halloc, hpacket⟩ := serialize_empty
  obtain ⟨e', hclear, he', -, hcontent⟩ := clear_spec hreach.inv
  refine ⟨done, e', fresh, hreach, halloc, hclear, hnew, ?_⟩
  rw [he'.packet_eq, hcontent, ← hreach.inv.packet_eq, hpacket, hzeros]
  decide

/-! ## A `serialize` which throws -/

end Encoder
end Net
end Deps
