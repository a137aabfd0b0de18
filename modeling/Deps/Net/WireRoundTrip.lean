import Deps.Net.Wire

/-!
# Decoding undoes encoding

`Wire.bytes` is the layout of a value: what `operator<<` appends.  The round trip
is proved for two hosts whose primitives agree (`Host.Agrees`), by induction over
the wire type, from one lemma for each pop and one for each container loop.
-/

namespace Deps
namespace Net

/-! ## Primitives of two hosts -/

namespace Host

/-- A `uint16_t` packed on host `a` is unpacked to the same value on host `b`. -/
def AgreesUint16 (a b : Host) : Prop :=
  ∀ x : UInt16, b.xhtons (UInt16.ofNat (b.load (a.store 2 (a.xhtons x).toNat))) = x

def AgreesUint32 (a b : Host) : Prop :=
  ∀ x : UInt32, b.xhtonl (UInt32.ofNat (b.load (a.store 4 (a.xhtonl x).toNat))) = x

def AgreesUint64 (a b : Host) : Prop :=
  ∀ x : UInt64, b.xhtonll (UInt64.ofNat (b.load (a.store 8 (a.xhtonll x).toNat))) = x

def AgreesInt64 (a b : Host) : Prop :=
  ∀ x : Int64,
    b.xhtonllSigned (UInt64.ofNat (b.load (a.store 8 (a.xhtonll x.toUInt64).toNat))).toInt64 = x

def AgreesDouble (a b : Host) : Prop :=
  ∀ x : UInt64, UInt64.ofNat (b.load (a.store 8 x.toNat)) = x

end Host

/-- Every primitive packed on host `a` is unpacked to the same value on host `b`. -/
structure Host.Agrees (a b : Host) : Prop where
  uint16 : a.AgreesUint16 b
  uint32 : a.AgreesUint32 b
  uint64 : a.AgreesUint64 b
  int64 : a.AgreesInt64 b
  double : a.AgreesDouble b

theorem Host.agrees_x86 : Host.Agrees .x86 .x86 where
  uint16 x := by
    have hx : x.toNat < 256 ^ 2 := x.toNat_lt
    simp [Host.xhtons, Host.swaps, Host.load_store .x86 hx]
  uint32 x := by
    have hx : x.toNat < 256 ^ 4 := x.toNat_lt
    simp [Host.xhtonl, Host.swaps, Host.load_store .x86 hx]
  uint64 x := by
    have hx : x.toNat < 256 ^ 8 := x.toNat_lt
    simp [Host.xhtonll, Host.swaps, Host.load_store .x86 hx]
  int64 x := by
    have hx : x.toUInt64.toNat < 256 ^ 8 := x.toUInt64.toNat_lt
    simp [Host.xhtonll, Host.xhtonllSigned, Host.swaps, Host.load_store .x86 hx]
  double x := by
    have hx : x.toNat < 256 ^ 8 := x.toNat_lt
    simp [Host.load_store .x86 hx]

namespace Wire

/-! ## The layout of a value -/

def bytes (h : Host) : {α : Type} → Wire α → α → List UInt8
  | _, .bool, sign => [if sign then 1 else 0]
  | _, .uint8, i8 => [i8]
  | _, .uint16, i16 => h.store 2 (h.xhtons i16).toNat
  | _, .uint32, i32 => h.store 4 (h.xhtonl i32).toNat
  | _, .uint64, i64 => h.store 8 (h.xhtonll i64).toNat
  | _, .int64, i64 => h.store 8 (h.xhtonll i64.toUInt64).toNat
  | _, .double, dbl => h.store 8 dbl.toNat
  | _, .string, str => h.store 2 (h.xhtons (UInt16.ofNat str.length)).toNat ++ str
  | _, .pair a b, p => bytes h a p.1 ++ bytes h b p.2
  | _, .vector a, c =>
      h.store 4 (h.xhtonl (UInt32.ofNat c.length)).toNat ++ c.flatMap (bytes h a)
  | _, .map _ a b, c =>
      h.store 4 (h.xhtonl (UInt32.ofNat c.size)).toNat ++
        c.entries.flatMap fun e => bytes h a e.1 ++ bytes h b e.2
  | _, .set _ a, c =>
      h.store 4 (h.xhtonl (UInt32.ofNat c.size)).toNat ++
        (OrderedSet.elements c).flatMap (bytes h a)
  | _, .voidmable, _ => []
  | _, .record field rest, p => bytes h field p.1 ++ bytes h rest p.2

/-- Every string inside a value satisfies `onString`, and the number of elements
of every container inside it satisfies `onCount`. -/
def All (onString : List UInt8 → Prop) (onCount : Nat → Prop) :
    {α : Type} → Wire α → α → Prop
  | _, .string, str => onString str
  | _, .pair a b, p => All onString onCount a p.1 ∧ All onString onCount b p.2
  | _, .vector a, c => onCount c.length ∧ ∀ x ∈ c, All onString onCount a x
  | _, .map _ a b, c =>
      onCount c.size ∧
        ∀ e ∈ c.entries, All onString onCount a e.1 ∧ All onString onCount b e.2
  | _, .set _ a, c =>
      onCount c.size ∧ ∀ x ∈ OrderedSet.elements c, All onString onCount a x
  | _, .record field rest, p => All onString onCount field p.1 ∧ All onString onCount rest p.2
  | _, _, _ => True

/-- Every container inside the value has fewer than `2 ^ 32` elements. -/
def ContainersFit {α : Type} (w : Wire α) (v : α) : Prop :=
  w.All (fun _ => True) (fun n => n < 2 ^ 32) v

/-- Every string inside the value has a length which `push_varstr` accepts. -/
def StringsFit {α : Type} (w : Wire α) (v : α) : Prop :=
  w.All (fun s => s.length ≤ 0xFFFF) (fun _ => True) v

/-! ## `operator<<` appends the layout -/

theorem pushEach_appends {α : Type} {push : α → PackM Unit} {layout : α → List UInt8}
    {fits : α → Prop} (hpush : ∀ x, Appends (push x) (layout x) (fits x)) (l : List α) :
    Appends (pushEach push l) (l.flatMap layout) (∀ x ∈ l, fits x) := by
  induction l with
  | nil => exact Appends.pure.congr rfl (by simp)
  | cons x rest ih =>
      exact ((hpush x).seq ih).congr (List.flatMap_cons ..).symm (by simp)

theorem pushVarstr_appends (h : Host) (s : List UInt8) :
    Appends (Pack.pushVarstr h s)
      (h.store 2 (h.xhtons (UInt16.ofNat s.length)).toNat ++ s) (s.length ≤ 0xFFFF) := by
  unfold Pack.pushVarstr
  split
  · exact (Appends.throw _ _).congr rfl (by simp; omega)
  · exact ((Appends.push _).seq (Appends.push s)).congr rfl (by simp; omega)

/-- **`operator<<` appends the layout**, or throws after a prefix of it. -/
theorem push_appends (h : Host) {α : Type} (w : Wire α) (v : α) :
    Appends (w.push h v) (w.bytes h v) (w.StringsFit v) := by
  induction w with
  | bool => exact Appends.push _
  | uint8 => exact Appends.push _
  | uint16 => exact Appends.push _
  | uint32 => exact Appends.push _
  | uint64 => exact Appends.push _
  | int64 => exact Appends.push _
  | double => exact Appends.push _
  | string => exact pushVarstr_appends h v
  | pair a b iha ihb => exact (iha v.1).seq (ihb v.2)
  | vector a ih =>
      exact ((Appends.push _).seq (pushEach_appends ih v)).congr rfl
        (by simp [StringsFit, All])
  | map order a b iha ihb =>
      have hentries := pushEach_appends (fun e => (iha e.1).seq (ihb e.2)) v.entries
      refine ((Appends.push _).seq hentries).congr rfl ?_
      simp [StringsFit, All]
  | set order a ih =>
      exact ((Appends.push _).seq (pushEach_appends ih (OrderedSet.elements v))).congr rfl
        (by simp [StringsFit, All])
  | voidmable => exact Appends.pure
  | record field rest ihf ihr => exact (ihf v.1).seq (ihr v.2)

/-! ## Pops on well-formed input -/

/-- The cursor stands before `tail`, and `m_size` admits reading all of it. -/
structure At (u : Unpack) (tail : List UInt8) : Prop where
  data_le : u.data ≤ u.input.length
  drop : u.input.drop u.data = tail
  room : tail.length ≤ u.size

/-- `u'` is `u` after consuming `bytes`, with `tail` still to come. -/
structure Consumed (u u' : Unpack) (bytes tail : List UInt8) : Prop where
  data : u'.data = u.data + bytes.length
  input : u'.input = u.input
  tail : At u' tail

theorem At.length_le {u : Unpack} {bytes tail : List UInt8} (h : At u (bytes ++ tail)) :
    u.data + bytes.length ≤ u.input.length := by
  have hlen := congrArg List.length h.drop
  have := h.data_le
  rw [List.length_drop, List.length_append] at hlen
  omega

/-- Moving the cursor over `bytes` while `m_size` keeps room for the tail. -/
theorem At.consumed {u : Unpack} {bytes tail : List UInt8} (h : At u (bytes ++ tail))
    {size : Nat} (hsize : tail.length ≤ size) :
    Consumed u ⟨u.input, u.data + bytes.length, size⟩ bytes tail where
  data := rfl
  input := rfl
  tail := {
    data_le := h.length_le
    drop := by rw [← List.drop_drop, h.drop, List.drop_left]
    room := hsize }

theorem Consumed.trans {u u' u'' : Unpack} {bytes bytes' tail : List UInt8}
    (h : Consumed u u' bytes (bytes' ++ tail)) (h' : Consumed u' u'' bytes' tail) :
    Consumed u u'' (bytes ++ bytes') tail where
  data := by rw [h'.data, h.data, List.length_append, Nat.add_assoc]
  input := h'.input.trans h.input
  tail := h'.tail

/-- The pop reads `bytes` as the value `b`. -/
def Pops {β : Type} (pop : UnpackM β) (bytes : List UInt8) (b : β) : Prop :=
  ∀ u tail, At u (bytes ++ tail) → ∃ u', pop u = (.ok b, u') ∧ Consumed u u' bytes tail

/-- On an input which goes on with `bytes`, a pop of that many bytes gets to its
cursor update. -/
theorem At.require_access {β : Type} {u : Unpack} {bytes tail : List UInt8}
    (h : At u (bytes ++ tail)) (what : String) (rest : List UInt8 → UnpackM β) :
    (do
      Unpack.require bytes.length what
      let bytes ← Unpack.access bytes.length
      rest bytes : UnpackM β) u = rest bytes u := by
  have hroom := h.room
  rw [List.length_append] at hroom
  rw [Unpack.require_access_eq, if_neg (by omega), if_pos h.length_le, h.drop, List.take_left]

/-- The usual pop reads any bytes of its width. -/
theorem pops_fixed {β : Type} {k : Nat} {bytes : List UInt8} (hlen : bytes.length = k)
    (what : String) (decode : List UInt8 → β) :
    Pops (do
      Unpack.require k what
      let bytes ← Unpack.access k
      Unpack.advance k
      pure (decode bytes)) bytes (decode bytes) := by
  subst hlen
  intro u tail hat
  have hroom := hat.room
  rw [List.length_append] at hroom
  exact ⟨⟨u.input, u.data + bytes.length, u.size - bytes.length⟩,
    hat.require_access what _, hat.consumed (by omega)⟩

/-- `pop_double` reads any eight bytes. -/
theorem pops_double_bytes (b : Host) {bytes : List UInt8} (hlen : bytes.length = 8) :
    Pops (Unpack.popDouble b) bytes (UInt64.ofNat (b.load bytes)) := by
  intro u tail hat
  have hroom := hat.room
  rw [List.length_append] at hroom
  -- `m_size` stays, which leaves more than enough room for the tail
  refine ⟨⟨u.input, u.data + bytes.length, u.size⟩, ?_, hat.consumed (by omega)⟩
  have hpop := hat.require_access "pop_double: not enough data" fun bytes' => do
    Unpack.advanceData bytes.length
    pure (UInt64.ofNat (b.load bytes'))
  rw [hlen] at hpop ⊢
  exact hpop

theorem pops_double {a b : Host} (hab : a.AgreesDouble b) (x : UInt64) :
    Pops (Unpack.popDouble b) (a.store 8 x.toNat) x := by
  have h := pops_double_bytes b (a.length_store 8 x.toNat)
  rw [hab x] at h
  exact h

theorem pops_uint8 (x : UInt8) : Pops Unpack.popUint8 [x] x := by
  have h := pops_fixed (show [x].length = 1 from rfl) "pop_uint8: not enough data"
    (fun bytes => UInt8.ofNat (Bytes.ofLE bytes))
  have hx : UInt8.ofNat (Bytes.ofLE [x]) = x := by simp [Bytes.ofLE]
  rw [hx] at h
  exact h

theorem pops_uint16 {a b : Host} (hab : a.AgreesUint16 b) (x : UInt16) :
    Pops (Unpack.popUint16 b) (a.store 2 (a.xhtons x).toNat) x := by
  have h := pops_fixed (a.length_store 2 (a.xhtons x).toNat) "pop_uint16: not enough data"
    (fun bytes => b.xhtons (UInt16.ofNat (b.load bytes)))
  rw [hab x] at h
  exact h

theorem pops_uint32 {a b : Host} (hab : a.AgreesUint32 b) (x : UInt32) :
    Pops (Unpack.popUint32 b) (a.store 4 (a.xhtonl x).toNat) x := by
  have h := pops_fixed (a.length_store 4 (a.xhtonl x).toNat) "pop_uint32: not enough data"
    (fun bytes => b.xhtonl (UInt32.ofNat (b.load bytes)))
  rw [hab x] at h
  exact h

/-- A count below `2 ^ 32` survives the cast to `uint32_t`. -/
theorem pops_count {a b : Host} (hab : a.AgreesUint32 b) {n : Nat} (hn : n < 2 ^ 32) :
    ∃ count : UInt32, count.toNat = n ∧
      Pops (Unpack.popUint32 b) (a.store 4 (a.xhtonl (UInt32.ofNat n)).toNat) count :=
  ⟨UInt32.ofNat n, UInt32.toNat_ofNat_of_lt' hn, pops_uint32 hab _⟩

theorem pops_varstr {a b : Host} (hab : a.AgreesUint16 b) {s : List UInt8}
    (hs : s.length ≤ 0xFFFF) :
    Pops (Unpack.popVarstr b) (a.store 2 (a.xhtons (UInt16.ofNat s.length)).toNat ++ s) s := by
  intro u tail hat
  rw [List.append_assoc] at hat
  obtain ⟨mid, hsize, hmid⟩ := pops_uint16 hab (UInt16.ofNat s.length) u _ hat
  have hlen : (UInt16.ofNat s.length).toNat = s.length :=
    UInt16.toNat_ofNat_of_lt' (by change s.length < 65536; omega)
  obtain ⟨u', hfetch, hu'⟩ :=
    pops_fixed (Eq.refl s.length) "pop_fetch_ptr: not enough data" id mid tail hmid.tail
  refine ⟨u', ?_, hmid.trans hu'⟩
  rw [Unpack.popVarstr, Throwing.bind_of_ok hsize, hlen]
  exact hfetch

/-! ## `operator>>` on well-formed input -/

/-- The extraction into a target holding `x` reads `bytes` as the value `v`. -/
def Decodes {α : Type} (extract : Extract α) (x : α) (bytes : List UInt8) (v : α) : Prop :=
  ∀ u tail, At u (bytes ++ tail) →
    ∃ u', extract u x = (.ok (), u', v) ∧ Consumed u u' bytes tail

theorem decodes_assign {α β : Type} {pop : UnpackM β} {f : β → α} {x v : α}
    {bytes : List UInt8} {b : β} (hpop : Pops pop bytes b) (hv : f b = v) :
    Decodes (assign pop f) x bytes v := by
  intro u tail hat
  obtain ⟨u', heq, hu'⟩ := hpop u tail hat
  refine ⟨u', ?_, hu'⟩
  rw [assign, heq]
  simp only [hv]

theorem decodes_pair {α β : Type} {first : Extract α} {second : Extract β} {x v : α × β}
    {bytes bytes' : List UInt8} (hfirst : Decodes first x.1 bytes v.1)
    (hsecond : Decodes second x.2 bytes' v.2) :
    Decodes (extractPair first second) x (bytes ++ bytes') v := by
  intro u tail hat
  rw [List.append_assoc] at hat
  obtain ⟨mid, heq, hmid⟩ := hfirst u _ hat
  obtain ⟨u', heq', hu'⟩ := hsecond mid tail hmid.tail
  refine ⟨u', ?_, hmid.trans hu'⟩
  rw [extractPair, heq]
  simp only [heq']

theorem decodes_nil {α : Type} {extract : Extract α} {x v : α}
    (h : ∀ u, extract u x = (.ok (), u, v)) : Decodes extract x [] v :=
  fun u _ hat => ⟨u, h u, rfl, rfl, hat⟩

/-- The loop of the vector reader, over elements which are all fresh. -/
theorem decodes_extractEach {α : Type} {extract : Extract α} {fresh : α}
    {layout : α → List UInt8} {l : List α}
    (h : ∀ v ∈ l, Decodes extract fresh (layout v) v) :
    Decodes (extractEach extract) (List.replicate l.length fresh) (l.flatMap layout) l := by
  induction l with
  | nil => exact decodes_nil fun _ => rfl
  | cons v rest ih =>
      intro u tail hat
      rw [List.flatMap_cons, List.append_assoc] at hat
      obtain ⟨mid, heq, hmid⟩ := h v (by simp) u _ hat
      obtain ⟨u', heq', hu'⟩ := ih (fun x hx => h x (List.mem_cons_of_mem _ hx)) mid tail hmid.tail
      refine ⟨u', ?_, by rw [List.flatMap_cons]; exact hmid.trans hu'⟩
      rw [List.length_cons, List.replicate_succ, extractEach, heq]
      simp only [heq']

/-- The loop of the map and set readers: the elements are inserted in order. -/
theorem decodes_insertEach {α γ : Type} {extract : Extract α} {fresh : α}
    {layout : α → List UInt8} {l : List α}
    (h : ∀ v ∈ l, Decodes extract fresh (layout v) v) (insert : α → γ → γ) (c : γ) :
    Decodes (insertEach extract fresh insert l.length) c (l.flatMap layout)
      (l.foldl (fun c v => insert v c) c) := by
  induction l generalizing c with
  | nil => exact decodes_nil fun _ => rfl
  | cons v rest ih =>
      intro u tail hat
      rw [List.flatMap_cons, List.append_assoc] at hat
      obtain ⟨mid, heq, hmid⟩ := h v (by simp) u _ hat
      obtain ⟨u', heq', hu'⟩ :=
        ih (fun x hx => h x (List.mem_cons_of_mem _ hx)) (insert v c) mid tail hmid.tail
      refine ⟨u', ?_, by rw [List.flatMap_cons]; exact hmid.trans hu'⟩
      rw [List.length_cons, insertEach, heq]
      exact heq'

section Containers

variable {a b : Host} {α β : Type}

theorem decodes_int64 (hab : a.AgreesInt64 b) (v : Int64) :
    Decodes (extract b .int64) (fresh .int64) (bytes a .int64 v) v := by
  refine decodes_assign (pops_fixed (a.length_store 8 (a.xhtonll v.toUInt64).toNat) _
    fun bytes => (b.xhtonllSigned (UInt64.ofNat (b.load bytes)).toInt64).toUInt64) ?_
  rw [hab v]
  exact Int64.toInt64_toUInt64 v

theorem decodes_uint64 (hab : a.AgreesUint64 b) (v : UInt64) :
    Decodes (extract b .uint64) (fresh .uint64) (bytes a .uint64 v) v :=
  decodes_assign (pops_fixed (a.length_store 8 (a.xhtonll v).toNat) _
    fun bytes => b.xhtonll (UInt64.ofNat (b.load bytes))) (hab v)

theorem decodes_vector (hab : a.AgreesUint32 b) (x : Wire α) {v : List α}
    (hcount : v.length < 2 ^ 32)
    (h : ∀ e ∈ v, Decodes (x.extract b) x.fresh (x.bytes a e) e) :
    Decodes (extract b (.vector x)) [] (bytes a (.vector x) v) v := by
  intro u tail hat
  rw [bytes, List.append_assoc] at hat
  obtain ⟨count, hcount, hpop⟩ := pops_count hab hcount
  obtain ⟨mid, heq, hmid⟩ := hpop u _ hat
  obtain ⟨u', heq', hu'⟩ := decodes_extractEach h mid tail hmid.tail
  refine ⟨u', ?_, hmid.trans hu'⟩
  simp only [extract, heq]
  -- an empty vector is not resized, but the fresh target is empty already
  by_cases hzero : count = 0
  · have hv : v = [] := List.eq_nil_of_length_eq_zero (by rw [← hcount, hzero]; rfl)
    subst hv
    rw [if_pos hzero]
    exact heq'
  · rw [if_neg hzero, hcount]
    simpa [resizeVector, fresh] using heq'

theorem decodes_map (hab : a.AgreesUint32 b) {order : KeyOrder α} (x : Wire α) (y : Wire β)
    {v : OrderedMap order β} (hcount : v.size < 2 ^ 32)
    (h : ∀ e ∈ v.entries, Decodes (extractPair (x.extract b) (y.extract b))
      (x.fresh, y.fresh) (x.bytes a e.1 ++ y.bytes a e.2) e) :
    Decodes (extract b (.map order x y)) (OrderedMap.empty order β)
      (bytes a (.map order x y) v) v := by
  intro u tail hat
  rw [bytes, List.append_assoc] at hat
  obtain ⟨count, hcount, hpop⟩ := pops_count hab hcount
  obtain ⟨mid, heq, hmid⟩ := hpop u _ hat
  -- the entries travel in ascending order, so inserting them rebuilds the map
  have hloop := decodes_insertEach h (fun e c => c.insert e.1 e.2) (OrderedMap.empty order β)
  rw [v.foldl_insert_empty] at hloop
  obtain ⟨u', heq', hu'⟩ := hloop mid tail hmid.tail
  refine ⟨u', ?_, hmid.trans hu'⟩
  simp only [extract, heq, hcount]
  exact heq'

theorem decodes_set (hab : a.AgreesUint32 b) {order : KeyOrder α} (x : Wire α)
    {v : OrderedSet order} (hcount : v.size < 2 ^ 32)
    (h : ∀ e ∈ OrderedSet.elements v, Decodes (x.extract b) x.fresh (x.bytes a e) e) :
    Decodes (extract b (.set order x)) (OrderedMap.empty order Unit)
      (bytes a (.set order x) v) v := by
  intro u tail hat
  rw [bytes, List.append_assoc] at hat
  obtain ⟨count, hcount, hpop⟩ := pops_count hab hcount
  obtain ⟨mid, heq, hmid⟩ := hpop u _ hat
  have hloop := decodes_insertEach h (fun e c => OrderedMap.insert c e ())
    (OrderedMap.empty order Unit)
  have hrebuild : (OrderedSet.elements v).foldl (fun c e => OrderedMap.insert c e ())
      (OrderedMap.empty order Unit) = v := by
    rw [OrderedSet.elements, List.foldl_map]
    exact v.foldl_insert_empty
  have hlen : (OrderedSet.elements v).length = v.size := List.length_map _
  rw [hrebuild, hlen] at hloop
  obtain ⟨u', heq', hu'⟩ := hloop mid tail hmid.tail
  refine ⟨u', ?_, hmid.trans hu'⟩
  simp only [extract, heq, hcount]
  exact heq'

end Containers

/-- **`operator>>` into a fresh object reads back the layout**, on a host which
agrees with the one that wrote it. -/
theorem extract_bytes (a b : Host) (hab : a.Agrees b) {α : Type} (w : Wire α) (v : α)
    (hs : w.StringsFit v) (hc : w.ContainersFit v) :
    Decodes (w.extract b) w.fresh (w.bytes a v) v := by
  induction w with
  | bool =>
      refine decodes_assign (pops_uint8 (if v then 1 else 0)) ?_
      cases v <;> rfl
  | uint8 => exact decodes_assign (pops_uint8 v) rfl
  | uint16 => exact decodes_assign (pops_uint16 hab.uint16 v) rfl
  | uint32 => exact decodes_assign (pops_uint32 hab.uint32 v) rfl
  | uint64 => exact decodes_uint64 hab.uint64 v
  | int64 => exact decodes_int64 hab.int64 v
  | double => exact decodes_assign (pops_double hab.double v) rfl
  | string => exact decodes_assign (pops_varstr hab.uint16 hs) rfl
  | pair x y ihx ihy => exact decodes_pair (ihx v.1 hs.1 hc.1) (ihy v.2 hs.2 hc.2)
  | vector x ih =>
      exact decodes_vector hab.uint32 x hc.1 fun e he => ih e (hs.2 e he) (hc.2 e he)
  | map order x y ihx ihy =>
      exact decodes_map hab.uint32 x y hc.1 fun e he =>
        decodes_pair (ihx e.1 (hs.2 e he).1 (hc.2 e he).1) (ihy e.2 (hs.2 e he).2 (hc.2 e he).2)
  | set order x ih =>
      exact decodes_set hab.uint32 x hc.1 fun e he => ih e (hs.2 e he) (hc.2 e he)
  | voidmable => exact decodes_nil fun _ => rfl
  | record x y ihx ihy => exact decodes_pair (ihx v.1 hs.1 hc.1) (ihy v.2 hs.2 hc.2)

/-- **Decode undoes encode.**  When `operator<<` returns normally on some packet
buffer, it appended bytes `b` from which, followed by any `r`, `operator>>` reads
the value back into a fresh object and stops right behind `b`. -/
theorem decode_encode {α : Type} (w : Wire α) (v : α) (hc : w.ContainersFit v)
    {st st' : PackBuffer} (hst : st.Inv) (hpush : w.push .x86 v st = (.ok (), st')) :
    ∃ b, st'.content = st.content ++ b ∧
      ∀ r, ∃ u', w.extract .x86 (Unpack.new (b ++ r)) w.fresh = (.ok (), u', v) ∧
        u'.data = b.length := by
  have happends := push_appends .x86 w v
  obtain ⟨hs, hcontent⟩ := happends.ok hst (by rw [hpush])
  rw [hpush] at hcontent
  refine ⟨w.bytes .x86 v, hcontent, fun r => ?_⟩
  have hat : At (Unpack.new (w.bytes .x86 v ++ r)) (w.bytes .x86 v ++ r) :=
    ⟨Nat.zero_le _, rfl, le_rfl⟩
  obtain ⟨u', heq, hu'⟩ := extract_bytes .x86 .x86 Host.agrees_x86 w v hs hc _ r hat
  exact ⟨u', heq, by simpa [Unpack.new] using hu'.data⟩

/-- A record of a vector of pairs and a double. -/
theorem decode_encode_record :
    let w : Wire (List (UInt8 × List UInt8) × (UInt64 × Unit)) :=
      .record (.vector (.pair .uint8 .string)) (.record .double .voidmable)
    let v := ([(1, [104, 105]), (2, [])], (0x3ff0000000000000, ()))
    let st := PackBuffer.new fun _ => some fun _ => 0
    ∃ b, (w.push .x86 v st).2.content = st.content ++ b ∧
      ∀ r, ∃ u', w.extract .x86 (Unpack.new (b ++ r)) w.fresh = (.ok (), u', v) ∧
        u'.data = b.length := by
  intro w v st
  have hst : st.Inv := PackBuffer.inv_new _
  have halloc : st.Allocates := fun _ => rfl
  have hfits : w.StringsFit v ∧ w.ContainersFit v := by
    simp [w, v, StringsFit, ContainersFit, All]
  have hlen : (w.bytes .x86 v).length = 20 := rfl
  have hroom : st.size + (w.bytes .x86 v).length ≤ 65536 := by
    show 0 + _ ≤ _
    omega
  have hok := (push_appends .x86 w v).room hst hfits.1 halloc hroom
  have hpush : w.push .x86 v st = (.ok (), (w.push .x86 v st).2) := by
    rw [← hok.1, Prod.mk.eta]
  exact decode_encode w v hfits.2 hst hpush

end Wire
end Net
end Deps
