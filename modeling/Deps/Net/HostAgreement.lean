import Deps.Lib.HalfSwaps
import Deps.Net.Framing
import Deps.Net.TakenBytes

/-!
# Which hosts understand each other

The branch which `net/marshall.h` selects by CPU family decides, together with
the byte order of the host, in which order the bytes of an integer travel.  A
`double` is copied as it lies in memory, and `pop_int64` swaps a signed integer.
`Wire.portable` says for two hosts and a wire type whether every value packed on
the first host is unpacked as itself on the second one.
-/

namespace Deps
namespace Net

open Bytes

namespace Host

/-- Whether the most significant byte of an unsigned integer travels first: a swap
on a little-endian host does that, and a swap on a big-endian host undoes it. -/
def networkOrder : Host → Bool
  | arm => true
  | x86 | bigEndian => false

/-- The integer which `XHTONS`, `XHTONL` and `XHTONLL` make of one of `width` bytes. -/
def order (h : Host) (width n : Nat) : Nat := if h.swaps then swap width n else n

/-! ## The swaps reverse the bytes -/

theorem toNat_swapUInt16 (x : UInt16) : (swapUInt16 x).toNat = swap 2 x.toNat := by
  have hbyte : ∀ y : BitVec 8, (id y).toNat = swap 1 y.toNat := by
    intro y
    simp [swap, toLE, ofLE]
  have hswap := HalfSwaps.toNat_swap (w := 8) (k := 1) rfl id hbyte x.toBitVec
  rwa [HalfSwaps.swap_id] at hswap

theorem toNat_swapUInt32 (x : UInt32) : (swapUInt32 x).toNat = swap 4 x.toNat := by
  have hhalf : ∀ y : BitVec 16, (swapUInt16 ⟨y⟩).toBitVec.toNat = swap 2 y.toNat :=
    fun y => toNat_swapUInt16 ⟨y⟩
  exact HalfSwaps.toNat_swap (w := 16) (k := 2) rfl _ hhalf x.toBitVec

theorem toNat_swapUInt64 (x : UInt64) : (swapUInt64 x).toNat = swap 8 x.toNat := by
  have hhalf : ∀ y : BitVec 32, (swapUInt32 ⟨y⟩).toBitVec.toNat = swap 4 y.toNat :=
    fun y => toNat_swapUInt32 ⟨y⟩
  exact HalfSwaps.toNat_swap (w := 32) (k := 4) rfl _ hhalf x.toBitVec

theorem toNat_xhtons (h : Host) (x : UInt16) : (h.xhtons x).toNat = h.order 2 x.toNat := by
  rw [xhtons, order]
  split
  · exact toNat_swapUInt16 x
  · rfl

theorem toNat_xhtonl (h : Host) (x : UInt32) : (h.xhtonl x).toNat = h.order 4 x.toNat := by
  rw [xhtonl, order]
  split
  · exact toNat_swapUInt32 x
  · rfl

theorem toNat_xhtonll (h : Host) (x : UInt64) : (h.xhtonll x).toNat = h.order 8 x.toNat := by
  rw [xhtonll, order]
  split
  · exact toNat_swapUInt64 x
  · rfl

/-! ## Integers on the wire -/

theorem store_order (h : Host) (width n : Nat) :
    h.store width (h.order width n) =
      if h.networkOrder then (toLE width n).reverse else toLE width n := by
  cases h <;> simp [store, order, swaps, networkOrder, toLE_swap]

theorem order_load (h : Host) (bytes : List UInt8) :
    h.order bytes.length (h.load bytes) =
      if h.networkOrder then ofLE bytes.reverse else ofLE bytes := by
  cases h with
  | x86 => rfl
  | arm => exact swap_ofLE bytes
  | bigEndian =>
      have h := swap_ofLE bytes.reverse
      rwa [List.length_reverse, List.reverse_reverse] at h

/-- An integer packed on `a` and unpacked on `b`. -/
theorem order_store (a b : Host) {width n : Nat} (hn : n < 256 ^ width) :
    b.order width (b.load (a.store width (a.order width n))) =
      if a.networkOrder = b.networkOrder then n else swap width n := by
  have hload := b.order_load (a.store width (a.order width n))
  rw [length_store] at hload
  rw [hload, store_order]
  cases ha : a.networkOrder <;> cases hb : b.networkOrder <;>
    simp [ofLE_toLE_of_lt hn, swap]

theorem load_lt (h : Host) (bytes : List UInt8) : h.load bytes < 256 ^ bytes.length := by
  cases h with
  | x86 | arm => exact ofLE_lt bytes
  | bigEndian =>
      have h := ofLE_lt bytes.reverse
      rwa [List.length_reverse] at h

theorem agreesUint16_of_eq {a b : Host} (hab : a.networkOrder = b.networkOrder) :
    a.AgreesUint16 b := by
  intro x
  have hlt := b.load_lt (a.store 2 (a.xhtons x).toNat)
  rw [length_store] at hlt
  apply UInt16.toNat_inj.mp
  rw [toNat_xhtons, UInt16.toNat_ofNat_of_lt' hlt, toNat_xhtons, order_store a b x.toNat_lt,
    if_pos hab]

theorem agreesUint32_of_eq {a b : Host} (hab : a.networkOrder = b.networkOrder) :
    a.AgreesUint32 b := by
  intro x
  have hlt := b.load_lt (a.store 4 (a.xhtonl x).toNat)
  rw [length_store] at hlt
  apply UInt32.toNat_inj.mp
  rw [toNat_xhtonl, UInt32.toNat_ofNat_of_lt' hlt, toNat_xhtonl, order_store a b x.toNat_lt,
    if_pos hab]

theorem agreesUint64_of_eq {a b : Host} (hab : a.networkOrder = b.networkOrder) :
    a.AgreesUint64 b := by
  intro x
  have hlt := b.load_lt (a.store 8 (a.xhtonll x).toNat)
  rw [length_store] at hlt
  apply UInt64.toNat_inj.mp
  rw [toNat_xhtonll, UInt64.toNat_ofNat_of_lt' hlt, toNat_xhtonll, order_store a b x.toNat_lt,
    if_pos hab]

/-- `pop_int64` is right where it does not swap. -/
theorem agreesInt64_x86 {a : Host} (ha : a.networkOrder = false) : a.AgreesInt64 .x86 := by
  intro x
  have horder : a.networkOrder = x86.networkOrder := ha
  have hload := agreesUint64_of_eq horder x.toUInt64
  change UInt64.ofNat (x86.load (a.store 8 (a.xhtonll x.toUInt64).toNat)) = x.toUInt64 at hload
  show (UInt64.ofNat (x86.load (a.store 8 (a.xhtonll x.toUInt64).toNat))).toInt64 = x
  rw [hload]
  exact Int64.toInt64_toUInt64 x

theorem agreesDouble_of_eq {a b : Host} (hab : (a == bigEndian) = (b == bigEndian)) :
    a.AgreesDouble b := by
  intro x
  have hx : x.toNat < 256 ^ 8 := x.toNat_lt
  have hload : b.load (a.store 8 x.toNat) = x.toNat := by
    cases a <;> cases b <;> first | exact absurd hab (by decide) | skip
    all_goals simp [load, store, ofLE_toLE_of_lt hx]
  rw [hload, UInt64.ofNat_toNat]

end Host
namespace Wire

/-! ## How far an extraction gets -/

theorem length_bytes_fresh (h : Host) {α : Type} (w : Wire α) :
    (w.bytes h w.fresh).length = w.minLength := by
  induction w with
  | pair x y ihx ihy | record x y ihx ihy =>
      rw [bytes, fresh, List.length_append, ihx, ihy, minLength]
  | _ => simp [bytes, fresh, minLength, OrderedMap.empty, OrderedSet.elements]

theorem minLength_pos {α : Type} {w : Wire α} (hw : w.occupies = true) : 0 < w.minLength := by
  rw [← length_bytes_fresh .x86 w]
  exact w.length_bytes_pos .x86 w.fresh hw

/-- The cursor has moved over at least `n` bytes, and is not behind the input. -/
structure Advanced (n : Nat) (u u' : Unpack) : Prop where
  input : u'.input = u.input
  data : u.data + n ≤ u'.data
  inside : u.data ≤ u.input.length → u'.data ≤ u'.input.length

theorem Advanced.trans {n n' : Nat} {u u' u'' : Unpack} (h : Advanced n u u')
    (h' : Advanced n' u' u'') : Advanced (n + n') u u'' where
  input := h'.input.trans h.input
  data := by
    have hdata := h.data
    have hdata' := h'.data
    omega
  inside hu := h'.inside (h.inside hu)

theorem Advanced.mono {n n' : Nat} {u u' : Unpack} (h : Advanced n u u') (hn : n' ≤ n) :
    Advanced n' u u' :=
  { h with data := (Nat.add_le_add_left hn _).trans h.data }

theorem Advanced.refl (u : Unpack) : Advanced 0 u u := ⟨rfl, Nat.le_refl _, id⟩

def PopAdvances {β : Type} (pop : UnpackM β) (n : Nat) : Prop :=
  ∀ u b u', pop u = (.ok b, u') → Advanced n u u'

/-- An extraction which returns has moved the cursor. -/
def Advances {α : Type} (extract : Extract α) (n : Nat) : Prop :=
  ∀ u x u' y, extract u x = (.ok (), u', y) → Advanced n u u'

section

variable {α β γ : Type}

theorem length_extractEach (extract : Extract α) (u : Unpack) (l : List α) :
    (extractEach extract u l).2.2.length = l.length := by
  induction l generalizing u with
  | nil => rfl
  | cons x rest ih =>
      rw [extractEach]
      rcases extract u x with ⟨e | ⟨⟩, mid, y⟩
      · rfl
      · exact congrArg (· + 1) (ih mid)

theorem advances_insertEach {extract : Extract α} {n : Nat} (h : Advances extract n) {fresh : α}
    {insert : α → γ → γ} {count : Nat} :
    Advances (insertEach extract fresh insert count) (count * n) := by
  induction count with
  | zero =>
      intro u c u' c' hextract
      cases hextract
      rw [Nat.zero_mul]
      exact .refl _
  | succ count ih =>
      intro u c u' c' hextract
      rw [insertEach] at hextract
      rcases heq : extract u fresh with ⟨e | ⟨⟩, mid, tmp⟩
      · rw [heq] at hextract
        cases hextract
      · rw [heq] at hextract
        refine ((h u fresh mid tmp heq).trans (ih _ _ _ _ hextract)).mono ?_
        rw [Nat.succ_mul, Nat.add_comm]

end

theorem read_advances (h : Host) {α : Type} (w : Wire α) :
    PopAdvances (w.read h) w.minLength := by
  intro u v u' hread
  have hcarried : Carried fun u' =>
      u'.input = u.input ∧ (u.data ≤ u.input.length → u'.data ≤ u'.input.length) :=
    fun _ _ _ hu' hinside => ⟨hu'.1, fun _ => hinside⟩
  have hkept := read_keeps hcarried h w u ⟨rfl, id⟩
  rw [hread] at hkept
  exact ⟨hkept.1, read_takes_minLength h w u v u' hread, hkept.2⟩

theorem extract_advances (h : Host) {α : Type} (w : Wire α) :
    Advances (w.extract h) w.minLength := by
  intro u x u' y hextract
  obtain ⟨v, hread, -⟩ := (w.extract_follows h).read_of_ok hextract
  exact read_advances h w u v u' hread

/-! ## Portable types -/

/-- Whether every value of the type which is packed on `a` is unpacked as itself on
`b`.  The elements of a set without any bytes are all the same, so that it does not
matter how many of them are read. -/
def portable (a b : Host) : {α : Type} → Wire α → Bool
  | _, .bool | _, .uint8 | _, .voidmable => true
  | _, .uint16 | _, .uint32 | _, .uint64 | _, .string => a.networkOrder == b.networkOrder
  | _, .int64 => b == .x86 && !a.networkOrder
  | _, .double => (a == .bigEndian) == (b == .bigEndian)
  | _, .pair x y | _, .record x y => portable a b x && portable a b y
  | _, .vector x => a.networkOrder == b.networkOrder && portable a b x
  | _, .map _ x y =>
      (a.networkOrder == b.networkOrder && portable a b x && portable a b y) ||
        !(x.occupies || y.occupies)
  | _, .set _ x => (a.networkOrder == b.networkOrder && portable a b x) || !x.occupies

variable {a b : Host}

/-- A count is read as itself, or with its bytes in the other order. -/
theorem pops_uint32_order (a b : Host) (n : UInt32) :
    ∃ count : UInt32,
      count.toNat = (if a.networkOrder = b.networkOrder then n.toNat else swap 4 n.toNat) ∧
      Pops (Unpack.popUint32 b) (a.store 4 (a.xhtonl n).toNat) count := by
  have hlt := b.load_lt (a.store 4 (a.xhtonl n).toNat)
  rw [Host.length_store] at hlt
  refine ⟨_, ?_, pops_fixed (a.length_store 4 (a.xhtonl n).toNat) "pop_uint32: not enough data"
    (fun bytes => b.xhtonl (UInt32.ofNat (b.load bytes)))⟩
  rw [Host.toNat_xhtonl, UInt32.toNat_ofNat_of_lt' hlt, Host.toNat_xhtonl,
    Host.order_store a b n.toNat_lt]

/-! ### Types without bytes -/

theorem subsingleton_of_occupies {α : Type} {w : Wire α} (hw : w.occupies = false) :
    Subsingleton α := by
  induction w with
  | voidmable => exact inferInstanceAs (Subsingleton Unit)
  | pair x y ihx ihy | record x y ihx ihy =>
      obtain ⟨hx, hy⟩ := Bool.or_eq_false_iff.mp hw
      have := ihx hx
      have := ihy hy
      exact inferInstance
  | _ => cases hw

theorem extract_of_occupies {α : Type} {w : Wire α} (hw : w.occupies = false) (u : Unpack)
    (x : α) : w.extract b u x = (.ok (), u, x) := by
  induction w generalizing u with
  | voidmable => rfl
  | pair y z ihy ihz | record y z ihy ihz =>
      obtain ⟨hy, hz⟩ := Bool.or_eq_false_iff.mp hw
      rw [extract, extractPair, ihy hy]
      simp only [ihz hz]
  | _ => cases hw

theorem bytes_of_occupies {α : Type} {w : Wire α} (hw : w.occupies = false) (x : α) :
    w.bytes a x = [] := by
  induction w with
  | voidmable => rfl
  | pair y z ihy ihz | record y z ihy ihz =>
      obtain ⟨hy, hz⟩ := Bool.or_eq_false_iff.mp hw
      rw [bytes, ihy hy, ihz hz, List.append_nil]
  | _ => cases hw

theorem insertEach_of_void {α γ : Type} {extract : Extract α} {fresh : α} {insert : α → γ → γ}
    (hextract : ∀ u, extract u fresh = (.ok (), u, fresh)) (count : Nat) (u : Unpack) (c : γ) :
    insertEach extract fresh insert count u c = (.ok (), u, (insert fresh)^[count] c) := by
  induction count generalizing c with
  | zero => rfl
  | succ count ih => simp only [insertEach, hextract, ih, Function.iterate_succ_apply]

/-- The loop of the map and set readers over elements without bytes, when the count
is read in the other order. -/
theorem decodes_voids {α β γ : Type} {order : KeyOrder α} [Subsingleton α] [Subsingleton β]
    {extract : Extract γ} {fresh : γ} (key : γ → α) (value : γ → β)
    (hextract : ∀ u, extract u fresh = (.ok (), u, fresh)) (v : OrderedMap order β) :
    Decodes (fun u c => match Unpack.popUint32 b u with
      | (.error e, u) => (.error e, u, c)
      | (.ok count, u) => insertEach extract fresh (fun e c => c.insert (key e) (value e))
          count.toNat u c)
      (OrderedMap.empty order β) (a.store 4 (a.xhtonl (UInt32.ofNat v.size)).toNat) v := by
  intro u tail hat
  obtain ⟨count, hcount, hpop⟩ := pops_uint32_order a b (UInt32.ofNat v.size)
  obtain ⟨mid, heq, hmid⟩ := hpop u tail hat
  refine ⟨mid, ?_, hmid⟩
  simp only [heq, insertEach_of_void hextract]
  refine congrArg (fun c => (Except.ok (), mid, c)) (OrderedMap.eq_of_subsingleton ?_)
  -- the count is zero in both orders, or in neither
  have hsize := v.size_le_one
  have hzero : count.toNat = 0 ↔ v.entries = [] := by
    rw [hcount, ← List.length_eq_zero_iff]
    show _ ↔ v.size = 0
    interval_cases v.size <;> split <;> decide
  constructor
  · intro hempty
    by_contra hne
    exact OrderedMap.entries_iterate_insert _ _ _ (mt hzero.mp hne) hempty
  · intro hempty
    rw [hzero.mpr hempty]
    rfl

/-- A map whose entries have no bytes. -/
theorem decodes_map_of_void {α β : Type} {order : KeyOrder α} {x : Wire α} {y : Wire β}
    (hx : x.occupies = false) (hy : y.occupies = false) (v : OrderedMap order β) :
    Decodes ((Wire.map order x y).extract b) (Wire.map order x y).fresh
      ((Wire.map order x y).bytes a v) v := by
  have := subsingleton_of_occupies hx
  have := subsingleton_of_occupies hy
  have hbytes : bytes a (.map order x y) v = a.store 4 (a.xhtonl (UInt32.ofNat v.size)).toNat := by
    simp [bytes, bytes_of_occupies hx, bytes_of_occupies hy]
  rw [hbytes]
  refine decodes_voids Prod.fst Prod.snd (fun u => ?_) v
  rw [extractPair, extract_of_occupies hx]
  simp only [extract_of_occupies hy]

theorem decodes_set_of_void {α : Type} {order : KeyOrder α} {x : Wire α}
    (hx : x.occupies = false) (v : OrderedSet order) :
    Decodes ((Wire.set order x).extract b) (Wire.set order x).fresh
      ((Wire.set order x).bytes a v) v := by
  have := subsingleton_of_occupies hx
  have hbytes : bytes a (.set order x) v = a.store 4 (a.xhtonl (UInt32.ofNat v.size)).toNat := by
    simp [bytes, bytes_of_occupies hx]
  rw [hbytes]
  exact decodes_voids id (fun _ => ()) (fun u => extract_of_occupies hx u _) v

theorem decodes_of_portable {α : Type} (w : Wire α) (hw : w.portable a b = true) (v : α)
    (hs : w.StringsFit v) (hc : w.ContainersFit v) :
    Decodes (w.extract b) w.fresh (w.bytes a v) v := by
  induction w with
  | bool =>
      refine decodes_assign (pops_uint8 (if v then 1 else 0)) ?_
      cases v <;> rfl
  | uint8 => exact decodes_assign (pops_uint8 v) rfl
  | uint16 =>
      exact decodes_assign (pops_uint16 (Host.agreesUint16_of_eq (eq_of_beq hw)) v) rfl
  | uint32 =>
      exact decodes_assign (pops_uint32 (Host.agreesUint32_of_eq (eq_of_beq hw)) v) rfl
  | uint64 => exact decodes_uint64 (Host.agreesUint64_of_eq (eq_of_beq hw)) v
  | int64 =>
      obtain ⟨hb, ha⟩ := (Bool.and_eq_true _ _).mp hw
      obtain rfl := eq_of_beq hb
      exact decodes_int64 (Host.agreesInt64_x86 (by simpa using ha)) v
  | double => exact decodes_assign (pops_double (Host.agreesDouble_of_eq (eq_of_beq hw)) v) rfl
  | string =>
      exact decodes_assign (pops_varstr (Host.agreesUint16_of_eq (eq_of_beq hw)) hs) rfl
  | pair x y ihx ihy | record x y ihx ihy =>
      obtain ⟨hx, hy⟩ := (Bool.and_eq_true _ _).mp hw
      exact decodes_pair (ihx hx v.1 hs.1 hc.1) (ihy hy v.2 hs.2 hc.2)
  | vector x ih =>
      obtain ⟨horder, hx⟩ := (Bool.and_eq_true _ _).mp hw
      exact decodes_vector (Host.agreesUint32_of_eq (eq_of_beq horder)) x hc.1 fun e he =>
        ih hx e (hs.2 e he) (hc.2 e he)
  | map order x y ihx ihy =>
      rcases (Bool.or_eq_true _ _).mp hw with hw | hvoid
      · simp only [Bool.and_eq_true, beq_iff_eq] at hw
        obtain ⟨⟨horder, hx⟩, hy⟩ := hw
        exact decodes_map (Host.agreesUint32_of_eq horder) x y hc.1 fun e he =>
          decodes_pair (ihx hx e.1 (hs.2 e he).1 (hc.2 e he).1)
            (ihy hy e.2 (hs.2 e he).2 (hc.2 e he).2)
      · simp only [Bool.not_eq_true', Bool.or_eq_false_iff] at hvoid
        exact decodes_map_of_void hvoid.1 hvoid.2 v
  | set order x ih =>
      rcases (Bool.or_eq_true _ _).mp hw with hw | hvoid
      · simp only [Bool.and_eq_true, beq_iff_eq] at hw
        exact decodes_set (Host.agreesUint32_of_eq hw.1) x hc.1 fun e he =>
          ih hw.2 e (hs.2 e he) (hc.2 e he)
      · exact decodes_set_of_void (by simpa using hvoid) v
  | voidmable => exact decodes_nil fun _ => rfl

/-! ### Types which are not portable -/

/-- The extraction from `bytes` does not give `v`, unless it reads on behind them. -/
def Misdecodes {α : Type} (extract : Extract α) (x : α) (bytes : List UInt8) (v : α) : Prop :=
  ∀ u tail u', At u (bytes ++ tail) → extract u x = (.ok (), u', v) →
    u.data + bytes.length < u'.data

section

variable {α β γ : Type}

theorem misdecodes_assign {pop : UnpackM β} {f : β → α} {x v : α} {bytes : List UInt8} {c : β}
    (hpop : Pops pop bytes c) (hv : f c ≠ v) : Misdecodes (assign pop f) x bytes v := by
  intro u tail u' hat hextract
  obtain ⟨mid, heq, -⟩ := hpop u tail hat
  rw [assign, heq] at hextract
  cases hextract
  exact absurd rfl hv

/-- The second part takes at least the bytes which are there for it. -/
theorem misdecodes_first {first : Extract α} {second : Extract β} {x v : α × β}
    {bytes bytes' : List UInt8} {n : Nat} (hfirst : Misdecodes first x.1 bytes v.1)
    (hsecond : Advances second n) (hn : bytes'.length = n) :
    Misdecodes (extractPair first second) x (bytes ++ bytes') v := by
  intro u tail u' hat hextract
  rw [List.append_assoc] at hat
  rw [extractPair] at hextract
  rcases heq : first u x.1 with ⟨e | ⟨⟩, mid, y⟩
  · rw [heq] at hextract
    cases hextract
  rcases heq' : second mid x.2 with ⟨e | ⟨⟩, mid', z⟩
  · simp only [heq, heq'] at hextract
    cases hextract
  · simp only [heq, heq'] at hextract
    cases hextract
    have hlt := hfirst u _ mid hat heq
    have hle := (hsecond mid _ _ _ heq').data
    rw [List.length_append]
    omega

theorem misdecodes_second {first : Extract α} {second : Extract β} {x v : α × β}
    {bytes bytes' : List UInt8} (hfirst : Decodes first x.1 bytes v.1)
    (hsecond : Misdecodes second x.2 bytes' v.2) :
    Misdecodes (extractPair first second) x (bytes ++ bytes') v := by
  obtain ⟨v₁, v₂⟩ := v
  intro u tail u' hat hextract
  rw [List.append_assoc] at hat
  obtain ⟨mid, heq, hmid⟩ := hfirst u _ hat
  rw [extractPair, heq] at hextract
  rcases heq' : second mid x.2 with ⟨e | ⟨⟩, mid', z⟩
  · simp only [heq'] at hextract
    cases hextract
  · simp only [heq'] at hextract
    cases hextract
    have hlt := hsecond mid tail _ hmid.tail heq'
    have hdata := hmid.data
    rw [List.length_append]
    omega

/-- The loop of the map and set readers over one element. -/
theorem misdecodes_insert {extract : Extract α} {fresh v : α} {insert : α → γ → γ} {c c' : γ}
    {bytes : List UInt8} (h : Misdecodes extract fresh bytes v)
    (hinsert : ∀ y, insert y c = c' → y = v) :
    Misdecodes (insertEach extract fresh insert 1) c bytes c' := by
  intro u tail u' hat hextract
  rw [insertEach] at hextract
  rcases heq : extract u fresh with ⟨e | ⟨⟩, mid, y⟩
  · rw [heq] at hextract
    cases hextract
  · rw [heq] at hextract
    change (Except.ok (), mid, insert y c) = _ at hextract
    cases hextract
    obtain rfl := hinsert y rfl
    exact h u tail _ hat heq

/-- A reader whose count is read as it was written. -/
theorem misdecodes_counted {loop : UInt32 → Extract γ} {c v : γ} {n : UInt32}
    {bytes : List UInt8} (hab : a.networkOrder = b.networkOrder)
    (h : Misdecodes (loop n) c bytes v) :
    Misdecodes (fun u c => match Unpack.popUint32 b u with
      | (.error e, u) => (.error e, u, c)
      | (.ok count, u) => loop count u c) c (a.store 4 (a.xhtonl n).toNat ++ bytes) v := by
  intro u tail u' hat hextract
  rw [List.append_assoc] at hat
  obtain ⟨mid, heq, hmid⟩ := pops_uint32 (Host.agreesUint32_of_eq hab) n u _ hat
  simp only [heq] at hextract
  have hlt := h mid tail u' hmid.tail hextract
  have hdata := hmid.data
  rw [List.length_append]
  omega

/-- One element is read as `2 ^ 24` elements. -/
theorem misdecodes_count {loop : UInt32 → Extract γ} {c v : γ} {bytes : List UInt8}
    (hab : a.networkOrder ≠ b.networkOrder)
    (hloop : ∀ count u u', count.toNat = 2 ^ 24 → loop count u c = (.ok (), u', v) →
      u.data + bytes.length < u'.data) :
    Misdecodes (fun u c => match Unpack.popUint32 b u with
      | (.error e, u) => (.error e, u, c)
      | (.ok count, u) => loop count u c) c
      (a.store 4 (a.xhtonl (UInt32.ofNat 1)).toNat ++ bytes) v := by
  intro u tail u' hat hextract
  rw [List.append_assoc] at hat
  obtain ⟨count, hcount, hpop⟩ := pops_uint32_order a b (UInt32.ofNat 1)
  rw [if_neg hab] at hcount
  obtain ⟨mid, heq, hmid⟩ := hpop u _ hat
  simp only [heq] at hextract
  have hlt := hloop count mid u' (hcount.trans (by decide)) hextract
  have hdata := hmid.data
  rw [List.length_append]
  omega

end

theorem all_fresh {onString : List UInt8 → Prop} {onCount : Nat → Prop} (hs : onString [])
    (hc : onCount 0) {α : Type} (w : Wire α) : w.All onString onCount w.fresh := by
  induction w with
  | string => exact hs
  | vector x ih => exact ⟨hc, fun e he => absurd he List.not_mem_nil⟩
  | map order x y ihx ihy => exact ⟨hc, fun e he => absurd he List.not_mem_nil⟩
  | set order x ih => exact ⟨hc, fun e he => absurd he List.not_mem_nil⟩
  | pair x y ihx ihy | record x y ihx ihy => exact ⟨ihx, ihy⟩
  | _ => trivial

/-- A value which is packed on `a` and not unpacked as itself on `b`. -/
structure Lost (a b : Host) {α : Type} (w : Wire α) (v : α) : Prop where
  strings : w.StringsFit v
  containers : w.ContainersFit v
  misdecodes : Misdecodes (w.extract b) w.fresh (w.bytes a v) v

section

variable {α β : Type}

theorem lost_uint16 (hab : a.networkOrder ≠ b.networkOrder) : Lost a b .uint16 1 := by
  refine ⟨trivial, trivial, misdecodes_assign (pops_fixed
    (a.length_store 2 (a.xhtons 1).toNat) _ _) ?_⟩
  cases a <;> cases b <;> first | exact absurd rfl hab | decide

theorem lost_uint32 (hab : a.networkOrder ≠ b.networkOrder) : Lost a b .uint32 1 := by
  refine ⟨trivial, trivial, misdecodes_assign (pops_fixed
    (a.length_store 4 (a.xhtonl 1).toNat) _ _) ?_⟩
  cases a <;> cases b <;> first | exact absurd rfl hab | decide

theorem lost_uint64 (hab : a.networkOrder ≠ b.networkOrder) : Lost a b .uint64 1 := by
  refine ⟨trivial, trivial, misdecodes_assign (pops_fixed
    (a.length_store 8 (a.xhtonll 1).toNat) _ _) ?_⟩
  cases a <;> cases b <;> first | exact absurd rfl hab | decide

/-- The signed swap extends the sign of a byte. -/
theorem lost_int64 (h : (b == .x86 && !a.networkOrder) = false) : Lost a b .int64 128 := by
  refine ⟨trivial, trivial, misdecodes_assign (pops_fixed
    (a.length_store 8 (a.xhtonll (128 : Int64).toUInt64).toNat) _ _) ?_⟩
  cases a <;> cases b <;> first | exact absurd h (by decide) | decide

theorem lost_double (h : ((a == Host.bigEndian) == (b == Host.bigEndian)) = false) :
    Lost a b .double 1 := by
  refine ⟨trivial, trivial, misdecodes_assign (pops_double_bytes b
    (a.length_store 8 (1 : UInt64).toNat)) ?_⟩
  cases a <;> cases b <;> first | exact absurd h (by decide) | decide

theorem length_of_popFetchPtr {k : Nat} {u u' : Unpack} {bytes : List UInt8}
    (h : Unpack.popFetchPtr k u = (.ok bytes, u')) : bytes.length = k := by
  rw [Unpack.popFetchPtr, Unpack.require_access_eq] at h
  split at h
  · cases h
  split at h
  · rename_i hinside
    cases h
    rw [List.length_take, List.length_drop]
    omega
  · cases h

/-- A string of one byte is read as a string of 256 bytes. -/
theorem lost_string (hab : a.networkOrder ≠ b.networkOrder) : Lost a b .string [0] := by
  have hone : ([0] : List UInt8).length ≤ 0xFFFF := by decide
  refine ⟨hone, trivial, fun u tail u' hat hextract => ?_⟩
  rw [bytes, List.append_assoc] at hat
  obtain ⟨mid, hsize, -⟩ := pops_fixed (a.length_store 2 (a.xhtons (UInt16.ofNat 1)).toNat)
    "pop_uint16: not enough data" (fun bytes => b.xhtons (UInt16.ofNat (b.load bytes))) u _ hat
  have hsize : Unpack.popUint16 b u = (.ok _, mid) := hsize
  have hlength : (b.xhtons (UInt16.ofNat (b.load
      (a.store 2 (a.xhtons (UInt16.ofNat 1)).toNat)))).toNat = 256 := by
    cases a <;> cases b <;> first | exact absurd rfl hab | decide
  rw [extract, assign] at hextract
  rcases hpop : Unpack.popVarstr b u with ⟨e | str, mid'⟩
  · rw [hpop] at hextract
    cases hextract
  · rw [hpop] at hextract
    cases hextract
    rw [Unpack.popVarstr, Throwing.bind_of_ok hsize] at hpop
    have hstr := length_of_popFetchPtr hpop
    rw [hlength] at hstr
    exact absurd hstr (by decide)

/-- A part which is not portable next to any other part. -/
theorem lost_first {x : Wire α} {v : α} (hv : Lost a b x v) (y : Wire β) :
    (x.StringsFit v ∧ y.StringsFit y.fresh) ∧ (x.ContainersFit v ∧ y.ContainersFit y.fresh) ∧
    Misdecodes (extractPair (x.extract b) (y.extract b)) (x.fresh, y.fresh)
      (x.bytes a v ++ y.bytes a y.fresh) (v, y.fresh) :=
  ⟨⟨hv.strings, all_fresh (Nat.zero_le _) trivial y⟩,
    ⟨hv.containers, all_fresh trivial (by decide) y⟩,
    misdecodes_first hv.misdecodes (extract_advances b y) (length_bytes_fresh a y)⟩

theorem lost_second {y : Wire β} {v : β} (hv : Lost a b y v) {x : Wire α}
    (hx : x.portable a b = true) :
    (x.StringsFit x.fresh ∧ y.StringsFit v) ∧ (x.ContainersFit x.fresh ∧ y.ContainersFit v) ∧
    Misdecodes (extractPair (x.extract b) (y.extract b)) (x.fresh, y.fresh)
      (x.bytes a x.fresh ++ y.bytes a v) (x.fresh, v) := by
  have hs : x.StringsFit x.fresh := all_fresh (Nat.zero_le _) trivial x
  have hc : x.ContainersFit x.fresh := all_fresh trivial (by decide) x
  exact ⟨⟨hs, hv.strings⟩, ⟨hc, hv.containers⟩,
    misdecodes_second (decodes_of_portable x hx x.fresh hs hc) hv.misdecodes⟩

theorem lost_pair {x : Wire α} {y : Wire β} (h : (x.portable a b && y.portable a b) = false)
    (ihx : x.portable a b = false → ∃ v, Lost a b x v)
    (ihy : y.portable a b = false → ∃ v, Lost a b y v) :
    ∃ v : α × β, (x.StringsFit v.1 ∧ y.StringsFit v.2) ∧
      (x.ContainersFit v.1 ∧ y.ContainersFit v.2) ∧
      Misdecodes (extractPair (x.extract b) (y.extract b)) (x.fresh, y.fresh)
        (x.bytes a v.1 ++ y.bytes a v.2) v := by
  cases hx : x.portable a b with
  | false =>
      obtain ⟨v, hv⟩ := ihx hx
      exact ⟨(v, y.fresh), lost_first hv y⟩
  | true =>
      rw [hx, Bool.true_and] at h
      obtain ⟨v, hv⟩ := ihy h
      exact ⟨(x.fresh, v), lost_second hv hx⟩

theorem lost_vector {x : Wire α}
    (h : (a.networkOrder == b.networkOrder && x.portable a b) = false)
    (ih : x.portable a b = false → ∃ v, Lost a b x v) : ∃ v, Lost a b (.vector x) v := by
  by_cases hab : a.networkOrder = b.networkOrder
  · have hx : x.portable a b = false := by simpa [hab] using h
    obtain ⟨v, hv⟩ := ih hx
    refine ⟨[v], ⟨trivial, List.forall_mem_singleton.mpr hv.strings⟩,
      ⟨(by decide : 1 < 2 ^ 32), List.forall_mem_singleton.mpr hv.containers⟩, ?_⟩
    refine misdecodes_counted (n := UInt32.ofNat 1) hab fun u tail u' hat hextract => ?_
    simp only [List.flatMap_cons, List.flatMap_nil, List.append_nil] at hat ⊢
    have hone : ¬ (UInt32.ofNat 1 = 0) := by decide
    rw [if_neg hone] at hextract
    change extractEach (x.extract b) u [x.fresh] = _ at hextract
    rw [extractEach] at hextract
    rcases heq : x.extract b u x.fresh with ⟨e | ⟨⟩, mid, y⟩
    · rw [heq] at hextract
      cases hextract
    · rw [heq] at hextract
      change (Except.ok (), mid, [y]) = _ at hextract
      cases hextract
      exact hv.misdecodes u tail _ hat heq
  · refine ⟨[x.fresh], ⟨trivial, ?_⟩, ⟨(by decide : 1 < 2 ^ 32), ?_⟩, ?_⟩
    · exact List.forall_mem_singleton.mpr (all_fresh (Nat.zero_le _) trivial x)
    · exact List.forall_mem_singleton.mpr (all_fresh trivial (by decide) x)
    · refine misdecodes_count hab fun count u u' hcount hextract => ?_
      have hzero : ¬ count = 0 := by
        rintro rfl
        exact absurd hcount (by decide)
      rw [if_neg hzero] at hextract
      -- a vector of `2 ^ 24` elements is none of one element
      have hlength := length_extractEach (x.extract b) u
        (resizeVector x.fresh (fresh (.vector x)) count.toNat)
      rw [hextract] at hlength
      rw [length_resizeVector, hcount, List.length_singleton] at hlength
      exact absurd hlength (by decide)

/-- The same for the loop over the entries of a map or the elements of a set, where
`extract` reads one of them. -/
theorem lost_inserted {γ δ : Type} {extract : Extract γ} {fresh : γ} (insert : γ → δ → δ) {c : δ}
    {bytes : List UInt8} {n : Nat} (hextract : Advances extract n) (hn : 0 < n) {v : γ}
    (hinsert : ∀ y, insert y c = insert v c → y = v)
    (h : (a.networkOrder = b.networkOrder ∧ Misdecodes extract fresh bytes v) ∨
      (a.networkOrder ≠ b.networkOrder ∧ bytes.length = n)) :
    Misdecodes (fun u c => match Unpack.popUint32 b u with
      | (.error e, u) => (.error e, u, c)
      | (.ok count, u) => insertEach extract fresh insert count.toNat u c) c
      (a.store 4 (a.xhtonl (UInt32.ofNat 1)).toNat ++ bytes) (insert v c) := by
  rcases h with ⟨hab, h⟩ | ⟨hab, hlength⟩
  · exact misdecodes_counted (n := UInt32.ofNat 1) hab (misdecodes_insert h hinsert)
  · refine misdecodes_count hab fun count u u' hcount hloop => ?_
    -- the elements read are too many for the bytes of one
    have hdata := (advances_insertEach hextract _ _ _ _ hloop).data
    rw [hcount] at hdata
    omega

/-- The entry of a map or the element of a set which is not recovered, or is read too
often. -/
theorem lost_entry {x : Wire α} (h : (a.networkOrder == b.networkOrder && x.portable a b) = false)
    (ih : x.portable a b = false → ∃ v, Lost a b x v) :
    ∃ e, x.StringsFit e ∧ x.ContainersFit e ∧
      ((a.networkOrder = b.networkOrder ∧ Misdecodes (x.extract b) x.fresh (x.bytes a e) e) ∨
        (a.networkOrder ≠ b.networkOrder ∧ (x.bytes a e).length = x.minLength)) := by
  by_cases hab : a.networkOrder = b.networkOrder
  · rw [hab, beq_self_eq_true, Bool.true_and] at h
    obtain ⟨e, he⟩ := ih h
    exact ⟨e, he.strings, he.containers, .inl ⟨hab, he.misdecodes⟩⟩
  · exact ⟨x.fresh, all_fresh (Nat.zero_le _) trivial x, all_fresh trivial (by decide) x,
      .inr ⟨hab, length_bytes_fresh a x⟩⟩

theorem lost_map {order : KeyOrder α} {x : Wire α} {y : Wire β}
    (h : (Wire.map order x y).portable a b = false)
    (ihx : x.portable a b = false → ∃ v, Lost a b x v)
    (ihy : y.portable a b = false → ∃ v, Lost a b y v) : ∃ v, Lost a b (.map order x y) v := by
  obtain ⟨hw, hoccupies⟩ := Bool.or_eq_false_iff.mp h
  have hoccupies : (x.pair y).occupies = true := by
    rw [Bool.not_eq_false'] at hoccupies
    exact hoccupies
  rw [Bool.and_assoc] at hw
  have hpair : (x.pair y).portable a b = false → ∃ v, Lost a b (x.pair y) v := by
    intro hpair
    obtain ⟨v, hs, hc, hv⟩ := lost_pair hpair ihx ihy
    exact ⟨v, hs, hc, hv⟩
  obtain ⟨e, hs, hc, he⟩ := lost_entry (x := x.pair y) hw hpair
  refine ⟨(OrderedMap.empty order β).insert e.1 e.2,
    ⟨trivial, List.forall_mem_singleton.mpr hs⟩,
    ⟨(by decide : 1 < 2 ^ 32), List.forall_mem_singleton.mpr hc⟩, ?_⟩
  have hbytes : bytes a (.map order x y) ((OrderedMap.empty order _).insert e.1 e.2) =
      a.store 4 (a.xhtonl (UInt32.ofNat 1)).toNat ++ (x.pair y).bytes a e := by
    show _ ++ [(e.1, e.2)].flatMap _ = _
    rw [List.flatMap_singleton]
    rfl
  rw [hbytes]
  refine lost_inserted (fun e (c : OrderedMap order β) => c.insert e.1 e.2)
    (extract_advances b (x.pair y)) (minLength_pos hoccupies)
    (fun e' heq => ?_) he
  exact List.singleton_injective (congrArg OrderedMap.entries heq)

theorem lost_set {order : KeyOrder α} {x : Wire α} (h : (Wire.set order x).portable a b = false)
    (ih : x.portable a b = false → ∃ v, Lost a b x v) : ∃ v, Lost a b (.set order x) v := by
  obtain ⟨hw, hoccupies⟩ := Bool.or_eq_false_iff.mp h
  have hoccupies : x.occupies = true := by simpa using hoccupies
  obtain ⟨e, hs, hc, he⟩ := lost_entry hw ih
  refine ⟨(OrderedMap.empty order Unit).insert e (),
    ⟨trivial, List.forall_mem_singleton.mpr hs⟩,
    ⟨(by decide : 1 < 2 ^ 32), List.forall_mem_singleton.mpr hc⟩, ?_⟩
  have hbytes : bytes a (.set order x) ((OrderedMap.empty order Unit).insert e ()) =
      a.store 4 (a.xhtonl (UInt32.ofNat 1)).toNat ++ x.bytes a e := by
    show _ ++ [e].flatMap _ = _
    rw [List.flatMap_singleton]
    rfl
  rw [hbytes]
  refine lost_inserted (fun e (c : OrderedSet order) => OrderedMap.insert c e ())
    (extract_advances b x) (minLength_pos hoccupies) (fun e' heq => ?_) he
  have hentries := congrArg (List.map Prod.fst) (congrArg OrderedMap.entries heq)
  exact List.singleton_injective hentries

/-- A type which is not portable has a value which is lost. -/
theorem exists_lost {w : Wire α} (hw : w.portable a b = false) : ∃ v, Lost a b w v := by
  induction w with
  | bool | uint8 | voidmable => cases hw
  | uint16 => exact ⟨1, lost_uint16 (by simpa [portable] using hw)⟩
  | uint32 => exact ⟨1, lost_uint32 (by simpa [portable] using hw)⟩
  | uint64 => exact ⟨1, lost_uint64 (by simpa [portable] using hw)⟩
  | int64 => exact ⟨128, lost_int64 hw⟩
  | double => exact ⟨1, lost_double hw⟩
  | string => exact ⟨[0], lost_string (by simpa [portable] using hw)⟩
  | pair x y ihx ihy | record x y ihx ihy =>
      obtain ⟨v, hs, hc, hv⟩ := lost_pair hw ihx ihy
      exact ⟨v, hs, hc, hv⟩
  | vector x ih => exact lost_vector hw ih
  | map order x y ihx ihy => exact lost_map hw ihx ihy
  | set order x ih => exact lost_set hw ih

end

/-- For two hosts and a wire type: `operator<<` on `a` appends the layout of a value,
and from the layout of every value which can be packed `operator>>` on `b` reads this
value, if and only if the type is portable from `a` to `b`. -/
theorem hosts_agree_iff (a b : Host) {α : Type} (w : Wire α) :
    (∀ v st, st.Inv → (w.push a v st).1 = .ok () →
      w.StringsFit v ∧ (w.push a v st).2.content = st.content ++ w.bytes a v) ∧
    ((∀ v, w.StringsFit v → w.ContainersFit v →
      ∃ u', w.extract b (Unpack.new (w.bytes a v)) w.fresh = (.ok (), u', v)) ↔
        w.portable a b = true) := by
  have hstart : ∀ v, At (Unpack.new (w.bytes a v)) (w.bytes a v ++ []) := by
    intro v
    rw [List.append_nil]
    exact ⟨Nat.zero_le _, rfl, le_rfl⟩
  refine ⟨fun v st hst hpush => (push_appends a w v).ok hst hpush, fun h => ?_,
    fun hw v hs hc => ?_⟩
  · by_contra hw
    obtain ⟨v, hv⟩ := exists_lost (Bool.eq_false_iff.mpr hw)
    obtain ⟨u', hextract⟩ := h v hv.strings hv.containers
    -- the cursor would be behind the input
    have hlt := hv.misdecodes _ [] u' (hstart v) hextract
    have hadvanced := extract_advances b w _ _ _ _ hextract
    have hinside := hadvanced.inside (Nat.zero_le _)
    rw [hadvanced.input] at hinside
    exact absurd hlt (Nat.not_lt.mpr (by simpa [Unpack.new] using hinside))
  · obtain ⟨u', hextract, -⟩ := decodes_of_portable w hw v hs hc _ [] (hstart v)
    exact ⟨u', hextract⟩

/-- The `uint16_t` 1, packed on an x86 host, is unpacked as 256 on an ARM host. -/
theorem uint16_swapped :
    let st := PackBuffer.new fun _ => some fun _ => 0
    (Wire.uint16.push .x86 1 st).1 = .ok () ∧
      (Wire.uint16.push .x86 1 st).2.content = [1, 0] ∧
      (Wire.uint16.extract .arm (Unpack.new [1, 0]) 0).1 = .ok () ∧
      (Wire.uint16.extract .arm (Unpack.new [1, 0]) 0).2.2 = 256 := by
  intro st
  have happends := push_appends .x86 .uint16 (1 : UInt16)
  have hroom : st.size + ((Wire.uint16).bytes .x86 1).length ≤ 65536 := by decide
  obtain ⟨hok, -⟩ := happends.room (PackBuffer.inv_new _) trivial (fun _ => rfl) hroom
  obtain ⟨-, hcontent⟩ := happends.ok (PackBuffer.inv_new _) hok
  exact ⟨hok, hcontent, rfl, rfl⟩

end Wire
end Net
end Deps
