import Deps.Net.WireReading

/-!
# The generic container helpers

`marshal_container`, `unmarshal_container` and `unmarshal_containerEx`, next to the
operators.  Every reader of a container ends as the reading of the bytes does.
-/

namespace Deps
namespace Net
namespace Wire

open Unpack

/-- `marshal_container`, over what the iterator of the container runs through. -/
def marshalContainer (h : Host) {α : Type} (a : Wire α) (c : List α) : PackM Unit := do
  Pack.pushUint32 h (UInt32.ofNat c.length)
  pushEach (push h a) c

/-- `unmarshal_container`; an assignment through the iterator is `put`. -/
def unmarshalContainer (h : Host) {α γ : Type} (a : Wire α) (put : α → γ → γ) : Extract γ :=
  fun u c =>
    match popUint32 h u with
    | (.error e, u) => (.error e, u, c)
    | (.ok count, u) => insertEach (a.extract h) a.fresh put count.toNat u c

/-- `c.push_back(x)`, which is also what a back-insert iterator does. -/
def pushBack {α : Type} (x : α) (c : List α) : List α := c ++ [x]

/-- An insert iterator of a map. -/
def insertEntry {α β : Type} {order : KeyOrder α} (e : α × β) (c : OrderedMap order β) :
    OrderedMap order β :=
  c.insert e.1 e.2

/-- An insert iterator of a set. -/
def insertKey {α : Type} {order : KeyOrder α} (x : α) (c : OrderedSet order) : OrderedSet order :=
  OrderedMap.insert c x ()

/-- `unmarshal_containerEx`.  Its elements are `Marshallable`, and `tmp.unmarshal(p)` is
what `p >> tmp` calls for them. -/
def unmarshalContainerEx (h : Host) {α : Type} (a : Wire α) : Extract (List α) := fun u c =>
  match popUint32 h u with
  | (.error e, u) => (.error e, u, c)
  | (.ok count, u) => insertEach (a.extract h) a.fresh pushBack count.toNat u c

/-- Two extractions which get the value that is read, or stop with the reading. -/
theorem Ends.sameReading_iff {γ : Type} {out : Except Fault γ × Unpack}
    {p q : Except Fault Unit × Unpack × γ} (hp : Ends (fun v y => y = v) out p)
    (hq : Ends (fun v y => y = v) out q) : SameReading p q ↔ out.1 ≠ .error .overread := by
  rcases out with ⟨(what | _) | v, mid⟩
  · refine iff_of_true ⟨hp.cursor.trans hq.cursor.symm, .inl ⟨⟨what, ?_⟩, what, ?_⟩⟩ (by simp)
    · exact hp.result
    · exact hq.result
  · refine iff_of_false ?_ (by simp)
    rintro ⟨-, ⟨⟨what, hthrown⟩, -⟩ | ⟨hok, -⟩⟩
    · rw [hp.result] at hthrown
      cases hthrown
    · rw [hp.result] at hok
      cases hok
  · refine iff_of_true ?_ (by simp)
    obtain ⟨hpout, hpv⟩ := hp.of_ok
    obtain ⟨hqout, hqv⟩ := hq.of_ok
    rw [hpout, hqout, hpv, hqv]
    exact ⟨rfl, .inr ⟨rfl, rfl, rfl⟩⟩

theorem foldl_pushBack {α : Type} (l c : List α) :
    l.foldl (fun c x => pushBack x c) c = c ++ l := by
  induction l generalizing c with
  | nil => exact (List.append_nil c).symm
  | cons x rest ih =>
      rw [List.foldl_cons, ih, pushBack, List.append_assoc]
      rfl

section

variable {α β : Type} (h : Host)

theorem extract_ends {w : Wire α} (u : Unpack) :
    Ends (fun v y => y = v) (w.read h u) (w.extract h u w.fresh) :=
  (w.extract_follows h u w.fresh).mono fun _ _ hv => hv rfl

theorem unmarshalContainer_vector_ends (a : Wire α) (u : Unpack) :
    Ends (fun v y => y = v) ((Wire.vector a).read h u) (unmarshalContainer h a pushBack u []) := by
  refine ((a.extract_follows h).counted h pushBack u []).mono fun l y hy => ?_
  rw [hy, foldl_pushBack, List.nil_append]

theorem unmarshalContainer_map_ends (order : KeyOrder α) (a : Wire α) (b : Wire β) (u : Unpack) :
    Ends (fun v y => y = v) ((Wire.map order a b).read h u)
      (unmarshalContainer h (.pair a b) insertEntry u (OrderedMap.empty order β)) :=
  (((Wire.pair a b).extract_follows h).counted h insertEntry u (OrderedMap.empty order β)).map
    (mapOf order) id fun _ _ hy => hy

theorem unmarshalContainer_set_ends (order : KeyOrder α) (a : Wire α) (u : Unpack) :
    Ends (fun v y => y = v) ((Wire.set order a).read h u)
      (unmarshalContainer h a insertKey u (OrderedMap.empty order Unit)) :=
  ((a.extract_follows h).counted h insertKey u (OrderedMap.empty order Unit)).map
    (setOf order) id fun _ _ hy => hy

theorem marshalContainer_set (order : KeyOrder α) (a : Wire α) (c : OrderedSet order) :
    marshalContainer h a (OrderedSet.elements c) = push h (.set order a) c := by
  have hlen : (OrderedSet.elements c).length = c.size := List.length_map _
  rw [marshalContainer, hlen]
  rfl

end

/-- **The helpers and the operators are one codec**: they write the same, and all readers
throw, or all return the same container, if and only if no pop leaves the input. -/
theorem container_codecs_agree_iff (h : Host) {α β : Type} (order : KeyOrder α) (a : Wire α)
    (b : Wire β) :
    (∀ c, marshalContainer h a c = push h (.vector a) c) ∧
    (∀ c : OrderedMap order β,
      marshalContainer h (.pair a b) c.entries = push h (.map order a b) c) ∧
    (∀ c, marshalContainer h a (OrderedSet.elements c) = push h (.set order a) c) ∧
    ∀ u,
      (SameReading (extract h (.vector a) u []) (unmarshalContainer h a pushBack u []) ∧
          SameReading (extract h (.vector a) u []) (unmarshalContainerEx h a u []) ↔
        (read h (.vector a) u).1 ≠ .error .overread) ∧
      (SameReading (extract h (.map order a b) u (OrderedMap.empty order β))
          (unmarshalContainer h (.pair a b) insertEntry u (OrderedMap.empty order β)) ↔
        (read h (.map order a b) u).1 ≠ .error .overread) ∧
      (SameReading (extract h (.set order a) u (OrderedMap.empty order Unit))
          (unmarshalContainer h a insertKey u (OrderedMap.empty order Unit)) ↔
        (read h (.set order a) u).1 ≠ .error .overread) := by
  refine ⟨fun _ => rfl, fun _ => rfl, marshalContainer_set h order a, fun u => ⟨?_, ?_, ?_⟩⟩
  · have hhelper := unmarshalContainer_vector_ends h a u
    have hEx : Ends (fun v y => y = v) ((Wire.vector a).read h u)
        (unmarshalContainerEx h a u []) := hhelper
    have hagree := (extract_ends h (w := .vector a) u).sameReading_iff hhelper
    have hagreeEx := (extract_ends h (w := .vector a) u).sameReading_iff hEx
    constructor
    · exact fun hboth => hagree.mp hboth.1
    · exact fun hinside => ⟨hagree.mpr hinside, hagreeEx.mpr hinside⟩
  · exact (extract_ends h (w := .map order a b) u).sameReading_iff
      (unmarshalContainer_map_ends h order a b u)
  · exact (extract_ends h (w := .set order a) u).sameReading_iff
      (unmarshalContainer_set_ends h order a u)

/-- A vector of two doubles of which one is missing: `pop_double` leaves `m_size` alone,
and the second one is read behind the input instead of being refused. -/
theorem container_readers_leave_input :
    let w : Wire (List UInt64) := .vector .double
    let u := Unpack.new ([2, 0, 0, 0] ++ List.replicate 8 0)
    ¬(SameReading (w.extract .x86 u []) (unmarshalContainer .x86 .double pushBack u []) ∧
      SameReading (w.extract .x86 u []) (unmarshalContainerEx .x86 .double u [])) := by
  rintro w u ⟨⟨-, ⟨⟨what, hthrown⟩, -⟩ | ⟨hok, -⟩⟩, -⟩
  · cases hthrown
  · cases hok

end Wire
end Net
end Deps
