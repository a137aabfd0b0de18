import Deps.Net.WireReading
import Deps.Net.WireRoundTrip

/-!
# Decoding into a target which is not fresh

Whether an extraction throws, and where the cursor is left, does not depend on the
target.  The value does: a vector whose count is zero is left alone, and nothing is
ever taken out of a map or a set.  `Rewrites` says of the bytes that none of this
shows.
-/

namespace Deps
namespace Net
namespace Wire

open Unpack

/-- The second reading, at the cursor where the first one returns, has `P`. -/
def ThenAt {α : Type} (read : UnpackM α) (P : Unpack → Prop) (u : Unpack) : Prop :=
  match read u with
  | (.ok _, mid) => P mid
  | (.error _, _) => True

/-- Each of `count` readings has `P` at its cursor. -/
def EachAt {α : Type} (read : UnpackM α) (P : Unpack → Prop) : Nat → Unpack → Prop
  | 0, _ => True
  | count + 1, u => P u ∧ ThenAt read (EachAt read P count) u

/-- No vector which the bytes put into the target itself is empty, and a map or a set
there gets every entry of its type. -/
def Rewrites (h : Host) : {α : Type} → Wire α → Unpack → Prop
  | _, .pair a b, u => Rewrites h a u ∧ ThenAt (read h a) (Rewrites h b) u
  | _, .vector a, u =>
      match popUint32 h u with
      | (.ok count, mid) => count ≠ 0 ∧ EachAt (read h a) (Rewrites h a) count.toNat mid
      | (.error _, _) => True
  | _, .map order a b, u =>
      match readCounted h (readPair (read h a) (read h b)) u with
      | (.ok entries, _) => OrderedMap.Exhausts order entries
      | (.error _, _) => True
  | _, .set order a, u =>
      match readCounted h (read h a) u with
      | (.ok keys, _) => OrderedMap.Exhausts order (keys.map fun k => (k, ()))
      | (.error _, _) => True
  | _, .record field rest, u => Rewrites h field u ∧ ThenAt (read h field) (Rewrites h rest) u
  | _, _, _ => True

/-- Where the reading returns `v`, every target becomes `v` if and only if `P`. -/
def Overwrites {α : Type} (extract : Extract α) (read : UnpackM α) (P : Unpack → Prop) : Prop :=
  ∀ u v mid, read u = (.ok v, mid) → ((∀ x, (extract u x).2.2 = v) ↔ P u)

section

variable {α β : Type} {extract : Extract α} {fresh : α} {read : UnpackM α} {P : Unpack → Prop}
  {u mid : Unpack}

theorem overwrites_assign {pop : UnpackM β} {f : β → α} :
    Overwrites (assign pop f) (do let b ← pop; pure (f b)) fun _ => True := by
  intro u v mid hread
  refine iff_of_true (fun x => ?_) trivial
  obtain ⟨b, _, hpop, hpure⟩ := Throwing.of_bind_ok hread
  cases hpure
  rw [assign, hpop]

theorem overwrites_assign_id {pop : UnpackM α} : Overwrites (assign pop id) pop fun _ => True := by
  intro u v mid hread
  refine iff_of_true (fun x => ?_) trivial
  rw [assign, hread]
  rfl

theorem thenAt_of_ok {v : α} (hread : read u = (.ok v, mid)) : ThenAt read P u ↔ P mid := by
  rw [ThenAt, hread]

/-- Two targets side by side. -/
theorem overwrites_pair {second : Extract β} {read' : UnpackM β}
    {P' : Unpack → Prop} (hfollows : Follows extract fresh read)
    (hfirst : Overwrites extract read P) (hsecond : Overwrites second read' P') :
    Overwrites (extractPair extract second) (readPair read read')
      (fun u => P u ∧ ThenAt read P' u) := by
  intro u v fin hread
  obtain ⟨x, mid, hx, hrest⟩ := Throwing.of_bind_ok hread
  obtain ⟨y, _, hy, hpure⟩ := Throwing.of_bind_ok hrest
  cases hpure
  show _ ↔ P u ∧ ThenAt read P' u
  rw [thenAt_of_ok hx, ← hfirst u x mid hx, ← hsecond mid y _ hy]
  have hpair : ∀ p, (extractPair extract second u p).2.2 =
      ((extract u p.1).2.2, (second mid p.2).2.2) := by
    intro p
    rw [extractPair, hfollows.returned hx p.1]
  simp only [hpair, Prod.mk.injEq]
  constructor
  · exact fun hall => ⟨fun a => (hall (a, y)).1, fun b => (hall (x, b)).2⟩
  · exact fun hboth p => ⟨hboth.1 p.1, hboth.2 p.2⟩

/-- The elements of a vector, after `resize`. -/
theorem overwrites_each (hfollows : Follows extract fresh read) (h : Overwrites extract read P)
    (count : Nat) {l : List α} (hread : readEach read count u = (.ok l, mid)) :
    (∀ c : List α, c.length = count → (extractEach extract u c).2.2 = l) ↔
      EachAt read P count u := by
  induction count generalizing u l with
  | zero =>
      cases hread
      refine iff_of_true (fun c hc => ?_) trivial
      rw [List.eq_nil_of_length_eq_zero hc]
      rfl
  | succ count ih =>
      obtain ⟨x, mid', hx, hrest⟩ := Throwing.of_bind_ok hread
      obtain ⟨xs, _, hxs, hpure⟩ := Throwing.of_bind_ok hrest
      cases hpure
      rw [EachAt, thenAt_of_ok hx, ← h u x mid' hx, ← ih hxs]
      have hcons : ∀ y ys, (extractEach extract u (y :: ys)).2.2 =
          (extract u y).2.2 :: (extractEach extract mid' ys).2.2 := by
        intro y ys
        rw [extractEach, hfollows.returned hx y]
      constructor
      · intro hall
        have hboth : ∀ y ys, ys.length = count → (extract u y).2.2 = x ∧
            (extractEach extract mid' ys).2.2 = xs := by
          intro y ys hys
          have hl := hall (y :: ys) (congrArg Nat.succ hys)
          rw [hcons] at hl
          exact List.cons.inj hl
        exact ⟨fun y => (hboth y (List.replicate count fresh) List.length_replicate).1,
          fun ys hys => (hboth fresh ys hys).2⟩
      · rintro ⟨hhead, htail⟩ c hc
        obtain ⟨y, ys, rfl⟩ := List.exists_cons_of_length_eq_add_one hc
        rw [hcons, hhead y, htail ys (Nat.succ.inj hc)]

end

theorem resizeVector_self {α : Type} (fresh : α) (c : List α) :
    resizeVector fresh c c.length = c := by
  simp [resizeVector]

section

variable {α β : Type} {order : KeyOrder α} {a : Wire α} {b : Wire β} {u mid : Unpack} (h : Host)

/-- Entries are added to what a map holds. -/
theorem extract_map {entries : List (α × β)}
    (hread : readCounted h (readPair (a.read h) (b.read h)) u = (.ok entries, mid))
    (c : OrderedMap order β) :
    extract h (.map order a b) u c = (.ok (), mid, c.insertAll entries) := by
  have hends := ((a.extract_follows h).pair (b.extract_follows h)).counted h
    (fun tmp (c : OrderedMap order β) => c.insert tmp.1 tmp.2) u c
  rw [hread] at hends
  obtain ⟨hout, hc⟩ := hends.of_ok
  rw [hc] at hout
  exact hout

theorem extract_set {keys : List α} (hread : readCounted h (a.read h) u = (.ok keys, mid))
    (c : OrderedSet order) :
    extract h (.set order a) u c = (.ok (), mid, c.insertAll (keys.map fun k => (k, ()))) := by
  have hends := (a.extract_follows h).counted h
    (fun tmp (c : OrderedSet order) => OrderedMap.insert c tmp ()) u c
  rw [hread] at hends
  obtain ⟨hout, hc⟩ := hends.of_ok
  rw [hc] at hout
  rw [OrderedMap.insertAll, List.foldl_map]
  exact hout

end

/-- The target does not show in the value if and only if the bytes rewrite all of it. -/
theorem extract_overwrites (h : Host) {α : Type} (w : Wire α) :
    Overwrites (w.extract h) (w.read h) (w.Rewrites h) := by
  induction w with
  | bool => exact overwrites_assign
  | uint8 => exact overwrites_assign_id
  | uint16 => exact overwrites_assign_id
  | uint32 => exact overwrites_assign_id
  | uint64 => exact overwrites_assign_id
  | int64 => exact overwrites_assign
  | double => exact overwrites_assign_id
  | string => exact overwrites_assign_id
  | pair a b iha ihb => exact overwrites_pair (a.extract_follows h) iha ihb
  | vector a ih =>
      intro u v fin hread
      obtain ⟨count, mid, hcount, heach⟩ := Throwing.of_bind_ok hread
      simp only [extract, Rewrites, hcount]
      by_cases hzero : count = 0
      -- the target stays, and there are at least two
      · simp only [hzero, if_true, ne_eq, not_true, false_and, iff_false]
        intro hall
        have hcontra : [] = [a.fresh] := (hall []).trans (hall [a.fresh]).symm
        cases hcontra
      · simp only [hzero, if_false, ne_eq, not_false_eq_true, true_and]
        rw [← overwrites_each (a.extract_follows h) ih count.toNat heach]
        constructor
        · intro hall c hc
          have hself := hall c
          rw [← hc, resizeVector_self] at hself
          exact hself
        · exact fun hall c => hall _ (length_resizeVector _ _ _)
  | map order a b iha ihb =>
      intro u v fin hread
      obtain ⟨entries, mid, hentries, hpure⟩ := Throwing.of_bind_ok hread
      cases hpure
      simp only [Rewrites, hentries]
      rw [← OrderedMap.insertAll_const_iff]
      exact forall_congr' fun c => by rw [extract_map h hentries, mapOf]
  | set order a ih =>
      intro u v fin hread
      obtain ⟨keys, mid, hkeys, hpure⟩ := Throwing.of_bind_ok hread
      cases hpure
      simp only [Rewrites, hkeys]
      rw [← OrderedMap.insertAll_const_iff]
      exact forall_congr' fun c => by rw [extract_set h hkeys, setOf_eq, mapOf]
  | voidmable => exact fun u v mid _ => iff_of_true (fun _ => rfl) trivial
  | record a b iha ihb => exact overwrites_pair (a.extract_follows h) iha ihb

/-- Extractions into two targets. -/
theorem same_reading_iff (h : Host) {α : Type} (w : Wire α) (u : Unpack) :
    (∀ x y, SameReading (w.extract h u x) (w.extract h u y)) ↔
      Throws (w.read h u).1 ∨ (∃ v, (w.read h u).1 = .ok v) ∧ w.Rewrites h u := by
  have hends := w.extract_follows h u
  rcases hread : w.read h u with ⟨(what | _) | v, mid⟩ <;>
    rw [hread] at hends
  · refine iff_of_true (fun x y => ⟨?_, .inl ⟨⟨what, ?_⟩, what, ?_⟩⟩) (.inl ⟨what, rfl⟩)
    · rw [(hends x).cursor, (hends y).cursor]
    · exact (hends x).result
    · exact (hends y).result
  · have hstop := (hends w.fresh).result
    constructor
    · intro hsame
      rcases (hsame w.fresh w.fresh).2 with ⟨⟨what, hthrown⟩, -⟩ | ⟨hok, -⟩
      · rw [hstop] at hthrown
        cases hthrown
      · rw [hstop] at hok
        cases hok
    · rintro (⟨what, hthrown⟩ | ⟨⟨v, hok⟩, -⟩)
      · cases hthrown
      · cases hok
  · rw [← extract_overwrites h w u v mid hread]
    have hfresh := extract_fresh h hread
    constructor
    · intro hsame
      refine .inr ⟨⟨v, rfl⟩, fun x => ?_⟩
      rcases (hsame x w.fresh).2 with ⟨-, what, hthrown⟩ | ⟨-, -, hvalue⟩
      · rw [hfresh] at hthrown
        cases hthrown
      · rw [hvalue, hfresh]
    · rintro (⟨what, hthrown⟩ | ⟨-, hvalue⟩) x y
      · cases hthrown
      · rw [(hends x).of_ok.1, (hends y).of_ok.1, hvalue x, hvalue y]
        exact ⟨rfl, .inr ⟨rfl, rfl, rfl⟩⟩

/-- **A target is forgotten** if and only if the bytes rewrite all of it, unless they
cannot be read; this holds of any bytes, and of those which an encoding has left. -/
theorem target_forgotten_iff {α : Type} (w : Wire α) :
    (∀ (h : Host) (u : Unpack), (∀ x y, SameReading (w.extract h u x) (w.extract h u y)) ↔
      Throws (w.read h u).1 ∨ (∃ v, (w.read h u).1 = .ok v) ∧ w.Rewrites h u) ∧
    ∀ (v : α) (st st' : PackBuffer), w.ContainersFit v → st.Inv →
      w.push .x86 v st = (.ok (), st') →
      ∃ b, st'.content = st.content ++ b ∧ ∀ r,
        (∀ x, ∃ u', w.extract .x86 (Unpack.new (b ++ r)) x = (.ok (), u', v) ∧
          u'.data = b.length) ↔ w.Rewrites .x86 (Unpack.new (b ++ r)) := by
  refine ⟨fun h u => same_reading_iff h w u, fun v st st' hc hst hpush => ?_⟩
  obtain ⟨b, hcontent, hdecode⟩ := decode_encode w v hc hst hpush
  refine ⟨b, hcontent, fun r => ?_⟩
  obtain ⟨u', hfresh, hdata⟩ := hdecode r
  obtain ⟨_, hread, hv⟩ := (w.extract_follows .x86).read_of_ok hfresh
  rw [← hv rfl] at hread
  rw [← extract_overwrites .x86 w _ v u' hread]
  constructor
  · intro hall x
    obtain ⟨_, hx, -⟩ := hall x
    rw [hx]
  · intro hvalue x
    have hx := (w.extract_follows .x86).returned hread x
    rw [hvalue x] at hx
    exact ⟨u', hx, hdata⟩

/-- The theorem, for the encoding of a vector of one byte. -/
theorem target_forgotten_iff_vector :
    let w : Wire (List UInt8) := .vector .uint8
    ∃ b, w.Rewrites .x86 (Unpack.new b) ∧
      ∀ x, ∃ u', w.extract .x86 (Unpack.new b) x = (.ok (), u', [7]) ∧ u'.data = b.length := by
  intro w
  let st := PackBuffer.new fun _ => some fun _ => 0
  have hst : st.Inv := PackBuffer.inv_new _
  have hfits : w.StringsFit [7] ∧ w.ContainersFit [7] := by
    simp [w, StringsFit, ContainersFit, All]
  have happends := push_appends .x86 w [7]
  have hroom : st.size + (w.bytes .x86 [7]).length ≤ 65536 := by
    show 0 + 5 ≤ _
    omega
  have hok := happends.room hst hfits.1 (fun _ => rfl) hroom
  have hpush : w.push .x86 [7] st = (.ok (), (w.push .x86 [7] st).2) := by
    rw [← hok.1, Prod.mk.eta]
  obtain ⟨b, hcontent, hdecode⟩ := (target_forgotten_iff w).2 [7] st _ hfits.2 hst hpush
  have hb : b = [1, 0, 0, 0, 7] := by
    have hbytes := (happends.ok hst hok.1).2
    rw [hcontent] at hbytes
    exact List.append_cancel_left hbytes
  have hrewrites : w.Rewrites .x86 (Unpack.new (b ++ [])) := by
    rw [hb]
    exact ⟨by decide, trivial, trivial⟩
  refine ⟨b, ?_, ?_⟩
  · rw [← List.append_nil b]
    exact hrewrites
  · have hall := (hdecode []).mpr hrewrites
    rw [List.append_nil] at hall
    exact hall

/-- The encoding of an empty vector leaves the elements of the target. -/
theorem empty_vector_keeps_elements :
    let w : Wire (List UInt8) := .vector .uint8
    w.bytes .x86 [] = [0, 0, 0, 0] ∧
      ¬∀ x y, SameReading (w.extract .x86 (Unpack.new [0, 0, 0, 0]) x)
        (w.extract .x86 (Unpack.new [0, 0, 0, 0]) y) := by
  refine ⟨rfl, fun hsame => ?_⟩
  rcases (hsame [] [9]).2 with ⟨⟨what, hthrown⟩, -⟩ | ⟨-, -, hvalue⟩
  · cases hthrown
  · cases hvalue

end Wire
end Net
end Deps
