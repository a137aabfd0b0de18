import Deps.Net.Wire

/-!
# What the bytes say

`Wire.read` reads a value as a function of the bytes alone.  `operator>>` works on
a target instead, which may hold anything: it returns or stops as the reading does
and leaves the cursor where the reading leaves it, and a fresh target gets the
value which is read.
-/

namespace Deps
namespace Net
namespace Wire

open Unpack

/-- The values of `count` readings, one after the other. -/
def readEach {α : Type} (read : UnpackM α) : Nat → UnpackM (List α)
  | 0 => pure []
  | count + 1 => do
      let x ← read
      let rest ← readEach read count
      pure (x :: rest)

/-- The reading of two values. -/
def readPair {α β : Type} (first : UnpackM α) (second : UnpackM β) : UnpackM (α × β) := do
  let x ← first
  let y ← second
  pure (x, y)

/-- A count, and as many values. -/
def readCounted {α : Type} (h : Host) (read : UnpackM α) : UnpackM (List α) := do
  let count ← popUint32 h
  readEach read count.toNat

/-- The map which holds the entries; of entries with one key it holds the first. -/
def mapOf {α β : Type} (order : KeyOrder α) (entries : List (α × β)) : OrderedMap order β :=
  (OrderedMap.empty order β).insertAll entries

def setOf {α : Type} (order : KeyOrder α) (keys : List α) : OrderedSet order :=
  keys.foldl (fun c k => OrderedMap.insert c k ()) (OrderedMap.empty order Unit)

theorem setOf_eq {α : Type} (order : KeyOrder α) (keys : List α) :
    setOf order keys = mapOf order (keys.map fun k => (k, ())) := by
  rw [setOf, mapOf, OrderedMap.insertAll, List.foldl_map]

/-- The value which the bytes at the cursor encode. -/
def read (h : Host) : {α : Type} → Wire α → UnpackM α
  | _, .bool => do
      let u8 ← popUint8
      pure (if u8 = 0 then false else true)
  | _, .uint8 => popUint8
  | _, .uint16 => popUint16 h
  | _, .uint32 => popUint32 h
  | _, .uint64 => popUint64 h
  | _, .int64 => do
      let i64 ← popInt64 h
      pure i64.toInt64
  | _, .double => popDouble h
  | _, .string => popVarstr h
  | _, .pair a b => readPair (read h a) (read h b)
  | _, .vector a => readCounted h (read h a)
  | _, .map order a b => do
      let entries ← readCounted h (readPair (read h a) (read h b))
      pure (mapOf order entries)
  | _, .set order a => do
      let keys ← readCounted h (read h a)
      pure (setOf order keys)
  | _, .voidmable => pure ()
  | _, .record field rest => readPair (read h field) (read h rest)

/-! ## Extractions next to readings -/

/-- The end of an extraction next to the end of a reading: both have stopped, or both
have returned, with a value and a target which satisfy `good`. -/
inductive Ends {β γ : Type} (good : β → γ → Prop) :
    Except Fault β × Unpack → Except Fault Unit × Unpack × γ → Prop
  | returned {v mid y} (hy : good v y) : Ends good (.ok v, mid) (.ok (), mid, y)
  | stopped {e mid y} : Ends good (.error e, mid) (.error e, mid, y)

namespace Ends

variable {β γ : Type} {good : β → γ → Prop} {out : Except Fault β × Unpack}
  {out' : Except Fault Unit × Unpack × γ}

theorem mono {Q : β → γ → Prop} (h : Ends good out out') (hgood : ∀ v y, good v y → Q v y) :
    Ends Q out out' := by
  cases h with
  | returned hy => exact .returned (hgood _ _ hy)
  | stopped => exact .stopped

/-- An extraction stops in the way of the reading. -/
theorem result (h : Ends good out out') : out'.1 = out.1.map fun _ => () := by
  cases h <;> rfl

theorem cursor (h : Ends good out out') : out'.2.1 = out.2 := by
  cases h <;> rfl

/-- Next to a reading which returns, the extraction returns. -/
theorem of_ok {v : β} {mid : Unpack} (h : Ends good (.ok v, mid) out') :
    out' = (.ok (), mid, out'.2.2) ∧ good v out'.2.2 := by
  cases h with
  | returned hy => exact ⟨rfl, hy⟩

theorem of_error {e : Fault} {mid : Unpack} (h : Ends good (.error e, mid) out') :
    out' = (.error e, mid, out'.2.2) := by
  cases h with
  | stopped => rfl

/-- A reading and what follows it, next to an extraction and what follows that. -/
theorem seq {δ ε : Type} {Q : δ → ε → Prop} {x : UnpackM β} {f : β → UnpackM δ} {u : Unpack}
    {k : Unpack → γ → Except Fault Unit × Unpack × ε} {stop : γ → ε}
    (hok : ∀ v mid y, good v y → Ends Q (f v mid) (k mid y)) : Ends good (x u) out' →
    Ends Q ((x >>= f) u)
      (match out' with
        | (.ok (), u, y) => k u y
        | (.error e, u, y) => (.error e, u, stop y)) := by
  intro h
  rcases Throwing.bind_split x f u with ⟨v, mid, heq, hbind⟩ | ⟨e, mid, heq, hbind⟩ <;>
    rw [heq] at h <;>
    rw [hbind]
  · cases h with
    | returned hy => exact hok v mid _ hy
  · cases h with
    | stopped => exact .stopped

/-- What is made of the value which is read, and of the target. -/
theorem map {δ ε : Type} {Q : δ → ε → Prop} {x : UnpackM β} {u : Unpack}
    (h : Ends good (x u) out') (f : β → δ) (g : γ → ε)
    (hgood : ∀ v y, good v y → Q (f v) (g y)) :
    Ends Q ((do let v ← x; pure (f v) : UnpackM δ) u) (out'.1, out'.2.1, g out'.2.2) := by
  rcases Throwing.bind_split x (fun v => pure (f v)) u with
    ⟨v, mid, heq, hbind⟩ | ⟨e, mid, heq, hbind⟩ <;>
    rw [heq] at h <;>
    rw [hbind]
  · cases h with
    | returned hy => exact .returned (hgood _ _ hy)
  · cases h with
    | stopped => exact .stopped

end Ends

/-- Whatever the target holds, the extraction ends as the reading does; if it is
fresh, it gets the value. -/
def Follows {α : Type} (extract : Extract α) (fresh : α) (read : UnpackM α) : Prop :=
  ∀ u x, Ends (fun v y => x = fresh → y = v) (read u) (extract u x)

section

variable {α β γ : Type} {extract : Extract α} {fresh : α} {read : UnpackM α}

namespace Follows

variable {u mid : Unpack} (h : Follows extract fresh read)
include h

theorem returned {v : α} (hread : read u = (.ok v, mid)) (x : α) :
    extract u x = (.ok (), mid, (extract u x).2.2) := by
  have hends := h u x
  rw [hread] at hends
  exact hends.of_ok.1

theorem stopped {e : Fault} (hread : read u = (.error e, mid)) (x : α) :
    extract u x = (.error e, mid, (extract u x).2.2) := by
  have hends := h u x
  rw [hread] at hends
  exact hends.of_error

/-- A value has been read when the extraction returns. -/
theorem read_of_ok {x y : α} (hextract : extract u x = (.ok (), mid, y)) :
    ∃ v, read u = (.ok v, mid) ∧ (x = fresh → y = v) := by
  have hends := h u x
  rw [hextract] at hends
  generalize read u = out at hends
  cases hends with
  | returned hy => exact ⟨_, rfl, hy⟩

end Follows

theorem follows_assign {pop : UnpackM β} {f : β → α} :
    Follows (assign pop f) fresh (do let b ← pop; pure (f b)) := by
  intro u x
  rcases Throwing.bind_split pop (fun b => pure (f b)) u with
    ⟨b, mid, heq, hbind⟩ | ⟨e, mid, heq, hbind⟩
  · rw [hbind, assign, heq]
    exact .returned fun _ => rfl
  · rw [hbind, assign, heq]
    exact .stopped

theorem follows_assign_id {pop : UnpackM α} : Follows (assign pop id) fresh pop := by
  intro u x
  unfold assign
  rcases pop u with ⟨e | b, mid⟩
  · exact .stopped
  · exact .returned fun _ => rfl

theorem Follows.pair {second : Extract β} {fresh' : β} {read' : UnpackM β}
    (hfirst : Follows extract fresh read) (hsecond : Follows second fresh' read') :
    Follows (extractPair extract second) (fresh, fresh') (readPair read read') := by
  intro u p
  unfold extractPair
  refine Ends.seq (fun x mid x' hx => ?_) (hfirst u p.1)
  refine (hsecond mid p.2).map (x, ·) (x', ·) fun y y' hy hp => ?_
  subst hp
  rw [hx rfl, hy rfl]

/-- The loop over the elements of a vector. -/
theorem Follows.each (h : Follows extract fresh read) (u : Unpack) (l : List α) :
    Ends (fun v y => l = List.replicate l.length fresh → y = v) (readEach read l.length u)
      (extractEach extract u l) := by
  induction l generalizing u with
  | nil => exact .returned fun _ => rfl
  | cons x rest ih =>
      unfold extractEach
      refine Ends.seq (fun v mid x' hx => ?_) (h u x)
      refine (ih mid).map (v :: ·) (x' :: ·) fun l y hl hfresh => ?_
      rw [List.length_cons, List.replicate_succ] at hfresh
      obtain ⟨hhead, htail⟩ := List.cons.inj hfresh
      rw [hx hhead, hl htail]

/-- The loop which inserts what it has read; every turn reads into a fresh object. -/
theorem Follows.insertEach (h : Follows extract fresh read) (insert : α → γ → γ) (count : Nat)
    (u : Unpack) (c : γ) :
    Ends (fun l y => y = l.foldl (fun c x => insert x c) c) (readEach read count u)
      (insertEach extract fresh insert count u c) := by
  induction count generalizing u c with
  | zero => exact .returned rfl
  | succ count ih =>
      unfold Wire.insertEach
      refine Ends.seq (fun v mid x hx => ?_) (h u fresh)
      refine (ih mid (insert x c)).map (v :: ·) id fun l y hl => ?_
      rw [List.foldl_cons, ← hx rfl]
      exact hl

/-- A count and a loop, next to the reading of a count and of as many values. -/
theorem ends_counted {h : Host} (loop : UInt32 → Extract γ) {good : List α → γ → Prop} {u : Unpack}
    {c : γ} (hloop : ∀ count mid, popUint32 h u = (.ok count, mid) →
      Ends good (readEach read count.toNat mid) (loop count mid c)) :
    Ends good (readCounted h read u)
      (match popUint32 h u with
        | (.error e, u) => (.error e, u, c)
        | (.ok count, u) => loop count u c) := by
  unfold readCounted
  rcases Throwing.bind_split (popUint32 h) (fun count => readEach read count.toNat) u with
    ⟨count, mid, heq, hbind⟩ | ⟨e, mid, heq, hbind⟩
  · rw [hbind, heq]
    exact hloop count mid heq
  · rw [hbind, heq]
    exact .stopped

/-- Reading into a container of which every turn inserts one value. -/
theorem Follows.counted (h : Host) (hread : Follows extract fresh read) (insert : α → γ → γ)
    (u : Unpack) (c : γ) :
    Ends (fun l y => y = l.foldl (fun c x => insert x c) c) (readCounted h read u)
      (match popUint32 h u with
        | (.error e, u) => (.error e, u, c)
        | (.ok count, u) => Wire.insertEach extract fresh insert count.toNat u c) :=
  ends_counted _ fun count mid _ => hread.insertEach insert count.toNat mid c

end

/-! ## `operator>>` -/

theorem length_resizeVector {α : Type} (fresh : α) (c : List α) (n : Nat) :
    (resizeVector fresh c n).length = n := by
  simp [resizeVector]
  omega

/-- **`operator>>` ends as the reading does**, whatever its target holds. -/
theorem extract_follows (h : Host) {α : Type} (w : Wire α) :
    Follows (w.extract h) w.fresh (w.read h) := by
  induction w with
  | bool => exact follows_assign
  | uint8 => exact follows_assign_id
  | uint16 => exact follows_assign_id
  | uint32 => exact follows_assign_id
  | uint64 => exact follows_assign_id
  | int64 => exact follows_assign
  | double => exact follows_assign_id
  | string => exact follows_assign_id
  | pair a b iha ihb => exact iha.pair ihb
  | vector a ih =>
      intro u c
      refine ends_counted (fun count u c => if count = 0 then (.ok (), u, c)
        else extractEach (a.extract h) u (resizeVector a.fresh c count.toNat)) fun count mid _ => ?_
      split
      · rename_i hzero
        rw [hzero]
        exact .returned id
      have heach := ih.each mid (resizeVector a.fresh c count.toNat)
      rw [length_resizeVector] at heach
      refine heach.mono fun v y hy hc => hy ?_
      rw [hc]
      simp [resizeVector, fresh]
  | map order a b iha ihb =>
      intro u c
      refine ((iha.pair ihb).counted h (fun tmp c => c.insert tmp.1 tmp.2) u c).map
        (Q := fun v y => c = OrderedMap.empty order _ → y = v) (mapOf order) id ?_
      rintro l y hy rfl
      exact hy
  | set order a ih =>
      intro u c
      refine (ih.counted h (fun tmp c => OrderedMap.insert c tmp ()) u c).map
        (Q := fun v y => c = OrderedMap.empty order _ → y = v) (setOf order) id ?_
      rintro l y hy rfl
      exact hy
  | voidmable => exact fun u x => .returned fun _ => rfl
  | record a b iha ihb => exact iha.pair ihb

/-- A fresh target gets the value which is read. -/
theorem extract_fresh (h : Host) {α : Type} {w : Wire α} {u mid : Unpack} {v : α}
    (hread : w.read h u = (.ok v, mid)) : w.extract h u w.fresh = (.ok (), mid, v) := by
  have hends := w.extract_follows h u w.fresh
  rw [hread] at hends
  obtain ⟨hout, hv⟩ := hends.of_ok
  rw [hout, hv rfl]

/-- `UnpackError` was thrown. -/
def Throws {β : Type} (r : Except Fault β) : Prop := ∃ what, r = .error (.unpackError what)

/-- Two extractions have both thrown, or both returned with equal targets, and have left
the cursor in one place. -/
def SameReading {γ : Type} (p q : Except Fault Unit × Unpack × γ) : Prop :=
  p.2.1 = q.2.1 ∧ (Throws p.1 ∧ Throws q.1 ∨ p.1 = .ok () ∧ q.1 = .ok () ∧ p.2.2 = q.2.2)

end Wire
end Net
end Deps
