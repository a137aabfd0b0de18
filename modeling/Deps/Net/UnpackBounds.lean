import Deps.Net.WireReading

/-!
# The unpacker and the end of its input

The end the unpacker believes in is `limit u = m_data + m_size`.  Every pop
trusts it, so reads stay inside the input as long as it is the real end.  All
pops keep it except `pop_double`, which moves the cursor and forgets the size.
`Tracks` says this once for a computation, and composes.

How many bytes a read needs is told by the bytes in front of the cursor alone,
also for a container, whose counts and lengths are among them.  `Served` says
what a read does with these bytes, found or not.
-/

namespace Deps
namespace Net

namespace Unpack

/-- The end of the input as the cursor and the remaining size give it. -/
def limit (u : Unpack) : Nat := u.data + u.size

/-- What a computation from `u` did to the limit, `dbl` telling whether it
reached a `pop_double` with enough bytes left to succeed. -/
structure Tracks {β : Type} (u : Unpack) (out : Except Fault β × Unpack) (dbl : Bool) :
    Prop where
  input : out.2.input = u.input
  mono : u.limit ≤ out.2.limit
  exact : dbl = false → out.2.limit = u.limit ∧
    (u.limit = u.input.length → out.1 ≠ .error .overread)
  drift : dbl = true → u.limit < out.2.limit ∨ out.1 = .error .overread

namespace Tracks

variable {β γ : Type} {u : Unpack}

theorem unchanged {r : Except Fault β} (hr : r ≠ .error .overread) : Tracks u (r, u) false where
  input := rfl
  mono := le_rfl
  exact _ := ⟨rfl, fun _ => hr⟩
  drift := nofun

/-- A computation followed by another one which starts where the first returned. -/
theorem seq {first : Except Fault β × Unpack} {out : Except Fault γ × Unpack}
    {dbl dbl' : Bool} (hfirst : Tracks u first dbl)
    (hok : ∀ b, first.1 = .ok b → Tracks first.2 out dbl')
    (herror : ∀ e, first.1 = .error e → out = (.error e, first.2) ∧ dbl' = false) :
    Tracks u out (dbl || dbl') := by
  rcases first with ⟨r, mid⟩
  cases r with
  | ok b =>
      -- the limit only grows, so a drift of either part is one of the whole
      have hrest := hok b rfl
      have hle := hfirst.mono
      have hle' := hrest.mono
      refine ⟨hrest.input.trans hfirst.input, hle.trans hle', fun hnone => ?_, fun hsome => ?_⟩
      · obtain ⟨hdbl, hdbl'⟩ := (Bool.or_eq_false_iff).mp hnone
        obtain ⟨hlimit, -⟩ := hfirst.exact hdbl
        obtain ⟨hlimit', hinside⟩ := hrest.exact hdbl'
        refine ⟨hlimit'.trans hlimit, fun hend => hinside ?_⟩
        rw [hlimit, hend, hfirst.input]
      · rcases (Bool.or_eq_true _ _).mp hsome with hdbl | hdbl'
        · rcases hfirst.drift hdbl with hlt | hover
          · exact .inl (hlt.trans_le hle')
          · cases hover
        · rcases hrest.drift hdbl' with hlt | hover
          · exact .inl (hle.trans_lt hlt)
          · exact .inr hover
  | error e =>
      obtain ⟨rfl, rfl⟩ := herror e rfl
      rw [Bool.or_false]
      refine ⟨hfirst.input, hfirst.mono, fun hdbl => ?_, fun hdbl => ?_⟩
      · obtain ⟨hlimit, hinside⟩ := hfirst.exact hdbl
        refine ⟨hlimit, fun hend hover => hinside hend ?_⟩
        cases hover
        rfl
      · rcases hfirst.drift hdbl with hlt | hover
        · exact .inl hlt
        · cases hover
          exact .inr rfl

/-- What is made of the returned value does not matter. -/
theorem map {out : Except Fault β × Unpack} {dbl : Bool} (h : Tracks u out dbl) (f : β → γ) :
    Tracks u (out.1.map f, out.2) dbl := by
  have hover : out.1.map f = .error .overread ↔ out.1 = .error .overread := by
    rcases out with ⟨_ | _, _⟩ <;> simp [Except.map]
  refine ⟨h.input, h.mono, fun hno => ?_, fun hyes => ?_⟩
  · obtain ⟨hlimit, hinside⟩ := h.exact hno
    exact ⟨hlimit, fun hend heq => hinside hend (hover.mp heq)⟩
  · exact (h.drift hyes).imp_right hover.mpr

end Tracks

/-- The computation, run anywhere, never reaches `pop_double`. -/
def Steady {β : Type} (x : UnpackM β) : Prop := ∀ u, Tracks u (x u) false

theorem Steady.bind {β γ : Type} {x : UnpackM β} {f : β → UnpackM γ} (hx : Steady x)
    (hf : ∀ b, Steady (f b)) : Steady (x >>= f) := by
  intro u
  refine (Tracks.seq (hx u) ?_ ?_ : Tracks u ((x >>= f) u) (false || false))
  · intro b hb
    rw [Throwing.bind_of_ok (Prod.ext hb rfl)]
    exact hf b _
  · intro e he
    exact ⟨Throwing.bind_of_error (Prod.ext he rfl), rfl⟩

/-- A pop of `k` bytes, `rest` being what it does behind the access: it throws,
or it accesses bytes behind the input, or it comes to `rest` with the bytes in
front of the limit. -/
theorem tracks_require_access {β : Type} (k : Nat) (what : String)
    (rest : List UInt8 → UnpackM β) (u : Unpack) {dbl : Bool}
    (hshort : u.size < k → dbl = false)
    (hrest : ∀ bytes, k ≤ u.size → Tracks u (rest bytes u) dbl) :
    Tracks u ((do
      require k what
      let bytes ← access k
      rest bytes : UnpackM β) u) dbl := by
  rw [require_access_eq]
  split
  · rename_i hsize
    rw [hshort hsize]
    exact Tracks.unchanged nofun
  rename_i hsize
  split
  · exact hrest _ (by omega)
  · rename_i hinside
    -- below a right limit there are bytes to access
    refine ⟨rfl, le_rfl, fun _ => ⟨rfl, fun hend => ?_⟩, fun _ => .inr rfl⟩
    rw [limit] at hend
    omega

/-- The usual pop keeps the limit. -/
theorem steady_fixed {β : Type} (k : Nat) (what : String) (decode : List UInt8 → β) :
    Steady (do
      require k what
      let bytes ← access k
      advance k
      pure (decode bytes)) := by
  intro u
  refine tracks_require_access k what _ u (fun _ => rfl) fun bytes hsize => ?_
  have hlimit : u.data + k + (u.size - k) = u.data + u.size := by omega
  exact ⟨rfl, hlimit.ge, fun _ => ⟨hlimit, fun _ => nofun⟩, nofun⟩

theorem steady_peekUint32 (h : Host) : Steady (peekUint32 h) := by
  intro u
  exact tracks_require_access 4 _ _ u (fun _ => rfl) fun _ _ => Tracks.unchanged nofun

theorem steady_popVarstr (h : Host) : Steady (popVarstr h) :=
  (steady_fixed 2 _ _).bind fun _ => steady_fixed _ _ _

theorem steady_popVarstr32 (h : Host) : Steady (popVarstr32 h) :=
  (steady_fixed 4 _ _).bind fun _ => steady_fixed _ _ _

/-- `pop_double` moves the limit by the eight bytes it does not take off the size. -/
theorem tracks_popDouble (h : Host) (u : Unpack) :
    Tracks u (popDouble h u) (decide (8 ≤ u.size)) := by
  refine tracks_require_access 8 _ _ u (fun hsize => by simpa using hsize) fun bytes hsize => ?_
  have hlt : u.limit < u.data + 8 + u.size := by
    rw [limit]
    omega
  exact ⟨rfl, hlt.le, fun hno => absurd hno (by simpa using hsize), fun _ => .inl hlt⟩

end Unpack

/-! ## Container reads -/

namespace Wire

open Unpack

/-- `dbl` tells of every extraction whether it reaches a successful `pop_double`. -/
def ExtractTracks {α : Type} (extract : Extract α) (dbl : Unpack → α → Bool) : Prop :=
  ∀ u x, Tracks u ((extract u x).1, (extract u x).2.1) (dbl u x)

def popsDoublePair {α β : Type} (dbl : Unpack → α → Bool) (dbl' : Unpack → β → Bool)
    (first : Extract α) (u : Unpack) (p : α × β) : Bool :=
  dbl u p.1 ||
    match first u p.1 with
    | (.ok (), u, _) => dbl' u p.2
    | (.error _, _, _) => false

def popsDoubleEach {α : Type} (dbl : Unpack → α → Bool) (extract : Extract α) :
    Unpack → List α → Bool
  | _, [] => false
  | u, x :: rest =>
      dbl u x ||
        match extract u x with
        | (.ok (), u, _) => popsDoubleEach dbl extract u rest
        | (.error _, _, _) => false

def popsDoubleInsert {α : Type} (dbl : Unpack → α → Bool) (extract : Extract α) (fresh : α) :
    Nat → Unpack → Bool
  | 0, _ => false
  | count + 1, u =>
      dbl u fresh ||
        match extract u fresh with
        | (.ok (), u, _) => popsDoubleInsert dbl extract fresh count u
        | (.error _, _, _) => false

/-- Whether `operator>>` reaches a `pop_double` with eight or more bytes left. -/
def popsDouble (h : Host) : {α : Type} → Wire α → Unpack → α → Bool
  | _, .double, u, _ => decide (8 ≤ u.size)
  | _, .pair a b, u, p => popsDoublePair (popsDouble h a) (popsDouble h b) (extract h a) u p
  | _, .vector a, u, c =>
      match popUint32 h u with
      | (.error _, _) => false
      | (.ok count, u) =>
          if count = 0 then false
          else popsDoubleEach (popsDouble h a) (extract h a) u
            (resizeVector (fresh a) c count.toNat)
  | _, .map _ a b, u, _ =>
      match popUint32 h u with
      | (.error _, _) => false
      | (.ok count, u) =>
          popsDoubleInsert (popsDoublePair (popsDouble h a) (popsDouble h b) (extract h a))
            (extractPair (extract h a) (extract h b)) (fresh a, fresh b) count.toNat u
  | _, .set _ a, u, _ =>
      match popUint32 h u with
      | (.error _, _) => false
      | (.ok count, u) =>
          popsDoubleInsert (popsDouble h a) (extract h a) (fresh a) count.toNat u
  | _, .record a b, u, p => popsDoublePair (popsDouble h a) (popsDouble h b) (extract h a) u p
  | _, _, _, _ => false

theorem assign_outcome {α β : Type} (pop : UnpackM β) (f : β → α) (u : Unpack) (x : α) :
    (assign pop f u x).1 = (pop u).1.map (fun _ => ()) ∧ (assign pop f u x).2.1 = (pop u).2 := by
  rcases hpop : pop u with ⟨r, mid⟩
  cases r <;> simp [assign, hpop, Except.map]

/-- An assignment from a pop tracks what the pop tracks. -/
theorem tracks_assign {α β : Type} {pop : UnpackM β} {f : β → α} {dbl : Unpack → α → Bool}
    (h : ∀ u x, Tracks u (pop u) (dbl u x)) : ExtractTracks (assign pop f) dbl := by
  intro u x
  obtain ⟨hr, hu⟩ := assign_outcome pop f u x
  rw [hr, hu]
  exact (h u x).map _

theorem tracks_pair {α β : Type} {first : Extract α} {second : Extract β}
    {dbl : Unpack → α → Bool} {dbl' : Unpack → β → Bool}
    (hfirst : ExtractTracks first dbl) (hsecond : ExtractTracks second dbl') :
    ExtractTracks (extractPair first second) (popsDoublePair dbl dbl' first) := by
  intro u p
  have htracks := hfirst u p.1
  rcases heq : first u p.1 with ⟨r, mid, a⟩
  rw [heq] at htracks
  unfold popsDoublePair
  rw [extractPair, heq]
  refine htracks.seq ?_ ?_
  · rintro ⟨⟩ hr
    cases hr
    exact hsecond mid p.2
  · intro e hr
    cases hr
    exact ⟨rfl, rfl⟩

theorem tracks_each {α : Type} {extract : Extract α} {dbl : Unpack → α → Bool}
    (h : ExtractTracks extract dbl) :
    ExtractTracks (extractEach extract) (popsDoubleEach dbl extract) := by
  intro u l
  induction l generalizing u with
  | nil => exact Tracks.unchanged nofun
  | cons x rest ih =>
      have htracks := h u x
      rcases heq : extract u x with ⟨r, mid, y⟩
      rw [heq] at htracks
      unfold popsDoubleEach
      rw [extractEach, heq]
      refine htracks.seq ?_ ?_
      · rintro ⟨⟩ hr
        cases hr
        exact ih mid
      · intro e hr
        cases hr
        exact ⟨rfl, rfl⟩

theorem tracks_insertEach {α γ : Type} {extract : Extract α} {dbl : Unpack → α → Bool}
    (h : ExtractTracks extract dbl) (fresh : α) (insert : α → γ → γ) (count : Nat) :
    ExtractTracks (insertEach extract fresh insert count)
      (fun u _ => popsDoubleInsert dbl extract fresh count u) := by
  induction count with
  | zero => exact fun u c => Tracks.unchanged nofun
  | succ count ih =>
      intro u c
      have htracks := h u fresh
      rcases heq : extract u fresh with ⟨r, mid, y⟩
      rw [heq] at htracks
      simp only [popsDoubleInsert, insertEach, heq]
      refine htracks.seq ?_ ?_
      · rintro ⟨⟩ hr
        cases hr
        exact ih mid (insert y c)
      · intro e hr
        cases hr
        exact ⟨rfl, rfl⟩

/-- A count-prefixed reader: the count, then the loop. -/
theorem tracks_counted {γ : Type} (h : Host) {loop : UInt32 → Extract γ}
    {dbl : UInt32 → Unpack → γ → Bool} (hloop : ∀ count, ExtractTracks (loop count) (dbl count)) :
    ExtractTracks
      (fun u c => match popUint32 h u with
        | (.error e, u) => (.error e, u, c)
        | (.ok count, u) => loop count u c)
      (fun u c => match popUint32 h u with
        | (.error _, _) => false
        | (.ok count, u) => dbl count u c) := by
  intro u c
  have hcount : Tracks u (popUint32 h u) false := steady_fixed 4 _ _ u
  rcases heq : popUint32 h u with ⟨r, mid⟩
  rw [heq] at hcount
  refine (Bool.false_or _).subst (hcount.seq ?_ ?_)
  · rintro count hr
    cases hr
    simp only [heq]
    exact hloop count mid c
  · intro e hr
    cases hr
    simp only [heq, and_self]

/-- Every extraction keeps the limit unless it reaches a successful `pop_double`. -/
theorem tracks_extract (h : Host) {α : Type} (w : Wire α) :
    ExtractTracks (w.extract h) (w.popsDouble h) := by
  induction w with
  | bool => exact tracks_assign fun u _ => steady_fixed 1 _ _ u
  | uint8 => exact tracks_assign fun u _ => steady_fixed 1 _ _ u
  | uint16 => exact tracks_assign fun u _ => steady_fixed 2 _ _ u
  | uint32 => exact tracks_assign fun u _ => steady_fixed 4 _ _ u
  | uint64 => exact tracks_assign fun u _ => steady_fixed 8 _ _ u
  | int64 => exact tracks_assign fun u _ => steady_fixed 8 _ _ u
  | double => exact tracks_assign fun u _ => tracks_popDouble h u
  | string => exact tracks_assign fun u _ => steady_popVarstr h u
  | pair a b iha ihb => exact tracks_pair iha ihb
  | vector a ih =>
      refine tracks_counted h fun count u c => ?_
      split
      · exact Tracks.unchanged nofun
      · exact tracks_each ih u _
  | map order a b iha ihb =>
      exact tracks_counted h fun count => tracks_insertEach (tracks_pair iha ihb) _ _ _
  | set order a ih => exact tracks_counted h fun count => tracks_insertEach ih _ _ _
  | voidmable => exact fun u x => Tracks.unchanged nofun
  | record a b iha ihb => exact tracks_pair iha ihb

end Wire

/-! ## The bytes a read needs -/

namespace Unpack

/-- The bytes from the cursor to the end of the input. -/
def front (u : Unpack) : List UInt8 := u.input.drop u.data

/-- A read which starts with a number: the `k` bytes of the number, and what `rest`
needs for this number in the bytes behind it. -/
def needPrefixed {β : Type} (k : Nat) (decode : List UInt8 → β)
    (rest : β → List UInt8 → Nat) (bytes : List UInt8) : Nat :=
  -- what is not there announces nothing
  if bytes.length < k then k else k + rest (decode (bytes.take k)) (bytes.drop k)

def needVarstr (h : Host) : List UInt8 → Nat :=
  needPrefixed 2 (fun bytes => h.xhtons (UInt16.ofNat (h.load bytes))) fun size _ => size.toNat

def needVarstr32 (h : Host) : List UInt8 → Nat :=
  needPrefixed 4 (fun bytes => h.xhtonl (UInt32.ofNat (h.load bytes))) fun size _ => size.toNat

/-- From `u` a read has found its `n` bytes in the input and has come to `mid` behind them. -/
structure Found (n : Nat) (u mid : Unpack) : Prop where
  input : mid.input = u.input
  data : mid.data = u.data + n
  inside : n ≤ u.front.length
  size_le : u.size ≤ mid.size + n

namespace Found

variable {n m : Nat} {u mid fin : Unpack}

theorem front (h : Found n u mid) : mid.front = u.front.drop n := by
  rw [Unpack.front, Unpack.front, h.input, h.data, List.drop_drop]

theorem trans (h : Found n u mid) (h' : Found m mid fin) : Found (n + m) u fin where
  input := h'.input.trans h.input
  data := by rw [h'.data, h.data, Nat.add_assoc]
  inside := by
    have hfirst := h.inside
    have hsecond := h'.inside
    rw [h.front, List.length_drop] at hsecond
    omega
  size_le := by
    have hfirst := h.size_le
    have hsecond := h'.size_le
    omega

end Found

/-- A read which needs `n` bytes returns with them, or throws where fewer are left. -/
def Served {β : Type} (n : Nat) (u : Unpack) : Except Fault β × Unpack → Prop
  | (.ok _, mid) => Found n u mid
  | (.error (.unpackError _), _) => u.size < n
  | (.error .overread, _) => True

/-- `need` tells of any bytes in front of the cursor how many of them the read needs. -/
def Needs {β : Type} (read : UnpackM β) (need : List UInt8 → Nat) : Prop :=
  ∀ u, Served (need u.front) u (read u)

section

variable {β γ : Type} {read : UnpackM β} {need : List UInt8 → Nat}

/-- A read and another one behind it. -/
theorem Served.bind {f : β → UnpackM γ} {u : Unpack} {n m : Nat} (hread : Served n u (read u))
    (hrest : ∀ b mid, read u = (.ok b, mid) → Found n u mid → Served m mid (f b mid)) :
    Served (n + m) u ((read >>= f) u) := by
  rcases Throwing.bind_split read f u with ⟨b, mid, heq, hbind⟩ | ⟨e, mid, heq, hbind⟩ <;>
    rw [heq] at hread <;>
    rw [hbind]
  · have hsecond := hrest b mid heq hread
    -- each end of the second read is an end of both
    rcases hout : f b mid with ⟨(what | _) | c, fin⟩ <;> rw [hout] at hsecond
    · have hsize := Found.size_le hread
      have hshort : mid.size < m := hsecond
      show u.size < n + m
      omega
    · exact trivial
    · exact Found.trans hread hsecond
  · rcases e with what | _
    · exact Nat.lt_add_right m hread
    · exact trivial

theorem Needs.map (h : Needs read need) (f : β → γ) :
    Needs (do let b ← read; pure (f b)) need := by
  intro u
  have hboth : Served (need u.front + 0) u ((read >>= fun b => pure (f b)) u) :=
    (h u).bind fun b mid _ _ => ⟨rfl, rfl, Nat.zero_le _, le_rfl⟩
  exact hboth

theorem needs_require_access {k : Nat} {what : String} {rest : List UInt8 → UnpackM β}
    (hrest : ∀ u, k ≤ u.size → k ≤ u.front.length →
      Served k u (rest (u.front.take k) u)) :
    Needs (do
      require k what
      let bytes ← access k
      rest bytes) fun _ => k := by
  intro u
  rw [require_access_eq]
  split
  · rename_i hsize
    exact hsize
  split
  · rename_i hsize hinside
    refine hrest u (by omega) ?_
    rw [front, List.length_drop]
    omega
  · exact trivial

theorem needs_fixed (k : Nat) (what : String) (decode : List UInt8 → β) :
    Needs (do
      require k what
      let bytes ← access k
      advance k
      pure (decode bytes)) fun _ => k :=
  needs_require_access fun _ hsize hinside =>
    ⟨rfl, rfl, hinside, (Nat.sub_add_cancel hsize).ge⟩

/-- `pop_double` takes its bytes off the input, if not off the size. -/
theorem needs_popDouble (h : Host) : Needs (popDouble h) fun _ => 8 :=
  needs_require_access fun _ _ hinside => ⟨rfl, rfl, hinside, Nat.le_add_right _ _⟩

/-- The value of the usual pop is decoded from the bytes in front. -/
theorem fixed_value {k : Nat} {what : String} {decode : List UInt8 → β} {u mid : Unpack} {b : β}
    (heq : (do
      require k what
      let bytes ← access k
      advance k
      pure (decode bytes) : UnpackM β) u = (.ok b, mid)) : b = decode (u.front.take k) := by
  rw [require_access_eq] at heq
  split at heq
  · cases heq
  split at heq
  · cases heq
    rfl
  · cases heq

theorem Needs.prefixed {k : Nat} {what : String} {decode : List UInt8 → β} {f : β → UnpackM γ}
    {rest : β → List UInt8 → Nat} (hf : ∀ b, Needs (f b) (rest b)) :
    Needs ((do
      require k what
      let bytes ← access k
      advance k
      pure (decode bytes) : UnpackM β) >>= f) (needPrefixed k decode rest) := by
  intro u
  have hnumber := needs_fixed k what decode u
  rw [needPrefixed]
  split
  · rename_i hshort
    exact hnumber.bind (m := 0) fun b mid _ hfound =>
      absurd hfound.inside hshort.not_ge
  · refine hnumber.bind fun b mid heq hfound => ?_
    rw [fixed_value heq, ← hfound.front]
    exact hf _ mid

theorem needs_popVarstr (h : Host) : Needs (popVarstr h) (needVarstr h) :=
  Needs.prefixed fun size => needs_fixed size.toNat _ _

theorem needs_popVarstr32 (h : Host) : Needs (popVarstr32 h) (needVarstr32 h) :=
  Needs.prefixed fun size => needs_fixed size.toNat _ _

end

end Unpack

namespace Wire

open Unpack

def needPair (first second : List UInt8 → Nat) (bytes : List UInt8) : Nat :=
  first bytes + second (bytes.drop (first bytes))

def needEach (need : List UInt8 → Nat) : Nat → List UInt8 → Nat
  | 0, _ => 0
  | count + 1, bytes => needPair need (needEach need count) bytes

def needCounted (h : Host) (need : List UInt8 → Nat) : List UInt8 → Nat :=
  needPrefixed 4 (fun bytes => h.xhtonl (UInt32.ofNat (h.load bytes))) fun count =>
    needEach need count.toNat

/-- The bytes which `operator>>` needs of those in front of it.  What is behind their
end announces nothing, but the pop which misses it already needs more than there is. -/
def need (h : Host) : {α : Type} → Wire α → List UInt8 → Nat
  | _, .bool, _ | _, .uint8, _ => 1
  | _, .uint16, _ => 2
  | _, .uint32, _ => 4
  | _, .uint64, _ | _, .int64, _ | _, .double, _ => 8
  | _, .string, bytes => needVarstr h bytes
  | _, .pair a b, bytes => needPair (need h a) (need h b) bytes
  | _, .vector a, bytes => needCounted h (need h a) bytes
  | _, .map _ a b, bytes => needCounted h (needPair (need h a) (need h b)) bytes
  | _, .set _ a, bytes => needCounted h (need h a) bytes
  | _, .voidmable, _ => 0
  | _, .record a b, bytes => needPair (need h a) (need h b) bytes

section

variable {α β : Type} {read : UnpackM α} {needs : List UInt8 → Nat}

theorem needs_pair {read' : UnpackM β} {needs' : List UInt8 → Nat} (h : Needs read needs)
    (h' : Needs read' needs') : Needs (readPair read read') (needPair needs needs') := by
  intro u
  refine (h u).bind fun x mid _ hfound => ?_
  rw [← hfound.front]
  exact h'.map (x, ·) mid

theorem needs_each (h : Needs read needs) (count : Nat) :
    Needs (readEach read count) (needEach needs count) := by
  induction count with
  | zero => exact fun u => ⟨rfl, rfl, Nat.zero_le _, le_rfl⟩
  | succ count ih =>
      intro u
      refine (h u).bind fun x mid _ hfound => ?_
      rw [← hfound.front]
      exact ih.map (x :: ·) mid

theorem needs_counted (h : Host) (hread : Needs read needs) :
    Needs (readCounted h read) (needCounted h needs) :=
  Needs.prefixed fun count => needs_each hread count.toNat

end

/-- A value is read exactly from the bytes it needs. -/
theorem read_needs (h : Host) {α : Type} (w : Wire α) : Needs (w.read h) (w.need h) := by
  induction w with
  | bool => exact (needs_fixed 1 _ _).map _
  | uint8 => exact needs_fixed 1 _ _
  | uint16 => exact needs_fixed 2 _ _
  | uint32 => exact needs_fixed 4 _ _
  | uint64 => exact needs_fixed 8 _ _
  | int64 => exact (needs_fixed 8 _ _).map _
  | double => exact needs_popDouble h
  | string => exact needs_popVarstr h
  | pair a b iha ihb => exact needs_pair iha ihb
  | vector a ih => exact needs_counted h ih
  | map order a b iha ihb => exact (needs_counted h (needs_pair iha ihb)).map _
  | set order a ih => exact (needs_counted h ih).map _
  | voidmable => exact fun u => ⟨rfl, rfl, Nat.zero_le _, le_rfl⟩
  | record a b iha ihb => exact needs_pair iha ihb

/-- `operator>>` needs what the reading needs, whatever its target holds. -/
theorem extract_needs (h : Host) {α : Type} (w : Wire α) (u : Unpack) (x : α) :
    Served (w.need h u.front) u ((w.extract h u x).1, (w.extract h u x).2.1) := by
  have hread := read_needs h w u
  have hends := extract_follows h w u x
  rw [hends.result, hends.cursor]
  rcases hout : w.read h u with ⟨(what | _) | v, mid⟩ <;> rw [hout] at hread
  · exact hread
  · exact trivial
  · exact hread

end Wire

/-! ## Runs of read operations -/

/-- The read operations of `Unpack`, and `operator>>` into any target. -/
inductive Pop : Type 1 where
  | uint8 | uint16 | uint32 | uint64 | int64 | double | peekUint32
  | fetch (k : Nat)
  | varstr | varstr32
  | extract {α : Type} (w : Wire α) (target : α)

namespace Pop

open Unpack

/-- Forget the value a pop returns. -/
def drop {β : Type} (pop : UnpackM β) (u : Unpack) : Except Fault Unit × Unpack :=
  ((pop u).1.map fun _ => (), (pop u).2)

def exec (h : Host) : Pop → Unpack → Except Fault Unit × Unpack
  | .uint8, u => drop popUint8 u
  | .uint16, u => drop (popUint16 h) u
  | .uint32, u => drop (popUint32 h) u
  | .uint64, u => drop (popUint64 h) u
  | .int64, u => drop (popInt64 h) u
  | .double, u => drop (popDouble h) u
  | .peekUint32, u => drop (Unpack.peekUint32 h) u
  | .fetch k, u => drop (popFetchPtr k) u
  | .varstr, u => drop (popVarstr h) u
  | .varstr32, u => drop (popVarstr32 h) u
  | .extract w target, u => ((w.extract h u target).1, (w.extract h u target).2.1)

/-- The bytes which the operation needs of those in front of it. -/
def need (h : Host) : Pop → List UInt8 → Nat
  | .uint8, _ => 1
  | .uint16, _ => 2
  | .uint32, _ => 4
  | .uint64, _ => 8
  | .int64, _ => 8
  | .double, _ => 8
  | .peekUint32, _ => 4
  | .fetch k, _ => k
  | .varstr, bytes => needVarstr h bytes
  | .varstr32, bytes => needVarstr32 h bytes
  | .extract w _, bytes => w.need h bytes

/-- The bytes which it takes when it returns: all it needs, but `peek_uint32` takes none. -/
def takes (h : Host) : Pop → List UInt8 → Nat
  | .peekUint32, _ => 0
  | op, bytes => op.need h bytes

/-- The operation reaches a `pop_double` with eight or more bytes left. -/
def popsDouble (h : Host) : Pop → Unpack → Bool
  | .double, u => decide (8 ≤ u.size)
  | .extract w target, u => w.popsDouble h u target
  | _, _ => false

theorem tracks_drop {β : Type} {pop : UnpackM β} {u : Unpack} {dbl : Bool}
    (h : Tracks u (pop u) dbl) : Tracks u (drop pop u) dbl :=
  h.map _

theorem tracks_exec (h : Host) (op : Pop) (u : Unpack) :
    Tracks u (op.exec h u) (op.popsDouble h u) := by
  cases op with
  | uint8 => exact tracks_drop (steady_fixed 1 _ _ u)
  | uint16 => exact tracks_drop (steady_fixed 2 _ _ u)
  | uint32 => exact tracks_drop (steady_fixed 4 _ _ u)
  | uint64 => exact tracks_drop (steady_fixed 8 _ _ u)
  | int64 => exact tracks_drop (steady_fixed 8 _ _ u)
  | double => exact tracks_drop (tracks_popDouble h u)
  | peekUint32 => exact tracks_drop (steady_peekUint32 h u)
  | fetch k => exact tracks_drop (steady_fixed k _ _ u)
  | varstr => exact tracks_drop (steady_popVarstr h u)
  | varstr32 => exact tracks_drop (steady_popVarstr32 h u)
  | extract w target => exact w.tracks_extract h u target

/-! ### One operation -/

theorem served_drop {β : Type} {pop : UnpackM β} {needs : List UInt8 → Nat}
    (hpop : Needs pop needs) (u : Unpack) : Served (needs u.front) u (drop pop u) := by
  have hserved := hpop u
  rw [drop]
  rcases hout : pop u with ⟨(what | _) | v, mid⟩ <;> rw [hout] at hserved
  · exact hserved
  · exact trivial
  · exact hserved

/-- An operation returns with the bytes it needs, or throws where fewer are left. -/
theorem exec_served (h : Host) (op : Pop) (u : Unpack) (hpeek : op ≠ .peekUint32) :
    Served (op.need h u.front) u (op.exec h u) := by
  cases op with
  | uint8 => exact served_drop (needs_fixed 1 _ _) u
  | uint16 => exact served_drop (needs_fixed 2 _ _) u
  | uint32 => exact served_drop (needs_fixed 4 _ _) u
  | uint64 => exact served_drop (needs_fixed 8 _ _) u
  | int64 => exact served_drop (needs_fixed 8 _ _) u
  | double => exact served_drop (needs_popDouble h) u
  | peekUint32 => exact absurd rfl hpeek
  | fetch k => exact served_drop (needs_fixed k _ _) u
  | varstr => exact served_drop (needs_popVarstr h) u
  | varstr32 => exact served_drop (needs_popVarstr32 h) u
  | extract w target => exact w.extract_needs h u target

/-- `peek_uint32` looks at its bytes and leaves the cursor. -/
theorem exec_peekUint32 (h : Host) (u : Unpack) :
    u.size < 4 ∧ (∃ what, (exec h .peekUint32 u).1 = .error (.unpackError what)) ∨
      4 ≤ u.front.length ∧ exec h .peekUint32 u = (.ok (), u) ∨
      (exec h .peekUint32 u).1 = .error .overread := by
  rw [exec, drop, Unpack.peekUint32, require_access_eq]
  split
  · rename_i hsize
    exact .inl ⟨hsize, _, rfl⟩
  split
  · rename_i hsize hinside
    refine .inr (.inl ⟨?_, rfl⟩)
    rw [front, List.length_drop]
    omega
  · exact .inr (.inr rfl)

/-- What an operation has done that has not left the input. -/
theorem exec_outcome (h : Host) (op : Pop) (u : Unpack)
    (hinside : (op.exec h u).1 ≠ .error .overread) :
    (u.size < op.need h u.front ∧ ∃ what, (op.exec h u).1 = .error (.unpackError what)) ∨
      op.need h u.front ≤ u.front.length ∧ (op.exec h u).1 = .ok () ∧
        (op.exec h u).2.data = u.data + op.takes h u.front := by
  by_cases hpeek : op = .peekUint32
  · subst hpeek
    rcases exec_peekUint32 h u with ⟨hsize, hthrown⟩ | ⟨hfour, hok⟩ | hover
    · exact .inl ⟨hsize, hthrown⟩
    · rw [hok]
      exact .inr ⟨hfour, rfl, rfl⟩
    · exact absurd hover hinside
  have hserved := exec_served h op u hpeek
  have htakes : op.takes h u.front = op.need h u.front := by
    cases op <;> first | rfl | exact absurd rfl hpeek
  rcases hout : op.exec h u with ⟨(what | _) | ⟨⟩, mid⟩ <;> rw [hout] at hserved hinside
  · exact .inl ⟨hserved, what, rfl⟩
  · exact absurd rfl hinside
  · rw [htakes]
    exact .inr ⟨Found.inside hserved, rfl, Found.data hserved⟩

/-- What the unpacker owes its caller in one operation on `input`: the limit
afterwards is the end of the input, no byte behind the end was accessed, an
operation throws exactly when it needs more than what is left, and one which
returned took just the bytes it needs, all of them in the input. -/
structure Stays (h : Host) (input : List UInt8) (op : Pop) (u : Unpack) : Prop where
  limit : (op.exec h u).2.limit = input.length
  inside : (op.exec h u).1 ≠ .error .overread
  throws : input.length - u.data < op.need h (input.drop u.data) ↔
    ∃ what, (op.exec h u).1 = .error (.unpackError what)
  taken : (op.exec h u).1 = .ok () →
    (op.exec h u).2.data = u.data + op.takes h (input.drop u.data) ∧
      (op.exec h u).2.data ≤ input.length

/-- From a right limit, an operation is well behaved exactly when it reaches no
`pop_double` that succeeds. -/
theorem stays_iff (h : Host) (op : Pop) {u : Unpack} (hend : u.limit = u.input.length) :
    Stays h u.input op u ↔ op.popsDouble h u = false := by
  have htracks := tracks_exec h op u
  constructor
  · intro hstays
    by_contra hdouble
    rcases htracks.drift (by simpa using hdouble) with hlt | hover
    · rw [hstays.limit, hend] at hlt
      exact lt_irrefl _ hlt
    · exact hstays.inside hover
  · intro hdouble
    obtain ⟨hlimit, hinside⟩ := htracks.exact hdouble
    rw [hend] at hlimit
    have hle : (op.exec h u).2.data ≤ u.input.length := by
      rw [← hlimit]
      exact Nat.le_add_right _ _
    have hleft : u.front.length = u.input.length - u.data := List.length_drop
    rw [Unpack.limit] at hend
    rcases exec_outcome h op u (hinside hend) with ⟨hshort, hthrown⟩ | ⟨hfound, hok, hdata⟩
    · refine ⟨hlimit, hinside hend, iff_of_true ?_ hthrown, fun hok => ?_⟩
      · have hsize : u.size = u.input.length - u.data := by omega
        rw [← hsize]
        exact hshort
      · obtain ⟨what, hthrown⟩ := hthrown
        rw [hthrown] at hok
        cases hok
    · refine ⟨hlimit, hinside hend, iff_of_false ?_ ?_, fun _ => ⟨hdata, hle⟩⟩
      · rw [← hleft]
        exact hfound.not_gt
      · rintro ⟨what, hthrown⟩
        rw [hthrown] at hok
        cases hok

/-! ### Runs -/

/-- The operations of a run, each with the unpacker it starts from.  The caller
may catch an `UnpackError` and go on; an access behind the input ends the run. -/
def trace (h : Host) : List Pop → Unpack → List (Pop × Unpack)
  | [], _ => []
  | op :: ops, u =>
      (op, u) ::
        match op.exec h u with
        | (.error .overread, _) => []
        | (_, u') => trace h ops u'

theorem trace_cons (h : Host) (op : Pop) (ops : List Pop) (u : Unpack)
    (hinside : (op.exec h u).1 ≠ .error .overread) :
    trace h (op :: ops) u = (op, u) :: trace h ops (op.exec h u).2 := by
  rw [trace]
  split
  · rename_i heq
    exact absurd (by rw [heq]) hinside
  · rename_i heq
    rw [heq]

theorem trace_stays_iff (h : Host) (ops : List Pop) {u : Unpack}
    (hend : u.limit = u.input.length) :
    (∀ step ∈ trace h ops u, Stays h u.input step.1 step.2) ↔
      ∀ step ∈ trace h ops u, step.1.popsDouble h step.2 = false := by
  induction ops generalizing u with
  | nil => simp [trace]
  | cons op ops ih =>
      have hhead := stays_iff h op hend
      by_cases hdouble : op.popsDouble h u = false
      · have hstays := hhead.mpr hdouble
        have hinput := (tracks_exec h op u).input
        have hrest := ih (hstays.limit.trans (congrArg List.length hinput.symm))
        rw [hinput] at hrest
        rw [trace_cons h op ops u hstays.inside, List.forall_mem_cons, List.forall_mem_cons,
          hrest, hhead]
      -- this very call leaves the input, the rest of the run does not matter
      · have hbad : ¬ Stays h u.input op u := fun hstays => hdouble (hhead.mp hstays)
        have hmem : (op, u) ∈ trace h (op :: ops) u := List.mem_cons_self
        exact iff_of_false (fun hall => hbad (hall _ hmem)) (fun hall => hdouble (hall _ hmem))

/-- A run stays inside its input exactly when none of its operations comes to a
`pop_double`, in its own or in a container's name, with eight bytes left. -/
theorem run_stays_inside_iff (h : Host) (input : List UInt8) (ops : List Pop) :
    (∀ step ∈ trace h ops (Unpack.new input), Stays h input step.1 step.2) ↔
      ∀ step ∈ trace h ops (Unpack.new input), step.1.popsDouble h step.2 = false :=
  trace_stays_iff h ops (Nat.zero_add _)

/-- Eight bytes, a double and one byte more: the last read is behind the end. -/
theorem run_overreads_after_double :
    ¬ ∀ step ∈ trace .x86 [.double, .uint8] (Unpack.new (List.replicate 8 0)),
      Stays .x86 (List.replicate 8 0) step.1 step.2 :=
  fun hall => absurd ((trace_stays_iff .x86 [.double, .uint8] (Nat.zero_add _)).mp hall)
    (by decide)

end Pop
end Net
end Deps
