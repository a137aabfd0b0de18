import Deps.Net.TakenBytes

/-!
# How many elements a packet creates

`Wire.states` are the values which a target takes while it is read into.  A vector is
resized to the count in front of it before there is a byte of its elements, an entry
of a map or a set is created when it has been read.  `Wire.declared` is the number of
elements which the bytes make a fresh target hold.
-/

namespace Deps
namespace Net
namespace Wire

open Unpack

/-! ## The states of a target -/

def statesPair {α β : Type} (first : Extract α) (states : Unpack → α → List α)
    (states' : Unpack → β → List β) (u : Unpack) (p : α × β) : List (α × β) :=
  (states u p.1).map (·, p.2) ++
    match first u p.1 with
    | (.ok (), u, a) => (states' u p.2).map (a, ·)
    | (.error _, _, _) => []

def statesEach {α : Type} (extract : Extract α) (states : Unpack → α → List α) :
    Unpack → List α → List (List α)
  | _, [] => []
  | u, x :: rest =>
      (states u x).map (· :: rest) ++
        match extract u x with
        | (.ok (), u, x) => (statesEach extract states u rest).map (x :: ·)
        | (.error _, _, _) => []

/-- Only what has been inserted is in the target, the value which is read is not. -/
def statesInsert {α γ : Type} (extract : Extract α) (fresh : α) (insert : α → γ → γ) :
    Nat → Unpack → γ → List γ
  | 0, _, _ => []
  | count + 1, u, c =>
      match extract u fresh with
      | (.ok (), u, tmp) =>
          insert tmp c :: statesInsert extract fresh insert count u (insert tmp c)
      | (.error _, _, _) => []

/-- The values which the target takes one after the other, up to the last one. -/
def states (h : Host) : {α : Type} → Wire α → Unpack → α → List α
  | _, .pair a b, u, p => statesPair (extract h a) (states h a) (states h b) u p
  | _, .vector a, u, c =>
      match popUint32 h u with
      | (.error _, _) => []
      | (.ok count, u) =>
          if count = 0 then []
          else
            -- all the elements are there before the first of them is read
            resizeVector a.fresh c count.toNat ::
              statesEach (extract h a) (states h a) u (resizeVector a.fresh c count.toNat)
  | _, .map _ a b, u, c =>
      match popUint32 h u with
      | (.error _, _) => []
      | (.ok count, u) =>
          statesInsert (extractPair (extract h a) (extract h b)) (a.fresh, b.fresh)
            (fun tmp c => c.insert tmp.1 tmp.2) count.toNat u c
  | _, .set _ a, u, c =>
      match popUint32 h u with
      | (.error _, _) => []
      | (.ok count, u) =>
          statesInsert (extract h a) a.fresh (fun tmp c => OrderedMap.insert c tmp ())
            count.toNat u c
  | _, .record a b, u, p => statesPair (extract h a) (states h a) (states h b) u p
  | _, w, u, x => [(extract h w u x).2.2]

/-- The states of a target end with what the extraction leaves. -/
def EndsWith {α : Type} (extract : Extract α) (states : Unpack → α → List α) : Prop :=
  ∀ u x, (states u x).getLastD x = (extract u x).2.2

section

variable {α β γ : Type} {extract : Extract α} {states : Unpack → α → List α}

theorem getLastD_append (l l' : List α) (x : α) :
    (l ++ l').getLastD x = l'.getLastD (l.getLastD x) := by
  rw [List.getLastD_eq_getLast?, List.getLast?_append, List.getLastD_eq_getLast?,
    List.getLastD_eq_getLast?]
  cases l'.getLast? <;> rfl

theorem EndsWith.pair {second : Extract β} {states' : Unpack → β → List β}
    (hfirst : EndsWith extract states) (hsecond : EndsWith second states') :
    EndsWith (extractPair extract second) (statesPair extract states states') := by
  intro u p
  have hx : ((states u p.1).map (·, p.2)).getLastD p = ((extract u p.1).2.2, p.2) := by
    rw [← hfirst u p.1]
    exact List.getLastD_map
  rw [statesPair, extractPair, getLastD_append, hx]
  rcases extract u p.1 with ⟨e | _, mid, a⟩
  · rfl
  · show ((states' mid p.2).map (a, ·)).getLastD (a, p.2) = (a, (second mid p.2).2.2)
    rw [← hsecond mid p.2]
    exact List.getLastD_map

theorem EndsWith.each (h : EndsWith extract states) :
    EndsWith (extractEach extract) (statesEach extract states) := by
  intro u l
  induction l generalizing u with
  | nil => rfl
  | cons x rest ih =>
      have hx : ((states u x).map (· :: rest)).getLastD (x :: rest) =
          (extract u x).2.2 :: rest := by
        rw [← h u x]
        exact List.getLastD_map
      rw [statesEach, extractEach, getLastD_append, hx]
      rcases extract u x with ⟨e | _, mid, a⟩
      · rfl
      · show ((statesEach extract states mid rest).map (a :: ·)).getLastD (a :: rest) =
          a :: (extractEach extract mid rest).2.2
        rw [← ih mid]
        exact List.getLastD_map

theorem endsWith_insertEach (fresh : α) (insert : α → γ → γ) (count : Nat) :
    EndsWith (insertEach extract fresh insert count)
      (statesInsert extract fresh insert count) := by
  induction count with
  | zero => exact fun u c => rfl
  | succ count ih =>
      intro u c
      unfold statesInsert insertEach
      rcases extract u fresh with ⟨e | _, mid, a⟩
      · rfl
      · rw [List.getLastD_cons]
        exact ih mid (insert a c)

/-- A count and a loop. -/
theorem endsWith_counted {h : Host} {loop : UInt32 → Extract γ}
    {states : UInt32 → Unpack → γ → List γ}
    (hloop : ∀ count, EndsWith (loop count) (states count)) :
    EndsWith
      (fun u c => match popUint32 h u with
        | (.error e, u) => (.error e, u, c)
        | (.ok count, u) => loop count u c)
      (fun u c => match popUint32 h u with
        | (.error _, _) => []
        | (.ok count, u) => states count u c) := by
  intro u c
  rcases heq : popUint32 h u with ⟨e | count, mid⟩ <;>
    simp only [heq]
  · rfl
  · exact hloop count mid c

end

/-- **The last state is the final one.** -/
theorem states_endsWith (h : Host) {α : Type} (w : Wire α) :
    EndsWith (w.extract h) (w.states h) := by
  induction w with
  | pair a b iha ihb => exact iha.pair ihb
  | vector a ih =>
      refine endsWith_counted fun count u c => ?_
      split
      · rfl
      · rw [List.getLastD_cons]
        exact ih.each u _
  | map order a b iha ihb => exact endsWith_counted fun count => endsWith_insertEach _ _ _
  | set order a ih => exact endsWith_counted fun count => endsWith_insertEach _ _ _
  | record a b iha ihb => exact iha.pair ihb
  | _ => exact fun u x => rfl

/-! ## The elements of a value -/

/-- How many elements the containers inside a value have, all together. -/
def elementCount : {α : Type} → Wire α → α → Nat
  | _, .pair a b, p => elementCount a p.1 + elementCount b p.2
  | _, .vector a, c => (c.map fun x => 1 + elementCount a x).sum
  | _, .map _ a b, c => (c.entries.map fun e => 1 + (elementCount a e.1 + elementCount b e.2)).sum
  | _, .set _ a, c => (c.entries.map fun e => 1 + elementCount a e.1).sum
  | _, .record field rest, p => elementCount field p.1 + elementCount rest p.2
  | _, _, _ => 0

@[simp] theorem elementCount_fresh {α : Type} (w : Wire α) : w.elementCount w.fresh = 0 := by
  induction w with
  | pair a b iha ihb => simp [elementCount, fresh, iha, ihb]
  | record a b iha ihb => simp [elementCount, fresh, iha, ihb]
  | _ => rfl

/-- The readings which succeed one after the other, `count` at most. -/
def completed {α : Type} (read : UnpackM α) : Nat → Unpack → List α
  | 0, _ => []
  | count + 1, u =>
      match read u with
      | (.ok x, mid) => x :: completed read count mid
      | (.error _, _) => []

def declaredPair {α : Type} (read : UnpackM α) (declared declared' : Unpack → Nat) (u : Unpack) :
    Nat :=
  declared u +
    match read u with
    | (.ok _, mid) => declared' mid
    | (.error _, _) => 0

def declaredEach {α : Type} (read : UnpackM α) (declared : Unpack → Nat) : Nat → Unpack → Nat
  | 0, _ => 0
  | count + 1, u => declaredPair read declared (declaredEach read declared count) u

/-- The elements which the bytes at the cursor make a fresh target hold: as many as the
counts of vectors say, whether they follow or not, and the entries of maps and sets
which do follow, those with one key counted once. -/
def declared (h : Host) : {α : Type} → Wire α → Unpack → Nat
  | _, .pair a b, u => declaredPair (read h a) (declared h a) (declared h b) u
  | _, .vector a, u =>
      match popUint32 h u with
      | (.error _, _) => 0
      | (.ok count, u) => count.toNat + declaredEach (read h a) (declared h a) count.toNat u
  | _, .map order a b, u =>
      match popUint32 h u with
      | (.error _, _) => 0
      | (.ok count, u) =>
          elementCount (.map order a b)
            (mapOf order (completed (readPair (read h a) (read h b)) count.toNat u))
  | _, .set order a, u =>
      match popUint32 h u with
      | (.error _, _) => 0
      | (.ok count, u) =>
          elementCount (.set order a) (setOf order (completed (read h a) count.toNat u))
  | _, .record field rest, u =>
      declaredPair (read h field) (declared h field) (declared h rest) u
  | _, _, _ => 0

/-- A fresh target ends with the declared number of elements and has no more before. -/
structure Grows {α : Type} (extract : Extract α) (states : Unpack → α → List α) (fresh : α)
    (size : α → Nat) (declared : Unpack → Nat) : Prop where
  empty : size fresh = 0
  final : ∀ u, size (extract u fresh).2.2 = declared u
  bound : ∀ u, ∀ y ∈ states u fresh, size y ≤ declared u

section

variable {α β γ : Type} {extract : Extract α} {states : Unpack → α → List α} {fresh : α}
  {size : α → Nat} {read : UnpackM α} {declared : Unpack → Nat}

/-- The second one of two targets is fresh until the first one is complete. -/
theorem Grows.pair {second : Extract β} {states' : Unpack → β → List β} {fresh' : β}
    {size' : β → Nat} {declared' : Unpack → Nat} (hfollows : Follows extract fresh read)
    (hfirst : Grows extract states fresh size declared)
    (hsecond : Grows second states' fresh' size' declared') :
    Grows (extractPair extract second) (statesPair extract states states') (fresh, fresh')
      (fun p => size p.1 + size' p.2) (declaredPair read declared declared') where
  empty := by simp [hfirst.empty, hsecond.empty]
  final u := by
    have hfinal := hfirst.final u
    unfold extractPair declaredPair
    rcases hread : read u with ⟨e | v, mid⟩
    · rw [hfollows.stopped hread]
      simp [hfinal, hsecond.empty]
    · rw [hfollows.returned hread]
      simp [hfinal, hsecond.final]
  bound u y hy := by
    have hfinal := hfirst.final u
    rw [statesPair, List.mem_append] at hy
    unfold declaredPair
    rcases hy with hy | hy
    · obtain ⟨x, hx, rfl⟩ := List.mem_map.mp hy
      have hbound := hfirst.bound u x hx
      simp only [hsecond.empty]
      omega
    · rcases hread : read u with ⟨e | v, mid⟩
      · rw [hfollows.stopped hread] at hy
        cases hy
      · rw [hfollows.returned hread] at hy
        obtain ⟨x, hx, rfl⟩ := List.mem_map.mp hy
        have hbound := hsecond.bound mid x hx
        simp only [hfinal]
        omega

/-- The elements behind the one which is read are there, and fresh. -/
theorem Grows.each (hfollows : Follows extract fresh read)
    (h : Grows extract states fresh size declared) (count : Nat) (u : Unpack) :
    ((extractEach extract u (List.replicate count fresh)).2.2.map fun x => 1 + size x).sum =
        count + declaredEach read declared count u ∧
      ∀ y ∈ statesEach extract states u (List.replicate count fresh),
        (y.map fun x => 1 + size x).sum ≤ count + declaredEach read declared count u := by
  have hfresh : ∀ count, ((List.replicate count fresh).map fun x => 1 + size x).sum = count := by
    intro count
    simp [h.empty]
  induction count generalizing u with
  | zero =>
      refine ⟨rfl, fun y hy => ?_⟩
      cases hy
  | succ count ih =>
      have hfinal := h.final u
      rw [List.replicate_succ, extractEach, declaredEach, declaredPair]
      refine ⟨?_, fun y hy => ?_⟩
      · rcases hread : read u with ⟨e | v, mid⟩
        · rw [hfollows.stopped hread]
          simp only [List.map_cons, List.sum_cons, hfresh, hfinal]
          omega
        · rw [hfollows.returned hread]
          simp only [List.map_cons, List.sum_cons, (ih mid).1, hfinal]
          omega
      · rw [statesEach, List.mem_append] at hy
        rcases hy with hy | hy
        · obtain ⟨x, hx, rfl⟩ := List.mem_map.mp hy
          have hbound := h.bound u x hx
          simp only [List.map_cons, List.sum_cons, hfresh]
          omega
        · rcases hread : read u with ⟨e | v, mid⟩
          · rw [hfollows.stopped hread] at hy
            cases hy
          · rw [hfollows.returned hread] at hy
            obtain ⟨ys, hys, rfl⟩ := List.mem_map.mp hy
            have hbound := (ih mid).2 ys hys
            simp only [List.map_cons, List.sum_cons, hfinal]
            omega

/-- What has been inserted when the loop ends, also when it stops. -/
theorem Follows.insertEach_completed (h : Follows extract fresh read) (insert : α → γ → γ)
    (count : Nat) (u : Unpack) (c : γ) :
    (Wire.insertEach extract fresh insert count u c).2.2 =
      (completed read count u).foldl (fun c x => insert x c) c := by
  induction count generalizing u c with
  | zero => rfl
  | succ count ih =>
      have hends := h u fresh
      unfold Wire.insertEach completed
      rcases hread : read u with ⟨e | v, mid⟩
      · rw [h.stopped hread]
        rfl
      · rw [hread] at hends
        rw [h.returned hread, hends.of_ok.2 rfl]
        exact ih mid (insert v c)

/-- Insertions only add. -/
theorem statesInsert_le {insert : α → γ → γ} {size : γ → Nat}
    (hinsert : ∀ x c, size c ≤ size (insert x c)) (count : Nat) (u : Unpack) (c : γ) :
    size c ≤ size (insertEach extract fresh insert count u c).2.2 ∧
      ∀ y ∈ statesInsert extract fresh insert count u c,
        size y ≤ size (insertEach extract fresh insert count u c).2.2 := by
  induction count generalizing u c with
  | zero =>
      refine ⟨le_rfl, fun y hy => ?_⟩
      cases hy
  | succ count ih =>
      unfold insertEach statesInsert
      rcases extract u fresh with ⟨e | _, mid, x⟩
      · refine ⟨le_rfl, fun y hy => ?_⟩
        cases hy
      · obtain ⟨hlow, hbound⟩ := ih mid (insert x c)
        refine ⟨(hinsert x c).trans hlow, fun y hy => ?_⟩
        rcases List.mem_cons.mp hy with rfl | hy
        · exact hlow
        · exact hbound y hy

end

section

variable {α γ : Type} {extract : Extract α} {fresh : α} {read : UnpackM α} (h : Host)

/-- A container into which what has been read is inserted. -/
theorem Follows.grows (hfollows : Follows extract fresh read) {insert : α → γ → γ} {empty : γ}
    {size : γ → Nat} (hempty : size empty = 0) (hinsert : ∀ x c, size c ≤ size (insert x c)) :
    Grows
      (fun u c => match popUint32 h u with
        | (.error e, u) => (.error e, u, c)
        | (.ok count, u) => Wire.insertEach extract fresh insert count.toNat u c)
      (fun u c => match popUint32 h u with
        | (.error _, _) => []
        | (.ok count, u) => statesInsert extract fresh insert count.toNat u c)
      empty size
      (fun u => match popUint32 h u with
        | (.error _, _) => 0
        | (.ok count, u) =>
            size ((completed read count.toNat u).foldl (fun c x => insert x c) empty)) where
  empty := hempty
  final u := by
    rcases popUint32 h u with ⟨e | count, mid⟩
    · exact hempty
    · exact congrArg size (hfollows.insertEach_completed insert count.toNat mid empty)
  bound u y hy := by
    rcases heq : popUint32 h u with ⟨e | count, mid⟩ <;>
      simp only [heq] at hy ⊢
    · cases hy
    · rw [← hfollows.insertEach_completed]
      exact (statesInsert_le hinsert count.toNat mid empty).2 y hy

end

/-- A fresh target of any type grows to what is declared. -/
theorem extract_grows (h : Host) {α : Type} (w : Wire α) :
    Grows (w.extract h) (w.states h) w.fresh w.elementCount (w.declared h) := by
  induction w with
  | pair a b iha ihb => exact iha.pair (a.extract_follows h) ihb
  | vector a ih =>
      have hresize : ∀ n, resizeVector a.fresh [] n = List.replicate n a.fresh := fun n => by
        simp [resizeVector]
      refine ⟨rfl, fun u => ?_, fun u y hy => ?_⟩
      · simp only [extract, declared]
        rcases popUint32 h u with ⟨e | count, mid⟩
        · rfl
        by_cases hzero : count = 0
        · subst hzero
          rfl
        · simp only [hzero, if_false]
          rw [fresh, hresize]
          exact (ih.each (a.extract_follows h) count.toNat mid).1
      · rcases heq : popUint32 h u with ⟨e | count, mid⟩ <;>
          simp only [states, declared, heq] at hy ⊢
        · cases hy
        by_cases hzero : count = 0
        · subst hzero
          cases hy
        · simp only [hzero, if_false] at hy
          rw [fresh, hresize] at hy
          rcases List.mem_cons.mp hy with rfl | hy
          · simp [elementCount]
          · exact (ih.each (a.extract_follows h) count.toNat mid).2 y hy
  | map order a b iha ihb =>
      exact ((a.extract_follows h).pair (b.extract_follows h)).grows h rfl fun e c =>
        (OrderedMap.sum_insertList _ e c.entries).1
  | set order a ih =>
      exact (a.extract_follows h).grows h rfl fun x c =>
        (OrderedMap.sum_insertList _ (x, ()) c.entries).1
  | record a b iha ihb => exact iha.pair (a.extract_follows h) ihb
  | _ => exact ⟨rfl, fun _ => rfl, fun _ _ _ => Nat.zero_le _⟩

/-! ## The bytes of the elements -/

/-- The elements of every container, nested ones included, are encoded in at least one
byte. -/
def ElementsTakeBytes : {α : Type} → Wire α → Prop
  | _, .pair a b => ElementsTakeBytes a ∧ ElementsTakeBytes b
  | _, .vector a => 0 < minLength a ∧ ElementsTakeBytes a
  | _, .map _ a b => 0 < minLength a + minLength b ∧ ElementsTakeBytes a ∧ ElementsTakeBytes b
  | _, .set _ a => 0 < minLength a ∧ ElementsTakeBytes a
  | _, .record field rest => ElementsTakeBytes field ∧ ElementsTakeBytes rest
  | _, _ => True

section

variable {α β : Type} {read : UnpackM α} {size : α → Nat}

theorem Takes.pair_add {least least' : Nat} {read' : UnpackM β} {size' : β → Nat}
    (h : Takes read fun x => size x + least) (h' : Takes read' fun y => size' y + least') :
    Takes (readPair read read') fun p => size p.1 + size' p.2 + (least + least') :=
  (h.pair h').mono fun p => by omega

/-- Elements which are encoded in a byte or more are paid for. -/
theorem sum_elements_le {f : α → Nat} {least : Nat} (hleast : 0 < least) (l : List α) :
    (l.map fun x => 1 + f x).sum ≤ (l.map fun x => f x + least).sum :=
  List.sum_le_sum fun x _ => by omega

end

theorem elementCount_mapOf {α β : Type} (order : KeyOrder α) (a : Wire α) (b : Wire β)
    (l : List (α × β)) : (Wire.map order a b).elementCount (mapOf order l) ≤
      (l.map fun e => 1 + (a.elementCount e.1 + b.elementCount e.2)).sum := by
  have hsum := (OrderedMap.sum_insertAll
    (fun e => 1 + (a.elementCount e.1 + b.elementCount e.2)) (OrderedMap.empty order β) l).2
  exact hsum.trans_eq (Nat.zero_add _)

theorem elementCount_setOf {α : Type} (order : KeyOrder α) (a : Wire α) (l : List α) :
    (Wire.set order a).elementCount (setOf order l) ≤
      (l.map fun x => 1 + a.elementCount x).sum := by
  have hsum := (OrderedMap.sum_insertAll (fun e => 1 + a.elementCount e.1)
    (OrderedMap.empty order Unit) (l.map fun k => (k, ()))).2
  rw [List.map_map] at hsum
  rw [setOf_eq]
  exact hsum.trans_eq (Nat.zero_add _)

/-- **The elements of a value are paid for** by the bytes it is read from. -/
theorem read_takes (h : Host) {α : Type} (w : Wire α) (hw : w.ElementsTakeBytes) :
    Takes (w.read h) fun v => w.elementCount v + w.minLength := by
  induction w with
  | pair a b iha ihb | record a b iha ihb => exact (iha hw.1).pair_add (ihb hw.2)
  | vector a ih =>
      refine ((ih hw.2).counted h).mono fun l => ?_
      have hsum := sum_elements_le (f := a.elementCount) hw.1 l
      simp only [elementCount, minLength]
      omega
  | map order a b iha ihb =>
      refine (((iha hw.2.1).pair_add (ihb hw.2.2)).counted h).map fun l => ?_
      have hmap := elementCount_mapOf order a b l
      have hsum := sum_elements_le (f := fun e => a.elementCount e.1 + b.elementCount e.2) hw.1 l
      simp only [minLength]
      omega
  | set order a ih =>
      refine ((ih hw.2).counted h).map fun l => ?_
      have hset := elementCount_setOf order a l
      have hsum := sum_elements_le (f := a.elementCount) hw.1 l
      simp only [minLength]
      omega
  | _ => exact (read_takes_minLength h _).mono fun _ => (Nat.zero_add _).le

/-! ## The elements and the end of the input -/

/-- Whether a vector is resized in the target itself, and not in an object which is
inserted into a map or a set when it is complete. -/
def resizes : {α : Type} → Wire α → Bool
  | _, .pair a b => resizes a || resizes b
  | _, .vector _ => true
  | _, .record field rest => resizes field || resizes rest
  | _, _ => false

section

variable {α β : Type} {read : UnpackM α} {size : α → Nat} (h : Host)

/-- Reading as many values as there are. -/
theorem completed_taken (hread : Takes read size)
    (hkeeps : ∀ n, Throwing.Keeps (fun u => n ≤ u.data) read) (count : Nat) (u : Unpack) :
    u.data + ((completed read count u).map size).sum ≤ (readEach read count u).2.data := by
  induction count generalizing u with
  | zero => exact le_rfl
  | succ count ih =>
      unfold completed readEach
      rcases heq : read u with ⟨e | x, mid⟩
      · have hlow := hkeeps u.data u le_rfl
        rw [heq] at hlow
        rw [Throwing.bind_of_error heq]
        exact hlow
      · have hfirst := hread u x mid heq
        have hrest := ih mid
        rw [Throwing.bind_of_ok heq, Throwing.bind_pure_state]
        simp only [List.map_cons, List.sum_cons]
        omega

/-- Nothing is created in a map or a set before it has been paid for. -/
theorem inserted_taken (hread : Takes read size)
    (hkeeps : ∀ n, Throwing.Keeps (fun u => n ≤ u.data) read) (total : List α → Nat)
    (htotal : ∀ l, total l ≤ (l.map size).sum) (u : Unpack) :
    u.data + (match popUint32 h u with
      | (.error _, _) => 0
      | (.ok count, u) => total (completed read count.toNat u)) ≤
      (readCounted h read u).2.data := by
  unfold readCounted
  rcases heq : popUint32 h u with ⟨e | count, mid⟩
  · rw [Throwing.bind_of_error heq]
    have hlow : u.data ≤ (popUint32 h u).2.data :=
      keeps_fixed (carried_behind u.data) 4 _ _ u le_rfl
    rw [heq] at hlow
    exact hlow
  · rw [Throwing.bind_of_ok heq]
    have hfour := takes_fixed 4 _ _ u count mid heq
    have hrest := completed_taken hread hkeeps count.toNat mid
    have hle := htotal (completed read count.toNat mid)
    dsimp only at hfour ⊢
    omega

/-- A target which is complete has been paid for. -/
theorem declared_taken_of_ok {w : Wire α} (hw : w.ElementsTakeBytes) {u mid : Unpack} {v : α}
    (hread : w.read h u = (.ok v, mid)) : u.data + w.declared h u ≤ mid.data := by
  have htaken := read_takes h w hw u v mid hread
  have hfinal := (extract_grows h w).final u
  rw [extract_fresh h hread] at hfinal
  dsimp only at htaken hfinal
  omega

/-- So has any target in which no vector is resized. -/
theorem declared_taken_of_not_resizes {w : Wire α} (hw : w.ElementsTakeBytes)
    (hresizes : w.resizes = false) (u : Unpack) :
    u.data + w.declared h u ≤ (w.read h u).2.data := by
  have hpair : ∀ {α β : Type} (a : Wire α) (b : Wire β),
      (∀ u, u.data + a.declared h u ≤ (a.read h u).2.data) →
      (∀ u, u.data + b.declared h u ≤ (b.read h u).2.data) → ∀ u,
      u.data + declaredPair (a.read h) (a.declared h) (b.declared h) u ≤
        (readPair (a.read h) (b.read h) u).2.data := by
    intro α β a b ha hb u
    have hfirst := ha u
    unfold declaredPair readPair
    rcases heq : a.read h u with ⟨e | x, mid⟩ <;>
      rw [heq] at hfirst
    · rw [Throwing.bind_of_error heq]
      exact hfirst
    · have hsecond := hb mid
      rw [Throwing.bind_of_ok heq, Throwing.bind_pure_state]
      dsimp only at hfirst ⊢
      omega
  induction w generalizing u with
  | pair a b iha ihb =>
      obtain ⟨ha, hb⟩ := Bool.or_eq_false_iff.mp hresizes
      exact hpair a b (fun u => iha hw.1 ha u) (fun u => ihb hw.2 hb u) u
  | record a b iha ihb =>
      obtain ⟨ha, hb⟩ := Bool.or_eq_false_iff.mp hresizes
      exact hpair a b (fun u => iha hw.1 ha u) (fun u => ihb hw.2 hb u) u
  | vector a ih => cases hresizes
  | map order a b iha ihb =>
      rw [read, Throwing.bind_pure_state]
      refine inserted_taken h ((read_takes h a hw.2.1).pair_add (read_takes h b hw.2.2))
        (fun n => ?_) (fun l => (Wire.map order a b).elementCount (mapOf order l)) (fun l => ?_) u
      · exact (read_keeps (carried_behind n) h a).bind fun _ =>
          (read_keeps (carried_behind n) h b).bind fun _ => .pure _
      · exact (elementCount_mapOf order a b l).trans (sum_elements_le hw.1 l)
  | set order a ih =>
      rw [read, Throwing.bind_pure_state]
      refine inserted_taken h (read_takes h a hw.2)
        (fun n => read_keeps (carried_behind n) h a)
        (fun l => (Wire.set order a).elementCount (setOf order l)) (fun l => ?_) u
      exact (elementCount_setOf order a l).trans (sum_elements_le hw.1 l)
  | _ => exact data_le_read h _ u

end

/-- The values which a fresh target has before, during and after the extraction. -/
def Materialised {α : Type} (h : Host) (w : Wire α) (u : Unpack) (y : α) : Prop :=
  y = w.fresh ∨ y ∈ w.states h u w.fresh ∨ y = (w.extract h u w.fresh).2.2

/-- **A short packet inflates a container** if and only if the counts of its vectors say
so; this takes a packet which is cut off behind such a count. -/
theorem short_packet_inflates_iff (h : Host) {α : Type} (w : Wire α) (hw : w.ElementsTakeBytes)
    (input : List UInt8) :
    ((∀ y, Materialised h w (Unpack.new input) y → w.elementCount y ≤ input.length) ↔
        w.declared h (Unpack.new input) ≤ input.length) ∧
      ((∃ v, (w.read h (Unpack.new input)).1 = .ok v) →
        w.declared h (Unpack.new input) ≤ input.length) ∧
      (w.resizes = false → w.declared h (Unpack.new input) ≤ input.length) := by
  have hgrows := extract_grows h w
  have hinside := read_data_le h w input
  have hstart : (Unpack.new input).data = 0 := rfl
  refine ⟨⟨fun hall => ?_, fun hle y hy => ?_⟩, ?_, fun hresizes => ?_⟩
  · rw [← hgrows.final]
    exact hall _ (.inr (.inr rfl))
  · rcases hy with rfl | hy | rfl
    · rw [elementCount_fresh]
      exact Nat.zero_le _
    · exact (hgrows.bound _ y hy).trans hle
    · rw [hgrows.final]
      exact hle
  · rintro ⟨v, hv⟩
    have hread : w.read h (Unpack.new input) = (.ok v, (w.read h (Unpack.new input)).2) :=
      Prod.ext hv rfl
    have hdeclared := declared_taken_of_ok h hw hread
    omega
  · have hdeclared := declared_taken_of_not_resizes h hw hresizes (Unpack.new input)
    omega

/-- A vector of two vectors, which are all there. -/
def nestedInput : List UInt8 := [2, 0, 0, 0, 2, 0, 0, 0, 7, 8, 1, 0, 0, 0, 9]

theorem short_packet_inflates_iff_nested :
    (∀ y, Materialised .x86 (.vector (.vector .uint8)) (Unpack.new nestedInput) y →
      (Wire.vector (.vector .uint8)).elementCount y ≤ nestedInput.length) ∧
      (Wire.vector (.vector .uint8)).declared .x86 (Unpack.new nestedInput) ≤
        nestedInput.length := by
  have h := short_packet_inflates_iff .x86 (.vector (.vector .uint8))
    ⟨Nat.succ_pos 3, Nat.one_pos, trivial⟩ nestedInput
  have hdeclared := h.2.1 ⟨[[7, 8], [9]], rfl⟩
  exact ⟨h.1.mpr hdeclared, hdeclared⟩

/-- Four bytes, which announce five elements and stop. -/
theorem count_inflates_vector :
    (Wire.vector .uint8).ElementsTakeBytes ∧
      ¬∀ y, Materialised .x86 (.vector .uint8) (Unpack.new [5, 0, 0, 0]) y →
        (Wire.vector .uint8).elementCount y ≤ [5, 0, 0, 0].length := by
  refine ⟨⟨Nat.one_pos, trivial⟩, fun hall => ?_⟩
  have hfive : 5 ≤ 4 := hall [0, 0, 0, 0, 0] (.inr (.inl List.mem_cons_self))
  omega

end Wire
end Net
end Deps
