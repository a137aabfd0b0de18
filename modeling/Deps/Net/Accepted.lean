import Deps.Net.TakenBytes
import Deps.Net.UnpackBounds
import Deps.Net.WireRoundTrip

/-!
# What the unpacker accepts

The bytes which a reading has taken say where they end: behind them the input may go on
in any way, and no beginning of them is read.  The value which has been read fits into
the wire format, and its own encoding is not longer.
-/

namespace Deps
namespace Net
namespace Wire

open Unpack

/-! ## Words -/

/-- The reading gets `v` from `word`, whatever follows, and nothing from less of it. -/
structure Delimits {β : Type} (read : UnpackM β) (word : List UInt8) (v : β) : Prop where
  pops : Pops read word v
  short : ∀ u tail, At u tail → tail <+: word → tail ≠ word → ∃ e mid, read u = (.error e, mid)

/-- What the reading accepts begins with a word. -/
def Delimited {β : Type} (read : UnpackM β) : Prop :=
  ∀ u tail v mid, At u tail → read u = (.ok v, mid) →
    ∃ word rest, tail = word ++ rest ∧ Delimits read word v

section

variable {α β : Type} {read : UnpackM α}

theorem At.length_eq {u : Unpack} {tail : List UInt8} (h : At u tail) :
    u.data + tail.length = u.input.length := by
  have hlen := congrArg List.length h.drop
  have hle := h.data_le
  rw [List.length_drop] at hlen
  omega

/-- A pop of more bytes than there are stops, also when `m_size` is wrong. -/
theorem At.require_access_error {u : Unpack} {tail : List UInt8} (h : At u tail) {k : Nat}
    (hshort : tail.length < k) (what : String) (rest : List UInt8 → UnpackM β) :
    ∃ e mid, (do
      require k what
      let bytes ← access k
      rest bytes : UnpackM β) u = (.error e, mid) := by
  have hlen := h.length_eq
  rw [require_access_eq]
  split
  · exact ⟨_, _, rfl⟩
  · rw [if_neg (by omega)]
    exact ⟨_, _, rfl⟩

/-- A reading of always the same number of bytes. -/
theorem delimited_width {k : Nat} {decode : List UInt8 → α}
    (hpops : ∀ bytes, bytes.length = k → Pops read bytes (decode bytes))
    (hshort : ∀ u tail, At u tail → tail.length < k → ∃ e mid, read u = (.error e, mid)) :
    Delimited read := by
  intro u tail v mid hat hread
  have hlong : k ≤ tail.length := by
    by_contra hlt
    obtain ⟨e, mid', herror⟩ := hshort u tail hat (by omega)
    rw [hread] at herror
    cases herror
  have hk : (tail.take k).length = k := List.length_take_of_le hlong
  have hsplit : tail = tail.take k ++ tail.drop k := (List.take_append_drop k tail).symm
  have hword := hpops (tail.take k) hk
  refine ⟨tail.take k, tail.drop k, hsplit, ?_⟩
  rw [hsplit] at hat
  obtain ⟨u', hpop, -⟩ := hword u _ hat
  have hv : v = decode (tail.take k) := by
    rw [hread] at hpop
    cases hpop
    rfl
  rw [hv]
  refine ⟨hword, fun u' short hat' hbegins hne => hshort u' short hat' ?_⟩
  have hle := hbegins.length_le
  have hlt : short.length ≠ (tail.take k).length := fun heq => hne (hbegins.eq_of_length heq)
  omega

theorem delimited_fixed (k : Nat) (what : String) (decode : List UInt8 → α) :
    Delimited (do
      require k what
      let bytes ← access k
      advance k
      pure (decode bytes)) :=
  delimited_width (fun _ hlen => pops_fixed hlen what decode)
    fun _ _ hat hlt => hat.require_access_error hlt what _

theorem delimited_popDouble (h : Host) : Delimited (popDouble h) :=
  delimited_width (fun _ hlen => pops_double_bytes h hlen)
    fun _ _ hat hlt => hat.require_access_error hlt _ _

theorem delimited_pure (v : α) : Delimited (pure v : UnpackM α) := by
  intro u tail v' mid hat hread
  cases hread
  refine ⟨[], tail, rfl, fun u' _ hat' => ⟨u', rfl, rfl, rfl, hat'⟩, ?_⟩
  intro u' short _ hbegins hne
  exact absurd (List.prefix_nil.mp hbegins) hne

/-- A word and the word behind it. -/
theorem Delimits.bind {f : α → UnpackM β} {word word' : List UInt8} {a : α} {b : β}
    (h : Delimits read word a) (h' : Delimits (f a) word' b) :
    Delimits (read >>= f) (word ++ word') b := by
  constructor
  · intro u tail hat
    rw [List.append_assoc] at hat
    obtain ⟨mid, hread, hmid⟩ := h.pops u _ hat
    obtain ⟨u', hread', hu'⟩ := h'.pops mid tail hmid.tail
    refine ⟨u', ?_, hmid.trans hu'⟩
    rw [Throwing.bind_of_ok hread]
    exact hread'
  · intro u tail hat hbegins hne
    -- the input ends inside the first word, or inside the second
    by_cases hfirst : word <+: tail
    · obtain ⟨tail', rfl⟩ := hfirst
      obtain ⟨mid, hread, hmid⟩ := h.pops u tail' hat
      have hbegins' : tail' <+: word' := (List.prefix_append_right_inj word).mp hbegins
      have hne' : tail' ≠ word' := fun heq => hne (congrArg (word ++ ·) heq)
      rw [Throwing.bind_of_ok hread]
      exact h'.short mid tail' hmid.tail hbegins' hne'
    · have hle : tail <+: word :=
        (List.prefix_or_prefix_of_prefix hbegins (List.prefix_append word word')).resolve_right
          hfirst
      have hshorter : tail ≠ word := fun heq => hfirst (heq ▸ List.prefix_rfl)
      obtain ⟨e, mid, herror⟩ := h.short u tail hat hle hshorter
      exact ⟨e, mid, Throwing.bind_of_error herror⟩

theorem Delimited.bind {f : α → UnpackM β} (h : Delimited read) (hf : ∀ a, Delimited (f a)) :
    Delimited (read >>= f) := by
  intro u tail b fin hat hread
  obtain ⟨a, mid, ha, hb⟩ := Throwing.of_bind_ok hread
  obtain ⟨word, rest, rfl, hword⟩ := h u tail a mid hat ha
  obtain ⟨mid', ha', hmid⟩ := hword.pops u rest hat
  have hsame : mid' = mid := by
    rw [ha] at ha'
    cases ha'
    rfl
  subst hsame
  obtain ⟨word', rest', rfl, hword'⟩ := hf a mid' rest b fin hmid.tail hb
  exact ⟨word ++ word', rest', (List.append_assoc ..).symm, hword.bind hword'⟩

theorem Delimited.counted (h : Host) (hread : Delimited read) :
    Delimited (readCounted h read) := by
  refine (delimited_fixed 4 _ _).bind fun count => ?_
  generalize count.toNat = n
  induction n with
  | zero => exact delimited_pure _
  | succ n ih => exact hread.bind fun _ => ih.bind fun _ => delimited_pure _

theorem Delimited.pair {read' : UnpackM β} (h : Delimited read) (h' : Delimited read') :
    Delimited (readPair read read') :=
  h.bind fun _ => h'.bind fun _ => delimited_pure _

end

/-- What is read begins with a word of the type. -/
theorem read_delimited (h : Host) {α : Type} (w : Wire α) : Delimited (w.read h) := by
  induction w with
  | bool => exact (delimited_fixed 1 _ _).bind fun _ => delimited_pure _
  | uint8 => exact delimited_fixed 1 _ _
  | uint16 => exact delimited_fixed 2 _ _
  | uint32 => exact delimited_fixed 4 _ _
  | uint64 => exact delimited_fixed 8 _ _
  | int64 => exact (delimited_fixed 8 _ _).bind fun _ => delimited_pure _
  | double => exact delimited_popDouble h
  | string => exact (delimited_fixed 2 _ _).bind fun _ => delimited_fixed _ _ _
  | pair a b iha ihb | record a b iha ihb => exact iha.pair ihb
  | vector a ih => exact ih.counted h
  | map order a b iha ihb => exact ((iha.pair ihb).counted h).bind fun _ => delimited_pure _
  | set order a ih => exact (ih.counted h).bind fun _ => delimited_pure _
  | voidmable => exact delimited_pure _

theorem at_new (input : List UInt8) : At (Unpack.new input) input := ⟨Nat.zero_le _, rfl, le_rfl⟩

/-- The word which has been read from an input, up to the cursor. -/
theorem exists_word {h : Host} {α : Type} {w : Wire α} {input : List UInt8} {v : α} {mid : Unpack}
    (hread : w.read h (Unpack.new input) = (.ok v, mid)) :
    ∃ word rest, input = word ++ rest ∧ mid.data = word.length ∧ Delimits (w.read h) word v := by
  obtain ⟨word, rest, rfl, hword⟩ := w.read_delimited h _ _ v mid (at_new input) hread
  obtain ⟨mid', hmid, hconsumed⟩ := hword.pops _ rest (at_new (word ++ rest))
  have hsame : mid' = mid := by
    rw [hread] at hmid
    cases hmid
    rfl
  refine ⟨word, rest, rfl, ?_, hword⟩
  rw [← hsame, hconsumed.data]
  exact Nat.zero_add _

/-- **An encoding tells where it ends.**  When a fresh target has been read from an input,
the bytes up to the cursor decide: with any bytes behind them every target is read, up
to the same place, and a fresh one gets the same value; and no target is read from a proper
beginning of them, `UnpackError` is thrown as long as no `double` has been popped. -/
theorem accepted_delimits (h : Host) {α : Type} (w : Wire α) {input : List UInt8} {u' : Unpack}
    {v : α} (hread : w.extract h (Unpack.new input) w.fresh = (.ok (), u', v)) :
    ∃ word, word <+: input ∧ u'.data = word.length ∧
      (∀ rest x, ∃ u'' y, w.extract h (Unpack.new (word ++ rest)) x = (.ok (), u'', y) ∧
        u''.data = word.length ∧ (x = w.fresh → y = v)) ∧
      ∀ short x, short <+: word → short ≠ word →
        (w.extract h (Unpack.new short) x).1 ≠ .ok () ∧
          (w.popsDouble h (Unpack.new short) x = false →
            Throws (w.extract h (Unpack.new short) x).1) := by
  have hfollows := w.extract_follows h
  obtain ⟨v', hv', hv⟩ := hfollows.read_of_ok hread
  obtain rfl := hv rfl
  obtain ⟨word, rest, rfl, hdata, hword⟩ := exists_word hv'
  refine ⟨word, List.prefix_append word rest, hdata, ?_, ?_⟩
  · intro rest' x
    obtain ⟨u'', hu'', hconsumed'⟩ := hword.pops _ rest' (at_new (word ++ rest'))
    refine ⟨u'', _, hfollows.returned hu'' x, ?_, ?_⟩
    · rw [hconsumed'.data]
      exact Nat.zero_add _
    · rintro rfl
      rw [extract_fresh h hu'']
  · intro short x hbegins hne
    obtain ⟨e, mid', herror⟩ := hword.short _ short (at_new short) hbegins hne
    have hstopped := hfollows.stopped herror x
    rw [hstopped]
    refine ⟨fun hok => (by cases hok), fun hdouble => ?_⟩
    have htracks := w.tracks_extract h (Unpack.new short) x
    rw [hstopped] at htracks
    cases e with
    | unpackError what => exact ⟨what, rfl⟩
    | overread => exact absurd rfl ((htracks.exact hdouble).2 (Nat.zero_add _))

/-- A string of one byte, and one byte more. -/
theorem accepted_delimits_string :
    ∃ word, word <+: [1, 0, 104, 9] ∧ 3 = word.length ∧
      ∀ short x, short <+: word → short ≠ word →
        (string.extract .x86 (Unpack.new short) x).1 ≠ .ok () := by
  have hread : string.extract .x86 (Unpack.new [1, 0, 104, 9]) string.fresh =
      (.ok (), ⟨[1, 0, 104, 9], 3, 1⟩, [104]) := rfl
  obtain ⟨word, hbegins, hlen, -, hshort⟩ := accepted_delimits .x86 string hread
  exact ⟨word, hbegins, hlen, fun short x hle hne => (hshort short x hle hne).1⟩

/-! ## `finish` -/

theorem finish_ok_iff (u : Unpack) : (finish u).1 = .ok () ↔ u.size = 0 := by
  rw [finish, Unpack.empty]
  split
  · rename_i hsize
    refine iff_of_false (fun hok => (by cases hok)) fun hzero => ?_
    rw [hzero] at hsize
    cases hsize
  · rename_i hsize
    exact iff_of_true rfl (by simpa using hsize)

/-- **`finish` accepts one encoding**, neither less nor more, and no encoding with a
`double` in it, since `pop_double` does not count what it takes. -/
theorem finish_accepts_iff (h : Host) {α : Type} (w : Wire α) (input : List UInt8) (x : α) :
    (w.extract h (Unpack.new input) x).1 = .ok () ∧
        (finish (w.extract h (Unpack.new input) x).2.1).1 = .ok () ↔
      w.popsDouble h (Unpack.new input) x = false ∧ ∃ v, Delimits (w.read h) input v := by
  have htracks := w.tracks_extract h (Unpack.new input) x
  have hstart : (Unpack.new input).limit = input.length := Nat.zero_add _
  have hfollows := w.extract_follows h
  rw [finish_ok_iff]
  constructor
  · rintro ⟨hok, hsize⟩
    obtain ⟨v, hread, -⟩ := hfollows.read_of_ok (x := x) (Prod.ext hok rfl)
    have hlimit : (w.extract h (Unpack.new input) x).2.1.limit =
        (w.extract h (Unpack.new input) x).2.1.data := by
      rw [Unpack.limit, hsize, Nat.add_zero]
    have hinside : (w.extract h (Unpack.new input) x).2.1.data ≤ input.length := by
      have hle := w.read_data_le h input
      rwa [hread] at hle
    have hdouble : w.popsDouble h (Unpack.new input) x = false := by
      by_contra hpopped
      rcases htracks.drift (by simpa using hpopped) with hlt | hover
      · have hlt' : (Unpack.new input).limit < (w.extract h (Unpack.new input) x).2.1.limit := hlt
        omega
      · rw [hok] at hover
        cases hover
    have hend : (w.extract h (Unpack.new input) x).2.1.limit = (Unpack.new input).limit :=
      (htracks.exact hdouble).1
    obtain ⟨word, rest, hsplit, hdata, hword⟩ := exists_word hread
    refine ⟨hdouble, v, ?_⟩
    have hrest : rest = [] := by
      have hlen : input.length = word.length + rest.length := by
        rw [hsplit, List.length_append]
      have hall : input.length = word.length := by
        rw [← hdata, ← hlimit, hend, hstart]
      exact List.eq_nil_of_length_eq_zero (by omega)
    rw [hsplit, hrest, List.append_nil]
    exact hword
  · rintro ⟨hdouble, v, hword⟩
    have hat : At (Unpack.new input) (input ++ []) := (List.append_nil input).symm ▸ at_new input
    obtain ⟨mid, hread, hconsumed⟩ := hword.pops _ [] hat
    have hx := hfollows.returned hread x
    have hlimit := (htracks.exact hdouble).1
    have hdata : mid.data = input.length := hconsumed.data.trans (Nat.zero_add _)
    rw [hx] at hlimit ⊢
    have hsum : mid.data + mid.size = input.length := hlimit.trans hstart
    have hsize : mid.size = 0 := by omega
    exact ⟨rfl, hsize⟩

/-! ## Values -/

/-- Every value which is read has `P`. -/
def Yields {β : Type} (read : UnpackM β) (P : β → Prop) : Prop :=
  ∀ u v mid, read u = (.ok v, mid) → P v

section

variable {α β : Type} {read : UnpackM α} {P : α → Prop}

theorem Yields.map (h : Yields read P) {f : α → β} {Q : β → Prop} (hf : ∀ v, P v → Q (f v)) :
    Yields (do let v ← read; pure (f v)) Q := by
  intro u v fin hread
  obtain ⟨x, mid, hx, hpure⟩ := Throwing.of_bind_ok hread
  cases hpure
  exact hf x (h u x _ hx)

theorem Yields.pair {read' : UnpackM β} {Q : β → Prop} (h : Yields read P)
    (h' : Yields read' Q) : Yields (readPair read read') fun p => P p.1 ∧ Q p.2 := by
  intro u p fin hread
  obtain ⟨x, mid, hx, hrest⟩ := Throwing.of_bind_ok hread
  obtain ⟨y, _, hy, hpure⟩ := Throwing.of_bind_ok hrest
  cases hpure
  exact ⟨h u x mid hx, h' mid y _ hy⟩

theorem Yields.each (h : Yields read P) (count : Nat) :
    Yields (readEach read count) fun l => l.length = count ∧ ∀ x ∈ l, P x := by
  induction count with
  | zero =>
      intro u l fin hread
      cases hread
      exact ⟨rfl, fun x hx => (by cases hx)⟩
  | succ count ih =>
      intro u l fin hread
      obtain ⟨x, mid, hx, hrest⟩ := Throwing.of_bind_ok hread
      obtain ⟨xs, _, hxs, hpure⟩ := Throwing.of_bind_ok hrest
      cases hpure
      obtain ⟨hlen, hall⟩ := ih mid xs _ hxs
      exact ⟨congrArg Nat.succ hlen, List.forall_mem_cons.mpr ⟨h u x mid hx, hall⟩⟩

/-- A count on the wire has 32 bits. -/
theorem Yields.counted (host : Host) (h : Yields read P) :
    Yields (readCounted host read) fun l => l.length < 2 ^ 32 ∧ ∀ x ∈ l, P x := by
  intro u l fin hread
  obtain ⟨count, mid, -, heach⟩ := Throwing.of_bind_ok hread
  obtain ⟨hlen, hall⟩ := h.each count.toNat mid l fin heach
  exact ⟨hlen ▸ count.toNat_lt, hall⟩

theorem yields_fetch (k : Nat) : Yields (popFetchPtr k) fun s => s.length = k := by
  intro u s mid hread
  rw [popFetchPtr, require_access_eq] at hread
  split at hread
  · cases hread
  split at hread
  · rename_i hinside
    cases hread
    rw [List.length_take, List.length_drop]
    omega
  · cases hread

/-- A string has the length in front of it, and its bytes are taken. -/
theorem popVarstr_ok {h : Host} {u mid : Unpack} {s : List UInt8}
    (hread : popVarstr h u = (.ok s, mid)) :
    s.length ≤ 0xFFFF ∧ u.data + (2 + s.length) ≤ mid.data := by
  obtain ⟨len, mid', hlen, hfetch⟩ := Throwing.of_bind_ok hread
  have hs : s.length = len.toNat := yields_fetch _ mid' s mid hfetch
  have htwo : u.data + 2 ≤ mid'.data := takes_fixed 2 _ _ u len mid' hlen
  have hrest : mid'.data + len.toNat ≤ mid.data := takes_fixed _ _ _ mid' s mid hfetch
  have hlt : len.toNat < 2 ^ 16 := len.toNat_lt
  omega

end

section

variable {α β : Type} {order : KeyOrder α}

theorem size_mapOf_le (entries : List (α × β)) : (mapOf order entries).size ≤ entries.length := by
  have hsum := (OrderedMap.sum_insertAll (fun _ => 1) (OrderedMap.empty order β) entries).2
  simpa [OrderedMap.empty, OrderedMap.size, mapOf] using hsum

theorem mem_of_mem_mapOf {entries : List (α × β)} {e : α × β}
    (h : e ∈ (mapOf order entries).entries) : e ∈ entries :=
  (OrderedMap.mem_insertAll h).resolve_left fun hnil => (by cases hnil)

theorem sum_mapOf_le (f : α × β → Nat) (entries : List (α × β)) :
    ((mapOf order entries).entries.map f).sum ≤ (entries.map f).sum := by
  have hsum := (OrderedMap.sum_insertAll f (OrderedMap.empty order β) entries).2
  simpa [OrderedMap.empty, mapOf] using hsum

theorem size_setOf_le (keys : List α) : (setOf order keys).size ≤ keys.length := by
  have hsize : (mapOf order (keys.map fun k => (k, ()))).size ≤ _ := size_mapOf_le _
  rwa [← setOf_eq, List.length_map] at hsize

theorem mem_of_mem_setOf {keys : List α} {x : α}
    (h : x ∈ OrderedSet.elements (setOf order keys)) : x ∈ keys := by
  obtain ⟨e, he, rfl⟩ := List.mem_map.mp h
  rw [setOf_eq] at he
  obtain ⟨k, hk, rfl⟩ := List.mem_map.mp (mem_of_mem_mapOf he)
  exact hk

theorem sum_setOf_le (f : α → Nat) (keys : List α) :
    ((OrderedSet.elements (setOf order keys)).map f).sum ≤ (keys.map f).sum := by
  have hsum : ((mapOf order (keys.map fun k => (k, ()))).entries.map fun e => f e.1).sum ≤ _ :=
    sum_mapOf_le _ _
  rw [← setOf_eq, List.map_map] at hsum
  rw [OrderedSet.elements, List.map_map]
  exact hsum

end

/-- A value which has been read fits into the format. -/
theorem read_all (h : Host) {onString : List UInt8 → Prop} {onCount : Nat → Prop}
    (hstring : ∀ s : List UInt8, s.length ≤ 0xFFFF → onString s)
    (hcount : ∀ n, n < 2 ^ 32 → onCount n) {α : Type} (w : Wire α) :
    Yields (w.read h) (w.All onString onCount) := by
  induction w with
  | bool | uint8 | uint16 | uint32 | uint64 | int64 | double | voidmable =>
      exact fun _ _ _ _ => trivial
  | string => exact fun u s mid hread => hstring s (popVarstr_ok hread).1
  | pair a b iha ihb | record a b iha ihb => exact iha.pair ihb
  | vector a ih =>
      intro u l mid hread
      obtain ⟨hlen, hall⟩ := ih.counted h u l mid hread
      exact ⟨hcount _ hlen, hall⟩
  | map order a b iha ihb =>
      refine ((iha.pair ihb).counted h).map fun entries hentries => ?_
      exact ⟨hcount _ ((size_mapOf_le entries).trans_lt hentries.1),
        fun e he => hentries.2 e (mem_of_mem_mapOf he)⟩
  | set order a ih =>
      refine (ih.counted h).map fun keys hkeys => ?_
      exact ⟨hcount _ ((size_setOf_le keys).trans_lt hkeys.1),
        fun x hx => hkeys.2 x (mem_of_mem_setOf hx)⟩

/-- The encoding of a value is not longer than the bytes from which it was read. -/
theorem read_takes_bytes (h : Host) {α : Type} (w : Wire α) :
    Takes (w.read h) fun v => (w.bytes h v).length := by
  induction w with
  | bool => exact (takes_fixed 1 _ _).map fun _ => le_rfl
  | uint8 => exact takes_fixed 1 _ _
  | uint16 => exact (takes_fixed 2 _ _).mono fun v => (h.length_store 2 _).le
  | uint32 => exact (takes_fixed 4 _ _).mono fun v => (h.length_store 4 _).le
  | uint64 => exact (takes_fixed 8 _ _).mono fun v => (h.length_store 8 _).le
  | int64 => exact (takes_fixed 8 _ _).map fun v => (h.length_store 8 _).le
  | double => exact (takes_popDouble h).mono fun v => (h.length_store 8 _).le
  | string =>
      intro u s mid hread
      have hlen : (bytes h .string s).length = 2 + s.length := by
        rw [bytes, List.length_append, h.length_store]
      exact (Nat.add_le_add_left hlen.le _).trans (popVarstr_ok hread).2
  | pair a b iha ihb | record a b iha ihb =>
      exact (iha.pair ihb).mono fun p => List.length_append.le
  | vector a ih =>
      refine (ih.counted h).mono fun l => ?_
      rw [bytes, List.length_append, h.length_store, List.length_flatMap]
  | map order a b iha ihb =>
      refine ((iha.pair ihb).counted h).map fun entries => ?_
      rw [bytes, List.length_append, h.length_store, List.length_flatMap]
      refine Nat.add_le_add_left ?_ 4
      simp only [List.length_append]
      exact sum_mapOf_le (fun e => (a.bytes h e.1).length + (b.bytes h e.2).length) entries
  | set order a ih =>
      refine (ih.counted h).map fun keys => ?_
      rw [bytes, List.length_append, h.length_store, List.length_flatMap]
      exact Nat.add_le_add_left (sum_setOf_le (fun x => (a.bytes h x).length) keys) 4
  | voidmable =>
      intro u v mid hread
      cases hread
      exact le_rfl

/-- **What is accepted can be sent on.**  A value which a fresh target got from any input
fits into the format; where the bytes which were read would have room, `operator<<` succeeds
with at most as many, and every agreeing host reads the value back from them. -/
theorem accepted_resends {b c : Host} (hbc : b.Agrees c) {α : Type} (w : Wire α)
    {input : List UInt8} {u' : Unpack} {v : α}
    (hread : w.extract b (Unpack.new input) w.fresh = (.ok (), u', v)) :
    w.StringsFit v ∧ w.ContainersFit v ∧
      ∀ st : PackBuffer, st.Inv → st.Allocates → st.size + u'.data ≤ 65536 →
        ∃ st' word, w.push b v st = (.ok (), st') ∧ st'.content = st.content ++ word ∧
          word.length ≤ u'.data ∧
          ∀ rest, ∃ u'', w.extract c (Unpack.new (word ++ rest)) w.fresh = (.ok (), u'', v) ∧
            u''.data = word.length := by
  obtain ⟨v', hv', hv⟩ := (w.extract_follows b).read_of_ok hread
  obtain rfl := hv rfl
  have hs : w.StringsFit v :=
    w.read_all b (fun _ hs => hs) (fun _ _ => trivial) _ v u' hv'
  have hc : w.ContainersFit v :=
    w.read_all b (fun _ _ => trivial) (fun _ hn => hn) _ v u' hv'
  have hlen : (w.bytes b v).length ≤ u'.data := by
    have htaken := w.read_takes_bytes b _ v u' hv'
    exact (Nat.zero_add _).symm.trans_le htaken
  refine ⟨hs, hc, fun st hst halloc hroom => ?_⟩
  have happends := push_appends b w v
  have hok := (happends.room hst hs halloc (by omega)).1
  refine ⟨(w.push b v st).2, w.bytes b v, Prod.ext hok rfl, (happends.ok hst hok).2,
    hlen, fun rest => ?_⟩
  obtain ⟨u'', hdecode, hconsumed⟩ := extract_bytes b c hbc w v hs hc _ rest (at_new _)
  refine ⟨u'', hdecode, ?_⟩
  rw [hconsumed.data]
  exact Nat.zero_add _

/-- A `bool` which came as 2 goes on as 1, from an empty buffer. -/
theorem accepted_resends_bool :
    let w : Wire (Bool × List UInt8) := .pair .bool .string
    let st := PackBuffer.new fun _ => some fun _ => 0
    ∃ st' word, w.push .x86 (true, [104]) st = (.ok (), st') ∧ st'.content = word ∧
      word.length ≤ 4 ∧
      ∀ rest, ∃ u'', w.extract .x86 (Unpack.new (word ++ rest)) w.fresh =
        (.ok (), u'', (true, [104])) ∧ u''.data = word.length := by
  intro w st
  have hread : w.extract .x86 (Unpack.new [2, 1, 0, 104, 9]) w.fresh =
      (.ok (), ⟨[2, 1, 0, 104, 9], 4, 1⟩, (true, [104])) := rfl
  have hroom : st.size + 4 ≤ 65536 := by
    show 0 + 4 ≤ 65536
    decide
  obtain ⟨-, -, hresend⟩ := accepted_resends Host.agrees_x86 w hread
  obtain ⟨st', word, hpush, hcontent, hlen, hdecodes⟩ :=
    hresend st (PackBuffer.inv_new _) (fun _ => rfl) hroom
  exact ⟨st', word, hpush, hcontent, hlen, hdecodes⟩

end Wire
end Net
end Deps
