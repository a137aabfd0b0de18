import Mathlib.Data.List.Basic
import Mathlib.Data.List.Pairwise
import Mathlib.Tactic

/-!
# Ordered associative containers

Maps and sets ordered by a strict comparison of keys, as strictly ascending
lists of entries.  The ordering is a field of the structure, so a container out
of order cannot be built.  Two keys neither of which is below the other count as
the same key; `KeyOrder.Total` says that they are then equal.
-/

namespace Deps

/-- A strict comparison of keys. -/
structure KeyOrder (α : Type) where
  lt : α → α → Bool
  irrefl : ∀ a, lt a a = false
  trans : ∀ a b c, lt a b = true → lt b c = true → lt a c = true

namespace KeyOrder

variable {α : Type} (order : KeyOrder α)

/-- Keys which the comparison does not tell apart. -/
def equiv (a b : α) : Bool := !order.lt a b && !order.lt b a

def Total : Prop := ∀ a b, order.equiv a b = true ↔ a = b

theorem asymm {a b : α} (h : order.lt a b = true) : order.lt b a = false := by
  cases hba : order.lt b a with
  | false => rfl
  | true =>
      have hself := order.trans a b a h hba
      rw [order.irrefl a] at hself
      contradiction

theorem equiv_self (a : α) : order.equiv a a = true := by
  simp [equiv, order.irrefl]

theorem not_equiv_of_lt {a b : α} (h : order.lt a b = true) : order.equiv a b = false := by
  simp [equiv, h]

theorem not_equiv_of_gt {a b : α} (h : order.lt a b = true) : order.equiv b a = false := by
  simp [equiv, h]

/-- The usual order of the integers. -/
def int : KeyOrder Int where
  lt a b := decide (a < b)
  irrefl := by simp
  trans := by
    intro a b c hab hbc
    simp only [decide_eq_true_eq] at *
    omega

theorem int_total : int.Total := by
  intro a b
  simp only [equiv, int, Bool.and_eq_true, Bool.not_eq_true', decide_eq_false_iff_not]
  omega

/-- The usual order of the natural numbers. -/
def nat : KeyOrder Nat where
  lt a b := decide (a < b)
  irrefl := by simp
  trans := by
    intro a b c hab hbc
    simp only [decide_eq_true_eq] at *
    omega

theorem nat_total : nat.Total := by
  intro a b
  simp only [equiv, nat, Bool.and_eq_true, Bool.not_eq_true', decide_eq_false_iff_not]
  omega

end KeyOrder

/-- A map from keys to values, in ascending order of keys. -/
structure OrderedMap {α : Type} (order : KeyOrder α) (β : Type) where
  entries : List (α × β)
  sorted : entries.Pairwise fun a b => order.lt a.1 b.1 = true

namespace OrderedMap

variable {α β : Type} {order : KeyOrder α}

@[ext] theorem ext {m m' : OrderedMap order β} (h : m.entries = m'.entries) : m = m' := by
  cases m
  cases m'
  cases h
  rfl

def empty (order : KeyOrder α) (β : Type) : OrderedMap order β := ⟨[], .nil⟩

def size (m : OrderedMap order β) : Nat := m.entries.length

/-- The value under a key. -/
def find (m : OrderedMap order β) (k : α) : Option β :=
  (m.entries.find? fun e => order.equiv e.1 k).map Prod.snd

/-- Insert an entry unless its key is present. -/
def insertList (order : KeyOrder α) (e : α × β) : List (α × β) → List (α × β)
  | [] => [e]
  | e' :: rest =>
      if order.lt e.1 e'.1 then e :: e' :: rest
      else if order.lt e'.1 e.1 then e' :: insertList order e rest
      -- an equivalent key is present, and the old entry stays
      else e' :: rest

theorem mem_insertList {e x : α × β} {l : List (α × β)} (h : x ∈ insertList order e l) :
    x = e ∨ x ∈ l := by
  induction l with
  | nil => simpa [insertList] using h
  | cons e' rest ih =>
      rw [insertList] at h
      split at h
      · simpa using h
      split at h
      · rcases List.mem_cons.mp h with rfl | hrest
        · simp
        · rcases ih hrest with rfl | hmem
          · exact .inl rfl
          · exact .inr (List.mem_cons_of_mem _ hmem)
      · exact .inr h

theorem sorted_insertList (e : α × β) {l : List (α × β)}
    (h : l.Pairwise fun a b => order.lt a.1 b.1 = true) :
    (insertList order e l).Pairwise fun a b => order.lt a.1 b.1 = true := by
  induction l with
  | nil => simp [insertList]
  | cons e' rest ih =>
      obtain ⟨hhead, htail⟩ := List.pairwise_cons.mp h
      rw [insertList]
      split
      · rename_i hlt
        refine List.pairwise_cons.mpr ⟨fun x hx => ?_, h⟩
        rcases List.mem_cons.mp hx with rfl | hrest
        · exact hlt
        · exact order.trans _ _ _ hlt (hhead x hrest)
      split
      · rename_i hgt
        refine List.pairwise_cons.mpr ⟨fun x hx => ?_, ih htail⟩
        rcases mem_insertList hx with rfl | hrest
        · exact hgt
        · exact hhead x hrest
      · exact h

def insert (m : OrderedMap order β) (k : α) (v : β) : OrderedMap order β :=
  ⟨insertList order (k, v) m.entries, sorted_insertList _ m.sorted⟩

/-- Remove the entry under a key. -/
def erase (m : OrderedMap order β) (k : α) : OrderedMap order β :=
  ⟨m.entries.filter fun e => !order.equiv e.1 k, m.sorted.filter _⟩

/-- The entries with keys above `k`. -/
def above (m : OrderedMap order β) (k : α) : List (α × β) :=
  m.entries.filter fun e => order.lt k e.1

theorem filter_lt_of_filter_lt {k : α} {e : α × β} {l rest : List (α × β)}
    (hsorted : l.Pairwise fun a b => order.lt a.1 b.1 = true)
    (h : l.filter (fun x => order.lt k x.1) = e :: rest) :
    l.filter (fun x => order.lt e.1 x.1) = rest := by
  induction l with
  | nil => cases h
  | cons x xs ih =>
      obtain ⟨hhead, htail⟩ := List.pairwise_cons.mp hsorted
      rw [List.filter_cons] at h ⊢
      split at h
      · rename_i hk
        obtain ⟨rfl, rfl⟩ := List.cons.inj h
        -- all of `xs` is above `x`, and `x` is above `k`
        rw [order.irrefl, if_neg Bool.false_ne_true]
        refine List.filter_congr fun y hy => ?_
        rw [hhead y hy, order.trans _ _ _ hk (hhead y hy)]
      · have he : e ∈ xs := List.mem_of_mem_filter (h ▸ List.mem_cons_self)
        rw [order.asymm (hhead e he), if_neg Bool.false_ne_true]
        exact ih htail h

/-- What is above the first entry above a key are the entries after it. -/
theorem above_of_above {m : OrderedMap order β} {k : α} {e : α × β} {rest : List (α × β)}
    (h : m.above k = e :: rest) : m.above e.1 = rest :=
  filter_lt_of_filter_lt m.sorted h

/-- An entry above all the others is inserted behind them. -/
theorem insertList_last {e : α × β} {l : List (α × β)}
    (h : ∀ x ∈ l, order.lt x.1 e.1 = true) : insertList order e l = l ++ [e] := by
  induction l with
  | nil => rfl
  | cons e' rest ih =>
      have hhead := h e' (by simp)
      have htail : ∀ x ∈ rest, order.lt x.1 e.1 = true :=
        fun x hx => h x (List.mem_cons_of_mem _ hx)
      rw [insertList, order.asymm hhead, hhead, ih htail]
      simp

/-- Inserting the entries of a map in their order into a map below all of them
appends them. -/
theorem entries_foldl_insert (l : List (α × β)) (m : OrderedMap order β)
    (h : (m.entries ++ l).Pairwise fun a b => order.lt a.1 b.1 = true) :
    (l.foldl (fun c e => c.insert e.1 e.2) m).entries = m.entries ++ l := by
  induction l generalizing m with
  | nil => simp
  | cons e rest ih =>
      -- the whole list ascends, so the next entry belongs behind all of the map
      have hlast : ∀ x ∈ m.entries, order.lt x.1 e.1 = true :=
        fun x hx => (List.pairwise_append.mp h).2.2 x hx e (by simp)
      have hentries : (m.insert e.1 e.2).entries = m.entries ++ [e] := insertList_last hlast
      rw [List.foldl_cons, ih _ (by simpa [hentries] using h), hentries]
      simp

/-- A map is rebuilt by inserting its entries into the empty map. -/
theorem foldl_insert_empty (m : OrderedMap order β) :
    m.entries.foldl (fun c e => c.insert e.1 e.2) (empty order β) = m :=
  ext (by simpa [empty] using entries_foldl_insert m.entries (empty order β) m.sorted)

/-! ## Inserting many entries -/

theorem mem_insertList_of_mem {e x : α × β} {l : List (α × β)} (h : x ∈ l) :
    x ∈ insertList order e l := by
  induction l with
  | nil => cases h
  | cons e' rest ih =>
      rw [insertList]
      split
      · exact List.mem_cons_of_mem _ h
      split
      · rcases List.mem_cons.mp h with rfl | hrest
        · exact List.mem_cons_self
        · exact List.mem_cons_of_mem _ (ih hrest)
      · exact h

/-- After an insertion there is an entry under the key. -/
theorem exists_equiv_insertList (e : α × β) (l : List (α × β)) :
    ∃ x ∈ insertList order e l, order.equiv x.1 e.1 = true := by
  induction l with
  | nil => exact ⟨e, List.mem_cons_self, order.equiv_self _⟩
  | cons e' rest ih =>
      rw [insertList]
      split
      · exact ⟨e, List.mem_cons_self, order.equiv_self _⟩
      split
      · obtain ⟨x, hx, hequiv⟩ := ih
        exact ⟨x, List.mem_cons_of_mem _ hx, hequiv⟩
      · rename_i hlt hgt
        exact ⟨e', List.mem_cons_self, by simp [KeyOrder.equiv, hlt, hgt]⟩

/-- Insert one entry after the other. -/
def insertAll (m : OrderedMap order β) (l : List (α × β)) : OrderedMap order β :=
  l.foldl (fun c e => c.insert e.1 e.2) m

theorem mem_insertAll {m : OrderedMap order β} {l : List (α × β)} {x : α × β}
    (h : x ∈ (m.insertAll l).entries) : x ∈ m.entries ∨ x ∈ l := by
  induction l generalizing m with
  | nil => exact .inl h
  | cons e rest ih =>
      rcases ih (m := m.insert e.1 e.2) h with hmem | hrest
      · rcases mem_insertList hmem with rfl | hmem
        · exact .inr List.mem_cons_self
        · exact .inl hmem
      · exact .inr (List.mem_cons_of_mem _ hrest)

theorem mem_insertAll_of_mem {m : OrderedMap order β} (l : List (α × β)) {x : α × β}
    (h : x ∈ m.entries) : x ∈ (m.insertAll l).entries := by
  induction l generalizing m with
  | nil => exact h
  | cons e rest ih => exact ih (mem_insertList_of_mem h)

theorem exists_equiv_insertAll {m : OrderedMap order β} {l : List (α × β)} {e : α × β}
    (h : e ∈ l) : ∃ x ∈ (m.insertAll l).entries, order.equiv x.1 e.1 = true := by
  induction l generalizing m with
  | nil => cases h
  | cons e' rest ih =>
      rcases List.mem_cons.mp h with rfl | hrest
      · obtain ⟨x, hx, hequiv⟩ := exists_equiv_insertList e m.entries
        exact ⟨x, mem_insertAll_of_mem rest hx, hequiv⟩
      · exact ih hrest

/-- An insertion adds the weight of the entry, or nothing. -/
theorem sum_insertList (f : α × β → Nat) (e : α × β) (l : List (α × β)) :
    (l.map f).sum ≤ ((insertList order e l).map f).sum ∧
      ((insertList order e l).map f).sum ≤ f e + (l.map f).sum := by
  induction l with
  | nil => simp [insertList]
  | cons e' rest ih =>
      rw [insertList]
      split
      · simp
      split
      · simp only [List.map_cons, List.sum_cons]
        omega
      · simp

theorem sum_insertAll (f : α × β → Nat) (m : OrderedMap order β) (l : List (α × β)) :
    (m.entries.map f).sum ≤ ((m.insertAll l).entries.map f).sum ∧
      ((m.insertAll l).entries.map f).sum ≤ (m.entries.map f).sum + (l.map f).sum := by
  induction l generalizing m with
  | nil => exact ⟨le_rfl, le_rfl⟩
  | cons e rest ih =>
      have hone : _ ≤ ((insertList order e m.entries).map f).sum ∧ _ ≤ _ :=
        sum_insertList f e m.entries
      obtain ⟨hlow, hhigh⟩ := ih (m.insert e.1 e.2)
      have hentries : (m.insert e.1 e.2).entries = insertList order e m.entries := rfl
      have hall : m.insertAll (e :: rest) = (m.insert e.1 e.2).insertAll rest := rfl
      rw [hentries] at hlow hhigh
      rw [hall, List.map_cons, List.sum_cons]
      constructor <;> omega

/-- There is one entry at most under a key. -/
theorem eq_of_equiv {m : OrderedMap order β} {e e' : α × β} (he : e ∈ m.entries)
    (he' : e' ∈ m.entries) (hequiv : order.equiv e.1 e'.1 = true) : e = e' := by
  refine List.Pairwise.forall_of_forall_of_flip
    (R := fun a b => order.equiv a.1 b.1 = true → a = b) (fun _ _ _ => rfl)
    (m.sorted.imp fun hlt h => ?_) (m.sorted.imp fun hlt h => ?_) he he' hequiv
  · rw [order.not_equiv_of_lt hlt] at h
    cases h
  · rw [order.not_equiv_of_gt hlt] at h
    cases h

/-- Every entry there can be is in `l`, and no two of them have one key. -/
def Exhausts (order : KeyOrder α) (l : List (α × β)) : Prop :=
  (∀ e : α × β, e ∈ l) ∧ ∀ e e' : α × β, order.equiv e.1 e'.1 = true → e = e'

/-- Maps with the same entries are equal. -/
theorem ext_mem {m m' : OrderedMap order β} (h : ∀ e, e ∈ m.entries ↔ e ∈ m'.entries) :
    m = m' := by
  have hnodup : ∀ m : OrderedMap order β, m.entries.Nodup := fun m =>
    m.sorted.imp fun hlt heq => by
      rw [heq, order.irrefl] at hlt
      cases hlt
  apply ext
  refine ((List.perm_ext_iff_of_nodup (hnodup m) (hnodup m')).mpr h).eq_of_pairwise ?_ m.sorted
    m'.sorted
  intro a b _ _ hab hba
  rw [order.asymm hab] at hba
  cases hba

/-- Insertions lead to one map from everywhere only if they leave no room for
anything else: an entry which is present is never replaced. -/
theorem insertAll_const_iff (l : List (α × β)) :
    (∀ m : OrderedMap order β, m.insertAll l = (empty order β).insertAll l) ↔
      Exhausts order l := by
  constructor
  · intro hconst
    have hall : ∀ e : α × β, e ∈ ((empty order β).insertAll l).entries := by
      intro e
      have hmem : e ∈ ((empty order β).insert e.1 e.2).entries := List.mem_cons_self
      rw [← hconst]
      exact mem_insertAll_of_mem l hmem
    constructor
    · intro e
      rcases mem_insertAll (hall e) with hnil | hmem
      · cases hnil
      · exact hmem
    · exact fun e e' => eq_of_equiv (hall e) (hall e')
  · rintro ⟨hall, hequal⟩ m
    have hfull : ∀ m : OrderedMap order β, ∀ e, e ∈ (m.insertAll l).entries := by
      intro m e
      obtain ⟨x, hx, hequiv⟩ := exists_equiv_insertAll (m := m) (hall e)
      rw [← hequal x e hequiv]
      exact hx
    exact ext_mem fun e => iff_of_true (hfull m e) (hfull _ e)

theorem entries_insert_ne_nil (m : OrderedMap order β) (k : α) (v : β) :
    (m.insert k v).entries ≠ [] := by
  show insertList order (k, v) m.entries ≠ []
  cases m.entries with
  | nil => exact List.cons_ne_nil _ _
  | cons e rest =>
      rw [insertList]
      split
      · exact List.cons_ne_nil _ _
      · split <;> exact List.cons_ne_nil _ _

/-- With one key there is one entry at most. -/
theorem size_le_one [Subsingleton α] (m : OrderedMap order β) : m.size ≤ 1 := by
  obtain ⟨entries, hsorted⟩ := m
  match entries, hsorted with
  | [], _ => exact Nat.zero_le _
  | [_], _ => exact Nat.le_refl _
  | e :: e' :: rest, hsorted =>
      have hlt := (List.pairwise_cons.mp hsorted).1 e' List.mem_cons_self
      rw [Subsingleton.elim e.1 e'.1, order.irrefl] at hlt
      cases hlt

theorem eq_of_subsingleton [Subsingleton α] [Subsingleton β] {m m' : OrderedMap order β}
    (h : m.entries = [] ↔ m'.entries = []) : m = m' := by
  have hsize := m.size_le_one
  have hsize' := m'.size_le_one
  rw [size] at hsize hsize'
  apply ext
  cases hm : m.entries with
  | nil => exact (h.mp hm).symm
  | cons e rest =>
      cases hm' : m'.entries with
      | nil =>
          rw [h.mpr hm'] at hm
          cases hm
      | cons e' rest' =>
          rw [hm, List.length_cons] at hsize
          rw [hm', List.length_cons] at hsize'
          rw [List.length_eq_zero_iff.mp (by omega : rest.length = 0),
            List.length_eq_zero_iff.mp (by omega : rest'.length = 0), Subsingleton.elim e e']

/-- Inserting any number of times, at least once, leaves something. -/
theorem entries_iterate_insert (m : OrderedMap order β) (k : α) (v : β) {n : Nat} (hn : n ≠ 0) :
    ((fun c : OrderedMap order β => c.insert k v)^[n] m).entries ≠ [] := by
  cases n with
  | zero => exact absurd rfl hn
  | succ n =>
      rw [Function.iterate_succ_apply']
      exact entries_insert_ne_nil _ k v

/-! ## Lookup, for a total comparison -/

theorem find_eq_some_iff (htotal : order.Total) {m : OrderedMap order β} {k : α} {v : β} :
    m.find k = some v ↔ (k, v) ∈ m.entries := by
  obtain ⟨l, hsorted⟩ := m
  simp only [find]
  induction l with
  | nil => simp
  | cons e rest ih =>
      obtain ⟨hhead, htail⟩ := List.pairwise_cons.mp hsorted
      rw [List.find?_cons]
      cases hk : order.equiv e.1 k with
      | true =>
          have heq : e.1 = k := (htotal _ _).mp hk
          -- the keys further on are above this one
          simp only [Option.map_some, Option.some.injEq, List.mem_cons]
          constructor
          · rintro rfl
            exact .inl (by rw [← heq])
          · rintro (he | hmem)
            · rw [← he]
            · have hlt := hhead _ hmem
              rw [heq, order.irrefl] at hlt
              contradiction
      | false =>
          have hne : (k, v) ≠ e := by
            rintro rfl
            rw [order.equiv_self] at hk
            contradiction
          simpa [hne] using ih htail

theorem find_eq_none_iff (htotal : order.Total) {m : OrderedMap order β} {k : α} :
    m.find k = none ↔ ∀ v, (k, v) ∉ m.entries := by
  constructor
  · intro hnone v hmem
    rw [(find_eq_some_iff htotal).mpr hmem] at hnone
    contradiction
  · intro hno
    cases hfind : m.find k with
    | none => rfl
    | some v => exact absurd ((find_eq_some_iff htotal).mp hfind) (hno v)

/-- The entries above a key are entries. -/
theorem find_of_mem_above (htotal : order.Total) {m : OrderedMap order β} {k : α} {e : α × β}
    (he : e ∈ m.above k) : m.find e.1 = some e.2 :=
  (find_eq_some_iff htotal).mpr (List.mem_of_mem_filter he)

theorem mem_insertList_iff_of_absent (htotal : order.Total) {e x : α × β}
    {l : List (α × β)} (habsent : ∀ v, (e.1, v) ∉ l) :
    x ∈ insertList order e l ↔ x = e ∨ x ∈ l := by
  constructor
  · exact mem_insertList
  induction l with
  | nil => simp [insertList]
  | cons e' rest ih =>
      have hrest : ∀ v, (e.1, v) ∉ rest := fun v hv => habsent v (List.mem_cons_of_mem _ hv)
      have hne : e.1 ≠ e'.1 := by
        intro heq
        exact habsent e'.2 (by rw [heq]; simp)
      rw [insertList]
      cases hlt : order.lt e.1 e'.1 with
      | true => simp
      | false =>
          cases hgt : order.lt e'.1 e.1 with
          | true =>
              simp only [Bool.false_eq_true, if_false, if_true, List.mem_cons]
              rintro (rfl | rfl | hmem)
              · exact .inr (ih hrest (.inl rfl))
              · exact .inl rfl
              · exact .inr (ih hrest (.inr hmem))
          | false => exact absurd ((htotal _ _).mp (by simp [KeyOrder.equiv, hlt, hgt])) hne

/-- Looking up after inserting an absent key. -/
theorem find_insert_of_absent (htotal : order.Total) {m : OrderedMap order β} {k : α} {v : β}
    (habsent : m.find k = none) (k' : α) (v' : β) :
    (m.insert k v).find k' = some v' ↔ (k' = k ∧ v' = v) ∨ m.find k' = some v' := by
  rw [find_eq_some_iff htotal, find_eq_some_iff htotal]
  show (k', v') ∈ insertList order (k, v) m.entries ↔ _
  rw [mem_insertList_iff_of_absent htotal ((find_eq_none_iff htotal).mp habsent)]
  simp

theorem length_insertList_of_absent (htotal : order.Total) {e : α × β} {l : List (α × β)}
    (habsent : ∀ v, (e.1, v) ∉ l) : (insertList order e l).length = l.length + 1 := by
  induction l with
  | nil => rfl
  | cons e' rest ih =>
      have hrest : ∀ v, (e.1, v) ∉ rest := fun v hv => habsent v (List.mem_cons_of_mem _ hv)
      have hne : e.1 ≠ e'.1 := by
        intro heq
        exact habsent e'.2 (by rw [heq]; simp)
      rw [insertList]
      cases hlt : order.lt e.1 e'.1 with
      | true => simp
      | false =>
          cases hgt : order.lt e'.1 e.1 with
          | true => simp [ih hrest]
          | false => exact absurd ((htotal _ _).mp (by simp [KeyOrder.equiv, hlt, hgt])) hne

theorem size_insert_of_absent (htotal : order.Total) {m : OrderedMap order β} {k : α} {v : β}
    (habsent : m.find k = none) : (m.insert k v).size = m.size + 1 :=
  length_insertList_of_absent htotal ((find_eq_none_iff htotal).mp habsent)

/-- Inserting under a key which is present changes nothing. -/
theorem insert_of_present (htotal : order.Total) {m : OrderedMap order β} {k : α} {v v' : β}
    (hpresent : m.find k = some v') : m.insert k v = m := by
  have hmem := (find_eq_some_iff htotal).mp hpresent
  obtain ⟨l, hsorted⟩ := m
  apply ext
  show insertList order (k, v) l = l
  clear hpresent
  induction l with
  | nil => cases hmem
  | cons e rest ih =>
      obtain ⟨hhead, htail⟩ := List.pairwise_cons.mp hsorted
      rw [insertList]
      rcases List.mem_cons.mp hmem with rfl | hrest
      · simp [order.irrefl]
      · have hlt := hhead _ hrest
        rw [if_neg (by simp [order.asymm hlt]), if_pos hlt, ih htail hrest]

/-- Looking up after erasing a key. -/
theorem find_erase (htotal : order.Total) {m : OrderedMap order β} {k k' : α} {v' : β} :
    (m.erase k).find k' = some v' ↔ k' ≠ k ∧ m.find k' = some v' := by
  rw [find_eq_some_iff htotal, find_eq_some_iff htotal]
  have hequiv : order.equiv k' k = false ↔ k' ≠ k := by
    rw [← Bool.not_eq_true, htotal k' k]
  simp [erase, hequiv, and_comm]

/-- Erasing a present key removes exactly one entry. -/
theorem size_erase_of_present (htotal : order.Total) {m : OrderedMap order β} {k : α} {v : β}
    (hpresent : m.find k = some v) : (m.erase k).size + 1 = m.size := by
  have hmem := (find_eq_some_iff htotal).mp hpresent
  obtain ⟨l, hsorted⟩ := m
  simp only [size, erase] at *
  clear hpresent
  induction l with
  | nil => cases hmem
  | cons e rest ih =>
      obtain ⟨hhead, htail⟩ := List.pairwise_cons.mp hsorted
      rcases List.mem_cons.mp hmem with rfl | hrest
      -- the keys behind the head are above it, so the filter keeps them
      · have hkeep : rest.filter (fun e => !order.equiv e.1 k) = rest := by
          refine List.filter_eq_self.mpr fun x hx => ?_
          have := order.not_equiv_of_gt (hhead x hx)
          simpa using this
        simp [order.equiv_self, hkeep]
      · have hgt := order.not_equiv_of_lt (hhead _ hrest)
        simp only at hgt
        simp [hgt, ih htail hrest]

theorem erase_of_absent {m : OrderedMap order β} {k : α} (habsent : m.find k = none) :
    m.erase k = m := by
  apply ext
  simp only [find, Option.map_eq_none_iff, List.find?_eq_none] at habsent
  refine List.filter_eq_self.mpr fun e he => ?_
  simpa using habsent e he

/-- An entry which is erased again leaves nothing behind. -/
theorem erase_insert (m : OrderedMap order β) (k : α) (v : β) :
    (m.insert k v).erase k = m.erase k := by
  apply ext
  show (insertList order (k, v) m.entries).filter _ = m.entries.filter _
  induction m.entries with
  | nil => simp [insertList, order.equiv_self]
  | cons e rest ih =>
      unfold insertList
      split
      · rw [List.filter_cons_of_neg (by simp [order.equiv_self])]
      split
      · rw [List.filter_cons, List.filter_cons, ih]
      · rfl

end OrderedMap

/-- A set is a map without values. -/
abbrev OrderedSet {α : Type} (order : KeyOrder α) := OrderedMap order Unit

namespace OrderedSet

def elements {α : Type} {order : KeyOrder α} (s : OrderedSet order) : List α :=
  s.entries.map Prod.fst

variable {α : Type} {order : KeyOrder α}

theorem mem_elements (htotal : order.Total) {s : OrderedSet order} {a : α} :
    a ∈ s.elements ↔ s.find a = some () := by
  rw [OrderedMap.find_eq_some_iff htotal, elements, List.mem_map]
  constructor
  · rintro ⟨⟨b, u⟩, hmem, rfl⟩
    exact hmem
  · exact fun hmem => ⟨(a, ()), hmem, rfl⟩

theorem mem_elements_insert (htotal : order.Total) {s : OrderedSet order} {a b : α} :
    b ∈ elements (s.insert a ()) ↔ b = a ∨ b ∈ s.elements := by
  rw [mem_elements htotal, mem_elements htotal]
  cases hfind : s.find a with
  | none =>
      rw [OrderedMap.find_insert_of_absent htotal hfind]
      simp
  | some v =>
      rw [OrderedMap.insert_of_present htotal hfind]
      refine ⟨.inr, ?_⟩
      rintro (rfl | hmem)
      · exact hfind
      · exact hmem

theorem nodup_elements (s : OrderedSet order) : s.elements.Nodup := by
  refine List.Pairwise.map _ (fun a b hlt => ?_) s.sorted
  intro heq
  rw [heq, order.irrefl] at hlt
  contradiction

end OrderedSet
end Deps
