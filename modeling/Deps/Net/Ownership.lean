import Deps.Net.Rules

/-!
# Who owns a descriptor

`Owned` ties the socket objects, the container and the kernel together: every
open descriptor of an object is its own, the map, the registrations and the
counter say the same, and an object is closed exactly when it waits for its
deletion.  Between the creation of an object and its registration, and while the
close of an object whose registration failed calls back, the object is in
neither container; such objects are `pending`, and their descriptors have never
been registered.

This file says what each change of the world does to `Owned`; what the methods
do is in `OwnershipRuns`.
-/

namespace Deps
namespace Net

/-- The descriptor of an object; there is none unless the object is live. -/
def World.fdOf (w : World) (s : SocketId) : Option Fd := (w.heap s).map Socket.fd

theorem World.fdOf_eq_some {w : World} {s : SocketId} {o : Socket} (hs : w.heap s = some o) :
    w.fdOf s = some o.fd := by
  rw [World.fdOf, hs]
  rfl

theorem World.fdOf_put (w : World) (s : SocketId) (o : Socket) :
    (w.put s o).fdOf = Function.update w.fdOf s (some o.fd) := by
  funext t
  by_cases hts : t = s
  · subst hts
    simp [World.fdOf, World.put]
  · simp [World.fdOf, World.put, hts]

/-- The invariant.  The last two fields relate the objects to the map as it was
when `epoll_wait` returned last. -/
structure Owned (pending : SocketId → Prop) (w : World) : Prop where
  unborn : ∀ s, w.next ≤ s → w.fdOf s = none
  socketNum : w.container.socketNum = w.container.socketMap.size
  size_le : w.container.socketMap.size ≤ w.container.maxFdCount
  entry : ∀ fd s, w.container.socketMap.find fd = some s → 0 ≤ fd ∧ w.fdOf s = some fd
  isOpen : ∀ s fd, w.fdOf s = some fd → fd ≠ -1 → w.kernel.isOpen fd = true
  unique : ∀ s s' fd, w.fdOf s = some fd → w.fdOf s' = some fd → fd ≠ -1 → s = s'
  registered : ∀ fd, w.kernel.interest fd = none ↔ w.container.socketMap.find fd = none
  listed : ∀ s fd, w.fdOf s = some fd → fd ≠ -1 →
    (pending s ∧ w.kernel.enrolled fd = false) ∨ w.container.socketMap.find fd = some s
  closed : ∀ s, s ∈ OrderedSet.elements w.container.closeSockets ↔ w.fdOf s = some (-1)
  deleted : ∀ s, w.deleted s = if s < w.next ∧ w.fdOf s = none then 1 else 0
  fresh : ∀ s fd, w.fdOf s = some fd → fd ≠ -1 →
    (w.polled.find fd = some s ↔ w.kernel.handedOut fd = false)
  polled : ∀ fd s, w.polled.find fd = some s →
    s < w.next ∧ 0 ≤ fd ∧ (w.fdOf s = none ∨ w.fdOf s = some fd ∨ w.fdOf s = some (-1))

/-- The descriptor was handed out and no object has it yet. -/
structure Spare (w : World) (fd : Fd) : Prop where
  nonneg : 0 ≤ fd
  isOpen : w.kernel.isOpen fd = true
  handedOut : w.kernel.handedOut fd = true
  enrolled : w.kernel.enrolled fd = false
  unused : ∀ s, w.fdOf s ≠ some fd

namespace Owned

variable {pending pending' : SocketId → Prop} {w : World} {s : SocketId} {o o' : Socket}

theorem mono (hw : Owned pending w) (h : ∀ s, pending s → pending' s) : Owned pending' w :=
  { hw with listed := fun s fd hs hfd => (hw.listed s fd hs hfd).imp_left (And.imp_left (h s)) }

theorem lt_next (hw : Owned pending w) {fd : Fd} (hs : w.fdOf s = some fd) : s < w.next := by
  by_contra hle
  rw [hw.unborn s (Nat.le_of_not_lt hle)] at hs
  cases hs

theorem live (hw : Owned pending w) {fd : Fd}
    (hs : w.container.socketMap.find fd = some s) : w.heap s ≠ none := by
  intro hnone
  have hfd := (hw.entry fd s hs).2
  rw [World.fdOf, hnone] at hfd
  cases hfd

/-- Whatever is not mentioned in the invariant may change. -/
theorem congr (hw : Owned pending w) {w' : World} (hfd : w'.fdOf = w.fdOf)
    (hnext : w'.next = w.next) (hdeleted : w'.deleted = w.deleted)
    (hcontainer : w'.container = w.container) (hkernel : w'.kernel = w.kernel)
    (hpolled : w'.polled = w.polled) : Owned pending w' := by
  constructor <;> simp only [hfd, hnext, hdeleted, hcontainer, hkernel, hpolled]
  exacts [hw.unborn, hw.socketNum, hw.size_le, hw.entry, hw.isOpen, hw.unique, hw.registered,
    hw.listed, hw.closed, hw.deleted, hw.fresh, hw.polled]

/-- A change of fields other than the descriptor. -/
theorem put (hw : Owned pending w) (hs : w.heap s = some o) (hfd : o'.fd = o.fd) :
    Owned pending (w.put s o') := by
  refine hw.congr ?_ rfl rfl rfl rfl rfl
  rw [World.fdOf_put, hfd, ← World.fdOf_eq_some hs, Function.update_eq_self]

/-- The kernel hands out a descriptor. -/
theorem handOut (hw : Owned pending w) {fd : Fd} (hfd : w.kernel.Available fd) :
    Owned pending { w with kernel := w.kernel.handOut fd } ∧
      Spare { w with kernel := w.kernel.handOut fd } fd := by
  -- an object which had it would have kept it open
  have hunused : ∀ t, w.fdOf t ≠ some fd := by
    intro t ht
    have hopen := hw.isOpen t fd ht (ne_neg_of_nonneg hfd.1)
    rw [hfd.2] at hopen
    cases hopen
  have hne : ∀ t fd', w.fdOf t = some fd' → fd' ≠ fd := fun t fd' ht heq => hunused t (heq ▸ ht)
  refine ⟨{ hw with
      isOpen := fun t fd' ht hneg => ?_
      listed := fun t fd' ht hneg => ?_
      fresh := fun t fd' ht hneg => ?_ },
    ⟨hfd.1, by simp [Kernel.handOut], by simp [Kernel.handOut], by simp [Kernel.handOut],
      hunused⟩⟩
  · simpa [Kernel.handOut, Function.update_of_ne (hne t fd' ht)] using hw.isOpen t fd' ht hneg
  · simpa [Kernel.handOut, Function.update_of_ne (hne t fd' ht)] using hw.listed t fd' ht hneg
  · simpa [Kernel.handOut, Function.update_of_ne (hne t fd' ht)] using hw.fresh t fd' ht hneg

/-- A new object gets a spare descriptor, and waits to be registered. -/
theorem born (hw : Owned pending w) {fd : Fd} (hspare : Spare w fd) (c : Socket)
    (ho : o.fd = fd) :
    Owned (fun t => t = w.next ∨ pending t) ((w.born c).put w.next o) := by
  have hneg := ne_neg_of_nonneg hspare.nonneg
  -- every other object is older
  have hold : ∀ {t fd'}, w.fdOf t = some fd' → t ≠ w.next := by
    rintro t fd' ht rfl
    exact lt_irrefl _ (hw.lt_next ht)
  have hfdOf : ((w.born c).put w.next o).fdOf = Function.update w.fdOf w.next (some fd) := by
    rw [World.fdOf_put, ho]
    funext t
    by_cases ht : t = w.next
    · simp [ht]
    · simp [ht, World.fdOf, World.born]
  have hsplit : ∀ {t fd'}, ((w.born c).put w.next o).fdOf t = some fd' →
      (t = w.next ∧ fd' = fd) ∨ (t ≠ w.next ∧ w.fdOf t = some fd') := by
    intro t fd' ht
    rw [hfdOf] at ht
    by_cases htnext : t = w.next
    · subst htnext
      exact .inl ⟨rfl, by simpa using ht.symm⟩
    · exact .inr ⟨htnext, by simpa [htnext] using ht⟩
  have hkeep : ∀ {t fd'}, w.fdOf t = some fd' →
      ((w.born c).put w.next o).fdOf t = some fd' := by
    intro t fd' ht
    rw [hfdOf, Function.update_of_ne (hold ht), ht]
  constructor
  case unborn =>
    intro t ht
    have hlt : w.next < t := ht
    rw [hfdOf, Function.update_of_ne hlt.ne', hw.unborn t hlt.le]
  case socketNum => exact hw.socketNum
  case size_le => exact hw.size_le
  case entry =>
    intro fd' t hfind
    obtain ⟨hnonneg, ht⟩ := hw.entry fd' t hfind
    exact ⟨hnonneg, hkeep ht⟩
  case isOpen =>
    intro t fd' ht hfd'
    rcases hsplit ht with ⟨-, rfl⟩ | ⟨-, ht⟩
    · exact hspare.isOpen
    · exact hw.isOpen t fd' ht hfd'
  case unique =>
    intro t t' fd' ht ht' hfd'
    rcases hsplit ht with ⟨rfl, rfl⟩ | ⟨-, ht⟩ <;> rcases hsplit ht' with ⟨rfl, heq⟩ | ⟨-, ht'⟩
    · rfl
    · exact absurd ht' (hspare.unused t')
    · exact absurd (heq ▸ ht) (hspare.unused t)
    · exact hw.unique t t' fd' ht ht' hfd'
  case registered => exact hw.registered
  case listed =>
    intro t fd' ht hfd'
    rcases hsplit ht with ⟨rfl, rfl⟩ | ⟨-, ht⟩
    · exact .inl ⟨.inl rfl, hspare.enrolled⟩
    · exact (hw.listed t fd' ht hfd').imp_left (And.imp_left .inr)
  case closed =>
    intro t
    refine (hw.closed t).trans ⟨hkeep, fun ht => ?_⟩
    rcases hsplit ht with ⟨-, heq⟩ | ⟨-, ht⟩
    · exact absurd heq.symm hneg
    · exact ht
  case deleted =>
    intro t
    refine (hw.deleted t).trans ?_
    rw [hfdOf]
    by_cases ht : t = w.next
    · simp [ht]
    · have hlt : t < w.next + 1 ↔ t < w.next :=
        Nat.lt_succ_iff_lt_or_eq.trans (or_iff_left ht)
      simp only [Function.update_of_ne ht]
      exact if_congr (and_congr_left' hlt.symm) rfl rfl
  case fresh =>
    intro t fd' ht hfd'
    rcases hsplit ht with ⟨rfl, rfl⟩ | ⟨-, ht⟩
    -- the new object was not there at the last `epoll_wait`, nor was its descriptor
    · refine iff_of_false (fun hpolled => ?_) (fun hfresh => ?_)
      · exact lt_irrefl _ (hw.polled _ _ hpolled).1
      · have hhanded := hspare.handedOut
        rw [show w.kernel.handedOut fd' = false from hfresh] at hhanded
        cases hhanded
    · exact hw.fresh t fd' ht hfd'
  case polled =>
    intro fd' t ht
    obtain ⟨hlt, hnonneg, hfd'⟩ := hw.polled fd' t ht
    refine ⟨Nat.lt_succ_of_lt hlt, hnonneg, ?_⟩
    rwa [hfdOf, Function.update_of_ne hlt.ne]

/-- `AddSocket` registers a pending object. -/
theorem list (hw : Owned (fun t => t = s ∨ pending t) w) {fd : Fd} (hs : w.fdOf s = some fd)
    (hnonneg : 0 ≤ fd) (hsize : w.container.socketMap.size < w.container.maxFdCount)
    (habsent : w.container.socketMap.find fd = none) (events : Interest) :
    Owned pending (w.listed s fd events) := by
  have hfind : ∀ fd' t, (w.listed s fd events).container.socketMap.find fd' = some t ↔
      (fd' = fd ∧ t = s) ∨ w.container.socketMap.find fd' = some t :=
    OrderedMap.find_insert_of_absent KeyOrder.int_total habsent
  have hsizes : (w.listed s fd events).container.socketMap.size =
      w.container.socketMap.size + 1 :=
    OrderedMap.size_insert_of_absent KeyOrder.int_total habsent
  exact { hw with
    socketNum := by
      rw [hsizes, Nat.cast_succ, ← hw.socketNum]
      rfl
    size_le := by
      rw [hsizes]
      exact hsize
    entry := by
      intro fd' t ht
      rcases (hfind fd' t).mp ht with ⟨rfl, rfl⟩ | ht
      · exact ⟨hnonneg, hs⟩
      · exact hw.entry fd' t ht
    registered := by
      intro fd'
      rw [Option.eq_none_iff_forall_ne_some]
      by_cases hfd' : fd' = fd
      · subst hfd'
        have hs' := (hfind fd' s).mpr (.inl ⟨rfl, rfl⟩)
        rw [hs']
        simp [World.listed, Kernel.enroll, Kernel.register]
      · rw [← Option.eq_none_iff_forall_ne_some]
        refine Iff.trans ?_ ((hw.registered fd').trans ?_)
        · simp [World.listed, Kernel.enroll, Kernel.register, hfd']
        · simp only [Option.eq_none_iff_forall_ne_some, ne_eq, hfind, hfd', false_and, false_or]
    listed := by
      intro t fd' ht hneg
      by_cases heq : fd' = fd
      · subst heq
        exact .inr ((hfind fd' t).mpr (.inl ⟨rfl, hw.unique t s fd' ht hs hneg⟩))
      -- with another descriptor the object is not `s`, so it stays as it was
      rcases hw.listed t fd' ht hneg with ⟨rfl | hpending, henrolled⟩ | hmapped
      · exact absurd (Option.some.inj (ht.symm.trans hs)) heq
      · refine .inl ⟨hpending, ?_⟩
        simpa [World.listed, Kernel.enroll, heq] using henrolled
      · exact .inr ((hfind fd' t).mpr (.inr hmapped)) }

/-- `ModSocket` changes the interest in a registered descriptor. -/
theorem remod (hw : Owned pending w) {fd : Fd} (hmapped : w.container.socketMap.find fd ≠ none)
    (events : Interest) :
    Owned pending { w with kernel := w.kernel.register fd (some events) } :=
  { hw with
    registered := by
      intro fd'
      by_cases hfd' : fd' = fd
      · subst hfd'
        simp [Kernel.register, hmapped]
      · simpa [Kernel.register, hfd'] using hw.registered fd' }

/-- `Close`, of an object which may be pending, or closed already. -/
theorem close (hw : Owned (fun t => t = s ∨ pending t) w) (hs : w.heap s = some o) :
    Owned pending (w.closed s o) := by
  have hfd := World.fdOf_eq_some hs
  have hfdOf : (w.closed s o).fdOf = Function.update w.fdOf s (some (-1)) := by
    rw [World.closed, World.fdOf_put]
    split <;> rfl
  have hcontainer := w.container_closed s o
  have hfind : ∀ fd t, (w.closed s o).container.socketMap.find fd = some t ↔
      fd ≠ o.fd ∧ w.container.socketMap.find fd = some t := fun _ _ => w.find_closed s o
  have hinterest := w.interest_closed s o
  have hhandedOut := w.handedOut_closed s o
  have henrolled := w.enrolled_closed s o
  have hnext := w.next_closed s o
  have hdeleted := w.deleted_closed s o
  have hpolled := w.polled_closed s o
  -- an object with a descriptor is another one
  have hother : ∀ {t fd}, (w.closed s o).fdOf t = some fd → fd ≠ -1 →
      t ≠ s ∧ w.fdOf t = some fd ∧ fd ≠ o.fd := by
    intro t fd ht hneg
    rw [hfdOf] at ht
    by_cases hts : t = s
    · subst hts
      rw [Function.update_self] at ht
      exact absurd (Option.some.inj ht).symm hneg
    · rw [Function.update_of_ne hts] at ht
      refine ⟨hts, ht, ?_⟩
      rintro rfl
      exact hts (hw.unique t s o.fd ht hfd hneg)
  constructor
  case unborn =>
    intro t ht
    rw [hnext] at ht
    have hne : t ≠ s := by
      rintro rfl
      exact absurd (hw.lt_next hfd) (Nat.not_lt.mpr ht)
    rw [hfdOf, Function.update_of_ne hne, hw.unborn t ht]
  case socketNum =>
    rw [hcontainer]
    simp only [World.unlisted]
    cases hmapped : w.container.socketMap.find o.fd with
    | none => simpa [OrderedMap.erase_of_absent hmapped] using hw.socketNum
    | some t =>
        have hsize := OrderedMap.size_erase_of_present KeyOrder.int_total hmapped
        have hnum := hw.socketNum
        simp only [Option.isSome_some, if_true]
        omega
  case size_le =>
    rw [hcontainer]
    exact (List.length_filter_le _ _).trans hw.size_le
  case entry =>
    intro fd t ht
    obtain ⟨hne, ht⟩ := (hfind fd t).mp ht
    obtain ⟨hnonneg, htfd⟩ := hw.entry fd t ht
    have hts : t ≠ s := by
      rintro rfl
      exact hne (Option.some.inj (htfd.symm.trans hfd))
    rw [hfdOf, Function.update_of_ne hts]
    exact ⟨hnonneg, htfd⟩
  case isOpen =>
    intro t fd ht hneg
    obtain ⟨-, ht, hne⟩ := hother ht hneg
    rw [w.isOpen_closed_of_ne s o hne]
    exact hw.isOpen t fd ht hneg
  case unique =>
    intro t t' fd ht ht' hneg
    exact hw.unique t t' fd (hother ht hneg).2.1 (hother ht' hneg).2.1 hneg
  case registered =>
    intro fd
    rw [hinterest]
    by_cases hne : fd = o.fd
    · subst hne
      simp [Option.eq_none_iff_forall_ne_some, hfind]
    · rw [Function.update_of_ne hne]
      refine (hw.registered fd).trans ?_
      simp only [Option.eq_none_iff_forall_ne_some, ne_eq, hfind, hne, not_false_eq_true, true_and]
  case listed =>
    intro t fd ht hneg
    obtain ⟨hts, ht, hne⟩ := hother ht hneg
    rcases hw.listed t fd ht hneg with ⟨heq | hpending, hfalse⟩ | hmapped
    · exact absurd heq hts
    · rw [henrolled]
      exact .inl ⟨hpending, hfalse⟩
    · exact .inr ((hfind fd t).mpr ⟨hne, hmapped⟩)
  case closed =>
    intro t
    rw [hcontainer, hfdOf]
    refine (OrderedSet.mem_elements_insert KeyOrder.nat_total).trans ?_
    by_cases hts : t = s
    · simp [hts]
    · simp [hts, hw.closed t]
  case deleted =>
    intro t
    rw [hdeleted, hnext, hfdOf, hw.deleted t]
    by_cases hts : t = s
    · subst hts
      simp [hfd]
    · simp [hts]
  case fresh =>
    intro t fd ht hneg
    obtain ⟨-, ht, -⟩ := hother ht hneg
    rw [hpolled, hhandedOut]
    exact hw.fresh t fd ht hneg
  case polled =>
    intro fd t ht
    rw [hpolled] at ht
    obtain ⟨hlt, hnonneg, htfd⟩ := hw.polled fd t ht
    rw [hnext, hfdOf]
    refine ⟨hlt, hnonneg, ?_⟩
    by_cases hts : t = s
    · simp [hts]
    · rwa [Function.update_of_ne hts]

/-- `epoll_wait` returns when no object is pending. -/
theorem poll (hw : Owned (fun _ => False) w) :
    Owned (fun _ => False) { w with
      polled := w.container.socketMap
      turns := fun _ => none
      kernel := { w.kernel with handedOut := fun _ => false } } :=
  { hw with
    fresh := by
      intro t fd ht hneg
      exact iff_of_true ((hw.listed t fd ht hneg).resolve_left And.left) rfl
    polled := by
      intro fd t ht
      obtain ⟨hnonneg, htfd⟩ := hw.entry fd t ht
      exact ⟨hw.lt_next htfd, hnonneg, .inr (.inl htfd)⟩ }

end Owned

/-! ## `CheckCloseSocket` -/

/-- The objects `ss` are deleted, one after the other. -/
def World.reaped (w : World) (ss : List SocketId) : World :=
  ss.foldl (fun w s => Kernel.effect w (.delete s) ()) w

namespace World

theorem reaped_heap (w : World) (ss : List SocketId) (t : SocketId) :
    (w.reaped ss).heap t = if t ∈ ss then none else w.heap t := by
  induction ss generalizing w with
  | nil => simp [reaped]
  | cons s rest ih =>
      refine (ih (Kernel.effect w (.delete s) ())).trans ?_
      by_cases hts : t = s
      · simp [hts, Kernel.effect]
      · simp [hts, Kernel.effect]

theorem reaped_fdOf (w : World) (ss : List SocketId) (t : SocketId) :
    (w.reaped ss).fdOf t = if t ∈ ss then none else w.fdOf t := by
  rw [fdOf, reaped_heap]
  split <;> rfl

theorem reaped_deleted (w : World) {ss : List SocketId} (hss : ss.Nodup) (t : SocketId) :
    (w.reaped ss).deleted t = if t ∈ ss then w.deleted t + 1 else w.deleted t := by
  induction ss generalizing w with
  | nil => simp [reaped]
  | cons s rest ih =>
      obtain ⟨hs, hrest⟩ := List.nodup_cons.mp hss
      refine (ih (Kernel.effect w (.delete s) ()) hrest).trans ?_
      by_cases hts : t = s
      · subst hts
        simp [hs, Kernel.effect]
      · simp [hts, Kernel.effect]

/-- Nothing but the objects changes. -/
theorem reaped_rest (w : World) (ss : List SocketId) :
    (w.reaped ss).next = w.next ∧ (w.reaped ss).container = w.container ∧
      (w.reaped ss).kernel = w.kernel ∧ (w.reaped ss).polled = w.polled := by
  induction ss generalizing w with
  | nil => exact ⟨rfl, rfl, rfl, rfl⟩
  | cons s rest ih => exact ih (Kernel.effect w (.delete s) ())

/-- `CheckCloseSocket` deletes the objects in the set and empties it. -/
def swept (w : World) : World :=
  let w' := w.reaped (OrderedSet.elements w.container.closeSockets)
  { w' with container :=
      { w'.container with closeSockets := OrderedMap.empty KeyOrder.nat Unit } }

end World

namespace Owned

/-- The objects which waited are deleted, and nothing else changes. -/
theorem sweep {pending : SocketId → Prop} {w : World} (hw : Owned pending w) :
    Owned pending w.swept := by
  let ss := OrderedSet.elements w.container.closeSockets
  have hss : ss.Nodup := OrderedSet.nodup_elements _
  obtain ⟨hnext, hcontainer, hkernel, hpolled⟩ := w.reaped_rest ss
  replace hnext : w.swept.next = w.next := hnext
  replace hkernel : w.swept.kernel = w.kernel := hkernel
  replace hpolled : w.swept.polled = w.polled := hpolled
  have hcontainer : w.swept.container =
      { w.container with closeSockets := OrderedMap.empty KeyOrder.nat Unit } := by
    rw [← hcontainer]
    rfl
  have hfdOf : ∀ t, w.swept.fdOf t = if t ∈ ss then none else w.fdOf t := w.reaped_fdOf ss
  have hclosed : ∀ t, t ∈ ss ↔ w.fdOf t = some (-1) := hw.closed
  -- what is left has a descriptor, the closed objects are those without one
  have hlive : ∀ {t fd}, w.swept.fdOf t = some fd → w.fdOf t = some fd ∧ fd ≠ -1 := by
    intro t fd ht
    rw [hfdOf] at ht
    split at ht
    · cases ht
    · rename_i hmem
      refine ⟨ht, ?_⟩
      rintro rfl
      exact hmem ((hclosed t).mpr ht)
  have hkeep : ∀ {t fd}, w.fdOf t = some fd → fd ≠ -1 → w.swept.fdOf t = some fd := by
    intro t fd ht hneg
    rw [hfdOf, if_neg, ht]
    intro hmem
    exact hneg (Option.some.inj (ht.symm.trans ((hclosed t).mp hmem)))
  constructor
  case unborn =>
    intro t ht
    rw [hnext] at ht
    rw [hfdOf, hw.unborn t ht, ite_self]
  case socketNum =>
    rw [hcontainer]
    exact hw.socketNum
  case size_le =>
    rw [hcontainer]
    exact hw.size_le
  case entry =>
    intro fd t ht
    rw [hcontainer] at ht
    obtain ⟨hnonneg, htfd⟩ := hw.entry fd t ht
    exact ⟨hnonneg, hkeep htfd (ne_neg_of_nonneg hnonneg)⟩
  case isOpen =>
    intro t fd ht hneg
    rw [hkernel]
    exact hw.isOpen t fd (hlive ht).1 hneg
  case unique =>
    intro t t' fd ht ht' hneg
    exact hw.unique t t' fd (hlive ht).1 (hlive ht').1 hneg
  case registered =>
    intro fd
    rw [hkernel, hcontainer]
    exact hw.registered fd
  case listed =>
    intro t fd ht hneg
    rw [hcontainer, hkernel]
    exact hw.listed t fd (hlive ht).1 hneg
  case closed =>
    intro t
    rw [hcontainer]
    exact iff_of_false List.not_mem_nil fun ht => (hlive ht).2 rfl
  case deleted =>
    intro t
    rw [hnext, hfdOf]
    refine (w.reaped_deleted hss t).trans ?_
    by_cases hmem : t ∈ ss
    · have ht := (hclosed t).mp hmem
      simp [hmem, hw.deleted t, ht, hw.lt_next ht]
    · simp [hmem, hw.deleted t]
  case fresh =>
    intro t fd ht hneg
    rw [hpolled, hkernel]
    exact hw.fresh t fd (hlive ht).1 hneg
  case polled =>
    intro fd t ht
    rw [hpolled] at ht
    obtain ⟨hlt, hnonneg, htfd⟩ := hw.polled fd t ht
    rw [hnext, hfdOf]
    refine ⟨hlt, hnonneg, ?_⟩
    split
    · exact .inl rfl
    · exact htfd

end Owned
end Net
end Deps
