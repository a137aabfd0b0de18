import Deps.Net.Receiving

/-!
# Receive errors

`Read` closes the socket when `recv` fails with `EAGAIN`, and only then.  It was
meant the other way round.
-/

namespace Deps
namespace Net

open Reentrant Runs

/-- The socket has its entry in the map, and is registered. -/
structure Attached (s : SocketId) (w : World) (o : Socket) : Prop where
  heap : w.heap s = some o
  mapped : w.container.socketMap.find o.fd = some s
  registered : w.kernel.interest o.fd ≠ none

/-- The socket is open still, and its input is what it was. -/
def Unharmed (s : SocketId) (w w' : World) : Prop :=
  ∃ o o', w.heap s = some o ∧ Attached s w' o' ∧ o'.fd = o.fd ∧ o'.state = o.state ∧
    o'.input = o.input

/-- The socket has been closed, and nothing is registered for its descriptor. -/
def Ended (s : SocketId) (w w' : World) : Prop :=
  ∃ o o', w.heap s = some o ∧ w'.heap s = some o' ∧ o'.fd = -1 ∧ o'.state = .close ∧
    w'.container.socketMap.find o.fd ≠ some s ∧ w'.kernel.interest o.fd = none

/-- A read event treats `EAGAIN` as no reason to close, and a fatal error as one. -/
structure Classified (fatal : Errno → Bool) (s : SocketId) (w : World) (t : List NetDeed)
    (w' : World) : Prop where
  spurious : ∀ d ∈ t, receipt d = some (.error .eagain) → Unharmed s w w'
  fatal : ∀ d ∈ t, ∀ errno, receipt d = some (.error errno) → fatal errno = true → Ended s w w'

/-- An error which is not treated as it should be. -/
def misread (fatal : Errno → Bool) (d : NetDeed) : Bool :=
  match receipt d with
  | some (.error errno) => decide (errno = .eagain) || fatal errno
  | _ => false

section

variable {s : SocketId} {w w' : World} {o : Socket} {t : List NetDeed} {fatal : Errno → Bool}

theorem HasReceipt.classified_iff {result : Except Errno (List UInt8)}
    (ht : HasReceipt t result) : Classified fatal s w t w' ↔
      (result = .error .eagain → Unharmed s w w') ∧
        ∀ errno, result = .error errno → fatal errno = true → Ended s w w' := by
  constructor
  · rintro ⟨hspurious, hfatal⟩
    refine ⟨fun heq => ?_, fun errno heq htrue => ?_⟩
    · obtain ⟨d, hd, hreceipt⟩ := (ht _).mpr heq.symm
      exact hspurious d hd hreceipt
    · obtain ⟨d, hd, hreceipt⟩ := (ht _).mpr heq.symm
      exact hfatal d hd errno hreceipt htrue
  · rintro ⟨hspurious, hfatal⟩
    refine ⟨fun d hd hreceipt => ?_, fun d hd errno hreceipt htrue => ?_⟩
    · exact hspurious ((ht _).mp ⟨d, hd, hreceipt⟩).symm
    · exact hfatal errno ((ht _).mp ⟨d, hd, hreceipt⟩).symm htrue

theorem HasReceipt.any_misread {result : Except Errno (List UInt8)} (ht : HasReceipt t result) :
    t.any (misread fatal) = false ↔
      ∀ errno, result = .error errno → errno ≠ .eagain ∧ fatal errno = false := by
  rw [List.any_eq_false]
  constructor
  · intro hfalse errno heq
    obtain ⟨d, hd, hreceipt⟩ := (ht _).mpr heq.symm
    simpa [misread, hreceipt] using hfalse d hd
  · intro herrors d hd htrue
    unfold misread at htrue
    split at htrue
    · rename_i errno hreceipt
      obtain ⟨hne, hfalse⟩ := herrors errno ((ht _).mp ⟨d, hd, hreceipt⟩).symm
      simp [hne, hfalse] at htrue
    · cases htrue

/-- A read event classifies its errors as it should if and only if there are none. -/
theorem classified_iff (hopen : 0 ≤ o.fd) (hs : w.heap s = some o)
    (h : Reads (beside (Respects s)) s w o t w') :
    Classified fatal s w t w' ↔ t.any (misread fatal) = false := by
  have hneg := ne_neg_of_nonneg hopen
  cases h with
  | @passed now d errno hd herrno =>
      have ht : HasReceipt [.asked .time now, d] (.error errno) :=
        hasReceipt_cons hd (List.forall_mem_nil _)
      rw [ht.classified_iff, ht.any_misread]
      constructor
      · rintro ⟨-, hended⟩ errno' heq
        cases heq
        refine ⟨herrno, Bool.eq_false_iff.mpr fun htrue => ?_⟩
        -- the error was passed over, so the socket is open still
        obtain ⟨_, o', -, ho', hfd, -⟩ := hended errno rfl htrue
        rw [w.heap_put] at ho'
        cases ho'
        exact hneg hfd
      · intro herrors
        obtain ⟨-, hfalse⟩ := herrors errno rfl
        refine ⟨fun heq => ?_, fun errno' heq htrue => ?_⟩
        · cases heq
          exact absurd rfl herrno
        · cases heq
          rw [hfalse] at htrue
          cases htrue
  | @closed now d result t w' hd hresult hclose =>
      obtain ⟨-, haloof, w₁, o₁, -, -, hheap⟩ := closes (w.heap_put s _) hclose
      have ht : HasReceipt (.asked .time now :: d :: t) result :=
        hasReceipt_cons hd fun d hd => (haloof d hd).receipt
      rw [ht.classified_iff, ht.any_misread]
      rcases hresult with rfl | rfl
      · refine iff_of_false (fun hclassified => ?_) fun herrors => (herrors _ rfl).1 rfl
        -- the socket has been closed, though nothing was the matter with it
        obtain ⟨o', o₂, ho', hattached, hfd, -⟩ := hclassified.1 rfl
        cases hs.symm.trans ho'
        cases hheap.symm.trans hattached.heap
        exact hneg hfd.symm
      · exact iff_of_true ⟨nofun, nofun⟩ nofun
  | @stored now d data malloc o' t w' hd hdata ho' hhands =>
      have ht : HasReceipt (.asked .time now :: d :: .asked .malloc malloc :: t) (.ok data) :=
        hhands.hasReceipt (w.heap_put s o') hd
      rw [ht.classified_iff, ht.any_misread]
      exact iff_of_true ⟨nofun, nofun⟩ nofun

end

/-- Every read event of a run classifies its errors, and a socket which had a fatal
one is not attached any more. -/
structure Classifies (fatal : Errno → Bool) (s : SocketId)
    (past : List (World × Option (List NetDeed))) (w : World) : Prop where
  events : ∀ e ∈ transitions past w, ∀ t ∈ e.2.1, Classified fatal s e.1 t e.2.2
  dead : ∀ e ∈ past, ∀ t ∈ e.2, ∀ d ∈ t, ∀ errno, receipt d = some (.error errno) →
    fatal errno = true → ∀ o, ¬Attached s w o

/-- The read events which meet no error that is misread. -/
def Undisturbed (fatal : Errno → Bool) (_ : World) (l : Option (List NetDeed)) : Prop :=
  ∀ t ∈ l, t.any (misread fatal) = false

section

variable {s : SocketId} {size : Nat} {w₀ w : World} {past : List (World × Option (List NetDeed))}

/-- In every run of read events no event fails; and whichever errors are fatal, the
errors are classified as they should be if and only if `recv` and `recvfrom` have
failed neither with `EAGAIN` nor with a fatal error. -/
theorem receive_errors_classified_iff (fatal : Errno → Bool) (hw₀ : Receiving s w₀)
    (hrun : Run (ReadStep (Respects s) s size) w₀ past w) :
    (∀ o t r w', w.heap s = some o → 0 ≤ o.fd →
      Outcome (beside (Respects s)) (SocketBase.handleRead s size) w t r w' → r = .ok ()) ∧
      (Classifies fatal s past w ↔ Meets (Undisturbed fatal) past) := by
  have hevents : (∀ e ∈ transitions past w, ∀ t ∈ e.2.1, Classified fatal s e.1 t e.2.2) ↔
      Meets (Undisturbed fatal) past := by
    refine hrun.forall_transition_iff (fun w l w' => ∀ t ∈ l, Classified fatal s w t w') hw₀
      (fun _ _ _ hw hstep => hw.step hstep) ?_
    intro w l w' hw hstep
    cases hstep with
    | read ho hopen _ hout =>
        have hreads := (handleRead_reads ho hopen (hw.of_heap ho) hout).2
        simpa [Undisturbed] using classified_iff hopen ho hreads
    | other => exact iff_of_true nofun nofun
  refine ⟨fun o t r w' ho hopen hout => ?_, fun h => hevents.mp h.events, fun hmeets => ?_⟩
  · have hw : Receiving s w := hrun.inv hw₀ fun _ _ _ hw hstep => hw.step hstep
    exact (handleRead_reads ho hopen (hw.of_heap ho) hout).1
  · refine ⟨hevents.mpr hmeets, fun e he t ht d hd errno hreceipt htrue => ?_⟩
    -- such an error would have been misread
    have hfalse := List.any_eq_false.mp (hmeets e he t ht) d hd
    simp [misread, hreceipt, htrue] at hfalse

end

/-! ## A reset connection -/

/-- `recv` fails on the connected socket, with an error that is passed over. -/
theorem run_passed {errno : Errno} (herrno : errno ≠ .eagain) :
    Run (ReadStep (Respects 0) 0 maxReadBuffSize) connectedWorld
      [(connectedWorld, some [.asked .time 0, .asked (.recv 3 maxReadBuffSize) (.error errno)])]
      (connectedWorld.put 0 { connectedSocket with lastAccessTime := 0 }) := by
  refine .snoc .start (.read (o := connectedSocket) rfl (by decide) rfl ?_)
  have hpassed : Outcome (beside (Respects 0))
      (if errno ≠ .eagain then return () else TcpSocket.close 0 : NetM Unit)
      (connectedWorld.put 0 { connectedSocket with lastAccessTime := 0 }) [] (.ok ())
      (connectedWorld.put 0 { connectedSocket with lastAccessTime := 0 }) := by
    rw [if_pos herrno]
    exact ⟨rfl, rfl, rfl⟩
  exact ⟨0, connectedWorld, _, ⟨trivial, rfl⟩, rfl, .error errno, _, _, ⟨trivial, rfl⟩, rfl,
    hpassed⟩

/-- The connection has been reset, and the socket stays where it is. -/
theorem reset_socket_stays :
    ∃ past w, Run (ReadStep (Respects 0) 0 maxReadBuffSize) connectedWorld past w ∧
      ¬Classifies (fun errno => decide (errno = .econnreset)) 0 past w := by
  refine ⟨_, _, run_passed (by decide : Errno.econnreset ≠ .eagain), fun hclassifies => ?_⟩
  obtain ⟨o, o', -, ho', hfd, -⟩ := (hclassifies.events _ List.mem_cons_self _ rfl).fatal
    (.asked (.recv 3 maxReadBuffSize) (.error .econnreset)) (by simp) .econnreset rfl rfl
  have hheap : o'.fd = 3 := by
    cases (World.heap_put connectedWorld 0 _).symm.trans ho'
    rfl
  rw [hheap] at hfd
  exact absurd hfd (by decide)

/-- The theorem, when `recv` is interrupted. -/
theorem receive_errors_classified_iff_interrupted :
    ∃ past w, Run (ReadStep (Respects 0) 0 maxReadBuffSize) connectedWorld past w ∧
      (Classifies (fun errno => decide (errno = .econnreset)) 0 past w ↔
        Meets (Undisturbed fun errno => decide (errno = .econnreset)) past) :=
  ⟨_, _, run_passed (by decide : Errno.eintr ≠ .eagain),
    (receive_errors_classified_iff _ receiving_connected
      (run_passed (by decide : Errno.eintr ≠ .eagain))).2⟩

end Net
end Deps
