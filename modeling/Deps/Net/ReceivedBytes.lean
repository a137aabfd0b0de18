import Deps.Net.Receiving

/-!
# Received bytes

`Read` does not look at the result of `m_input->append`.  What the input cannot
hold is lost, and the socket goes on as if it had been stored.
-/

namespace Deps
namespace Net

open Reentrant Runs

def Open (s : SocketId) (w : World) : Prop := ∃ o, w.heap s = some o ∧ o.fd ≠ -1

/-- The world in which `HandlePacket` is called; without a call, the one in which
`Read` returns. -/
inductive HandedOn (s : SocketId) (t : List NetDeed) (w' : World) : World → Prop
  | called {data w₁ n w₂} (hmem : .called (.handlePacket s data) w₁ n w₂ ∈ t) :
      HandedOn s t w' w₁
  | returned (hno : ∀ data w₁ n w₂, .called (.handlePacket s data) w₁ n w₂ ∉ t) :
      HandedOn s t w' w'

/-- Received bytes are at the end of the input before `HandlePacket` is called, if the
socket is open when `Read` returns. -/
def Stores (s : SocketId) (w : World) (t : List NetDeed) (w' : World) : Prop :=
  ∀ d ∈ t, ∀ data, receipt d = some (.ok data) → data ≠ [] → Open s w' →
    ∃ o w₁ o₁, w.heap s = some o ∧ HandedOn s t w' w₁ ∧ w₁.heap s = some o₁ ∧
      o₁.input.content = o.input.content ++ data

/-- The handler closes the socket, or rejects what a `UdpSocket` has received. -/
def Dismisses (s : SocketId) (w : World) (t : List NetDeed) : Prop :=
  ∃ data w₁ n w₂, .called (.handlePacket s data) w₁ n w₂ ∈ t ∧
    (¬Open s w₂ ∨ ∃ o, w.heap s = some o ∧ o.type = .udp ∧ n < 0)

/-- The input can hold the bytes that are received, or the handler dismisses them. -/
def Fits (s : SocketId) (w : World) (t : List NetDeed) : Prop :=
  ∀ d ∈ t, ∀ data, receipt d = some (.ok data) → data ≠ [] →
    (∀ malloc, .asked .malloc malloc ∈ t → ∀ o, w.heap s = some o →
      BlockBuffer.Grants malloc o.input (o.input.size + data.length)) ∨ Dismisses s w t

section

variable {s : SocketId} {w w' : World} {o : Socket} {t : List NetDeed} {size : Nat}

theorem HasReceipt.stores_iff {result : Except Errno (List UInt8)} (ht : HasReceipt t result) :
    Stores s w t w' ↔ ∀ data, result = .ok data → data ≠ [] → Open s w' →
      ∃ o w₁ o₁, w.heap s = some o ∧ HandedOn s t w' w₁ ∧ w₁.heap s = some o₁ ∧
        o₁.input.content = o.input.content ++ data := by
  constructor
  · intro hstores data heq
    obtain ⟨d, hd, hreceipt⟩ := (ht _).mpr heq.symm
    exact hstores d hd data hreceipt
  · exact fun hstores d hd data hreceipt => hstores data ((ht _).mp ⟨d, hd, hreceipt⟩).symm

theorem HasReceipt.fits_iff {result : Except Errno (List UInt8)} (ht : HasReceipt t result) :
    Fits s w t ↔ ∀ data, result = .ok data → data ≠ [] →
      (∀ malloc, .asked .malloc malloc ∈ t → ∀ o, w.heap s = some o →
        BlockBuffer.Grants malloc o.input (o.input.size + data.length)) ∨ Dismisses s w t := by
  constructor
  · intro hfits data heq
    obtain ⟨d, hd, hreceipt⟩ := (ht _).mpr heq.symm
    exact hfits d hd data hreceipt
  · exact fun hfits d hd data hreceipt => hfits data ((ht _).mp ⟨d, hd, hreceipt⟩).symm

/-- The input is handed on in the world after it was stored. -/
theorem HandsOn.handedOn (hs : w.heap s = some o)
    (h : HandsOn (beside (Respects s)) s o w t w') (x : World) : HandedOn s t w' x ↔ x = w := by
  cases h with
  | unheard =>
      constructor
      · rintro (hmem | -)
        · cases hmem
        · rfl
      · rintro rfl
        exact .returned fun _ _ _ _ => List.not_mem_nil
  | heard _ hn hresumes =>
      obtain ⟨o₂, ho₂, -⟩ := live_of_handles hs rfl hn
      have haloof := hresumes.aloof (by simp [ho₂])
      constructor
      · rintro (hmem | hno)
        · rcases List.mem_cons.mp hmem with heq | hmem
          · cases heq
            rfl
          · exact absurd rfl ((haloof _ hmem).called _ _ _ _ _)
        · exact absurd List.mem_cons_self (hno _ _ _ _)
      · rintro rfl
        exact .called List.mem_cons_self

/-- The socket is open afterwards, unless the handler has dismissed what was received. -/
theorem HandsOn.open_iff (hs : w.heap s = some o) (hopen : o.fd ≠ -1)
    (h : HandsOn (beside (Respects s)) s o w t w') :
    ¬Open s w' ↔ ∃ data w₁ n w₂, .called (.handlePacket s data) w₁ n w₂ ∈ t ∧
      (¬Open s w₂ ∨ (o.type = .udp ∧ n < 0)) := by
  cases h with
  | unheard =>
      refine iff_of_false (fun hclosed => hclosed ⟨o, hs, hopen⟩) ?_
      rintro ⟨_, _, _, _, hmem, -⟩
      cases hmem
  | @heard n w₁ t w' _ hn hresumes =>
      obtain ⟨o₂, ho₂, -⟩ := live_of_handles hs rfl hn
      have haloof := hresumes.aloof (by simp [ho₂])
      have hcalled : (∃ data w₀ n' w₂, .called (.handlePacket s data) w₀ n' w₂ ∈
            (.called (.handlePacket s o.input.content) w n w₁ :: t : List NetDeed) ∧
            (¬Open s w₂ ∨ (o.type = .udp ∧ n' < 0))) ↔
          (¬Open s w₁ ∨ (o.type = .udp ∧ n < 0)) := by
        constructor
        · rintro ⟨_, _, _, _, hmem, hdismissed⟩
          rcases List.mem_cons.mp hmem with heq | hmem
          · cases heq
            exact hdismissed
          · exact absurd rfl ((haloof _ hmem).called _ _ _ _ _)
        · exact fun hdismissed => ⟨_, _, _, _, List.mem_cons_self, hdismissed⟩
      rw [hcalled]
      cases hresumes with
      | ignored htype => simp [htype]
      | nothing _ hzero => simp [hzero]
      | @erased o₃ _ hpos ho₃ =>
          have hsame : Open s (w₁.put s { o₃ with input := o₃.input.erase 0 n.toNat false }) ↔
              Open s w₁ := by
            simp [Open, ho₃]
          rw [hsame]
          exact (or_iff_left fun hneg => absurd hneg.2 (not_lt.mpr hpos.le)).symm
      | rejected htype hneg hclose =>
          obtain ⟨-, -, w₂, o₃, -, -, hheap⟩ := closes ho₂ hclose
          refine iff_of_true ?_ (.inr ⟨htype, hneg⟩)
          rintro ⟨o₄, ho₄, hfd⟩
          cases hheap.symm.trans ho₄
          exact hfd rfl

/-! ## An event in which bytes are appended -/

section Appended

variable {now : Int} {d : NetDeed} {data : List UInt8} {malloc : Malloc} {o' : Socket}

/-- What is received is no call of the handler. -/
theorem called_mem_iff {result : Except Errno (List UInt8)} (hd : receipt d = some result)
    {data' : List UInt8} {w₁ : World} {n : Int} {w₂ : World} :
    .called (.handlePacket s data') w₁ n w₂ ∈
        (.asked .time now :: d :: .asked .malloc malloc :: t : List NetDeed) ↔
      .called (.handlePacket s data') w₁ n w₂ ∈ t := by
  have hne : .called (.handlePacket s data') w₁ n w₂ ≠ d := by
    rintro rfl
    cases hd
  simp [hne]

variable (hd : receipt d = some (.ok data)) (hs' : (w.put s o').heap s = some o')
  (hhands : HandsOn (beside (Respects s)) s o' (w.put s o') t w')
include hd hs' hhands

theorem malloc_eq_of_mem {malloc' : Malloc} (hmem : .asked .malloc malloc' ∈
      (.asked .time now :: d :: .asked .malloc malloc :: t : List NetDeed)) :
    malloc' = malloc := by
  have hne : .asked .malloc malloc' ≠ d := by
    rintro rfl
    cases hd
  have hnot : .asked .malloc malloc' ∉ t := fun hmem =>
    (hhands.nothing_new hs' _ hmem).2 malloc' rfl
  simpa [hne, hnot] using hmem

theorem dismisses_iff (hs : w.heap s = some o) (htype : o'.type = o.type) (hopen : o'.fd ≠ -1) :
    Dismisses s w (.asked .time now :: d :: .asked .malloc malloc :: t) ↔ ¬Open s w' := by
  rw [hhands.open_iff hs' hopen, Dismisses]
  simp only [called_mem_iff hd, hs, Option.some.injEq, exists_eq_left', htype]

theorem handedOn_iff (x : World) :
    HandedOn s (.asked .time now :: d :: .asked .malloc malloc :: t) w' x ↔ x = w.put s o' := by
  rw [← hhands.handedOn hs']
  constructor
  · rintro (hmem | hno)
    · exact .called ((called_mem_iff hd).mp hmem)
    · exact .returned fun _ _ _ _ hmem => hno _ _ _ _ ((called_mem_iff hd).mpr hmem)
  · rintro (hmem | hno)
    · exact .called ((called_mem_iff hd).mpr hmem)
    · exact .returned fun _ _ _ _ hmem => hno _ _ _ _ ((called_mem_iff hd).mp hmem)

theorem stores_appended_iff (hs : w.heap s = some o) (hdata : data ≠ []) :
    Stores s w (.asked .time now :: d :: .asked .malloc malloc :: t) w' ↔
      (Open s w' → o'.input.content = o.input.content ++ data) := by
  rw [(hhands.hasReceipt hs' hd).stores_iff]
  constructor
  · intro hstores hopened
    obtain ⟨o₁, w₁, o₂, ho₁, hw₁, ho₂, hcontent⟩ := hstores data rfl hdata hopened
    obtain rfl := (handedOn_iff hd hs' hhands w₁).mp hw₁
    cases hs.symm.trans ho₁
    cases hs'.symm.trans ho₂
    exact hcontent
  · intro hcontent data' heq _ hopened
    cases heq
    exact ⟨o, _, o', hs, (handedOn_iff hd hs' hhands _).mpr rfl, hs', hcontent hopened⟩

theorem fits_appended_iff (hs : w.heap s = some o) (htype : o'.type = o.type) (hopen : o'.fd ≠ -1)
    (hdata : data ≠ []) :
    Fits s w (.asked .time now :: d :: .asked .malloc malloc :: t) ↔
      BlockBuffer.Grants malloc o.input (o.input.size + data.length) ∨ ¬Open s w' := by
  rw [(hhands.hasReceipt hs' hd).fits_iff, dismisses_iff hd hs' hhands hs htype hopen]
  constructor
  · intro hfits
    refine (hfits data rfl hdata).imp_left fun hgrants => ?_
    exact hgrants malloc (by simp) o hs
  · intro hfits data' heq _
    cases heq
    refine hfits.imp_left fun hgrants malloc' hmem o₁ ho₁ => ?_
    obtain rfl := malloc_eq_of_mem hd hs' hhands hmem
    cases hs.symm.trans ho₁
    exact hgrants

end Appended

/-- A read event keeps what it receives if and only if the input can hold it. -/
theorem stores_iff (hopen : 0 ≤ o.fd) (hs : w.heap s = some o) (ho : Receptive o)
    (h : Reads (beside (Respects s)) s w o t w') : Stores s w t w' ↔ Fits s w t := by
  cases h with
  | @passed now d errno hd herrno =>
      have ht : HasReceipt [.asked .time now, d] (.error errno) :=
        hasReceipt_cons hd (List.forall_mem_nil _)
      rw [ht.stores_iff, ht.fits_iff]
      exact iff_of_true nofun nofun
  | @closed now d result t w' hd hresult hclose =>
      obtain ⟨-, haloof, -⟩ := closes (w.heap_put s _) hclose
      have ht : HasReceipt (.asked .time now :: d :: t) result :=
        hasReceipt_cons hd fun d hd => (haloof d hd).receipt
      rw [ht.stores_iff, ht.fits_iff]
      rcases hresult with rfl | rfl
      · exact iff_of_true nofun nofun
      · exact iff_of_true (fun _ heq hne => absurd (Except.ok.inj heq).symm hne)
          fun _ heq hne => absurd (Except.ok.inj heq).symm hne
  | @stored now d data malloc o' t w' hd hdata ho' hhands =>
      have hs' := w.heap_put s o'
      have hopen' : o'.fd ≠ -1 := by
        rw [ho']
        exact ne_neg_of_nonneg hopen
      have htype : o'.type = o.type := by rw [ho']
      have hinput : o'.input = (o.input.append malloc data).2 := by rw [ho']
      rw [stores_appended_iff hd hs' hhands hs hdata,
        fits_appended_iff hd hs' hhands hs htype hopen' hdata, hinput]
      rcases BlockBuffer.append_cases ho.input malloc data with
        ⟨hgrants, b', heq, -, hcontent, -⟩ | ⟨hno, heq⟩
      · rw [heq]
        exact iff_of_true (fun _ => hcontent) (.inl hgrants)
      · -- the bytes are lost, which does not matter when the socket is closed
        rw [heq, or_iff_right hno]
        refine imp_congr_right fun _ => iff_of_false ?_ id
        exact fun hcontent => hdata (List.self_eq_append_right.mp hcontent)

end

/-- The read events which receive no more than the input can hold. -/
def Roomy (s : SocketId) (w : World) (l : Option (List NetDeed)) : Prop := ∀ t ∈ l, Fits s w t

section

variable {s : SocketId} {size : Nat} {w₀ w : World} {past : List (World × Option (List NetDeed))}

/-- In every run of read events all received bytes are stored, as long as the socket
is open, if and only if for every event the input can grow by what is received, or the
handler dismisses it. -/
theorem received_bytes_stored_iff (hw₀ : Receiving s w₀)
    (hrun : Run (ReadStep (Respects s) s size) w₀ past w) :
    (∀ e ∈ transitions past w, ∀ t ∈ e.2.1, Stores s e.1 t e.2.2) ↔ Meets (Roomy s) past := by
  refine hrun.forall_transition_iff (fun w l w' => ∀ t ∈ l, Stores s w t w') hw₀
    (fun _ _ _ hw hstep => hw.step hstep) ?_
  intro w l w' hw hstep
  cases hstep with
  | read ho hopen _ hout =>
      have hreceptive := hw.of_heap ho
      have hreads := (handleRead_reads ho hopen hreceptive hout).2
      simpa [Roomy] using stores_iff hopen ho hreceptive hreads
  | other => exact iff_of_true nofun nofun

end

/-! ## An allocation fails -/

/-- The connected socket after one byte has been received. -/
def fedSocket (malloc : Malloc) : Socket :=
  { connectedSocket with input := (connectedSocket.input.append malloc [1]).2 }

def fedWorld (malloc : Malloc) : World :=
  (connectedWorld.put 0 connectedSocket).put 0 (fedSocket malloc)

/-- The handler leaves everything as it is. -/
def feed (malloc : Malloc) : List NetDeed :=
  [.asked .time 0, .asked (.recv 3 maxReadBuffSize) (.ok [1]), .asked .malloc malloc,
    .called (.handlePacket 0 (fedSocket malloc).input.content) (fedWorld malloc) 0
      (fedWorld malloc)]

theorem run_feed (malloc : Malloc) :
    Run (ReadStep (Respects 0) 0 maxReadBuffSize) connectedWorld
      [(connectedWorld, some (feed malloc))] (fedWorld malloc) := by
  refine .snoc .start (.read (o := connectedSocket) rfl (by decide) rfl ?_)
  have hsize : ([1] : List UInt8).length ≤ maxReadBuffSize := by decide
  refine ⟨0, connectedWorld, _, ⟨trivial, rfl⟩, rfl, .ok [1], connectedWorld.put 0 connectedSocket,
    _, ⟨hsize, rfl⟩, rfl, malloc, _, _, ⟨trivial, rfl⟩, rfl, 0, fedWorld malloc, _,
    ⟨id, fun o ho => ⟨o, ho, .inl rfl⟩⟩, rfl, rfl, rfl, rfl⟩

theorem handedOn_feed {malloc : Malloc} {x : World}
    (h : HandedOn 0 (feed malloc) (fedWorld malloc) x) : x = fedWorld malloc := by
  cases h with
  | called hmem =>
      simp only [feed, List.mem_cons, List.not_mem_nil, or_false, reduceCtorEq, false_or] at hmem
      injection hmem
  | returned => rfl

/-- The byte is lost when the allocation fails, and the socket is open still. -/
theorem received_byte_lost :
    ∃ past w, Run (ReadStep (Respects 0) 0 maxReadBuffSize) connectedWorld past w ∧
      ¬∀ e ∈ transitions past w, ∀ t ∈ e.2.1, Stores 0 e.1 t e.2.2 := by
  refine ⟨_, _, run_feed none, fun hstores => ?_⟩
  obtain ⟨o, w₁, o₁, ho, hw₁, ho₁, hcontent⟩ := hstores _ List.mem_cons_self _ rfl
    (.asked (.recv 3 maxReadBuffSize) (.ok [1])) (by simp [feed]) [1] rfl (by decide)
    ⟨_, World.heap_put _ _ _, by decide⟩
  obtain rfl := handedOn_feed hw₁
  have hlost : o₁.input.content = [] := by
    cases (World.heap_put _ _ _).symm.trans ho₁
    rfl
  rw [hlost] at hcontent
  exact absurd hcontent.symm (List.append_ne_nil_of_right_ne_nil _ (by decide))

/-- The theorem, when the allocation succeeds. -/
theorem received_bytes_stored_iff_feed :
    (∀ e ∈ transitions [(connectedWorld, some (feed (some fun _ => 0)))]
        (fedWorld (some fun _ => 0)), ∀ t ∈ e.2.1, Stores 0 e.1 t e.2.2) ↔
      Meets (Roomy 0) [(connectedWorld, some (feed (some fun _ => 0)))] :=
  received_bytes_stored_iff receiving_connected (run_feed _)

end Net
end Deps
