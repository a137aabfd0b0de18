import Deps.Net.StreamRuns

/-!
# Reassembly of the received stream

The input of a socket is meant to hold the bytes which have been received and not
been consumed.  `Read` does not take the result of `HandlePacket`, so it holds
them exactly as long as nothing has been consumed.
-/

namespace Deps
namespace Net

open Reentrant

/-- A handler says how many of the bytes it was given it has consumed. -/
def counting : Callback → Int → Prop
  | .handlePacket _ data, r => 0 ≤ r ∧ r ≤ data.length
  | .handleClose _, _ => True

theorem consumed_eq_zero_iff {h : List NetEvent}
    (hcounts : ∀ t data r, .resumed (.handlePacket t data) r ∈ h → 0 ≤ r) :
    consumed h = 0 ↔ ∀ t data r, .resumed (.handlePacket t data) r ∈ h → r = 0 := by
  rw [consumed, List.sum_eq_zero_iff]
  constructor
  · intro hzero t data r hmem
    have hcount : r.toNat = 0 := hzero _ (List.mem_map_of_mem hmem)
    have hnonneg := hcounts t data r hmem
    omega
  · intro hzero n hn
    obtain ⟨e, he, rfl⟩ := List.mem_map.mp hn
    unfold count
    split
    · rw [hzero _ _ _ he]
      rfl
    · rfl

theorem consumed_append (h h' : List NetEvent) :
    consumed (h ++ h') = consumed h + consumed h' := by
  simp [consumed]

/-- In every run of an established socket whose received bytes fit into its input:
whenever the application has control, the input holds the bytes which were
received and not consumed, and every call of the handler was given just those, if
and only if every count which the handler returned was zero. -/
theorem input_reassembles_iff {s : SocketId} {w : World} {o : Socket} (hs : w.heap s = some o)
    (ho : Established o) {c : NetConfig}
    (hc : Reaches (solo s counting) Method.body (Config.start w) c) (hidle : c.running = none)
    (hclean : Clean o.input.content c.history) :
    ((∃ o', c.world.heap s = some o' ∧ o'.input.content =
        (o.input.content ++ received c.history).drop (consumed c.history)) ∧
      Presented o.input.content c.history) ↔
    ∀ t data r, .resumed (.handlePacket t data) r ∈ c.history → r = 0 := by
  obtain ⟨o', ho', -, hreceives, -⟩ :=
    Spec.inv_of_reaches sound_flowing (flowing_initial hs ho) hc hidle
  have hcontent := hreceives.content hclean
  have hiff := consumed_eq_zero_iff fun t data r hmem => (hreceives.counts t data r hmem).1.1
  rw [← hiff]
  constructor
  · rintro ⟨⟨o'', ho'', hdrop⟩, -⟩
    cases ho'.symm.trans ho''
    by_contra hconsumed
    -- something was consumed, so something was received, and it is still there
    obtain ⟨t, data, r, hmem, -⟩ : ∃ t data r,
        Event.resumed (.handlePacket t data) r ∈ c.history ∧ r ≠ 0 := by
      by_contra hno
      push Not at hno
      exact hconsumed (hiff.mpr hno)
    have hpos := List.length_pos_iff.mpr (hreceives.counts t data r hmem).2
    have hlen := congrArg List.length (hcontent.symm.trans hdrop)
    rw [List.length_drop, List.length_append] at hlen
    omega
  · intro hzero
    refine ⟨⟨o', ho', by rw [hcontent, hzero, List.drop_zero]⟩, fun h₁ t data h₂ heq => ?_⟩
    rw [hreceives.presented hclean h₁ t data h₂ heq]
    rw [heq, consumed_append] at hzero
    rw [show consumed h₁ = 0 by omega, List.drop_zero]

/-- One byte is received, and the handler returns `r`. -/
def readOnce (r : Int) : NetConfig :=
  (Config.start connectedWorld).play Method.body (Obliging.answer ⟨true, [1], 4⟩) Kernel.effect 100
    [.enter (.handleRead 0), .resume r]

theorem reaches_readOnce {r : Int} (hr : 0 ≤ r ∧ r ≤ 1) :
    Reaches (solo 0 counting) Method.body (Config.start connectedWorld) (readOnce r) :=
  reaches_play (Obliging.answers _) ⟨rfl, fun _ hf => by cases hf; exact hr, trivial⟩

/-- The handler consumed the byte, and it is still there. -/
theorem consumed_byte_stays :
    Reaches (solo 0 counting) Method.body (Config.start connectedWorld) (readOnce 1) ∧
      (readOnce 1).running = none ∧ (readOnce 1).suspended = [] ∧
      Clean [] (readOnce 1).history ∧
      ¬∃ o, (readOnce 1).world.heap 0 = some o ∧
        o.input.content =
          ([] ++ received (readOnce 1).history).drop (consumed (readOnce 1).history) := by
  refine ⟨reaches_readOnce (by decide), rfl, rfl, ⟨rfl, by decide⟩, ?_⟩
  rintro ⟨o, ho, hcontent⟩
  have hkept : ((readOnce 1).world.heap 0).map (fun o => o.input.content) = some [1] := by rfl
  have hdropped :
      ([] ++ received (readOnce 1).history).drop (consumed (readOnce 1).history) = [] := by
    rfl
  rw [ho, Option.map_some, hcontent, hdropped] at hkept
  cases hkept

/-- The theorem, when the handler leaves the byte. -/
theorem input_reassembles_iff_readOnce :
    ((∃ o, (readOnce 0).world.heap 0 = some o ∧ o.input.content =
        ([] ++ received (readOnce 0).history).drop (consumed (readOnce 0).history)) ∧
      Presented [] (readOnce 0).history) ↔
    ∀ t data r, .resumed (.handlePacket t data) r ∈ (readOnce 0).history → r = 0 :=
  input_reassembles_iff rfl established_connected (reaches_readOnce (by decide)) rfl
    ⟨rfl, by decide⟩

end Net
end Deps
