import Deps.Net.StreamRuns

/-!
# Conservation of the sent stream

No byte which `SendPacket` accepted is lost, sent twice or sent out of order, as
long as the socket is not closed.
-/

namespace Deps
namespace Net

open Reentrant

/-- In every run of an established socket no method fails, so the loop of `Write`
ends; and when the application has control and the socket is not closed, nor being
closed, what the kernel took, followed by the output, is what the output held at
first followed by the payloads which `SendPacket` accepted, in their order. -/
theorem output_conserves {s : SocketId} {w : World} {o : Socket} (hs : w.heap s = some o)
    (ho : Established o) {returns : Callback → Int → Prop} {c : NetConfig}
    (hc : Reaches (solo s returns) Method.body (Config.start w) c) :
    (∀ m why, c.running ≠ some (m, .fault why)) ∧
      (c.running = none → ∃ o', c.world.heap s = some o' ∧
        (.handleClose s ∈ context c.suspended ∨ o'.state = .close ∨
          taken c.history ++ o'.output.content = o.output.content ++ accepted c.history)) := by
  refine ⟨fun m why hfault => ?_, fun hidle => ?_⟩
  · exact Spec.tolerated_of_reaches sound_flowing (flowing_initial hs ho) hc hfault
  · obtain ⟨o', ho', -, -, hsends⟩ :=
      Spec.inv_of_reaches sound_flowing (flowing_initial hs ho) hc hidle
    refine ⟨o', ho', hsends.imp_right (Or.imp_right fun heq => ?_)⟩
    rwa [Sends, List.append_nil] at heq

/-- The kernel takes four bytes, and four more when there are four again. -/
def sendTwice : NetConfig :=
  (Config.start connectedWorld).play Method.body (Obliging.answer ⟨true, [1], 4⟩) Kernel.effect 100
    [.enter (.sendPacket 0 [1, 2, 3, 4, 5, 6]), .enter (.handleWrite 0),
      .enter (.sendPacket 0 [7, 8])]

theorem reaches_sendTwice :
    Reaches (solo 0 fun _ _ => True) Method.body (Config.start connectedWorld) sendTwice :=
  reaches_play (Obliging.answers _) ⟨rfl, rfl, rfl, trivial⟩

theorem output_conserves_sendTwice :
    taken sendTwice.history = [1, 2, 3, 4, 5, 6, 7, 8] ∧
      ∃ o', sendTwice.world.heap 0 = some o' ∧
        (.handleClose 0 ∈ context sendTwice.suspended ∨ o'.state = .close ∨
          taken sendTwice.history ++ o'.output.content =
            connectedSocket.output.content ++ accepted sendTwice.history) :=
  ⟨by rfl, (output_conserves (by rfl) established_connected reaches_sendTwice).2 rfl⟩

end Net
end Deps
