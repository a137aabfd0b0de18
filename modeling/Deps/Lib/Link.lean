import Mathlib.Data.List.Infix
import Mathlib.Logic.Relation

/-!
# Two parties and what is under way between them

Each party takes its own steps, at any time.  What a step sends goes to the end
of what is under way to the other party, what it receives is taken from the front
of what is under way to it.  The link may be lost at any time, and with it the
end of what is under way; nothing which is sent later arrives.
-/

namespace Deps
namespace Link

variable {S T B : Type}

/-- A party: its steps, and what it has sent and received so far. -/
structure Party (S B : Type) where
  step : S → S → Prop
  sent : S → List B
  received : S → List B

structure Config (S T B : Type) where
  near : S
  far : T
  /-- from `near` to `far` -/
  outbound : List B
  /-- from `far` to `near` -/
  inbound : List B
  lost : Bool

/-- What is under way after `out` has been sent. -/
def carry (lost : Bool) (underWay out : List B) : List B :=
  if lost then underWay else underWay ++ out

inductive Step (P : Party S B) (Q : Party T B) : Config S T B → Config S T B → Prop
  | near {s s' t out got outbound inbound lost} (hstep : P.step s s')
      (hsent : P.sent s' = P.sent s ++ out) (hreceived : P.received s' = P.received s ++ got) :
      Step P Q ⟨s, t, outbound, got ++ inbound, lost⟩
        ⟨s', t, carry lost outbound out, inbound, lost⟩
  | far {s t t' out got outbound inbound lost} (hstep : Q.step t t')
      (hsent : Q.sent t' = Q.sent t ++ out) (hreceived : Q.received t' = Q.received t ++ got) :
      Step P Q ⟨s, t, got ++ outbound, inbound, lost⟩
        ⟨s, t', outbound, carry lost inbound out, lost⟩
  | lose {s t outbound inbound lost outbound' inbound'} (hout : outbound' <+: outbound)
      (hin : inbound' <+: inbound) :
      Step P Q ⟨s, t, outbound, inbound, lost⟩ ⟨s, t, outbound', inbound', true⟩

def Reaches (P : Party S B) (Q : Party T B) (c c' : Config S T B) : Prop :=
  Relation.ReflTransGen (Step P Q) c c'

/-- The link when nothing has been sent yet. -/
def Config.start (s : S) (t : T) : Config S T B := ⟨s, t, [], [], false⟩

/-- The same link, looked at from its other end. -/
def Config.turned (c : Config S T B) : Config T S B :=
  ⟨c.far, c.near, c.inbound, c.outbound, c.lost⟩

/-- What was received and what is under way are the beginning of what was sent, and
all of it as long as the link is there. -/
structure InOrder (sent received underWay : List B) (lost : Bool) : Prop where
  begins : received ++ underWay <+: sent
  whole : lost = false → received ++ underWay = sent

section

variable {P : Party S B} {Q : Party T B} {c c' : Config S T B} {s₀ : S} {t₀ : T}

theorem Step.turned (h : Step P Q c c') : Step Q P c.turned c'.turned := by
  cases h with
  | near hstep hsent hreceived => exact .far hstep hsent hreceived
  | far hstep hsent hreceived => exact .near hstep hsent hreceived
  | lose hout hin => exact .lose hin hout

theorem Reaches.turned (h : Reaches P Q c c') : Reaches Q P c.turned c'.turned :=
  h.lift Config.turned fun _ _ => Step.turned

/-- The near party has taken its own steps only. -/
theorem Reaches.near (h : Reaches P Q c c') :
    Relation.ReflTransGen P.step c.near c'.near := by
  induction h with
  | refl => exact .refl
  | tail _ hstep ih =>
      cases hstep with
      | near hstep _ _ => exact ih.tail hstep
      | far | lose => exact ih

theorem Reaches.far (h : Reaches P Q c c') : Relation.ReflTransGen Q.step c.far c'.far :=
  h.turned.near

namespace InOrder

variable {sent received underWay : List B} {lost : Bool}

theorem send (h : InOrder sent received underWay lost) (out : List B) :
    InOrder (sent ++ out) received (carry lost underWay out) lost := by
  cases lost with
  | true => exact ⟨h.begins.trans (List.prefix_append _ _), nofun⟩
  | false =>
      have hwhole : received ++ (underWay ++ out) = sent ++ out := by
        rw [← List.append_assoc, h.whole rfl]
      exact ⟨hwhole ▸ List.prefix_rfl, fun _ => hwhole⟩

theorem receive {got : List B} (h : InOrder sent received (got ++ underWay) lost) :
    InOrder sent (received ++ got) underWay lost :=
  ⟨by simpa using h.begins, fun hlost => by simpa using h.whole hlost⟩

theorem lose (h : InOrder sent received underWay lost) {underWay' : List B}
    (hbegins : underWay' <+: underWay) : InOrder sent received underWay' true :=
  ⟨((List.prefix_append_right_inj received).mpr hbegins).trans h.begins, nofun⟩

end InOrder

theorem Step.inOrder (hstep : Step P Q c c')
    (h : InOrder (P.sent c.near) (Q.received c.far) c.outbound c.lost) :
    InOrder (P.sent c'.near) (Q.received c'.far) c'.outbound c'.lost := by
  cases hstep with
  | near _ hsent _ =>
      dsimp only
      rw [hsent]
      exact h.send _
  | far _ _ hreceived =>
      dsimp only
      rw [hreceived]
      exact h.receive
  | lose hout _ => exact h.lose hout

/-- **What arrives was sent, in this order.**  In every run the far party has
received the beginning of what the near party has sent. -/
theorem Reaches.inOrder (hsent : P.sent s₀ = []) (hreceived : Q.received t₀ = [])
    (h : Reaches P Q (.start s₀ t₀) c) :
    InOrder (P.sent c.near) (Q.received c.far) c.outbound c.lost := by
  induction h with
  | refl =>
      rw [show (Config.start s₀ t₀ : Config S T B).near = s₀ from rfl, hsent,
        show (Config.start s₀ t₀ : Config S T B).far = t₀ from rfl, hreceived]
      exact ⟨List.prefix_rfl, fun _ => rfl⟩
  | tail _ hstep ih => exact hstep.inOrder ih

/-- What a party has sent and received is not changed by later steps. -/
structure Party.Grows (P : Party S B) : Prop where
  sent : ∀ {s s'}, P.step s s' → P.sent s <+: P.sent s'
  received : ∀ {s s'}, P.step s s' → P.received s <+: P.received s'

theorem Party.Grows.run (hP : P.Grows) {s s' : S} (h : Relation.ReflTransGen P.step s s') :
    P.sent s <+: P.sent s' ∧ P.received s <+: P.received s' := by
  induction h with
  | refl => exact ⟨List.prefix_rfl, List.prefix_rfl⟩
  | tail _ hstep ih => exact ⟨ih.1.trans (hP.sent hstep), ih.2.trans (hP.received hstep)⟩

/-- A run of one party is a run of the link, when what it receives is under way. -/
theorem Reaches.of_near (hP : P.Grows) {s s' : S} (h : Relation.ReflTransGen P.step s s') {t : T}
    {out got outbound inbound : List B} (hsent : P.sent s' = P.sent s ++ out)
    (hreceived : P.received s' = P.received s ++ got) :
    Reaches P Q ⟨s, t, outbound, got ++ inbound, false⟩
      ⟨s', t, outbound ++ out, inbound, false⟩ := by
  induction h generalizing out got inbound with
  | refl =>
      obtain rfl := List.append_right_eq_self.mp hsent.symm
      obtain rfl := List.append_right_eq_self.mp hreceived.symm
      rw [List.append_nil]
      exact .refl
  | @tail u s' hrun hstep ih =>
      obtain ⟨⟨out₁, hout₁⟩, ⟨got₁, hgot₁⟩⟩ := hP.run hrun
      obtain ⟨out₂, hout₂⟩ := hP.sent hstep
      obtain ⟨got₂, hgot₂⟩ := hP.received hstep
      obtain rfl : out₁ ++ out₂ = out := by
        rw [← hout₂, ← hout₁, List.append_assoc] at hsent
        exact List.append_cancel_left hsent
      obtain rfl : got₁ ++ got₂ = got := by
        rw [← hgot₂, ← hgot₁, List.append_assoc] at hreceived
        exact List.append_cancel_left hreceived
      rw [List.append_assoc, ← List.append_assoc outbound]
      exact (ih hout₁.symm hgot₁.symm).tail (.near hstep hout₂.symm hgot₂.symm)

theorem Reaches.received_begins (hsent : P.sent s₀ = []) (hreceived : Q.received t₀ = [])
    (h : Reaches P Q (.start s₀ t₀) c) : Q.received c.far <+: P.sent c.near :=
  (List.prefix_append _ _).trans (h.inOrder hsent hreceived).begins

end
end Link
end Deps
