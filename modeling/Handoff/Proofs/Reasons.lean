import Handoff.Proofs.Section

/-!
What closes leave behind. A half keeps the reason of its own first close, and a pipe that has been
shut stays shut.
-/

namespace Handoff

namespace Pipe

structure Leads (p q : Pipe) : Prop where
  kept : ∀ half reason, p.ownReason half = some reason → q.ownReason half = some reason
  opened : q.closed = false → p.closed = false ∧ ∀ half, q.ownReason half = p.ownReason half

namespace Leads

theorem same {p q : Pipe} (hc : q.closed = p.closed) (hr : ∀ half, q.ownReason half = p.ownReason half) :
    p.Leads q where
  kept half _ h := (hr half).trans h
  opened h := ⟨hc.symm.trans h, hr⟩

theorem refl (p : Pipe) : p.Leads p :=
  .same rfl fun _ => rfl

theorem trans {p q r : Pipe} (h : p.Leads q) (t : q.Leads r) : p.Leads r where
  kept half reason hr := t.kept half reason (h.kept half reason hr)
  opened hc := by
    obtain ⟨hq, hr⟩ := t.opened hc
    obtain ⟨hp, hs⟩ := h.opened hq
    exact ⟨hp, fun half => (hr half).trans (hs half)⟩

end Leads

@[simp] theorem ownReason_announce (p : Pipe) (half : Half) :
    p.announce.state.ownReason half = p.ownReason half := by
  cases half <;> rfl

theorem ownReason_park (p : Pipe) (half other : Half) (waker : Waker) :
    (p.park half waker).ownReason other = p.ownReason other := by
  unfold park
  split
  · rfl
  · cases half <;> cases other <;> rfl

theorem ownReason_advance (p : Pipe) (b : Parcel) (room : Nat) (half : Half) :
    (p.advance b room).ownReason half = p.ownReason half := by
  unfold advance
  split <;> cases half <;> rfl

theorem ownReason_keepReason (p : Pipe) (half other : Half) (reason : Reason) :
    (p.keepReason half reason).ownReason other =
      if other = half then (p.ownReason half).or (some reason) else p.ownReason other := by
  cases half <;> cases other <;> rfl

theorem keepReason_of_kept (p : Pipe) (half : Half) (reason : Reason) {other : Half} {kept : Reason}
    (h : p.ownReason other = some kept) : (p.keepReason half reason).ownReason other = some kept := by
  rw [ownReason_keepReason]
  split
  · rename_i ho
    subst ho
    simp [h]
  · exact h

theorem leads_close (p : Pipe) (half : Half) (reason : Option Reason) :
    p.Leads (p.close half reason).state where
  kept other kept h := by
    have hk := p.keepReason_of_kept half (reason.getD (defaultReason half)) h
    cases other <;> exact hk
  opened h := absurd h (by simp)

end Pipe

theorem Channel.Change.leads {c d : Channel} {es : List Effect} (h : c.Change es d) :
    c.pipe.Leads d.pipe := by
  cases h with
  | mode | conclude | forsake => exact .refl c.pipe
  | close half reason => exact c.pipe.leads_close half reason
  | await waker | watch waker => exact .same (by simp) fun half => c.pipe.ownReason_park _ half waker
  | fail | withdraw => exact .same rfl fun half => by cases half <;> rfl
  | stage slice => exact .same rfl fun half => by cases half <;> rfl

theorem Channel.Changes.leads {c d : Channel} {es : List Effect} (h : c.Changes es d) :
    c.pipe.Leads d.pipe := by
  induction h with
  | nil c => exact .refl c.pipe
  | cons h _ ih => exact h.leads.trans ih

theorem Section.leads {owner : Nat} {lent left : Option Bytes} {c d : Channel} {es : List Effect}
    (h : Section owner lent c es d left) : c.pipe.Leads d.pipe := by
  cases h with
  | @pull b room hc hb =>
    apply Pipe.Leads.same
    · rw [Pipe.closed_announce]
      unfold Pipe.advance
      split <;> rfl
    · intro half
      simp [Pipe.ownReason_advance]
  | enter | leave => exact .same rfl fun half => by cases half <;> rfl
  | other h => exact h.leads

end Handoff
