import Handoff.Proofs.Run

/-!
What holds of a pipe between any two steps.
-/

namespace Handoff

namespace Parcel

/-- Of finished parcels only lent ones are still there, for their writer has yet to see it. -/
structure Sound (b : Parcel) : Prop where
  kept : b.lapsed = false
  passed_le : b.passed ≤ b.bytes.length
  met_of_passed : b.passed ≠ 0 → b.met = true

theorem sound_fresh (origin : Origin) (bytes : Bytes) : (fresh origin bytes).Sound where
  kept := rfl
  passed_le := Nat.zero_le _
  met_of_passed h := absurd rfl h

theorem Sound.advance {b : Parcel} (h : b.Sound) {room : Nat} (hk : (b.advance room).lapsed = false) :
    (b.advance room).Sound where
  kept := hk
  passed_le := by
    have := h.passed_le
    simp only [Parcel.advance, front, rest, List.length_take, List.length_drop]
    omega
  met_of_passed _ := rfl

theorem Sound.passed_of_finished {b : Parcel} (h : b.Sound) (hf : b.finished = true) :
    b.passed = b.bytes.length := by
  have hr : b.rest = [] := List.isEmpty_iff.mp (Bool.and_eq_true_iff.mp hf).2
  exact Nat.le_antisymm h.passed_le (List.drop_eq_nil_iff.mp hr)

theorem Sound.unfinished_of_copied {b : Parcel} (h : b.Sound) {stamp : UInt64}
    (ho : b.origin = .copied stamp) : b.finished = false := by
  simpa [lapsed, ho, Origin.stamp?] using h.kept

end Parcel

namespace Pipe

structure Sound (p : Pipe) : Prop where
  occupied_eq : p.occupied = p.parcel.isSome
  parcel : ∀ b, p.parcel = some b → b.Sound
  stalled : ∀ half, p.waiting half ≠ [] → p.gate half = false

theorem Sound.park {p : Pipe} (h : p.Sound) {half : Half} (hg : p.gate half = false)
    (waker : Waker) : (p.park half waker).Sound where
  occupied_eq := by simpa using h.occupied_eq
  parcel := by simpa using h.parcel
  stalled other ho := by
    obtain ⟨w, hw⟩ := List.exists_mem_of_ne_nil _ ho
    rw [gate_park]
    rcases mem_waiting_park.mp hw with hw | ⟨rfl, -⟩
    · exact h.stalled other (List.ne_nil_of_mem hw)
    · exact hg

theorem sound_announce {p : Pipe} (ho : p.occupied = p.parcel.isSome)
    (hp : ∀ b, p.parcel = some b → b.Sound) : p.announce.state.Sound where
  occupied_eq := ho
  parcel := hp
  stalled half hw := absurd (waiting_announce p half) hw

theorem sound_place (p : Pipe) (origin : Origin) (bytes : Bytes) :
    (p.place origin bytes).state.Sound := by
  apply sound_announce rfl
  intro b hb
  obtain rfl := Option.some.inj hb
  exact Parcel.sound_fresh origin bytes

theorem sound_vacate (p : Pipe) : p.vacate.state.Sound := by
  apply sound_announce rfl
  intro b hb
  simp at hb

theorem Sound.close {p : Pipe} (h : p.Sound) (half : Half) (reason : Option Reason) :
    (p.close half reason).state.Sound := by
  cases half <;> exact sound_announce h.occupied_eq h.parcel

theorem Sound.advance {p : Pipe} (h : p.Sound) {b : Parcel} (hb : p.available = some b) (room : Nat) :
    (p.advance b room).announce.state.Sound := by
  obtain ⟨hp, -⟩ := available_eq_some hb
  unfold Pipe.advance
  split
  · apply sound_announce rfl
    intro c hc
    simp at hc
  · rename_i hk
    apply sound_announce
    · rw [h.occupied_eq, hp]
      rfl
    · intro c hc
      obtain rfl := Option.some.inj hc
      exact (h.parcel b hp).advance (by simpa using hk)

theorem Sound.occupied_of_carries {p : Pipe} (h : p.Sound) {stamp : UInt64}
    (hs : p.carries stamp = true) : p.occupied = true := by
  rw [h.occupied_eq]
  unfold carries at hs
  cases hp : p.parcel with
  | none => simp [hp] at hs
  | some b => rfl

end Pipe

theorem Channel.Change.sound {c d : Channel} {es : List Effect} (h : c.Change es d)
    (hc : c.pipe.Sound) : d.pipe.Sound := by
  cases h with
  | mode | conclude | forsake => exact hc
  | close half reason => exact hc.close half reason
  | await waker hg => exact hc.park hg waker
  | watch waker ho hs hcl =>
    apply hc.park
    simp [Pipe.gate, Pipe.enterable, hcl, hc.occupied_of_carries hs]
  | fail | withdraw => exact Pipe.sound_vacate c.pipe
  | stage slice => exact Pipe.sound_place _ _ slice.bytes

theorem Channel.Changes.sound {c d : Channel} {es : List Effect} (h : c.Changes es d)
    (hc : c.pipe.Sound) : d.pipe.Sound := by
  induction h with
  | nil => exact hc
  | cons h _ ih => exact ih (h.sound hc)

theorem Section.sound {owner : Nat} {lent left : Option Bytes} {c d : Channel} {es : List Effect}
    (h : Section owner lent c es d left) (hc : c.pipe.Sound) : d.pipe.Sound := by
  cases h with
  | pull room _ hb => exact hc.advance hb room
  | enter bytes => exact Pipe.sound_place _ _ bytes
  | leave => exact Pipe.sound_vacate c.pipe
  | other h => exact h.sound hc

theorem Link.Reachable.sound {l : Link} (h : l.Reachable) : l.channel.pipe.Sound := by
  apply h.channel (P := fun c => c.pipe.Sound)
  · intro settings
    refine ⟨rfl, ?_, ?_⟩
    · intro b hb
      simp [Settings.opened] at hb
    · intro half hw
      cases half <;> exact absurd rfl hw
  · exact fun h hc => h.sound hc

end Handoff
