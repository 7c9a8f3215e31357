import Handoff.Channel.Stream

/-!
What the operations on a channel do to it, one indivisible change after the other. Reads and blocking
writes are left out; they have a section of their own.
-/

namespace Handoff

/-- What a waker on this half waits for. -/
def Pipe.gate (p : Pipe) : Half → Bool
  | .read => p.readable
  | .write => p.enterable

@[simp] theorem Pipe.gate_park (p : Pipe) (half other : Half) (waker : Waker) :
    (p.park half waker).gate other = p.gate other := by
  cases other <;> simp [gate, readable, enterable, available]

namespace Channel

inductive Change : Channel → List Effect → Channel → Prop
  | mode (c : Channel) (on : Bool) : Change c [] { c with nonblocking := on }
  | close (c : Channel) (half : Half) (reason : Option Reason) :
      Change c (c.pipe.close half reason).effects { c with pipe := (c.pipe.close half reason).state }
  | await {c : Channel} {half : Half} (waker : Waker) (hg : c.pipe.gate half = false) :
      Change c [] { c with pipe := c.pipe.park half waker }
  | watch {c : Channel} {write : Outstanding} (waker : Waker) (ho : c.outstanding = some write)
      (hs : c.pipe.carries write.stamp = true) (hc : c.pipe.closed = false) :
      Change c [] { c with pipe := c.pipe.park .write waker }
  | conclude {c : Channel} {write : Outstanding} (ho : c.outstanding = some write)
      (hs : c.pipe.carries write.stamp = false) :
      Change c [.logged (.consumed write.slice.bytes.length)] { c with outstanding := none }
  | fail {c : Channel} {write : Outstanding} (ho : c.outstanding = some write)
      (hs : c.pipe.carries write.stamp = true) (hc : c.pipe.closed = true) :
      Change c c.pipe.vacate.effects { c with pipe := c.pipe.vacate.state, outstanding := none }
  | forsake {c : Channel} {write : Outstanding} (ho : c.outstanding = some write)
      (hs : c.pipe.unmet write.stamp = false) : Change c [] { c with outstanding := none }
  | withdraw {c : Channel} {write : Outstanding} (ho : c.outstanding = some write)
      (hs : c.pipe.unmet write.stamp = true) :
      Change c (.logged (.withdrawn write.slice.bytes.length) :: c.pipe.vacate.effects)
        { c with pipe := c.pipe.vacate.state, outstanding := none }
  | stage {c : Channel} (slice : Slice) (ho : c.outstanding = none) (hc : c.pipe.closed = false)
      (hf : c.pipe.occupied = false) :
      Change c (c.pipe.placeCopy slice.bytes).effects
        { c with
          pipe := (c.pipe.placeCopy slice.bytes).state
          outstanding := some ⟨c.pipe.nextStamp, slice⟩ }

inductive Changes : Channel → List Effect → Channel → Prop
  | nil (c : Channel) : Changes c [] c
  | cons {c d e : Channel} {es fs : List Effect} (h : Change c es d) (t : Changes d fs e) :
      Changes c (es ++ fs) e

theorem Change.changes {c d : Channel} {es : List Effect} (h : Change c es d) : Changes c es d := by
  simpa using Changes.cons h (.nil d)

theorem Changes.trans {c d e : Channel} {es fs : List Effect} (h : Changes c es d)
    (t : Changes d fs e) : Changes c (es ++ fs) e := by
  induction h with
  | nil => exact t
  | cons h _ ih =>
    rw [List.append_assoc]
    exact .cons h (ih t)

theorem changes_watch {c : Channel} {write : Outstanding} (ho : c.outstanding = some write)
    (waker : Waker) : Changes c (c.watch write waker).effects (c.watch write waker).state := by
  unfold watch
  split
  · rename_i hs
    exact (Change.conclude ho (by simpa using hs)).changes
  · rename_i hs
    have hs : c.pipe.carries write.stamp = true := by simpa using hs
    split
    · rename_i hc
      exact (Change.fail ho hs hc).changes
    · rename_i hc
      exact (Change.watch waker ho hs (by simpa using hc)).changes

theorem changes_cancel {c : Channel} {write : Outstanding} (ho : c.outstanding = some write) :
    Changes c (c.cancel write).effects (c.cancel write).state := by
  unfold cancel
  dsimp only
  split
  · rename_i hs
    exact (Change.withdraw ho hs).changes
  · rename_i hs
    exact (Change.forsake ho (by simpa using hs)).changes

@[simp] theorem outstanding_cancel (c : Channel) (write : Outstanding) :
    (c.cancel write).state.outstanding = none := by
  unfold cancel
  dsimp only
  split <;> rfl

theorem carries_placeCopy (p : Pipe) (bytes : Bytes) :
    (p.placeCopy bytes).state.carries p.nextStamp = true := by
  simp [Pipe.placeCopy, Pipe.place, Pipe.carries, Pipe.announce, Parcel.fresh, Origin.stamp?]

theorem changes_start {c : Channel} (ho : c.outstanding = none) (slice : Slice) (waker : Waker) :
    Changes c (c.start slice waker).effects (c.start slice waker).state := by
  unfold start
  split
  · exact .nil c
  · rename_i hc
    have hc : c.pipe.closed = false := by simpa using hc
    split
    · rename_i hf
      have hg : c.pipe.gate .write = false := by simp [Pipe.gate, Pipe.enterable, hc, hf]
      exact (Change.await waker hg).changes
    · rename_i hf
      have hstage := Change.stage slice ho hc (by simpa using hf)
      have hwatch := @Change.watch
        { c with
          pipe := (c.pipe.placeCopy slice.bytes).state
          outstanding := some ⟨c.pipe.nextStamp, slice⟩ }
        ⟨c.pipe.nextStamp, slice⟩ waker rfl (carries_placeCopy _ _) hc
      have h := Changes.cons hstage hwatch.changes
      rw [List.append_nil] at h
      exact h

theorem changes_pollWrite (c : Channel) (slice : Slice) (waker : Waker) :
    Changes c (c.pollWrite slice waker).effects (c.pollWrite slice waker).state := by
  unfold pollWrite
  cases ho : c.outstanding with
  | none => exact changes_start ho slice waker
  | some write =>
    dsimp only
    split
    · exact changes_watch ho waker
    · exact (changes_cancel ho).trans (changes_start (outstanding_cancel c write) slice waker)

theorem changes_pollFlush (c : Channel) (waker : Waker) :
    Changes c (c.pollFlush waker).effects (c.pollFlush waker).state := by
  unfold pollFlush
  cases ho : c.outstanding with
  | none => exact .nil c
  | some write => exact changes_watch ho waker

end Channel

end Handoff
