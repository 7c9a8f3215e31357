import Handoff.Proofs.Notice

/-!
Where polls have to wait. A poll that was told to wait is told so again until the pipe has changed.
-/

namespace Handoff

theorem Pipe.mem_waiting_park_self (p : Pipe) (half : Half) (waker : Waker) :
    waker ∈ (p.park half waker).waiting half :=
  Pipe.mem_waiting_park.mpr (.inr ⟨rfl, rfl⟩)

namespace Prompt

def waker? {half : Half} : Prompt half → Option Waker
  | pollRead _ waker | pollWrite _ waker | pollFlush waker | pollClose waker => some waker
  | _ => none

inductive Repeats : {half : Half} → Prompt half → Prompt half → Prop
  | read (room room' : Nat) (waker waker' : Waker) :
      Repeats (pollRead room waker) (pollRead room' waker')
  | write (slice : Slice) (waker waker' : Waker) :
      Repeats (pollWrite slice waker) (pollWrite slice waker')
  | flush (waker waker' : Waker) : Repeats (pollFlush waker) (pollFlush waker')
  | close (waker waker' : Waker) : Repeats (pollClose waker) (pollClose waker')

end Prompt

namespace Channel

/-- The write that was left is still in the pipe and readers may yet finish it. -/
def Carried (c : Channel) (write : Outstanding) : Prop :=
  c.outstanding = some write ∧ c.pipe.carries write.stamp = true ∧ c.pipe.closed = false

theorem watch_of_carried {c : Channel} {write : Outstanding} (h : c.Carried write) (waker : Waker) :
    c.watch write waker = .quiet .pending { c with pipe := c.pipe.park .write waker } :=
  watch_of_waiting h.2.1 h.2.2 waker

theorem start_of_unenterable {c : Channel} (h : c.pipe.enterable = false) (slice : Slice)
    (waker : Waker) :
    c.start slice waker = .quiet .pending { c with pipe := c.pipe.park .write waker } := by
  obtain ⟨hc, ho⟩ : c.pipe.closed = false ∧ c.pipe.occupied = true := by
    simpa [Pipe.enterable] using h
  simp [start, hc, ho]

theorem start_of_free {c : Channel} (hc : c.pipe.closed = false) (ho : c.pipe.occupied = false)
    (slice : Slice) (waker : Waker) :
    c.start slice waker =
      { c with outstanding := some ⟨c.pipe.nextStamp, slice⟩ }.lift
        (((c.pipe.placeCopy slice.bytes).map fun _ => Poll.pending).within (·.park .write waker)) := by
  rw [start, if_neg (by simp [hc]), if_neg (by simp [ho])]
  rfl

theorem pollLook_of_unreadable {c : Channel} (h : c.pipe.readable = false) (room : Nat)
    (waker : Waker) :
    c.pollLook room waker = .quiet .pending { c with pipe := c.pipe.park .read waker } := by
  rw [pollLook, Pipe.pollPull, c.pipe.pull_of_unreadable h]
  rfl

@[simp] theorem carried_park {c : Channel} {write : Outstanding} (half : Half) (waker : Waker) :
    { c with pipe := c.pipe.park half waker }.Carried write ↔ c.Carried write := by
  simp [Carried, Pipe.carries]

theorem watch_pending {c : Channel} {write : Outstanding} {waker : Waker}
    (ho : c.outstanding = some write) (h : (c.watch write waker).value = .pending) :
    (c.watch write waker).state.Carried write ∧
      waker ∈ (c.watch write waker).state.pipe.waiting .write := by
  have hc : c.Carried write := by
    unfold watch at h
    split at h
    · simp at h
    · rename_i hs
      split at h
      · simp at h
      · rename_i hc
        exact ⟨ho, by simpa using hs, by simpa using hc⟩
  rw [watch_of_carried hc waker]
  constructor
  · exact (carried_park .write waker).mpr hc
  · exact Pipe.mem_waiting_park_self _ _ waker

def Held (c : Channel) (slice : Slice) : Prop :=
  (∃ write, c.Carried write ∧ write.slice = slice) ∨ c.outstanding = none ∧ c.pipe.enterable = false

theorem start_pending {c : Channel} {slice : Slice} {waker : Waker} (ho : c.outstanding = none)
    (h : (c.start slice waker).value = .pending) :
    (c.start slice waker).state.Held slice ∧
      waker ∈ (c.start slice waker).state.pipe.waiting .write := by
  unfold start at h ⊢
  split at h
  · simp at h
  · rename_i hc
    have hc : c.pipe.closed = false := by simpa using hc
    split at h
    · rename_i hf
      rw [if_neg (by simp [hc]), if_pos hf]
      refine ⟨.inr ⟨ho, ?_⟩, Pipe.mem_waiting_park_self _ _ waker⟩
      have hg : c.pipe.enterable = false := by simp [Pipe.enterable, hc, hf]
      exact (Pipe.gate_park c.pipe .write .write waker).trans hg
    · rename_i hf
      rw [if_neg (by simp [hc]), if_neg hf]
      have hstaged : { c with
          pipe := (c.pipe.placeCopy slice.bytes).state
          outstanding := some ⟨c.pipe.nextStamp, slice⟩ }.Carried ⟨c.pipe.nextStamp, slice⟩ :=
        ⟨rfl, carries_placeCopy c.pipe slice.bytes, hc⟩
      refine ⟨.inl ⟨_, (carried_park .write waker).mpr hstaged, rfl⟩, ?_⟩
      exact Pipe.mem_waiting_park_self (c.pipe.placeCopy slice.bytes).state .write waker

theorem pollWrite_pending {c : Channel} {slice : Slice} {waker : Waker}
    (h : (c.pollWrite slice waker).value = .pending) :
    (c.pollWrite slice waker).state.Held slice ∧
      waker ∈ (c.pollWrite slice waker).state.pipe.waiting .write := by
  cases ho : c.outstanding with
  | none =>
    rw [pollWrite_of_none ho] at h ⊢
    exact start_pending ho h
  | some write =>
    by_cases hs : write.slice = slice
    · subst hs
      rw [pollWrite_of_outstanding ho] at h ⊢
      obtain ⟨hc, hw⟩ := watch_pending ho h
      exact ⟨.inl ⟨write, hc, rfl⟩, hw⟩
    · rw [pollWrite_of_other ho hs] at h ⊢
      exact start_pending (outstanding_cancel c write) h

theorem pollFlush_pending {c : Channel} {waker : Waker} (h : (c.pollFlush waker).value = .pending) :
    (∃ write, (c.pollFlush waker).state.Carried write) ∧
      waker ∈ (c.pollFlush waker).state.pipe.waiting .write := by
  cases ho : c.outstanding with
  | none =>
    rw [pollFlush_of_none ho] at h
    cases h
  | some write =>
    rw [pollFlush_of_outstanding ho] at h ⊢
    have hv : (c.watch write waker).value = .pending := by
      cases hv : (c.watch write waker).value with
      | pending => rfl
      | ready => simp [hv, Poll.map] at h
    obtain ⟨hc, hw⟩ := watch_pending ho hv
    exact ⟨⟨write, hc⟩, hw⟩

theorem pollLook_pending {c : Channel} {room : Nat} {waker : Waker}
    (h : (c.pollLook room waker).value = .pending) :
    (c.pollLook room waker).state.pipe.readable = false ∧
      waker ∈ (c.pollLook room waker).state.pipe.waiting .read := by
  have hr : c.pipe.readable = false := by
    rw [← c.pipe.value_pull_eq_none_iff room]
    simp only [pollLook, value_lift, Step.value_map, Pipe.pollPull] at h
    split at h
    · simp [Poll.map] at h
    · assumption
    · simp [Poll.map] at h
  rw [pollLook_of_unreadable hr]
  constructor
  · exact (Pipe.gate_park c.pipe .read .read waker).trans hr
  · exact Pipe.mem_waiting_park_self _ _ waker

end Channel

namespace Prompt

def Stuck {half : Half} (c : Channel) : Prompt half → Prop
  | pollRead _ _ => c.pipe.readable = false
  | pollWrite slice _ => c.Held slice
  | pollFlush _ | pollClose _ => ∃ write, c.Carried write
  | _ => False

theorem stuck_of_pending {half : Half} {p : Prompt half} {c : Channel}
    (h : (p.advance c).value = .answered (.polled .pending)) :
    p.Stuck (p.advance c).state ∧
      ∃ waker, p.waker? = some waker ∧ waker ∈ (p.advance c).state.pipe.waiting half := by
  cases p with
  | pollRead room waker =>
    simp only [advance, Step.value_map] at h
    split at h
    · rename_i hv
      obtain ⟨hr, hw⟩ := Channel.pollLook_pending hv
      exact ⟨hr, waker, rfl, hw⟩
    · simp at h
    · simp [Progress.polled] at h
  | pollWrite slice waker =>
    have hv : (c.pollWrite slice waker).value = .pending := by
      cases hv : (c.pollWrite slice waker).value with
      | pending => rfl
      | ready => simp [advance, hv, Poll.map, Progress.polled] at h
    obtain ⟨hs, hw⟩ := Channel.pollWrite_pending hv
    exact ⟨hs, waker, rfl, hw⟩
  | pollFlush waker =>
    have hv : (c.pollFlush waker).value = .pending := by
      cases hv : (c.pollFlush waker).value with
      | pending => rfl
      | ready => simp [advance, hv, Poll.map, Progress.polled] at h
    obtain ⟨hs, hw⟩ := Channel.pollFlush_pending hv
    exact ⟨hs, waker, rfl, hw⟩
  | pollClose waker =>
    simp only [advance, Step.value_map] at h
    split at h
    · rename_i hv
      obtain ⟨hs, hw⟩ := Channel.pollFlush_pending hv
      exact ⟨hs, waker, rfl, hw⟩
    · simp at h
  | tryReceive room =>
    simp only [advance, Channel.value_lift, Step.value_map] at h
    split at h <;> simp [Progress.reply] at h
  | setNonblocking | closeFlushed | close | isClosed | describe =>
    simp [advance, Progress.reply, Progress.polled] at h

theorem advance_of_stuck {half : Half} {p q : Prompt half} {c : Channel} (h : p.Stuck c)
    (hq : p.Repeats q) :
    (q.advance c).value = .answered (.polled .pending) ∧ (q.advance c).effects = [] := by
  cases hq with
  | read room room' waker waker' =>
    have hr : c.pipe.readable = false := h
    simp only [advance, Channel.pollLook_of_unreadable hr]
    exact ⟨rfl, rfl⟩
  | write slice waker waker' =>
    rcases h with ⟨write, hc, rfl⟩ | ⟨ho, he⟩
    · simp only [advance, Channel.pollWrite_of_outstanding hc.1, Channel.watch_of_carried hc]
      exact ⟨rfl, rfl⟩
    · simp only [advance, Channel.pollWrite_of_none ho, Channel.start_of_unenterable he]
      exact ⟨rfl, rfl⟩
  | flush waker waker' | close waker waker' =>
    obtain ⟨write, hc⟩ := h
    simp only [advance, Channel.pollFlush_of_outstanding hc.1, Channel.watch_of_carried hc]
    exact ⟨rfl, rfl⟩

theorem Stuck.alike {half : Half} {p : Prompt half} {c d : Channel} (h : p.Stuck c)
    (ha : c.pipe.Alike d.pipe) (ho : half = .write → d.outstanding = c.outstanding) : p.Stuck d := by
  have carried : half = .write → ∀ write, c.Carried write → d.Carried write := by
    rintro hw write ⟨hc, hs, hcl⟩
    refine ⟨(ho hw).trans hc, ?_, ha.closed.trans hcl⟩
    rw [Pipe.carries, ha.parcel]
    exact hs
  cases p with
  | pollRead room waker => exact ha.readable.trans h
  | pollWrite slice waker =>
    rcases h with ⟨write, hc, he⟩ | ⟨hc, he⟩
    · exact .inl ⟨write, carried rfl write hc, he⟩
    · exact .inr ⟨(ho rfl).trans hc, ha.enterable.trans he⟩
  | pollFlush | pollClose =>
    obtain ⟨write, hc⟩ := h
    exact ⟨write, carried rfl write hc⟩
  | _ => exact h.elim

end Prompt

end Handoff
