import Handoff.Proofs.Underway

/-!
What writers are told. A write that ends has got a result from the pipe, and its caller hears of it in the
terms of the interface that the call came through.
-/

namespace Handoff

namespace Reply

/-- What the caller of a `send` is told of its result. -/
inductive TellsSend : Except ShortWrite Nat → Reply → Prop
  | whole (count : Nat) : TellsSend (.ok count) (.count count)
  | short (short : ShortWrite) : TellsSend (.error short) (.shortWrite short)

/-- What the caller of a write of the byte stream is told of its result: it fails only if no byte has got
through, and otherwise keeps the reason back. -/
inductive TellsWrite : Except ShortWrite Nat → Reply → Prop
  | whole (count : Nat) : TellsWrite (.ok count) (.count count)
  | part {written : Nat} (reason : Reason) (h : written ≠ 0) :
      TellsWrite (.error ⟨written, reason⟩) (.count written)
  | none (reason : Reason) : TellsWrite (.error ⟨0, reason⟩) (.failed reason.toFailure)

@[simp] theorem tells_ofSend (result : Except ShortWrite Nat) : TellsSend result (.ofSend result) := by
  cases result with
  | ok count => exact .whole count
  | error short => exact .short short

@[simp] theorem tells_ofWrite (result : Except ShortWrite Nat) :
    TellsWrite result (.ofWrite (Stream.ofWrite result)) := by
  cases result with
  | ok count => exact .whole count
  | error short =>
    obtain ⟨written, reason⟩ := short
    cases written with
    | zero => exact .none reason
    | succ written => exact .part reason (Nat.succ_ne_zero written)

variable {result : Except ShortWrite Nat} {told other : Reply}

theorem TellsSend.eq (h : TellsSend result told) : told = .ofSend result := by
  cases h <;> rfl

theorem TellsWrite.eq (h : TellsWrite result told) : told = .ofWrite (Stream.ofWrite result) := by
  cases h with
  | whole | none => rfl
  | part reason h => rw [Stream.ofWrite, if_neg h, ofWrite]

theorem TellsWrite.unique (h : TellsWrite result told) (k : TellsWrite result other) : told = other :=
  h.eq.trans k.eq.symm

end Reply

namespace Pipe

theorem enter_error {p : Pipe} {owner : Nat} {bytes : Bytes}
    {s : Step Pipe (Except ShortWrite Unit)} (h : p.enter owner bytes = some s) {short : ShortWrite}
    (hv : s.value = .error short) :
    p.closed = true ∧ short = ⟨0, p.reason .write⟩ ∧ s.state = p := by
  unfold enter at h
  split at h
  · rename_i hc
    obtain rfl := Option.some.inj h
    exact ⟨hc, (Except.error.inj hv).symm, rfl⟩
  · split at h
    · simp at h
    · obtain rfl := Option.some.inj h
      simp at hv

theorem leave_value {p : Pipe} {s : Step Pipe (Except ShortWrite Nat)} (h : p.leave = some s) :
    s.state = p.vacate.state ∧
      (p.consumed = true ∧ s.value = .ok p.vacate.value ∨
        p.consumed = false ∧ p.closed = true ∧
          s.value = .error ⟨p.vacate.value, p.reason .write⟩) := by
  unfold leave at h
  dsimp only at h
  split at h
  · rename_i hf
    obtain rfl := Option.some.inj h
    exact ⟨rfl, .inl ⟨hf, rfl⟩⟩
  · rename_i hf
    split at h
    · rename_i hc
      obtain rfl := Option.some.inj h
      exact ⟨rfl, .inr ⟨by simpa using hf, hc, rfl⟩⟩
    · simp at h

theorem leave_error {p : Pipe} {s : Step Pipe (Except ShortWrite Nat)} (h : p.leave = some s)
    {short : ShortWrite} (hv : s.value = .error short) :
    p.closed = true ∧ short.reason = p.reason .write := by
  obtain ⟨-, ⟨-, hok⟩ | ⟨-, hc, herror⟩⟩ := leave_value h
  · rw [hok] at hv
    cases hv
  · rw [herror] at hv
    exact ⟨hc, (congrArg ShortWrite.reason (Except.error.inj hv)).symm⟩

end Pipe

namespace Channel

variable {c : Channel} {slice : Slice} {waker : Waker}

theorem start_ready {result : Except ShortWrite Nat}
    (h : (c.start slice waker).value = .ready result) :
    c.pipe.closed = true ∧ result = .error ⟨0, c.pipe.reason .write⟩ ∧
      c.start slice waker = .quiet (.ready result) c := by
  unfold start at h ⊢
  split at h
  · rename_i hc
    obtain rfl := Poll.ready.inj h
    exact ⟨hc, rfl, if_pos hc⟩
  · split at h
    · simp at h
    · simp at h

theorem cancel_pipe (c : Channel) (write : Outstanding) :
    (c.cancel write).state.pipe.closed = c.pipe.closed ∧
      (c.cancel write).state.pipe.reason .write = c.pipe.reason .write := by
  unfold cancel
  dsimp only
  split <;> exact ⟨rfl, rfl⟩

/-- A polled write that is not on record fails at once in a closed pipe, and nowhere else. -/
theorem pollWrite_ready_of_new (hn : ∀ write, c.outstanding = some write → write.slice ≠ slice)
    {result : Except ShortWrite Nat} (h : (c.pollWrite slice waker).value = .ready result) :
    c.pipe.closed = true ∧ result = .error ⟨0, c.pipe.reason .write⟩ ∧
      placed (c.pollWrite slice waker).effects = [] ∧
      handed (c.pollWrite slice waker).effects = [] := by
  have hh := (c.changes_pollWrite slice waker).handed_eq
  unfold pollWrite at h hh ⊢
  cases ho : c.outstanding with
  | none =>
    simp only [ho] at h hh ⊢
    obtain ⟨hc, hr, he⟩ := start_ready h
    exact ⟨hc, hr, by rw [he]; rfl, hh⟩
  | some write =>
    simp only [ho, if_neg (hn write ho)] at h hh ⊢
    obtain ⟨hc, hr, he⟩ := start_ready h
    obtain ⟨hcl, hreason⟩ := c.cancel_pipe write
    rw [hcl] at hc
    rw [hreason] at hr
    refine ⟨hc, hr, ?_, hh⟩
    rw [Step.effects_after, placed_append, placed_cancel, he]
    rfl

theorem watch_error {write : Outstanding} {short : ShortWrite}
    (h : (c.watch write waker).value = .ready (.error short)) :
    c.pipe.closed = true ∧ short.reason = c.pipe.reason .write := by
  unfold watch at h
  split at h
  · cases h
  · split at h
    · rename_i hc
      exact ⟨hc, (congrArg ShortWrite.reason (Except.error.inj (Poll.ready.inj h))).symm⟩
    · cases h

theorem pollWrite_error {short : ShortWrite}
    (h : (c.pollWrite slice waker).value = .ready (.error short)) :
    c.pipe.closed = true ∧ short.reason = c.pipe.reason .write := by
  by_cases hrep : ∃ write, c.outstanding = some write ∧ write.slice = slice
  · obtain ⟨write, hw, rfl⟩ := hrep
    rw [pollWrite_of_outstanding hw] at h
    exact watch_error h
  · obtain ⟨hc, hr, -⟩ := pollWrite_ready_of_new (fun write hw hs => hrep ⟨write, hw, hs⟩) h
    exact ⟨hc, congrArg ShortWrite.reason (Except.error.inj hr)⟩

theorem watch_of_closed (hc : c.pipe.closed = true) (write : Outstanding) (waker : Waker) :
    ∃ result, (c.watch write waker).value = .ready result := by
  unfold watch
  rw [hc]
  split
  · exact ⟨_, rfl⟩
  · exact ⟨_, rfl⟩

theorem start_of_closed (hc : c.pipe.closed = true) (slice : Slice) (waker : Waker) :
    c.start slice waker = .quiet (.ready (.error ⟨0, c.pipe.reason .write⟩)) c :=
  if_pos hc

theorem pollWrite_of_closed (hc : c.pipe.closed = true) (slice : Slice) (waker : Waker) :
    ∃ result, (c.pollWrite slice waker).value = .ready result := by
  cases ho : c.outstanding with
  | none =>
    rw [pollWrite_of_none ho]
    exact ⟨_, congrArg Step.value (start_of_closed hc slice waker)⟩
  | some write =>
    by_cases hs : write.slice = slice
    · subst hs
      rw [pollWrite_of_outstanding ho]
      exact watch_of_closed hc write waker
    · have hcancel : (c.cancel write).state.pipe.closed = true := (c.cancel_pipe write).1.trans hc
      rw [pollWrite_of_other ho hs]
      exact ⟨_, congrArg Step.value (start_of_closed hcancel slice waker)⟩

end Channel

namespace Call

def bytes? {half : Half} (call : Call half) : Option Bytes :=
  call.data?.or (call.slice?.map Slice.bytes)

/-- What the caller of a write is told of its result. -/
inductive Tells : {half : Half} → Call half → Except ShortWrite Nat → Answer → Prop
  | send (bytes : Bytes) (placed : Bool) {result : Except ShortWrite Nat} {told : Reply}
      (h : Reply.TellsSend result told) : Tells (send bytes placed) result (.reply told)
  | write (bytes : Bytes) (placed : Bool) {result : Except ShortWrite Nat} {told : Reply}
      (h : Reply.TellsWrite result told) : Tells (write bytes placed) result (.reply told)
  | poll (slice : Slice) (waker : Waker) {result : Except ShortWrite Nat} {told : Reply}
      (h : Reply.TellsWrite result told) :
      Tells (prompt (.pollWrite slice waker)) result (.polled (.ready told))

/-- What the pipe makes of a write whose call ends with its next step: the write is not let in, or is done
waiting in the pipe, or has been polled and is ready. -/
inductive Yields (owner : Nat) (c : Channel) : {half : Half} → Call half → Except ShortWrite Nat → Prop
  | barred {half : Half} {call : Call half} {bytes : Bytes} (hd : call.data? = some bytes)
      (hl : call.lending = none) {entered : Step Pipe (Except ShortWrite Unit)}
      (he : c.pipe.enter owner bytes = some entered) {short : ShortWrite}
      (hv : entered.value = .error short) : Yields owner c call (.error short)
  | left {half : Half} {call : Call half} {bytes : Bytes} (hl : call.lending = some bytes)
      {left : Step Pipe (Except ShortWrite Nat)} (h : c.pipe.leave = some left)
      {result : Except ShortWrite Nat} (hv : left.value = result) : Yields owner c call result
  | polled {slice : Slice} {waker : Waker} {result : Except ShortWrite Nat}
      (h : (c.pollWrite slice waker).value = .ready result) :
      Yields owner c (prompt (.pollWrite slice waker)) result

/-- Readers have got all of this write, which waits for no more than its next step. -/
def ReadWhole {half : Half} (c : Channel) : Call half → Prop
  | send _ true | write _ true => c.pipe.consumed = true
  | prompt (.pollWrite slice _) =>
    ∃ write, c.outstanding = some write ∧ write.slice = slice ∧ c.pipe.carries write.stamp = false
  | _ => False

variable {half : Half} {owner : Nat} {call : Call half} {c : Channel} {result : Except ShortWrite Nat}

theorem Tells.unique {answer other : Answer} (h : call.Tells result answer) (k : call.Tells result other) :
    answer = other := by
  cases h with
  | send _ _ h =>
    cases k with
    | send _ _ k => rw [h.eq, k.eq]
  | write _ _ h =>
    cases k with
    | write _ _ k => rw [h.unique k]
  | poll _ _ h =>
    cases k with
    | poll _ _ k => rw [h.unique k]

theorem Yields.unique {other : Except ShortWrite Nat} (h : call.Yields owner c result)
    (k : call.Yields owner c other) : result = other := by
  cases h with
  | barred hd hl he hv =>
    cases k with
    | barred hd' _ he' hv' =>
      obtain rfl := Option.some.inj (hd.symm.trans hd')
      obtain rfl := Option.some.inj (he.symm.trans he')
      exact congrArg Except.error (Except.error.inj (hv.symm.trans hv'))
    | left hl' => cases hl.symm.trans hl'
    | polled => cases hd
  | left hl h hv =>
    cases k with
    | barred _ hl' => cases hl.symm.trans hl'
    | left _ h' hv' =>
      obtain rfl := Option.some.inj (h.symm.trans h')
      exact hv.symm.trans hv'
    | polled => cases hl
  | polled h =>
    cases k with
    | barred hd => cases hd
    | left hl => cases hl
    | polled h' => exact Poll.ready.inj (h.symm.trans h')

theorem Yields.error {short : ShortWrite} (h : call.Yields owner c (.error short)) :
    c.pipe.closed = true ∧ short.reason = c.pipe.reason .write := by
  cases h with
  | barred _ _ he hv =>
    obtain ⟨hc, rfl, -⟩ := Pipe.enter_error he hv
    exact ⟨hc, rfl⟩
  | left _ h hv => exact Pipe.leave_error h hv
  | polled h => exact Channel.pollWrite_error h

variable {s : Step Channel (Progress (Call half))} {answer : Answer}

theorem tells_of_blocking (h : call.advance owner c = some s) (hv : s.value = .answered answer)
    {bytes : Bytes} (hd : call.data? = some bytes) :
    ∃ result, call.Yields owner c result ∧ call.Tells result answer ∧
      (call.lending = none ∧ c.pipe.closed = true ∧ result = .error ⟨0, c.pipe.reason .write⟩ ∧
          s.state.pipe = c.pipe ∨
        call.lending = some bytes ∧ ∃ left, c.pipe.leave = some left ∧ result = left.value ∧
          s.state.pipe = left.state) := by
  cases call with
  | send data placed | write data placed =>
    obtain rfl := Option.some.inj hd
    cases placed with
    | false =>
      obtain ⟨r, hr, rfl⟩ := Option.map_eq_some_iff.mp h
      cases hx : r.value with
      | ok => simp [hx] at hv
      | error short =>
        simp only [Channel.value_lift, Step.value_map, hx] at hv
        obtain rfl := Progress.answered.inj hv
        obtain ⟨hc, rfl, hs⟩ := Pipe.enter_error hr hx
        refine ⟨_, .barred rfl rfl hr hx, ?_, .inl ⟨rfl, hc, rfl, hs⟩⟩
        constructor
        simp
    | true =>
      obtain ⟨r, hr, rfl⟩ := Option.map_eq_some_iff.mp h
      obtain rfl := Progress.answered.inj hv
      refine ⟨r.value, .left rfl hr rfl, ?_, .inr ⟨rfl, r, hr, rfl, rfl⟩⟩
      constructor
      simp
  | _ => simp [data?] at hd

theorem tells_of_poll (h : call.advance owner c = some s) (hv : s.value = .answered answer)
    (hp : answer ≠ .polled .pending) {slice : Slice} (hs : call.slice? = some slice) :
    ∃ waker result, call.Yields owner c result ∧ call.Tells result answer ∧
      (c.pollWrite slice waker).value = .ready result ∧
      s.state = (c.pollWrite slice waker).state ∧ s.effects = (c.pollWrite slice waker).effects := by
  cases call with
  | prompt p =>
    cases p with
    | pollWrite other waker =>
      obtain rfl := Option.some.inj hs
      obtain rfl := Option.some.inj h
      simp only [Prompt.advance, Step.value_map] at hv
      obtain rfl := Progress.answered.inj hv
      cases hx : (c.pollWrite other waker).value with
      | pending => simp [hx, Poll.map] at hp
      | ready result =>
        exact ⟨waker, result, .polled hx, .poll other waker (Reply.tells_ofWrite result), hx, rfl, rfl⟩
    | _ => simp [slice?] at hs
  | _ => simp [slice?] at hs

theorem advance_of_pollWrite {slice : Slice} {waker : Waker}
    (h : (c.pollWrite slice waker).value = .ready result) (owner : Nat) :
    ∃ s, (prompt (.pollWrite slice waker)).advance owner c = some s ∧
      s.value = .answered (.polled (.ready (.ofWrite (Stream.ofWrite result)))) ∧
      s.effects = (c.pollWrite slice waker).effects := by
  refine ⟨_, rfl, ?_, rfl⟩
  simp only [Prompt.advance, Step.value_map, h]
  rfl

theorem whole_or_cut_of_poll {slice : Slice} {waker : Waker} (hc : c.pipe.closed = true)
    (h : (c.pollWrite slice waker).value = .ready result) :
    (prompt (.pollWrite slice waker)).ReadWhole c ∧ (∃ count, result = .ok count) ∨
      ¬ (prompt (.pollWrite slice waker)).ReadWhole c ∧
        ∃ written, result = .error ⟨written, c.pipe.reason .write⟩ := by
  by_cases hrep : ∃ write, c.outstanding = some write ∧ write.slice = slice
  · obtain ⟨write, hw, rfl⟩ := hrep
    rw [Channel.pollWrite_of_outstanding hw] at h
    cases hp : c.pipe.carries write.stamp with
    | false =>
      rw [Channel.watch_of_gone hp] at h
      exact .inl ⟨⟨write, hw, rfl, hp⟩, _, (Poll.ready.inj h).symm⟩
    | true =>
      rw [Channel.watch_of_cut hp hc] at h
      refine .inr ⟨?_, _, (Poll.ready.inj h).symm⟩
      rintro ⟨other, ho, -, hn⟩
      obtain rfl := Option.some.inj (hw.symm.trans ho)
      cases hp.symm.trans hn
  · obtain ⟨-, rfl, -⟩ := Channel.pollWrite_ready_of_new (fun write hw hs => hrep ⟨write, hw, hs⟩) h
    refine .inr ⟨?_, 0, rfl⟩
    rintro ⟨write, hw, hs, -⟩
    exact hrep ⟨write, hw, hs⟩

/-- In a closed pipe every write ends with its next step, and unless readers have got all of it, with the
reason of the pipe. -/
theorem ends_of_closed {call : Call .write} (hc : c.pipe.closed = true) {bytes : Bytes}
    (hb : call.bytes? = some bytes) (owner : Nat) :
    ∃ s answer result, call.advance owner c = some s ∧ s.value = .answered answer ∧
      call.Yields owner c result ∧ call.Tells result answer ∧
      (call.ReadWhole c ∧ (∃ count, result = .ok count) ∨
        ¬ call.ReadWhole c ∧ ∃ written, result = .error ⟨written, c.pipe.reason .write⟩) := by
  cases call with
  | send data placed | write data placed =>
    cases placed with
    | false =>
      have he : c.pipe.enter owner data = some (.quiet (.error ⟨0, c.pipe.reason .write⟩) c.pipe) := if_pos hc
      refine ⟨_, _, _, congrArg (Option.map _) he, rfl, .barred rfl rfl he rfl, ?_, .inr ⟨id, 0, rfl⟩⟩
      constructor
      simp
    | true =>
      cases hl : c.pipe.leave with
      | none => simp [Pipe.leave_eq_none_iff, Pipe.leavable, hc] at hl
      | some left =>
        refine ⟨_, _, left.value, congrArg (Option.map _) hl, rfl, .left rfl hl rfl, ?_, ?_⟩
        · constructor
          simp
        · obtain ⟨-, ⟨hw, hv⟩ | ⟨hw, -, hv⟩⟩ := Pipe.leave_value hl
          · exact .inl ⟨hw, _, hv⟩
          · refine .inr ⟨?_, _, hv⟩
            simp [ReadWhole, hw]
  | prompt p =>
    cases p with
    | pollWrite slice waker =>
      obtain ⟨result, hr⟩ := Channel.pollWrite_of_closed hc slice waker
      obtain ⟨s, hs, hv, -⟩ := advance_of_pollWrite hr owner
      refine ⟨s, _, result, hs, hv, .polled hr, ?_, whole_or_cut_of_poll hc hr⟩
      exact .poll slice waker (Reply.tells_ofWrite result)
    | _ => cases hb
  | flush => cases hb

end Call

end Handoff
