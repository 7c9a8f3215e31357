import Handoff.Proofs.Heard

/-!
Calls that have the pipe to themselves. All ways to read then get the same bytes or the same reason, and leave
the same pipe; they differ only in what becomes of a read that finds nothing.
-/

namespace Handoff

/-- A call with nobody in between: how many steps it takes, and its answer unless it is left waiting. A step
of a read pulls once. -/
def Call.alone {half : Half} (owner : Nat) (call : Call half) (c : Channel) :
    Step Channel (Nat × Option Answer) :=
  match _h : call.advance owner c with
  | none => .quiet (0, none) c
  | some s =>
    match _hv : s.value with
    | .answered answer => s.map fun _ => (1, some answer)
    | .onward next => ((next.alone owner s.state).map fun r => (r.1 + 1, r.2)).after s.effects
termination_by c.unread + call.work
decreasing_by
  have := Call.work_advance _h
  simpa [_hv, Progress.work] using this

theorem Channel.Look.ofPull_skipped {room : Nat} {pulled : Except Reason Bytes}
    (h : ofPull room pulled = .skipped) : pulled = .ok [] ∧ room ≠ 0 := by
  unfold ofPull at h
  split at h
  · split at h
    · cases h
    · rename_i hr
      exact ⟨rfl, hr⟩
  · cases h

theorem Channel.Look.ofPull_settled {room : Nat} {pulled : Except Reason Bytes}
    {result : Except Failure Bytes} (h : ofPull room pulled = .settled result) :
    result = Stream.ofPull pulled := by
  unfold ofPull at h
  split at h
  · split at h
    · exact (Look.settled.inj h).symm
    · cases h
  · exact (Look.settled.inj h).symm

namespace Pipe

def got? (p : Pipe) (room : Nat) : Option (Except Reason Bytes) :=
  match (p.pull room).value with
  | .ok bytes => bytes.map .ok
  | .error reason => some (.error reason)

/-- What a lone read of the byte stream hears, if anything. It passes over an empty write, and then finds
nothing behind it. -/
def heard? (p : Pipe) (room : Nat) : Option (Except Failure Bytes) :=
  (p.got? room).bind fun pulled => match Channel.Look.ofPull room pulled with
    | .skipped => none
    | .settled result => some result

theorem readable_of_got?_none {p : Pipe} {room : Nat} (h : p.got? room = none) : p.readable = false := by
  apply (p.value_pull_eq_none_iff room).mp
  unfold got? at h
  split at h
  · rename_i hv
    rw [hv, Option.map_eq_none_iff.mp h]
  · cases h

theorem value_pull_of_got? {p : Pipe} {room : Nat} {pulled : Except Reason Bytes}
    (h : p.got? room = some pulled) : (p.pull room).value = Except.map some pulled := by
  unfold got? at h
  split at h
  · rename_i hv
    obtain ⟨bytes, rfl, rfl⟩ := Option.map_eq_some_iff.mp h
    exact hv
  · rename_i hv
    obtain rfl := Option.some.inj h
    exact hv

theorem unreadable_of_empty {p : Pipe} {room : Nat} (hr : room ≠ 0)
    (h : (p.pull room).value = .ok (some [])) : (p.pull room).state.readable = false := by
  rcases p.pull_cases room with ⟨result, hn, he⟩ | ⟨b, hc, -, he⟩
  · rw [he] at h
    exact absurd h (hn _)
  · rw [he] at h ⊢
    have hfront : b.front room = [] := Option.some.inj (Except.ok.inj h)
    have hrest : b.rest = [] := by simpa [Parcel.front, hr] using hfront
    have hdone : (b.advance room).finished = true := by
      rw [Parcel.finished, Parcel.rest_advance, hrest, List.drop_nil]
      rfl
    have hclosed : (p.advance b room).closed = false := by
      unfold advance
      split <;> exact hc
    have hidle : (p.advance b room).available = none := by
      unfold advance
      split <;> simp [available, hdone]
    change ((p.advance b room).closed || (p.advance b room).available.isSome) = false
    rw [hclosed, hidle]
    rfl

inductive Hearing (p : Pipe) (room : Nat) : Option (Except Failure Bytes) → Prop
  | settled {pulled : Except Reason Bytes} {result : Except Failure Bytes}
      (hv : (p.pull room).value = Except.map some pulled)
      (hl : Channel.Look.ofPull room pulled = .settled result) : Hearing p room (some result)
  | idle (hi : p.readable = false) : Hearing p room none
  | passed (hr : room ≠ 0) (hv : (p.pull room).value = .ok (some [])) : Hearing p room none

theorem hearing (p : Pipe) (room : Nat) : p.Hearing room (p.heard? room) := by
  unfold heard?
  cases hg : p.got? room with
  | none => exact .idle (readable_of_got?_none hg)
  | some pulled =>
    have hv := value_pull_of_got? hg
    rw [Option.bind_some]
    cases hl : Channel.Look.ofPull room pulled with
    | settled result => exact .settled hv hl
    | skipped =>
      obtain ⟨rfl, hr⟩ := Channel.Look.ofPull_skipped hl
      exact .passed hr hv

theorem Hearing.ne_early {p : Pipe} {room : Nat} {result : Except Failure Bytes}
    (h : p.Hearing room (some result)) : result ≠ .error (.bare .wouldBlock) := by
  cases h with
  | @settled pulled _ _ hl =>
    rw [Channel.Look.ofPull_settled hl]
    rcases pulled with reason | bytes
    · cases reason <;> simp [Stream.ofPull, Reason.toFailure]
    · simp [Stream.ofPull]

end Pipe

namespace Channel

variable {c : Channel} {room : Nat} {pulled : Except Reason Bytes}

theorem look_of_pull (h : (c.pipe.pull room).value = Except.map some pulled) :
    c.look room = some (c.lift ((c.pipe.pull room).map fun _ => .ofPull room pulled)) := by
  cases pulled <;> simp [look, h, Except.map]

theorem pollLook_of_pull (h : (c.pipe.pull room).value = Except.map some pulled) (waker : Waker) :
    c.pollLook room waker =
      c.lift ((c.pipe.pull room).map fun _ => .ready (.ofPull room pulled)) := by
  cases pulled <;> simp [pollLook, Pipe.pollPull, h, Except.map, Step.map, Poll.map]

end Channel

namespace Call

variable {half : Half} {owner : Nat} {call : Call half} {c : Channel}

theorem alone_of_waits (h : call.advance owner c = none) : call.alone owner c = .quiet (0, none) c := by
  unfold alone
  split
  · rfl
  · rename_i hs
    cases h.symm.trans hs

theorem alone_of_answered {s : Step Channel (Progress (Call half))} (h : call.advance owner c = some s)
    {answer : Answer} (hv : s.value = .answered answer) :
    call.alone owner c = s.map fun _ => (1, some answer) := by
  unfold alone
  split
  · rename_i hn
    cases h.symm.trans hn
  · rename_i hs
    obtain rfl := Option.some.inj (h.symm.trans hs)
    split
    · rename_i ha
      cases hv.symm.trans ha
      rfl
    · rename_i ho
      cases hv.symm.trans ho

theorem alone_of_onward {s : Step Channel (Progress (Call half))} (h : call.advance owner c = some s)
    {next : Call half} (hv : s.value = .onward next) :
    call.alone owner c =
      ((next.alone owner s.state).map fun r => (r.1 + 1, r.2)).after s.effects := by
  rw [alone]
  split
  · rename_i hn
    cases h.symm.trans hn
  · rename_i hs
    obtain rfl := Option.some.inj (h.symm.trans hs)
    split
    · rename_i ha
      cases hv.symm.trans ha
    · rename_i ho
      cases hv.symm.trans ho
      rfl

theorem alone_prompt (p : Prompt half) (owner : Nat) (c : Channel) :
    ((prompt p).alone owner c).map Prod.snd = (p.run c).map some := by
  induction p, c using Prompt.run.induct with
  | case1 p c s answer =>
    rename_i hv
    have hv : (p.advance c).value = .answered answer := hv
    have hs : ((p.advance c).map (Progress.map prompt)).value = .answered answer := by
      rw [Step.value_map, hv]
      rfl
    rw [@alone_of_answered _ owner (prompt p) c _ rfl _ hs, Prompt.run_of_answered hv]
    rfl
  | case2 p c s rest =>
    rename_i hv ih
    have hv : (p.advance c).value = .onward rest := hv
    have hs : ((p.advance c).map (Progress.map prompt)).value = .onward (prompt rest) := by
      rw [Step.value_map, hv]
      rfl
    rw [@alone_of_onward _ owner (prompt p) c _ rfl _ hs, Prompt.run_of_onward hv]
    exact congrArg (Step.after · (p.advance c).effects) ih

section

variable (c : Channel) (room owner : Nat) (waker : Waker)

theorem alone_receive : ∃ steps, (receive room).alone owner c =
    ⟨(steps, (c.pipe.got? room).map fun result => .reply (.ofPull result)),
      { c with pipe := (c.pipe.pull room).state }, (c.pipe.pull room).effects⟩ := by
  cases hg : c.pipe.got? room with
  | none =>
    have hp := @Pipe.pull_of_unreadable c.pipe room (Pipe.readable_of_got?_none hg)
    refine ⟨0, ?_⟩
    rw [alone_of_waits (by simp [advance, hp]), hp]
    rfl
  | some pulled =>
    have hv := Pipe.value_pull_of_got? hg
    have hs : (receive room).advance owner c =
        some (c.lift ((c.pipe.pull room).map fun _ => .reply (.ofPull pulled))) := by
      cases pulled <;> simp [advance, hv, Except.map]
    exact ⟨1, alone_of_answered hs rfl⟩

theorem alone_tryReceive : ∃ steps, (prompt (.tryReceive room)).alone owner c =
    ⟨(steps, some ((c.pipe.got? room).elim (.reply .nothing) fun result => .reply (.ofPull result))),
      { c with pipe := (c.pipe.pull room).state }, (c.pipe.pull room).effects⟩ := by
  cases hg : c.pipe.got? room with
  | none =>
    have hp := @Pipe.pull_of_unreadable c.pipe room (Pipe.readable_of_got?_none hg)
    have hs : (prompt (.tryReceive room)).advance owner c =
        some (c.lift ((c.pipe.pull room).map fun _ => .reply .nothing)) := by
      simp only [advance, Prompt.advance, hp]
      rfl
    exact ⟨1, alone_of_answered hs rfl⟩
  | some pulled =>
    have hs : (prompt (.tryReceive room)).advance owner c =
        some (c.lift ((c.pipe.pull room).map fun _ => .reply (.ofPull pulled))) := by
      simp only [advance, Prompt.advance, Channel.lift, Step.within, Step.map, Pipe.value_pull_of_got? hg]
      cases pulled <;> rfl
    exact ⟨1, alone_of_answered hs rfl⟩

variable {c room}

theorem alone_read_of_idle (h : c.pipe.readable = false) :
    (read room).alone owner c =
      if c.nonblocking then .quiet (1, some (.reply (.failed (.bare .wouldBlock)))) c
      else .quiet (0, none) c := by
  have hp := @Pipe.pull_of_unreadable c.pipe room h
  split
  · rename_i hn
    have hs : (read room).advance owner c =
        some (.quiet (.reply (.failed (.bare .wouldBlock))) c) := by
      simp [advance, Channel.look, hp, hn]
      rfl
    exact alone_of_answered hs rfl
  · rename_i hn
    apply alone_of_waits
    simp [advance, Channel.look, hp, hn]

theorem alone_pollRead_of_idle (h : c.pipe.readable = false) :
    (prompt (.pollRead room waker)).alone owner c =
      .quiet (1, some (.polled .pending)) { c with pipe := c.pipe.park .read waker } := by
  have hs : (prompt (.pollRead room waker)).advance owner c =
      some (.quiet (.polled .pending) { c with pipe := c.pipe.park .read waker }) := by
    simp [advance, Prompt.advance, Channel.pollLook, Pipe.pollPull, c.pipe.pull_of_unreadable h]
    rfl
  exact alone_of_answered hs rfl

variable (c room)

theorem alone_read : ∃ steps ≤ 2, (read room).alone owner c =
    ⟨(steps, (c.pipe.heard? room).elim
        (if c.nonblocking then some (.reply (.failed (.bare .wouldBlock))) else none)
        fun result => some (.reply (.ofRead result))),
      { c with pipe := (c.pipe.pull room).state }, (c.pipe.pull room).effects⟩ := by
  have hh := c.pipe.hearing room
  generalize c.pipe.heard? room = heard at hh ⊢
  cases hh with
  | @settled pulled result hv hl =>
    have hs : (read room).advance owner c =
        some (c.lift ((c.pipe.pull room).map fun _ => .reply (.ofRead result))) := by
      simp only [advance, Channel.look_of_pull hv, hl]
      rfl
    exact ⟨1, by omega, alone_of_answered hs rfl⟩
  | idle hi =>
    rw [alone_read_of_idle owner hi, c.pipe.pull_of_unreadable hi]
    split
    · exact ⟨1, by omega, rfl⟩
    · exact ⟨0, by omega, rfl⟩
  | passed hr hv =>
    have hs : (read room).advance owner c =
        some (c.lift ((c.pipe.pull room).map fun _ => .onward (read room))) := by
      simp only [advance, Channel.look_of_empty hr hv]
      rfl
    have hi : (c.lift (c.pipe.pull room)).state.pipe.readable = false := Pipe.unreadable_of_empty hr hv
    have hnext := @alone_read_of_idle _ room owner hi
    rw [alone_of_onward hs rfl]
    refine ⟨((read room).alone owner (c.lift (c.pipe.pull room)).state).value.1 + 1, ?_, ?_⟩
    · rw [hnext]
      split <;> simp
    · simp only [Step.state_map, Channel.lift, Step.within] at hnext ⊢
      rw [hnext]
      by_cases hn : c.nonblocking = true <;> simp [hn, Step.map, Step.after, Step.quiet]

theorem alone_pollRead : ∃ steps ≤ 2, (prompt (.pollRead room waker)).alone owner c =
    ⟨(steps, some (.polled ((c.pipe.heard? room).elim .pending fun result => .ready (.ofRead result)))),
      { c with
        pipe := (c.pipe.heard? room).elim ((c.pipe.pull room).state.park .read waker)
          fun _ => (c.pipe.pull room).state },
      (c.pipe.pull room).effects⟩ := by
  have hh := c.pipe.hearing room
  generalize c.pipe.heard? room = heard at hh ⊢
  cases hh with
  | @settled pulled result hv hl =>
    have hs : (prompt (.pollRead room waker)).advance owner c =
        some (c.lift ((c.pipe.pull room).map fun _ => .polled (.ready (.ofRead result)))) := by
      simp only [advance, Prompt.advance, Channel.pollLook_of_pull hv, hl]
      rfl
    exact ⟨1, by omega, alone_of_answered hs rfl⟩
  | idle hi =>
    rw [alone_pollRead_of_idle owner waker hi, c.pipe.pull_of_unreadable hi]
    exact ⟨1, by omega, rfl⟩
  | passed hr hv =>
    have hs : (prompt (.pollRead room waker)).advance owner c =
        some (c.lift ((c.pipe.pull room).map fun _ => .onward (prompt (.pollRead room waker)))) := by
      simp only [advance, Prompt.advance, Channel.pollLook_of_empty hr hv]
      rfl
    have hi : (c.lift (c.pipe.pull room)).state.pipe.readable = false := Pipe.unreadable_of_empty hr hv
    have hnext := @alone_pollRead_of_idle _ room owner waker hi
    rw [alone_of_onward hs rfl]
    simp only [Step.state_map, Channel.lift, Step.within] at hnext ⊢
    rw [hnext]
    refine ⟨2, Nat.le_refl 2, ?_⟩
    simp [Step.map, Step.after, Step.quiet]

/-- A `receive` waits just when a `tryReceive` gets nothing, and a blocking read of the byte stream just when
a nonblocking one fails early and a poll is pending. Otherwise they answer alike. Whichever is made, it leaves
the same pipe and wakes the same wakers, but that the waker of a pending poll waits too. -/
theorem reads_agree (c : Channel) (room owner : Nat) (waker : Waker) :
    let received := (receive room).alone owner c
    let tried := (prompt (.tryReceive room)).alone owner c
    let blocking := (read room).alone owner { c with nonblocking := false }
    let failing := (read room).alone owner { c with nonblocking := true }
    let polled := (prompt (.pollRead room waker)).alone owner c
    (received.value.2 = none ∧ tried.value.2 = some (.reply .nothing) ∨
      ∃ result, received.value.2 = some (.reply (.ofPull result)) ∧
        tried.value.2 = some (.reply (.ofPull result))) ∧
    tried.state = received.state ∧ tried.effects = received.effects ∧
    (blocking.value.2 = none ∧ failing.value.2 = some (.reply (.failed (.bare .wouldBlock))) ∧
        polled.value.2 = some (.polled .pending) ∧
        polled.state = { c with pipe := blocking.state.pipe.park .read waker } ∨
      ∃ result, result ≠ .error (.bare .wouldBlock) ∧
        blocking.value.2 = some (.reply (.ofRead result)) ∧
        failing.value.2 = some (.reply (.ofRead result)) ∧
        polled.value.2 = some (.polled (.ready (.ofRead result))) ∧
        polled.state = { c with pipe := blocking.state.pipe }) ∧
    failing.state = { blocking.state with nonblocking := true } ∧
    failing.effects = blocking.effects ∧ polled.effects = blocking.effects ∧
    failing.value.1 ≤ 2 ∧ polled.value.1 ≤ 2 := by
  dsimp only
  obtain ⟨_, hreceived⟩ := alone_receive c room owner
  obtain ⟨_, htried⟩ := alone_tryReceive c room owner
  obtain ⟨_, -, hblocking⟩ := alone_read { c with nonblocking := false } room owner
  obtain ⟨n, hn, hfailing⟩ := alone_read { c with nonblocking := true } room owner
  obtain ⟨k, hk, hpolled⟩ := alone_pollRead c room owner waker
  rw [hreceived, htried, hblocking, hfailing, hpolled]
  refine ⟨?_, rfl, rfl, ?_, rfl, rfl, rfl, hn, hk⟩
  · cases c.pipe.got? room with
    | none => exact .inl ⟨rfl, rfl⟩
    | some result => exact .inr ⟨result, rfl, rfl⟩
  · have hh := c.pipe.hearing room
    cases hheard : c.pipe.heard? room with
    | none => exact .inl ⟨rfl, rfl, rfl, rfl⟩
    | some result =>
      rw [hheard] at hh
      exact .inr ⟨result, hh.ne_early, rfl, rfl, rfl, rfl⟩

end

end Call

end Handoff
