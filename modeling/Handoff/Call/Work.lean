import Handoff.Call.Basic

/-!
Every step of a call uses up work: bytes that wait to be read, bytes that a write has yet to put up,
or the call itself. So no call goes on for ever by itself, and neither do finitely many together.
-/

namespace Handoff

theorem Channel.unread_look {c : Channel} {room : Nat} {s : Step Channel Look}
    (h : c.look room = some s) : s.state.unread ≤ c.unread := by
  rcases look_cases h with ⟨result, -, rfl⟩ | ⟨-, -, rfl⟩
  · exact c.pipe.unread_pull room
  · exact c.pipe.unread_pull room

theorem Channel.unread_look_lt {c : Channel} {room : Nat} {s : Step Channel Look}
    (h : c.look room = some s)
    (hv : s.value = .skipped ∨ ∃ b bs, s.value = .settled (.ok (b :: bs))) :
    s.state.unread < c.unread := by
  rcases look_cases h with ⟨result, hp, rfl⟩ | ⟨-, -, rfl⟩
  · simp only [value_lift, Step.value_map] at hv
    cases result with
    | ok bytes =>
      apply Pipe.unread_pull_lt hp
      cases bytes with
      | cons => exact .inr (List.cons_ne_nil _ _)
      | nil =>
        refine .inl fun hr => ?_
        simp [Look.ofPull, hr] at hv
    | error reason => cases reason <;> simp [Look.ofPull, Stream.ofPull] at hv
  · simp at hv

theorem Channel.unread_pollLook (c : Channel) (room : Nat) (waker : Waker) :
    (c.pollLook room waker).state.unread ≤ c.unread := by
  have := c.pipe.unread_pull room
  simpa [pollLook, unread, Pipe.unread_pollPull] using this

theorem Channel.unread_pollLook_skipped {c : Channel} {room : Nat} {waker : Waker}
    (h : (c.pollLook room waker).value = .ready .skipped) :
    (c.pollLook room waker).state.unread < c.unread := by
  suffices (c.pipe.pull room).state.unread < c.unread by
    simpa [pollLook, Pipe.unread_pollPull] using this
  simp only [pollLook, value_lift, Step.value_map, Pipe.pollPull] at h
  split at h
  · rename_i bytes hb
    refine Pipe.unread_pull_lt hb (.inl fun hr => ?_)
    cases bytes <;> simp [Poll.map, Look.ofPull, hr] at h
  · simp [Poll.map] at h
  · rename_i reason hb
    simp [Poll.map, Look.ofPull] at h

def Progress.work {α : Type} (f : α → Nat) : Progress α → Nat
  | onward rest => f rest
  | answered _ => 0

namespace Prompt

def work {half : Half} : Prompt half → Nat
  | pollWrite slice _ => slice.bytes.length + 2
  | pollClose _ => 2
  | _ => 1

theorem work_pos {half : Half} (prompt : Prompt half) : 0 < prompt.work := by
  cases prompt <;> simp [work]

theorem work_advance {half : Half} (prompt : Prompt half) (c : Channel) :
    (prompt.advance c).state.unread + (prompt.advance c).value.work work
      < c.unread + prompt.work := by
  cases prompt with
  | tryReceive room =>
    have := c.pipe.unread_pull room
    simp only [advance, Step.value_map, Channel.value_lift, Channel.unread_lift, Step.state_map]
    split <;> simp only [Progress.reply, Progress.work, work, Channel.unread] <;> omega
  | pollRead room waker =>
    simp only [advance, Step.value_map, Step.state_map]
    have := c.unread_pollLook room waker
    split
    · simp only [Progress.polled, Progress.work, work]; omega
    · rename_i h
      have := Channel.unread_pollLook_skipped h
      simp only [Progress.work, work]; omega
    · simp only [Progress.polled, Progress.work, work]; omega
  | setNonblocking => simp [advance, Progress.reply, Progress.work, work, Channel.unread]
  | pollWrite slice waker =>
    have := c.unread_pollWrite slice waker
    simp only [advance, Step.value_map, Step.state_map, Progress.polled, Progress.work, work]
    omega
  | pollFlush waker =>
    have := c.unread_pollFlush waker
    simp only [advance, Step.value_map, Step.state_map, Progress.polled, Progress.work, work]
    omega
  | pollClose waker =>
    have := c.unread_pollFlush waker
    simp only [advance, Step.value_map, Step.state_map]
    split <;> simp only [Progress.polled, Progress.work, work] <;> omega
  | closeFlushed => simp [advance, Progress.polled, Progress.work, work, Channel.unread]
  | close => simp [advance, Progress.reply, Progress.work, work, Channel.unread]
  | isClosed => simp [advance, Progress.reply, Progress.work, work]
  | describe => simp [advance, Progress.reply, Progress.work, work]

/-- The prompt call with nobody in between. -/
def run {half : Half} (prompt : Prompt half) (c : Channel) : Step Channel Answer :=
  let s := prompt.advance c
  match _h : s.value with
  | .answered answer => s.map fun _ => answer
  | .onward rest => (rest.run s.state).after s.effects
termination_by c.unread + prompt.work
decreasing_by
  have := prompt.work_advance c
  simp only [s] at _h
  simpa [_h, Progress.work] using this

theorem run_of_answered {half : Half} {p : Prompt half} {c : Channel} {answer : Answer}
    (h : (p.advance c).value = .answered answer) : p.run c = (p.advance c).map fun _ => answer := by
  unfold run
  dsimp only
  split
  · rename_i hv
    rw [h] at hv
    cases hv
    rfl
  · rename_i hv
    rw [h] at hv
    cases hv

theorem run_of_onward {half : Half} {p rest : Prompt half} {c : Channel}
    (h : (p.advance c).value = .onward rest) :
    p.run c = (rest.run (p.advance c).state).after (p.advance c).effects := by
  rw [run]
  split
  · rename_i hv
    rw [h] at hv
    cases hv
  · rename_i hv
    rw [h] at hv
    cases hv
    rfl

end Prompt

namespace Call

def work {half : Half} : Call half → Nat
  | prompt p => p.work
  | send bytes false | write bytes false => bytes.length + 3
  | _ => 1

theorem work_pos {half : Half} (call : Call half) : 0 < call.work := by
  unfold work
  split <;> first | exact Prompt.work_pos _ | omega

theorem work_advance {half : Half} {owner : Nat} {call : Call half} {c : Channel}
    {s : Step Channel (Progress (Call half))} (h : call.advance owner c = some s) :
    s.state.unread + s.value.work work < c.unread + call.work := by
  cases call with
  | prompt p =>
    obtain rfl := Option.some.inj h
    have := p.work_advance c
    simp only [Step.value_map, Step.state_map, work]
    cases hv : (p.advance c).value <;> simpa [hv, Progress.map, Progress.work, work] using this
  | receive room =>
    obtain ⟨result, -, rfl⟩ := receive_cases h
    exact Nat.lt_succ_of_le (c.pipe.unread_pull room)
  | read room =>
    obtain ⟨l, hl, rfl⟩ := Option.map_eq_some_iff.mp h
    have := Channel.unread_look hl
    simp only [Step.value_map, Step.state_map]
    split
    · rename_i hv
      have := Channel.unread_look_lt hl (.inl hv)
      simp only [Progress.work, work]; omega
    · simp only [Progress.reply, Progress.work, work]; omega
  | drain room chunks =>
    obtain ⟨l, hl, rfl⟩ := Option.map_eq_some_iff.mp h
    have := Channel.unread_look hl
    simp only [Step.value_map, Step.state_map]
    split
    · rename_i hv
      have := Channel.unread_look_lt hl (.inl hv)
      simp only [Progress.work, work]; omega
    · simp only [Progress.reply, Progress.work, work]; omega
    · rename_i chunk hn hv
      cases chunk with
      | nil => exact absurd rfl hn
      | cons b bs =>
        have := Channel.unread_look_lt hl (.inr ⟨b, bs, hv⟩)
        simp only [Progress.work, work]; omega
    · simp only [Progress.reply, Progress.work, work]; omega
  | send bytes placed | write bytes placed =>
    cases placed with
    | false =>
      obtain ⟨l, hl, rfl⟩ := Option.map_eq_some_iff.mp h
      have := Pipe.unread_enter hl
      simp only [Channel.unread_lift, Channel.value_lift, Step.value_map, Step.state_map]
      split <;> simp only [Progress.reply, Progress.work, work, Channel.unread] <;> omega
    | true =>
      obtain ⟨l, hl, rfl⟩ := Option.map_eq_some_iff.mp h
      have := Pipe.unread_leave hl
      simp only [Channel.unread_lift, Channel.value_lift, Step.value_map, Step.state_map,
        Progress.reply, Progress.work, work]
      omega
  | flush =>
    obtain rfl := Option.some.inj h
    simp [Progress.reply, Progress.work, work]

end Call

end Handoff
