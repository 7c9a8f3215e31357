import Handoff.Call.Work
import Handoff.Proofs.Change

/-!
What a step of a call does to the channel. Only a blocking write lends bytes, and it is the only one
that takes them out again.
-/

namespace Handoff

/-- The bytes of the caller's own that a call has in the pipe. -/
def Call.lending {half : Half} : Call half → Option Bytes
  | send bytes true | write bytes true => some bytes
  | _ => none

def Progress.lending {half : Half} : Progress (Call half) → Option Bytes
  | onward call => call.lending
  | answered _ => none

/-- A step from a call that lends the first bytes to one that lends the second. -/
inductive Section (owner : Nat) : Option Bytes → Channel → List Effect → Channel → Option Bytes → Prop
  | pull {c : Channel} {b : Parcel} (room : Nat) (hc : c.pipe.closed = false)
      (hb : c.pipe.available = some b) :
      Section owner none c
        (.handed room (b.front room) :: (c.pipe.advance b room).announce.effects)
        { c with pipe := (c.pipe.advance b room).announce.state } none
  | enter {c : Channel} (bytes : Bytes) (hc : c.pipe.closed = false) (ho : c.pipe.occupied = false) :
      Section owner none c (c.pipe.place (.lent owner) bytes).effects
        { c with pipe := (c.pipe.place (.lent owner) bytes).state } (some bytes)
  | leave {c : Channel} (bytes : Bytes) {log : List Effect} (hl : c.pipe.leavable = true)
      (he : ∀ e ∈ log, ∃ count, e = .logged (.consumed count)) :
      Section owner (some bytes) c (c.pipe.vacate.effects ++ log)
        { c with pipe := c.pipe.vacate.state } none
  | other {c d : Channel} {es : List Effect} (h : c.Changes es d) : Section owner none c es d none

theorem Pipe.pull_of_unreadable (p : Pipe) {room : Nat} (h : p.readable = false) :
    p.pull room = .quiet (.ok none) p := by
  unfold Pipe.pull
  simp only [Pipe.readable, Bool.or_eq_false_iff, Option.isSome_eq_false_iff,
    Option.isNone_iff_eq_none] at h
  simp [h.1, h.2]

theorem Pipe.pull_of_available {p : Pipe} {b : Parcel} (hc : p.closed = false)
    (ha : p.available = some b) (room : Nat) :
    p.pull room = ((p.advance b room).announce.map fun _ => .ok (some (b.front room))).after
      [.handed room (b.front room)] := by
  rw [Pipe.pull, if_neg (by simp [hc]), ha]

namespace Section

variable {owner : Nat} {c : Channel}

theorem quiet (c : Channel) : Section owner none c [] c none :=
  .other (.nil c)

theorem of_pull (c : Channel) (room : Nat) :
    Section owner none c (c.pipe.pull room).effects { c with pipe := (c.pipe.pull room).state } none := by
  rcases c.pipe.pull_cases room with ⟨result, -, he⟩ | ⟨b, hc, hb, he⟩
  · rw [he]
    exact quiet c
  · rw [he]
    exact .pull room hc hb

theorem of_pollPull (c : Channel) (room : Nat) (waker : Waker) :
    Section owner none c (c.pipe.pollPull room waker).effects
      { c with pipe := (c.pipe.pollPull room waker).state } none := by
  unfold Pipe.pollPull
  dsimp only
  split
  · exact of_pull c room
  · rename_i h
    have hr := (c.pipe.value_pull_eq_none_iff room).mp h
    rw [c.pipe.pull_of_unreadable hr]
    exact .other (@Channel.Change.await c .read waker hr).changes
  · exact of_pull c room

theorem of_look {room : Nat} {s : Step Channel Channel.Look} (h : c.look room = some s) :
    Section owner none c s.effects s.state none := by
  rcases Channel.look_cases h with ⟨result, -, rfl⟩ | ⟨-, -, rfl⟩
  · exact of_pull c room
  · exact of_pull c room

theorem of_prompt {half : Half} (p : Prompt half) (c : Channel) :
    Section owner none c (p.advance c).effects (p.advance c).state none := by
  cases p with
  | tryReceive room => exact of_pull c room
  | pollRead room waker => exact of_pollPull c room waker
  | setNonblocking on => exact .other (Channel.Change.mode c on).changes
  | pollWrite slice waker => exact .other (c.changes_pollWrite slice waker)
  | pollFlush waker => exact .other (c.changes_pollFlush waker)
  | pollClose waker => exact .other (c.changes_pollFlush waker)
  | closeFlushed => exact .other (Channel.Change.close c .write none).changes
  | close reason => exact .other (Channel.Change.close c half reason).changes
  | isClosed => exact quiet c
  | describe => exact quiet c

theorem of_enter {bytes : Bytes} {s : Step Pipe (Except ShortWrite Unit)}
    (h : c.pipe.enter owner bytes = some s) :
    (∃ short, s.value = .error short ∧ Section owner none c s.effects { c with pipe := s.state } none) ∨
      (s.value = .ok () ∧ Section owner none c s.effects { c with pipe := s.state } (some bytes)) := by
  rcases Pipe.enter_cases h with rfl | ⟨hc, ho, rfl⟩
  · exact .inl ⟨_, rfl, quiet c⟩
  · exact .inr ⟨rfl, .enter bytes hc ho⟩

theorem of_leave {bytes : Bytes} {s : Step Pipe (Except ShortWrite Nat)}
    (h : c.pipe.leave = some s) :
    Section owner (some bytes) c s.effects { c with pipe := s.state } none := by
  obtain ⟨hl, result, log, rfl, he⟩ := Pipe.leave_cases h
  exact .leave bytes hl he

end Section

theorem Call.section_of_advance {half : Half} {owner : Nat} {call : Call half} {c : Channel}
    {s : Step Channel (Progress (Call half))} (h : call.advance owner c = some s) :
    Section owner call.lending c s.effects s.state s.value.lending := by
  cases call with
  | prompt p =>
    obtain rfl := Option.some.inj h
    have hp : ((p.advance c).value.map Call.prompt).lending = none := by
      cases (p.advance c).value <;> rfl
    rw [Step.value_map, hp]
    exact .of_prompt p c
  | receive room =>
    obtain ⟨result, -, rfl⟩ := receive_cases h
    exact .of_pull c room
  | read room =>
    obtain ⟨l, hl, rfl⟩ := Option.map_eq_some_iff.mp h
    have hs : Section owner none c l.effects l.state none := .of_look hl
    simp only [Step.value_map]
    split <;> exact hs
  | drain room chunks =>
    obtain ⟨l, hl, rfl⟩ := Option.map_eq_some_iff.mp h
    have hs : Section owner none c l.effects l.state none := .of_look hl
    simp only [Step.value_map]
    split <;> exact hs
  | send bytes placed | write bytes placed =>
    cases placed with
    | false =>
      obtain ⟨l, hl, rfl⟩ := Option.map_eq_some_iff.mp h
      rcases Section.of_enter hl with ⟨short, hv, hs⟩ | ⟨hv, hs⟩
      · simp only [Channel.value_lift, Step.value_map, hv]
        exact hs
      · simp only [Channel.value_lift, Step.value_map, hv]
        exact hs
    | true =>
      obtain ⟨l, hl, rfl⟩ := Option.map_eq_some_iff.mp h
      exact .of_leave hl
  | flush =>
    obtain rfl := Option.some.inj h
    exact .quiet c

end Handoff
