import Handoff.Proofs.Loan

/-!
What a call tells of the bytes that its reads were handed.
-/

namespace Handoff

def solid (pieces : List Bytes) : List Bytes :=
  pieces.filter fun bytes => !bytes.isEmpty

@[simp] theorem solid_nil : solid [] = [] := rfl
@[simp] theorem solid_empty : solid [[]] = [] := rfl

theorem Pipe.handed_pull (p : Pipe) (room : Nat) :
    handed (p.pull room).effects = match (p.pull room).value with
      | .ok (some bytes) => [bytes]
      | _ => [] := by
  rcases p.pull_cases room with ⟨result, hn, he⟩ | ⟨b, -, -, he⟩
  · rw [he, Step.value_quiet]
    split
    · exact absurd rfl (hn _)
    · rfl
  · rw [he]
    exact congrArg (_ :: ·) (handed_announce _)

theorem Pipe.handed_of_pull {p : Pipe} {room : Nat} {result : Except Reason Bytes}
    (h : (p.pull room).value = Except.map some result) :
    handed (p.pull room).effects = result.toOption.toList := by
  rw [handed_pull, h]
  cases result <;> rfl

theorem Pipe.handed_of_idle {p : Pipe} {room : Nat} (h : (p.pull room).value = .ok none) :
    handed (p.pull room).effects = [] := by
  rw [handed_pull, h]

theorem Pipe.handed_pollPull (p : Pipe) (room : Nat) (waker : Waker) :
    handed (p.pollPull room waker).effects = match (p.pollPull room waker).value with
      | .ready result => result.toOption.toList
      | .pending => [] := by
  unfold pollPull
  dsimp only
  split
  · rename_i bytes hv
    exact @handed_of_pull p room (.ok bytes) hv
  · rename_i hv
    exact handed_of_idle hv
  · rename_i reason hv
    exact @handed_of_pull p room (.error reason) hv

theorem Pipe.handed_enter {p : Pipe} {owner : Nat} {bytes : Bytes}
    {s : Step Pipe (Except ShortWrite Unit)} (h : p.enter owner bytes = some s) :
    handed s.effects = [] := by
  rcases enter_cases h with rfl | ⟨-, -, rfl⟩
  · rfl
  · exact handed_place p _ bytes

theorem Pipe.handed_leave {p : Pipe} {s : Step Pipe (Except ShortWrite Nat)}
    (h : p.leave = some s) : handed s.effects = [] := by
  obtain ⟨-, result, log, rfl, hl⟩ := leave_cases h
  rw [Step.effects_andThen, handed_append, Step.effects_map, handed_vacate, List.nil_append,
    handed_of_consumed hl]

def Poll.gains {α : Type} (f : α → List Bytes) : Poll α → List Bytes
  | pending => []
  | ready value => f value

namespace Channel

def Look.gains : Look → List Bytes
  | skipped => []
  | settled (.ok bytes) => solid [bytes]
  | settled (.error _) => []

theorem Look.gains_ofPull (room : Nat) (result : Except Reason Bytes) :
    (Look.ofPull room result).gains = solid result.toOption.toList := by
  cases result with
  | ok bytes =>
    cases bytes with
    | nil => by_cases hr : room = 0 <;> simp [Look.ofPull, gains, hr, Except.toOption]
    | cons b bs => rfl
  | error reason => cases reason <;> rfl

theorem gains_look {c : Channel} {room : Nat} {s : Step Channel Look} (h : c.look room = some s) :
    s.value.gains = solid (handed s.effects) := by
  rcases look_cases h with ⟨result, hv, rfl⟩ | ⟨hv, -, rfl⟩
  · rw [effects_lift, Step.effects_map, Pipe.handed_of_pull hv]
    exact Look.gains_ofPull room result
  · rw [effects_lift, Step.effects_map, Pipe.handed_of_idle hv]
    rfl

theorem gains_pollLook (c : Channel) (room : Nat) (waker : Waker) :
    (c.pollLook room waker).value.gains Look.gains =
      solid (handed (c.pollLook room waker).effects) := by
  simp only [pollLook, effects_lift, Step.effects_map, value_lift, Step.value_map,
    Pipe.handed_pollPull]
  cases (c.pipe.pollPull room waker).value with
  | pending => rfl
  | ready result => exact Look.gains_ofPull room result

end Channel

def Answer.gains : Answer → List Bytes
  | .reply (.bytes got) | .polled (.ready (.bytes got)) => solid [got]
  | .reply (.drained chunks _) => chunks
  | _ => []

theorem Answer.gains_ofSend (result : Except ShortWrite Nat) :
    (Answer.reply (.ofSend result)).gains = [] := by
  cases result <;> rfl

theorem Answer.gains_ofWrite (result : Except Failure Nat) :
    (Answer.reply (.ofWrite result)).gains = [] := by
  cases result <;> rfl

/-- What a call keeps of the bytes it was handed before. -/
def Call.gains {half : Half} : Call half → List Bytes
  | drain _ chunks => chunks.reverse
  | _ => []

def Progress.gains {α : Type} (f : α → List Bytes) : Progress α → List Bytes
  | onward rest => f rest
  | answered answer => answer.gains

theorem Prompt.gains_advance {half : Half} (p : Prompt half) (c : Channel) :
    (p.advance c).value.gains (fun _ => []) = solid (handed (p.advance c).effects) := by
  cases p with
  | tryReceive room =>
    simp only [advance, Channel.effects_lift, Step.effects_map, Channel.value_lift, Step.value_map,
      Pipe.handed_pull]
    split
    · rename_i bytes hv
      rw [hv]
      rfl
    · rename_i hv
      rw [hv]
      rfl
    · rename_i reason hv
      rw [hv]
      rfl
  | pollRead room waker =>
    simp only [advance, Step.effects_map, Step.value_map, ← c.gains_pollLook room waker]
    cases (c.pollLook room waker).value with
    | pending => rfl
    | ready look =>
      cases look with
      | skipped => rfl
      | settled result => cases result <;> rfl
  | pollWrite slice waker =>
    simp only [advance, Step.effects_map, Step.value_map, (c.changes_pollWrite slice waker).handed_eq]
    cases (c.pollWrite slice waker).value with
    | pending => rfl
    | ready result =>
      rw [Poll.map]
      cases Stream.ofWrite result <;> rfl
  | pollFlush waker =>
    simp only [advance, Step.effects_map, Step.value_map, (c.changes_pollFlush waker).handed_eq]
    cases (c.pollFlush waker).value with
    | pending => rfl
    | ready result => cases result <;> rfl
  | pollClose waker =>
    simp only [advance, Step.effects_map, Step.value_map, (c.changes_pollFlush waker).handed_eq]
    split <;> rfl
  | closeFlushed flushed =>
    have hh := congrArg solid (Channel.Change.close c .write none).handed_eq
    cases flushed <;> exact hh.symm
  | close reason => exact congrArg solid (Channel.Change.close c half reason).handed_eq.symm
  | setNonblocking on => rfl
  | isClosed => rfl
  | describe => rfl

theorem Call.gains_advance {half : Half} {owner : Nat} {call : Call half} {c : Channel}
    {s : Step Channel (Progress (Call half))} (h : call.advance owner c = some s) :
    s.value.gains Call.gains = call.gains ++ solid (handed s.effects) := by
  cases call with
  | prompt p =>
    obtain rfl := Option.some.inj h
    have hp := p.gains_advance c
    simp only [Step.value_map, Step.effects_map]
    rw [← hp]
    cases (p.advance c).value <;> rfl
  | receive room =>
    obtain ⟨result, hv, rfl⟩ := receive_cases h
    rw [Channel.effects_lift, Step.effects_map, Pipe.handed_of_pull hv]
    cases result <;> rfl
  | read room =>
    obtain ⟨l, hl, rfl⟩ := Option.map_eq_some_iff.mp h
    simp only [Step.value_map, Step.effects_map, ← Channel.gains_look hl]
    cases l.value with
    | skipped => rfl
    | settled result => cases result <;> rfl
  | drain room chunks =>
    obtain ⟨l, hl, rfl⟩ := Option.map_eq_some_iff.mp h
    simp only [Step.value_map, Step.effects_map, ← Channel.gains_look hl]
    cases l.value with
    | skipped => exact (List.append_nil _).symm
    | settled result =>
      cases result with
      | error failure => exact (List.append_nil _).symm
      | ok chunk =>
        cases chunk with
        | nil => exact (List.append_nil _).symm
        | cons b bs => exact List.reverse_cons
  | send bytes placed =>
    cases placed with
    | false =>
      obtain ⟨l, hl, rfl⟩ := Option.map_eq_some_iff.mp h
      simp only [Channel.effects_lift, Step.effects_map, Pipe.handed_enter hl, Channel.value_lift,
        Step.value_map]
      cases l.value <;> rfl
    | true =>
      obtain ⟨l, hl, rfl⟩ := Option.map_eq_some_iff.mp h
      simp only [Channel.effects_lift, Step.effects_map, Pipe.handed_leave hl, Channel.value_lift,
        Step.value_map]
      exact Answer.gains_ofSend l.value
  | write bytes placed =>
    cases placed with
    | false =>
      obtain ⟨l, hl, rfl⟩ := Option.map_eq_some_iff.mp h
      simp only [Channel.effects_lift, Step.effects_map, Pipe.handed_enter hl, Channel.value_lift,
        Step.value_map]
      cases l.value with
      | ok => rfl
      | error short => exact Answer.gains_ofWrite _
    | true =>
      obtain ⟨l, hl, rfl⟩ := Option.map_eq_some_iff.mp h
      simp only [Channel.effects_lift, Step.effects_map, Pipe.handed_leave hl, Channel.value_lift,
        Step.value_map]
      exact Answer.gains_ofWrite _
  | flush =>
    obtain rfl := Option.some.inj h
    rfl

end Handoff
