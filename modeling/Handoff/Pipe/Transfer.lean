import Handoff.Pipe.Basic

/-!
How bytes go through a pipe. A read pulls from the front of the parcel. A write puts a parcel into
a pipe that no other write occupies, and takes out what is left of it at the end.
-/

namespace Handoff.Pipe

def advance (p : Pipe) (b : Parcel) (room : Nat) : Pipe :=
  if (b.advance room).lapsed then { p with occupied := false, parcel := none }
  else { p with parcel := some (b.advance room) }

/-- One read: nothing from a closed pipe, not even the rest of a parcel, and `none` while there is
nothing to read. -/
def pull (p : Pipe) (room : Nat) : Step Pipe (Except Reason (Option Bytes)) :=
  if p.closed then .quiet (.error (p.reason .read)) p
  else match p.available with
    | none => .quiet (.ok none) p
    | some b =>
      ((p.advance b room).announce.map fun _ => .ok (some (b.front room))).after
        [.handed room (b.front room)]

def place (p : Pipe) (origin : Origin) (bytes : Bytes) : Step Pipe Unit :=
  { p with occupied := true, parcel := some (.fresh origin bytes) }.announce.after
    [.placed origin bytes]

def vacate (p : Pipe) : Step Pipe Nat :=
  let passed := (p.parcel.map Parcel.passed).getD 0
  ({ p with occupied := false, parcel := none }.announce.map fun _ => passed).after
    [.vacated passed]

def enter (p : Pipe) (owner : Nat) (bytes : Bytes) : Option (Step Pipe (Except ShortWrite Unit)) :=
  if p.closed then some (.quiet (.error ⟨0, p.reason .write⟩) p)
  else if p.occupied then none
  else some ((p.place (.lent owner) bytes).map .ok)

/-- A blocking write leaves once its parcel is finished or the pipe is closed: `none` until then.
A write whose parcel is finished has succeeded, closed or not. -/
def leave (p : Pipe) : Option (Step Pipe (Except ShortWrite Nat)) :=
  let left := p.vacate
  if p.consumed then
    some ((left.map .ok).andThen [.logged (.consumed left.value)])
  else if p.closed then
    some (left.map fun written => .error ⟨written, p.reason .write⟩)
  else none

theorem available_eq_some {p : Pipe} {b : Parcel} (h : p.available = some b) :
    p.parcel = some b ∧ b.finished = false := by
  simpa [available, Option.filter_eq_some_iff] using h

theorem pull_cases (p : Pipe) (room : Nat) :
    (∃ result, (∀ bytes, result ≠ .ok (some bytes)) ∧ p.pull room = .quiet result p) ∨
      ∃ b, p.closed = false ∧ p.available = some b ∧
        p.pull room = ((p.advance b room).announce.map fun _ => .ok (some (b.front room))).after
          [.handed room (b.front room)] := by
  unfold pull
  cases hc : p.closed with
  | true => exact .inl ⟨_, by simp, rfl⟩
  | false =>
    cases hb : p.available with
    | none => exact .inl ⟨_, by simp, rfl⟩
    | some b => exact .inr ⟨b, rfl, rfl, rfl⟩

theorem enter_cases {p : Pipe} {owner : Nat} {bytes : Bytes}
    {s : Step Pipe (Except ShortWrite Unit)} (h : p.enter owner bytes = some s) :
    s = .quiet (.error ⟨0, p.reason .write⟩) p ∨
      p.closed = false ∧ p.occupied = false ∧ s = (p.place (.lent owner) bytes).map .ok := by
  unfold enter at h
  split at h
  · exact .inl (Option.some.inj h).symm
  · rename_i hc
    split at h
    · simp at h
    · rename_i ho
      exact .inr ⟨by simpa using hc, by simpa using ho, (Option.some.inj h).symm⟩

theorem leave_cases {p : Pipe} {s : Step Pipe (Except ShortWrite Nat)} (h : p.leave = some s) :
    p.leavable = true ∧ ∃ result log, s = (p.vacate.map fun _ => result).andThen log ∧
      ∀ e ∈ log, ∃ count, e = .logged (.consumed count) := by
  unfold leave at h
  dsimp only at h
  split at h
  · rename_i hc
    refine ⟨by simp [leavable, hc], .ok p.vacate.value, [.logged (.consumed p.vacate.value)], ?_, ?_⟩
    · exact (Option.some.inj h).symm
    · simp
  · split at h
    · rename_i hc
      refine ⟨by simp [leavable, hc], .error ⟨p.vacate.value, p.reason .write⟩, [], ?_, by simp⟩
      rw [← Option.some.inj h]
      simp [Step.andThen, Step.map]
    · simp at h

theorem value_pull_eq_none_iff (p : Pipe) (room : Nat) :
    (p.pull room).value = .ok none ↔ p.readable = false := by
  unfold pull readable
  split
  · simp [*]
  · split <;> simp [*]

theorem enter_eq_none_iff (p : Pipe) (owner : Nat) (bytes : Bytes) :
    p.enter owner bytes = none ↔ p.enterable = false := by
  unfold enter enterable
  split
  · simp [*]
  · split <;> simp [*]

theorem leave_eq_none_iff (p : Pipe) : p.leave = none ↔ p.leavable = false := by
  unfold leave leavable
  dsimp only
  split
  · simp [*]
  · split <;> simp [*]

@[simp] theorem unread_place (p : Pipe) (origin : Origin) (bytes : Bytes) :
    (p.place origin bytes).state.unread = bytes.length + 1 :=
  Parcel.unread_fresh origin bytes

@[simp] theorem unread_vacate (p : Pipe) : p.vacate.state.unread = 0 := rfl

theorem unread_advance (p : Pipe) (b : Parcel) (room : Nat) :
    (p.advance b room).unread ≤ (b.advance room).unread := by
  unfold advance
  split <;> simp [unread]

theorem unread_pull (p : Pipe) (room : Nat) : (p.pull room).state.unread ≤ p.unread := by
  rcases p.pull_cases room with ⟨result, -, he⟩ | ⟨b, -, hb, he⟩
  · rw [he]
    exact Nat.le_refl _
  · have hu : p.unread = b.unread := by simp [unread, (available_eq_some hb).1]
    have := p.unread_advance b room
    have := b.unread_advance room
    rw [he, Step.state_after, Step.state_map, unread_announce]
    omega

theorem unread_pull_lt {p : Pipe} {room : Nat} {bytes : Bytes}
    (h : (p.pull room).value = .ok (some bytes)) (hr : room ≠ 0 ∨ bytes ≠ []) :
    (p.pull room).state.unread < p.unread := by
  rcases p.pull_cases room with ⟨result, hn, he⟩ | ⟨b, -, hb, he⟩
  · rw [he] at h
    exact absurd h (hn bytes)
  · obtain ⟨hp, hf⟩ := available_eq_some hb
    have hv : b.front room = bytes := by simpa [he] using h
    have hu : p.unread = b.unread := by simp [unread, hp]
    have := p.unread_advance b room
    have := b.unread_advance_lt room hf (hv ▸ hr)
    rw [he, Step.state_after, Step.state_map, unread_announce]
    omega

theorem unread_leave {p : Pipe} {s : Step Pipe (Except ShortWrite Nat)} (h : p.leave = some s) :
    s.state.unread = 0 := by
  obtain ⟨-, result, log, rfl, -⟩ := leave_cases h
  exact unread_vacate p

theorem unread_enter {p : Pipe} {owner : Nat} {bytes : Bytes}
    {s : Step Pipe (Except ShortWrite Unit)} (h : p.enter owner bytes = some s) :
    s.state.unread ≤ p.unread + (bytes.length + 1) := by
  rcases enter_cases h with rfl | ⟨-, -, rfl⟩
  · exact Nat.le_add_right _ _
  · rw [Step.state_map, unread_place]
    exact Nat.le_add_left _ _

end Handoff.Pipe
