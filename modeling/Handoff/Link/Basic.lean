import Handoff.Link.Task

/-!
A channel with the tasks that use it. Handles follow the rule of borrowing: any number of calls may
share a handle, and a call that needs it alone has to find it unused.
-/

namespace Handoff

structure Link where
  channel : Channel := {}
  readerGone : Bool := false
  writerGone : Bool := false
  tasks : List Task := []

inductive Refusal
  | dropped
  | inUse
  deriving DecidableEq, Repr

namespace Link

def gone (l : Link) : Half → Bool
  | .read => l.readerGone
  | .write => l.writerGone

def markGone (l : Link) : Half → Link
  | .read => { l with readerGone := true }
  | .write => { l with writerGone := true }

def owned (l : Link) (half : Half) : Bool :=
  l.tasks.any fun t => t.half = half && t.mode ≠ .share

def borrowed (l : Link) (half : Half) : Bool :=
  l.tasks.any fun t => t.half = half && t.mode = .share

def refusal? (l : Link) (half : Half) (exclusive : Bool) : Option Refusal :=
  if l.gone half then some .dropped
  else if l.owned half || exclusive && l.borrowed half then some .inUse
  else none

def perform (l : Link) {half : Half} (prompt : Prompt half) : Step Link Answer :=
  (prompt.run l.channel).within fun c => { l with channel := c }

def dropHandle (l : Link) (half : Half) : Step Link Unit :=
  (l.channel.lift (l.channel.pipe.close half none)).within fun c =>
    { l with channel := c }.markGone half

def spawn (l : Link) (task : Task) : Link :=
  { l with tasks := l.tasks ++ [task] }

/-- The tasks after a step of one of them, with the event of that step; `ended` is the task that
the step has ended. -/
structure Shift where
  tasks : List Task
  event : Option Event
  ended : Option Task

def Shift.ofTurn (t : Task) (rest : List Task) : Task.Turn → Shift
  | .working task event => ⟨task :: rest, event, none⟩
  | .ended => ⟨rest, none, some t⟩

/-- A step of the first task with the given number: `none` if it has to wait or has ended. -/
def shift (id : Nat) : List Task → Channel → Option (Step Channel Shift)
  | [], _ => none
  | t :: rest, c =>
    if t.id = id then (t.advance c).map fun s => s.map (.ofTurn t rest)
    else (shift id rest c).map fun s => s.map fun moved => { moved with tasks := t :: moved.tasks }

def accept (l : Link) (moved : Shift) (c : Channel) : Link :=
  let next := { l with channel := c, tasks := moved.tasks }
  match moved.ended with
  | some t => if t.mode = .drop then next.markGone t.half else next
  | none => next

def advance (l : Link) (id : Nat) : Option (Step Link (Option Event)) :=
  (shift id l.tasks l.channel).map fun s => ⟨s.value.event, l.accept s.value s.state, s.effects⟩

def work (l : Link) : Nat :=
  l.channel.unread + (l.tasks.map Task.work).foldr (· + ·) 0

theorem work_shift {id : Nat} {tasks : List Task} {c : Channel} {s : Step Channel Shift}
    (h : shift id tasks c = some s) :
    s.state.unread + (s.value.tasks.map Task.work).foldr (· + ·) 0
      < c.unread + (tasks.map Task.work).foldr (· + ·) 0 := by
  induction tasks generalizing s with
  | nil => simp [shift] at h
  | cons t rest ih =>
    unfold shift at h
    split at h
    · obtain ⟨l, hl, rfl⟩ := Option.map_eq_some_iff.mp h
      have := Task.work_advance hl
      cases hv : l.value <;>
        simp only [hv, Task.Turn.work, Shift.ofTurn, Step.value_map, Step.state_map, List.map_cons,
          List.foldr_cons] at this ⊢ <;> omega
    · obtain ⟨l, hl, rfl⟩ := Option.map_eq_some_iff.mp h
      have := ih hl
      simp only [Step.value_map, Step.state_map, List.map_cons, List.foldr_cons]
      omega

theorem work_markGone (l : Link) (half : Half) : (l.markGone half).work = l.work := by
  cases half <;> rfl

theorem work_accept (l : Link) (moved : Shift) (c : Channel) :
    (l.accept moved c).work = c.unread + (moved.tasks.map Task.work).foldr (· + ·) 0 := by
  unfold accept
  dsimp only
  split
  · split
    · rw [work_markGone]; rfl
    · rfl
  · rfl

theorem work_advance {l : Link} {id : Nat} {s : Step Link (Option Event)}
    (h : l.advance id = some s) : s.state.work < l.work := by
  obtain ⟨m, hm, rfl⟩ := Option.map_eq_some_iff.mp h
  rw [work_accept]
  exact work_shift hm

end Link

end Handoff
