import Handoff.Call.Work

/-!
Threads. A task makes its calls on one handle in order, and holds the handle until it has ended.
-/

namespace Handoff

/-- A task borrows its handle together with others, owns it and gives it back at its end, or owns
it and drops it at its end. -/
inductive Mode
  | share
  | own
  | drop
  deriving DecidableEq, Repr

structure Task where
  id : Nat
  name : String
  half : Half
  mode : Mode
  made : Nat
  /-- The call under way and those after it. -/
  calls : List (Call half)

structure Event where
  task : String
  call : Nat
  answer : Answer
  deriving DecidableEq

namespace Task

def work (t : Task) : Nat :=
  1 + (t.calls.map Call.work).foldr (· + ·) 0

inductive Turn
  | working (task : Task) (event : Option Event)
  | ended

def Turn.work : Turn → Nat
  | working task _ => task.work
  | ended => 0

/-- The next step of a task: `none` while its call has to wait. When no call is left it ends, and
only then drops its handle if it is to. -/
def advance (t : Task) (c : Channel) : Option (Step Channel Turn) :=
  match t.calls with
  | [] =>
    if t.mode = .drop then some (c.lift ((c.pipe.close t.half none).map fun _ => .ended))
    else some (.quiet .ended c)
  | call :: rest => (call.advance t.id c).map fun s => s.map fun
    | .onward call => .working { t with calls := call :: rest } none
    | .answered answer =>
      .working { t with made := t.made + 1, calls := rest } (some ⟨t.name, t.made, answer⟩)

theorem work_advance {t : Task} {c : Channel} {s : Step Channel Turn} (h : t.advance c = some s) :
    s.state.unread + s.value.work < c.unread + t.work := by
  unfold advance at h
  split at h
  · split at h
    · obtain rfl := Option.some.inj h
      change (c.pipe.close t.half none).state.unread + 0 < c.pipe.unread + (1 + _)
      rw [Pipe.unread_close]
      omega
    · obtain rfl := Option.some.inj h
      change c.unread + 0 < c.unread + (1 + _)
      omega
  · rename_i call rest hc
    obtain ⟨l, hl, rfl⟩ := Option.map_eq_some_iff.mp h
    have := Call.work_advance hl
    simp only [Step.value_map, Step.state_map]
    split
    · rename_i hv
      simp only [hv, Progress.work] at this
      simp only [Turn.work, work, hc, List.map_cons, List.foldr_cons]
      omega
    · rename_i hv
      simp only [hv, Progress.work] at this
      simp only [Turn.work, work, hc, List.map_cons, List.foldr_cons]
      omega

end Task

end Handoff
