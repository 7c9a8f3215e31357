import Handoff.Link.Basic

/-!
Several links side by side, with the buffers that polled writes are made from. A session remembers
what its reports have yet to tell.
-/

namespace Handoff

inductive Note
  | event (event : Event)
  | logged (entry : Entry)
  | woke (name : String)
  deriving DecidableEq

/-- Only log entries and the waking of named wakers are heard of. -/
def Note.ofEffect? : Effect → Option Note
  | .logged entry => some (logged entry)
  | .woke (.named name) => some (woke name)
  | _ => none

structure Session where
  links : List Link
  buffers : List (String × Bytes)
  spawned : Nat := 0
  /-- What is to be reported, the latest first. -/
  notes : List Note := []

namespace Session

def note (s : Session) (notes : List Note) : Session :=
  { s with notes := notes.reverse ++ s.notes }

def accept {α : Type} (s : Session) (link : Nat) (step : Step Link α) : Session :=
  { s with links := s.links.set link step.state }.note (step.effects.filterMap Note.ofEffect?)

def advance (s : Session) (link id : Nat) : Option Session := do
  let l ← s.links[link]?
  let step ← l.advance id
  return (s.accept link step).note (step.value.toList.map .event)

def work (s : Session) : Nat :=
  (s.links.map Link.work).foldr (· + ·) 0

theorem sum_map_set {α : Type} (f : α → Nat) {xs : List α} {i : Nat} {x : α} (y : α)
    (h : xs[i]? = some x) :
    ((xs.set i y).map f).foldr (· + ·) 0 + f x = (xs.map f).foldr (· + ·) 0 + f y := by
  induction xs generalizing i with
  | nil => simp at h
  | cons a as ih =>
    cases i with
    | zero =>
      obtain rfl : a = x := by simpa using h
      simp only [List.set_cons_zero, List.map_cons, List.foldr_cons]
      omega
    | succ i =>
      have := ih (by simpa using h)
      simp only [List.set_cons_succ, List.map_cons, List.foldr_cons]
      omega

theorem work_advance {s t : Session} {link id : Nat} (h : s.advance link id = some t) :
    t.work < s.work := by
  simp only [advance, Option.bind_eq_bind, Option.bind_eq_some_iff] at h
  obtain ⟨l, hl, step, hs, ht⟩ := h
  obtain rfl := Option.some.inj ht
  have := Link.work_advance hs
  have := sum_map_set Link.work step.state hl
  simp only [work, note, accept]
  omega

end Session

end Handoff
