import Handoff.Session.Basic

/-!
Who goes next. A task that has its turn keeps it until it has to wait or has ended; then the
earliest spawned task that need not wait has its turn, over all links.
-/

namespace Handoff.Session

def roster (s : Session) : List (Nat × Task) :=
  (s.links.zipIdx.flatMap fun (l, link) => l.tasks.map (link, ·)).mergeSort
    fun a b => a.2.id ≤ b.2.id

def attempt (s : Session) (place : Nat × Nat) : Option ((Nat × Nat) × Session) :=
  (s.advance place.1 place.2).map (place, ·)

def turn (s : Session) (current : Option (Nat × Nat)) : Option ((Nat × Nat) × Session) :=
  (current.bind s.attempt).or (s.roster.findSome? fun (link, t) => s.attempt (link, t.id))

theorem work_attempt {s t : Session} {place next : Nat × Nat}
    (h : s.attempt place = some (next, t)) : t.work < s.work := by
  obtain ⟨u, hu, he⟩ := Option.map_eq_some_iff.mp h
  obtain ⟨rfl, rfl⟩ := Prod.mk.inj he
  exact work_advance hu

theorem work_turn {s t : Session} {current : Option (Nat × Nat)} {next : Nat × Nat}
    (h : s.turn current = some (next, t)) : t.work < s.work := by
  rcases Option.or_eq_some_iff.mp h with h | ⟨-, h⟩
  · obtain ⟨place, -, hp⟩ := Option.bind_eq_some_iff.mp h
    exact work_attempt hp
  · obtain ⟨place, -, hp⟩ := List.exists_of_findSome?_eq_some h
    exact work_attempt hp

/-- Runs until every task that is left has to wait. -/
def settleFrom (s : Session) (current : Option (Nat × Nat)) : Session :=
  match _h : s.turn current with
  | none => s
  | some (next, t) => t.settleFrom (some next)
termination_by s.work
decreasing_by exact work_turn _h

def settle (s : Session) : Session :=
  s.settleFrom none

end Handoff.Session
