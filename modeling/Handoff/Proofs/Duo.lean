import Handoff.Proofs.Frozen
import Handoff.Proofs.Mirror
import Handoff.Proofs.Reasons

/-!
A writer and a reader on one pipe, each a thread with calls of its own, and every order in which they
can go on. A close takes three steps, for only at its last does it have the pipe to itself.
-/

namespace Handoff

/-- How far a close has got: with nothing, with its reason kept, or with the pipe shut. -/
inductive Stage
  | fresh
  | kept
  | shut
  deriving DecidableEq

def Stage.left : Stage → Nat
  | fresh => 2
  | kept => 1
  | shut => 0

structure Thread (half : Half) where
  id : Nat
  calls : List (Call half)
  stage : Stage := .fresh
  told : List Answer := []

namespace Thread

variable {half : Half}

def proceed (t : Thread half) (rest : List (Call half)) : Progress (Call half) → Thread half
  | .onward call => { t with calls := call :: rest, stage := .fresh }
  | .answered answer => { t with calls := rest, stage := .fresh, told := t.told ++ [answer] }

def advance (t : Thread half) (c : Channel) : Option (Channel × Thread half) :=
  match t.calls with
  | [] => none
  | call :: rest =>
    match call.closing, t.stage with
    | some reason, .fresh =>
      some ({ c with pipe := c.pipe.keepReason half (reason.getD (Pipe.defaultReason half)) },
        { t with stage := .kept })
    | some _, .kept => some ({ c with pipe := (c.pipe.shut half).state }, { t with stage := .shut })
    | _, _ => (call.advance t.id c).map fun s => (s.state, t.proceed rest s.value)

inductive Went (t : Thread half) (c : Channel) : Channel → Thread half → Prop
  | kept {call : Call half} {rest : List (Call half)} {reason : Option Reason}
      (hc : t.calls = call :: rest) (hr : call.closing = some reason) (hs : t.stage = .fresh) :
      Went t c { c with pipe := c.pipe.keepReason half (reason.getD (Pipe.defaultReason half)) }
        { t with stage := .kept }
  | shut {call : Call half} {rest : List (Call half)} {reason : Option Reason}
      (hc : t.calls = call :: rest) (hr : call.closing = some reason) (hs : t.stage = .kept) :
      Went t c { c with pipe := (c.pipe.shut half).state } { t with stage := .shut }
  | called {call : Call half} {rest : List (Call half)} {s : Step Channel (Progress (Call half))}
      (hc : t.calls = call :: rest) (hs : call.closing.isSome → t.stage = .shut)
      (h : call.advance t.id c = some s) : Went t c s.state (t.proceed rest s.value)

theorem went_iff {t u : Thread half} {c d : Channel} :
    t.advance c = some (d, u) ↔ t.Went c d u := by
  constructor
  · intro h
    unfold advance at h
    split at h
    · simp at h
    · rename_i call rest hc
      split at h
      · rename_i hr hs
        obtain ⟨rfl, rfl⟩ := Prod.mk.inj (Option.some.inj h)
        exact .kept hc hr hs
      · rename_i hr hs
        obtain ⟨rfl, rfl⟩ := Prod.mk.inj (Option.some.inj h)
        exact .shut hc hr hs
      · rename_i hf hk
        obtain ⟨s, hs, he⟩ := Option.map_eq_some_iff.mp h
        obtain ⟨rfl, rfl⟩ := Prod.mk.inj he
        refine .called hc ?_ hs
        intro hcl
        obtain ⟨reason, hr⟩ := Option.isSome_iff_exists.mp hcl
        cases hst : t.stage with
        | fresh => exact absurd hst (hf reason hr)
        | kept => exact absurd hst (hk reason hr)
        | shut => rfl
  · intro h
    cases h with
    | kept hc hr hs => simp only [advance, hc, hr, hs]
    | shut hc hr hs => simp only [advance, hc, hr, hs]
    | called hc hs h =>
      rename_i call rest s
      cases hr : call.closing with
      | none => simp only [advance, hc, hr, h]; rfl
      | some reason =>
        have hst := hs (by simp [hr])
        simp only [advance, hc, hr, hst, h]
        rfl

def work (t : Thread half) : Nat :=
  3 * (t.calls.map Call.work).foldr (· + ·) 0 + t.stage.left

theorem work_went {t u : Thread half} {c d : Channel} (h : t.Went c d u) :
    3 * d.unread + u.work < 3 * c.unread + t.work := by
  cases h with
  | @kept call rest reason hc hr hs =>
    have hu : (c.pipe.keepReason half (reason.getD (Pipe.defaultReason half))).unread =
        c.pipe.unread := by
      cases half <;> rfl
    simp only [work, Channel.unread, hu, hs, Stage.left]
    omega
  | shut hc hr hs =>
    have hu : (c.pipe.shut half).state.unread = c.pipe.unread := rfl
    simp only [work, Channel.unread, hu, hs, Stage.left]
    omega
  | @called call rest s hc hs hr =>
    have hwork := Call.work_advance hr
    have hleft : t.stage.left ≤ 2 := by cases t.stage <;> decide
    cases hv : s.value with
    | onward next =>
      simp only [hv, Progress.work] at hwork
      simp only [work, proceed, hc, List.map_cons, List.foldr_cons, Stage.left]
      omega
    | answered answer =>
      simp only [hv, Progress.work] at hwork
      simp only [work, proceed, hc, List.map_cons, List.foldr_cons, Stage.left]
      omega

end Thread

structure Duo where
  channel : Channel
  writer : Thread .write
  reader : Thread .read

namespace Duo

def opened (settings : Settings) (writer : Nat × List (Call .write))
    (reader : Nat × List (Call .read)) : Duo where
  channel := settings.opened
  writer := { id := writer.1, calls := writer.2 }
  reader := { id := reader.1, calls := reader.2 }

def advance (d : Duo) : Half → Option Duo
  | .write => (d.writer.advance d.channel).map fun r => { d with channel := r.1, writer := r.2 }
  | .read => (d.reader.advance d.channel).map fun r => { d with channel := r.1, reader := r.2 }

def play (d : Duo) : List Half → Option Duo
  | [] => some d
  | half :: rest => (d.advance half).bind fun e => e.play rest

def work (d : Duo) : Nat :=
  3 * d.channel.unread + d.writer.work + d.reader.work

theorem work_advance {d e : Duo} {half : Half} (h : d.advance half = some e) : e.work < d.work := by
  cases half with
  | write =>
    obtain ⟨⟨c, w⟩, hw, rfl⟩ := Option.map_eq_some_iff.mp h
    have := Thread.work_went (Thread.went_iff.mp hw)
    simp only [work]
    omega
  | read =>
    obtain ⟨⟨c, r⟩, hr, rfl⟩ := Option.map_eq_some_iff.mp h
    have := Thread.work_went (Thread.went_iff.mp hr)
    simp only [work]
    omega

theorem play_length {d e : Duo} {schedule : List Half} (h : d.play schedule = some e) :
    schedule.length + e.work ≤ d.work := by
  induction schedule generalizing d with
  | nil =>
    obtain rfl := Option.some.inj h
    exact Nat.le_of_eq (Nat.zero_add _)
  | cons half rest ih =>
    obtain ⟨a, ha, hr⟩ := Option.bind_eq_some_iff.mp h
    have hlt := work_advance ha
    have hle := ih hr
    rw [List.length_cons]
    omega

def Stuck (d : Duo) : Prop :=
  ∀ half, d.advance half = none

end Duo

end Handoff
