import Handoff.Proofs.Loan
import Handoff.Proofs.Reasons

/-!
Two channels that differ in whose bytes they hold: one has been lent them, the other has a copy. Reads
and closes cannot tell them apart.
-/

namespace Handoff

def Parcel.copy (stamp : UInt64) (b : Parcel) : Parcel :=
  { b with origin := .copied stamp }

/-- The second channel has a copy of what the first has been lent, until readers have all of it. The
offer is what has been lent, and by whom. -/
structure Abreast (offer : Option (Nat × Bytes)) (stamp : UInt64) (c d : Channel) : Prop where
  nonblocking : d.nonblocking = c.nonblocking
  closed : d.pipe.closed = c.pipe.closed
  ownReason : ∀ half, d.pipe.ownReason half = c.pipe.ownReason half
  offered : c.pipe.parcel.map (fun b => (b.origin, b.bytes)) = offer.map fun o => (.lent o.1, o.2)
  parcel : d.pipe.parcel = c.pipe.available.map (Parcel.copy stamp)

structure InStep {α : Type} (offer : Option (Nat × Bytes)) (stamp : UInt64) (s q : Step Channel α) :
    Prop where
  value : q.value = s.value
  state : Abreast offer stamp s.state q.state

inductive Pacing {α : Type} (offer : Option (Nat × Bytes)) (stamp : UInt64) :
    Option (Step Channel α) → Option (Step Channel α) → Prop
  | wait : Pacing offer stamp none none
  | go {s q : Step Channel α} (h : InStep offer stamp s q) : Pacing offer stamp (some s) (some q)

section

variable {offer : Option (Nat × Bytes)} {stamp : UInt64} {c d : Channel} {α β : Type}

theorem InStep.map {s q : Step Channel α} (h : InStep offer stamp s q) (f : α → β) :
    InStep offer stamp (s.map f) (q.map f) :=
  ⟨congrArg f h.value, h.state⟩

theorem InStep.mapLift {p r : Step Pipe α} (h : InStep offer stamp (c.lift p) (d.lift r))
    (f : α → β) :
    InStep offer stamp (c.lift (p.map f)) (d.lift (r.map f)) :=
  h.map f

theorem Pacing.map {s q : Option (Step Channel α)} (h : Pacing offer stamp s q) (f : α → β) :
    Pacing offer stamp (s.map fun r => r.map f) (q.map fun r => r.map f) := by
  cases h with
  | wait => exact .wait
  | go h => exact .go (h.map f)

namespace Abreast

theorem quiet (h : Abreast offer stamp c d) (a : α) : InStep offer stamp (.quiet a c) (.quiet a d) :=
  ⟨rfl, h⟩

theorem reason (h : Abreast offer stamp c d) (half : Half) :
    d.pipe.reason half = c.pipe.reason half := by
  rw [Pipe.reason, h.ownReason, h.ownReason]
  rfl

theorem available (h : Abreast offer stamp c d) :
    d.pipe.available = c.pipe.available.map (Parcel.copy stamp) := by
  rw [Pipe.available, h.parcel]
  cases hb : c.pipe.available with
  | none => rfl
  | some b =>
    have hf : (b.copy stamp).finished = false := (Pipe.available_eq_some hb).2
    simp [hf]

theorem lent (h : Abreast offer stamp c d) {b : Parcel} (hb : c.pipe.parcel = some b) :
    ∃ owner, b.origin = .lent owner ∧ offer = some (owner, b.bytes) := by
  have ho := h.offered
  rw [hb] at ho
  cases offer with
  | none => simp at ho
  | some o =>
    obtain ⟨hl, hd⟩ := Prod.mk.inj (Option.some.inj ho)
    exact ⟨o.1, hl, by rw [hd]⟩

/-- The parcel of the first channel and that of the second after a read that meets both. A copy goes as
soon as it is finished. -/
theorem advance (h : Abreast offer stamp c d) {b : Parcel} (hb : c.pipe.available = some b)
    (room : Nat) :
    Abreast offer stamp { c with pipe := (c.pipe.advance b room).announce.state }
      { d with pipe := (d.pipe.advance (b.copy stamp) room).announce.state } := by
  obtain ⟨hp, -⟩ := Pipe.available_eq_some hb
  obtain ⟨owner, hl, -⟩ := h.lent hp
  have hk : ((b.copy stamp).advance room).lapsed = (b.advance room).finished := Bool.and_true _
  rw [c.pipe.advance_of_lent hl]
  have ho := h.offered
  rw [hp] at ho
  unfold Pipe.advance
  rw [hk]
  cases hf : (b.advance room).finished with
  | true =>
    refine ⟨h.nonblocking, h.closed, h.ownReason, ho, ?_⟩
    simp only [Pipe.available, Pipe.parcel_announce, Option.filter_some, hf]
    rfl
  | false =>
    refine ⟨h.nonblocking, h.closed, h.ownReason, ho, ?_⟩
    simp only [Pipe.available, Pipe.parcel_announce, Option.filter_some, hf]
    rfl

theorem pull (h : Abreast offer stamp c d) (room : Nat) :
    InStep offer stamp (c.lift (c.pipe.pull room)) (d.lift (d.pipe.pull room)) := by
  unfold Pipe.pull
  rw [h.closed, h.reason, h.available]
  cases c.pipe.closed with
  | true => exact h.quiet _
  | false =>
    cases hb : c.pipe.available with
    | none => exact h.quiet _
    | some b => exact ⟨rfl, h.advance hb room⟩

theorem value_pull (h : Abreast offer stamp c d) (room : Nat) :
    (d.pipe.pull room).value = (c.pipe.pull room).value :=
  (h.pull room).value

theorem settle (h : Abreast offer stamp c d) (room : Nat) (a : α) :
    InStep offer stamp (c.lift ((c.pipe.pull room).map fun _ => a))
      (d.lift ((d.pipe.pull room).map fun _ => a)) :=
  (h.pull room).map fun _ => a

theorem look (h : Abreast offer stamp c d) (room : Nat) :
    Pacing offer stamp (c.look room) (d.look room) := by
  unfold Channel.look
  dsimp only
  rw [h.value_pull, h.nonblocking]
  cases (c.pipe.pull room).value with
  | error reason => exact .go (h.settle room _)
  | ok got =>
    cases got with
    | some bytes => exact .go (h.settle room _)
    | none =>
      cases c.nonblocking with
      | true => exact .go (h.settle room _)
      | false => exact .wait

theorem park (h : Abreast offer stamp c d) (half : Half) (waker : Waker) :
    Abreast offer stamp { c with pipe := c.pipe.park half waker }
      { d with pipe := d.pipe.park half waker } where
  nonblocking := h.nonblocking
  closed := by simpa using h.closed
  ownReason other := by simpa only [Pipe.ownReason_park] using h.ownReason other
  offered := by simpa using h.offered
  parcel := by simpa [Pipe.available] using h.parcel

theorem pollLook (h : Abreast offer stamp c d) (room : Nat) (waker : Waker) :
    InStep offer stamp (c.pollLook room waker) (d.pollLook room waker) := by
  unfold Channel.pollLook Pipe.pollPull
  dsimp only
  rw [h.value_pull]
  cases (c.pipe.pull room).value with
  | error reason => exact h.settle room _
  | ok got =>
    cases got with
    | some bytes => exact h.settle room _
    | none => exact ⟨rfl, (h.pull room).state.park .read waker⟩

theorem close (h : Abreast offer stamp c d) (half : Half) (reason : Option Reason) :
    InStep offer stamp (c.lift (c.pipe.close half reason)) (d.lift (d.pipe.close half reason)) := by
  refine ⟨rfl, h.nonblocking, rfl, ?_, ?_, ?_⟩
  · intro other
    have hk : ∀ p : Pipe, (p.close half reason).state.ownReason other =
        (p.keepReason half (reason.getD (Pipe.defaultReason half))).ownReason other := by
      intro p
      cases half <;> cases other <;> rfl
    simp only [Channel.pipe_lift, hk, Pipe.ownReason_keepReason, h.ownReason]
  · simpa using h.offered
  · simpa [Pipe.available] using h.parcel

end Abreast

/-- A call that neither puts bytes up nor asks how any fare. -/
def Prompt.apart {half : Half} : Prompt half → Bool
  | pollWrite _ _ | pollFlush _ | pollClose _ => false
  | _ => true

def Call.apart {half : Half} : Call half → Bool
  | prompt p => p.apart
  | send _ _ | write _ _ => false
  | _ => true

theorem Prompt.inStep {half : Half} {p : Prompt half} (hp : p.apart = true)
    (h : Abreast offer stamp c d) : InStep offer stamp (p.advance c) (p.advance d) := by
  cases p with
  | tryReceive room => exact (h.pull room).mapLift _
  | pollRead room waker =>
    simp only [advance]
    exact (h.pollLook room waker).map _
  | setNonblocking on => exact ⟨rfl, rfl, h.closed, h.ownReason, h.offered, h.parcel⟩
  | pollWrite | pollFlush | pollClose => simp [apart] at hp
  | closeFlushed => exact (h.close .write none).mapLift _
  | close reason => exact (h.close half reason).mapLift _
  | isClosed =>
    simp only [advance, h.closed]
    exact h.quiet _
  | describe =>
    have ho : d.outline half = c.outline half := by
      unfold Channel.outline
      rw [h.closed, h.nonblocking]
    simp only [advance, ho]
    exact h.quiet _

theorem Call.pacing {half : Half} {call : Call half} (hp : call.apart = true) (owner : Nat)
    (h : Abreast offer stamp c d) :
    Pacing offer stamp (call.advance owner c) (call.advance owner d) := by
  cases call with
  | prompt p => exact .go ((Prompt.inStep hp h).map _)
  | receive room =>
    simp only [advance, h.value_pull]
    cases (c.pipe.pull room).value with
    | error reason => exact .go (h.settle room _)
    | ok got =>
      cases got with
      | some bytes => exact .go (h.settle room _)
      | none => exact .wait
  | read room | drain room chunks => exact (h.look room).map _
  | send | write => simp [apart] at hp
  | flush => exact .go (h.quiet _)

end

end Handoff
