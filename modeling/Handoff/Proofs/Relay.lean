import Handoff.Proofs.Heard
import Handoff.Proofs.Shares

/-!
Reasons that go from pipe to pipe. Whoever is told why one pipe was closed may close the next one for that, and
then all who are told along the way get one text and one kind. The kind is lost where a reason is wrapped by
hand, for it looks only one level deep.
-/

namespace Handoff

theorem Reason.isEndOfStream_eq_false {reason : Reason} :
    reason.isEndOfStream = false ↔ reason ≠ .endOfStream := by
  cases reason <;> simp [isEndOfStream]

/-- Closed for this reason by this half, and not by the other. -/
structure Pipe.EndedBy (p : Pipe) (half : Half) (reason : Reason) : Prop where
  closed : p.closed = true
  own : p.ownReason half = some reason
  other : p.ownReason half.other = none

theorem Pipe.EndedBy.reason {p : Pipe} {half : Half} {reason : Reason} (h : p.EndedBy half reason) :
    p.reason half.other = reason := by
  have hown : p.ownReason half.other.other = some reason := by
    cases half <;> exact h.own
  rw [Pipe.reason, h.other, hown]
  rfl

/-- The first close on the way to this link is one of this half for this reason, and so far all closes have been
of this half. -/
inductive ClosedFor (half : Half) (reason : Reason) (l : Link) : Prop
  | intro {settings : Settings} {deeds : List Deed} {rest : List (Half × Reason)}
      (run : Run (.opened settings) deeds l) (hc : closes deeds = (half, reason) :: rest)
      (hrest : ∀ c ∈ rest, c.1 = half)

theorem ClosedFor.endedBy {l : Link} {half : Half} {reason : Reason} (h : ClosedFor half reason l) :
    l.channel.pipe.EndedBy half reason := by
  obtain ⟨run, hc, hrest⟩ := h
  have hex := run.excused
  have hown : l.channel.pipe.ownReason half = some reason := by
    rw [hex.own, hc]
    simp [firstReason]
  refine ⟨hex.closed.mpr ⟨half, reason, hown⟩, hown, ?_⟩
  rw [hex.own, hc, firstReason, Option.map_eq_none_iff, List.find?_eq_none]
  intro c hm
  have hhalf : c.1 = half := by
    rcases List.mem_cons.mp hm with rfl | hm
    · rfl
    · exact hrest c hm
  rw [hhalf]
  cases half <;> decide

/-- What the callers on the other half of a pipe that was closed for this reason are told. -/
structure Channel.Passes (c : Channel) (half : Half) (reason : Reason) : Prop where
  writes : half = .read → ∀ owner (call : Call .write) data, call.Starts c data →
    ∃ s answer failure, call.advance owner c = some s ∧ s.value = .answered answer ∧
      call.Returns data (.error failure) answer ∧
      failure.message = reason.message ∧ failure.kind = reason.kind
  reads : half = .write → ∀ owner (call : Call .read) room, call.streams? = some room →
    ∃ answer, call.advance owner c = some (.quiet (.answered answer) c) ∧
      (reason = .endOfStream → call.Hears (.ok []) (.answered answer)) ∧
      (reason ≠ .endOfStream → ∃ failure, call.Hears (.error failure) (.answered answer) ∧
        failure.message = reason.message ∧ failure.kind = reason.kind)

theorem Pipe.EndedBy.passes {c : Channel} {half : Half} {reason : Reason}
    (h : c.pipe.EndedBy half reason) : c.Passes half reason where
  writes := by
    rintro rfl owner call data hs
    have hr : c.pipe.reason .write = reason := h.reason
    obtain ⟨s, answer, ha, hv, hret, -⟩ := hs.refused h.closed owner
    rw [hr] at hret
    exact ⟨s, answer, _, ha, hv, hret, reason.message_toFailure, reason.kind_toFailure⟩
  reads := by
    rintro rfl owner call room hc
    have hr : c.pipe.reason .read = reason := h.reason
    obtain ⟨answer, ha, hh⟩ := Call.hears_of_closed hc h.closed owner
    rw [hr] at hh
    refine ⟨answer, ha, ?_, fun hne => ?_⟩
    · rintro rfl
      exact hh
    · rw [Stream.ofPull_error hne] at hh
      exact ⟨_, hh, reason.message_toFailure, reason.kind_toFailure⟩

namespace Call

theorem Returns.unique {half : Half} {call : Call half} {bytes : Bytes} {result other : Except Failure Nat}
    {answer : Answer} (h : call.Returns bytes result answer) (t : call.Returns bytes other answer) :
    result = other := by
  cases h with
  | write =>
    generalize ha : Answer.reply (Reply.ofWrite result) = told at t
    cases t
    exact Reply.ofWrite_inj (Answer.reply.inj ha)
  | poll =>
    generalize ha : Answer.polled (Poll.ready (Reply.ofWrite result)) = told at t
    cases t
    exact Reply.ofWrite_inj (Poll.ready.inj (Answer.polled.inj ha))

theorem Hears.unique {call : Call .read} {result other : Except Failure Bytes}
    {next : Progress (Call .read)} (h : call.Hears result next) (t : call.Hears other next) :
    result = other := by
  cases h with
  | read =>
    generalize ha : Progress.reply (Reply.ofRead result) = told at t
    cases t
    exact Reply.ofRead_inj (Answer.reply.inj (Progress.answered.inj ha))
  | poll =>
    generalize ha : Progress.polled (Poll.ready (Reply.ofRead result)) = told at t
    cases t
    exact Reply.ofRead_inj (Poll.ready.inj (Answer.polled.inj (Progress.answered.inj ha)))
  | chunk | last | failed =>
    cases t
    rfl

end Call

/-- A pipe is closed on this half for the reason, and a caller on the other half is told the failure. -/
inductive Hop : Half → Reason → Failure → Prop
  | write {l : Link} {reason : Reason} {failure : Failure} {owner : Nat} {call : Call .write} {data : Bytes}
      {s : Step Channel (Progress (Call .write))} {answer : Answer} (h : ClosedFor .read reason l)
      (hc : call.Starts l.channel data) (ha : call.advance owner l.channel = some s)
      (hv : s.value = .answered answer) (hr : call.Returns data (.error failure) answer) :
      Hop .read reason failure
  | read {l : Link} {reason : Reason} {failure : Failure} {owner : Nat} {call : Call .read} {room : Nat}
      {s : Step Channel (Progress (Call .read))} (h : ClosedFor .write reason l)
      (hc : call.streams? = some room) (ha : call.advance owner l.channel = some s)
      (hh : call.Hears (.error failure) s.value) : Hop .write reason failure

namespace Hop

variable {half : Half} {reason : Reason} {failure : Failure}

theorem kept (h : Hop half reason failure) :
    failure.message = reason.message ∧ failure.kind = reason.kind := by
  cases h with
  | write h hc ha hv hr =>
    obtain ⟨s, answer, other, hs, hv', hret, htext, hkind⟩ := h.endedBy.passes.writes rfl _ _ _ hc
    obtain rfl := Option.some.inj (ha.symm.trans hs)
    obtain rfl := Progress.answered.inj (hv.symm.trans hv')
    obtain rfl := Except.error.inj (hr.unique hret)
    exact ⟨htext, hkind⟩
  | read h hc ha hh =>
    obtain ⟨answer, hs, hend, hfail⟩ := h.endedBy.passes.reads rfl _ _ _ hc
    obtain rfl := Option.some.inj (ha.symm.trans hs)
    by_cases he : reason = .endOfStream
    · cases hh.unique (hend he)
    · obtain ⟨other, hother, htext, hkind⟩ := hfail he
      obtain rfl := Except.error.inj (hh.unique hother)
      exact ⟨htext, hkind⟩

theorem exists_of_ne_end (h : half = .write → reason ≠ .endOfStream) : ∃ failure, Hop half reason failure := by
  have run := @run_of_play (.opened {}) _
    [.spawn ⟨1, "closer", half, .share, 0, [.prompt (.close (some reason))]⟩, .turn 1] _ rfl
  cases half with
  | read =>
    have hl := ClosedFor.intro run rfl (by simp)
    obtain ⟨_, _, failure, ha, hv, hr, -⟩ := hl.endedBy.passes.writes rfl 2 _ _ (.write [])
    exact ⟨failure, .write hl (.write []) ha hv hr⟩
  | write =>
    have hl := ClosedFor.intro run rfl (by simp)
    obtain ⟨_, ha, -, hfail⟩ := hl.endedBy.passes.reads rfl 2 (.read 1) 1 rfl
    obtain ⟨failure, hh, -⟩ := hfail (h rfl)
    exact ⟨failure, .read hl rfl ha hh⟩

end Hop

/-- What becomes of a reason on its way. In a step it goes through a pipe that is closed for it on the given
half, and the failure told there is the next reason; or, where no half is given, it is wrapped by hand. -/
inductive Relay : Reason → List (Option Half) → Reason → Prop
  | stay (reason : Reason) : Relay reason [] reason
  | told {half : Half} {reason last : Reason} {failure : Failure} {steps : List (Option Half)}
      (h : Hop half reason failure) (later : Relay failure.toReason steps last) :
      Relay reason (some half :: steps) last
  | wrapped {reason last : Reason} {steps : List (Option Half)}
      (later : Relay (.custom (.reason reason)) steps last) : Relay reason (none :: steps) last

namespace Relay

variable {reason last : Reason} {steps : List (Option Half)}

theorem kept (h : Relay reason steps last) :
    last.message = reason.message ∧ last.kind = if none ∈ steps then .other else reason.kind := by
  induction h with
  | stay => exact ⟨rfl, rfl⟩
  | told h _ ih =>
    obtain ⟨htext, hkind⟩ := h.kept
    rw [Failure.message_toReason, Reason.kind_toReason, htext, hkind] at ih
    simpa using ih
  | wrapped _ ih =>
    have hother (reason : Reason) : (Reason.custom (.reason reason)).kind = .other := rfl
    have htext (reason : Reason) : (Reason.custom (.reason reason)).message = reason.message := by
      rw [Reason.message, Cause.message]
    rw [hother, htext, ite_self] at ih
    simpa using ih

theorem ne_end (h : Relay reason steps last) (hs : steps ≠ [] ∨ reason ≠ .endOfStream) :
    last ≠ .endOfStream := by
  induction h with
  | stay => exact hs.resolve_left (not_not_intro rfl)
  | told _ _ ih => exact ih (.inr Reason.noConfusion)
  | wrapped _ ih => exact ih (.inr Reason.noConfusion)

/-- Only a reader makes an end of the end of the stream. -/
theorem exists_of_ne_end (steps : List (Option Half))
    (h : steps.head? = some (some .write) → reason ≠ .endOfStream) : ∃ last, Relay reason steps last := by
  induction steps generalizing reason with
  | nil => exact ⟨reason, .stay reason⟩
  | cons step steps ih =>
    cases step with
    | none =>
      obtain ⟨last, hl⟩ := @ih (.custom (.reason reason)) fun _ => Reason.noConfusion
      exact ⟨last, .wrapped hl⟩
    | some half =>
      obtain ⟨failure, hop⟩ := @Hop.exists_of_ne_end half reason fun hw => h (hw ▸ rfl)
      obtain ⟨last, hl⟩ := @ih failure.toReason fun _ => Reason.noConfusion
      exact ⟨last, .told hop hl⟩

end Relay

/-- However deep the reason is nested, and however many pipes it goes through, its text is told at the other end
of each, and its kind unless it has been wrapped on the way. It is an end of the stream for none but readers of
the first pipe. -/
theorem reason_survives (reason : Reason) :
    (∀ half l, ClosedFor half reason l → l.channel.Passes half reason) ∧
    (∀ half (c : Channel), c.pipe.EndedBy half reason → c.Passes half reason) ∧
    (∀ steps last, Relay reason steps last →
      last.message = reason.message ∧
      last.kind = (if none ∈ steps then .other else reason.kind) ∧
      (steps ≠ [] → last.isEndOfStream = false) ∧
      ∀ half failure, Hop half last failure →
        failure.message = reason.message ∧ failure.kind = last.kind) ∧
    (∀ steps, (steps.head? = some (some .write) → reason ≠ .endOfStream) →
      ∃ last, Relay reason steps last) ∧
    (reason = .closed → reason.kind = .brokenPipe) ∧
    (reason = .endOfStream → reason.kind = .unexpectedEnd) ∧
    (∀ failure, reason = .custom (.failure failure) → reason.kind = failure.kind) ∧
    ∀ cause, reason = .custom cause → (∀ failure, cause ≠ .failure failure) → reason.kind = .other := by
  refine ⟨fun half l h => h.endedBy.passes, fun half c h => h.passes, ?_, Relay.exists_of_ne_end, ?_⟩
  · intro steps last h
    obtain ⟨htext, hkind⟩ := h.kept
    refine ⟨htext, hkind, fun hs => ?_, fun half failure hop => ?_⟩
    · exact Reason.isEndOfStream_eq_false.mpr (h.ne_end (.inl hs))
    · exact ⟨hop.kept.1.trans htext, hop.kept.2⟩
  · refine ⟨?_, ?_, ?_, ?_⟩
    · rintro rfl
      rfl
    · rintro rfl
      rfl
    · rintro failure rfl
      rfl
    · rintro cause rfl hn
      cases cause with
      | failure failure => exact absurd rfl (hn failure)
      | text | reason | shortWrite => rfl

/-- A writer is told of a timeout, closes its own pipe for that, and whoever reads there does the same. -/
theorem timeout_relayed :
    ∃ deeds l s answer failure, Run (.opened {}) deeds l ∧
      (Call.write [1] false).advance 2 l.channel = some s ∧ s.value = .answered answer ∧
      (Call.write [1] false).Returns [1] (.error failure) answer ∧
      failure.message = "deadline" ∧ failure.kind = .timedOut ∧
      ∃ last, Relay failure.toReason [some .write, some .read, none] last ∧
        last.message = "deadline" ∧ last.kind = .other := by
  have run := @run_of_play (.opened {}) _
    [.spawn ⟨1, "reader", .read, .share, 0,
      [.prompt (.close (some (.custom (.failure (.carrying .timedOut (.text "deadline"))))))]⟩, .turn 1] _ rfl
  obtain ⟨hpasses, -⟩ := reason_survives (.custom (.failure (.carrying .timedOut (.text "deadline"))))
  obtain ⟨s, answer, failure, ha, hv, hr, htext, hkind⟩ :=
    (hpasses .read _ (.intro run rfl (by simp))).writes rfl 2 _ _ (.write [1])
  obtain ⟨-, -, hkept, hgo, -⟩ := reason_survives failure.toReason
  obtain ⟨last, hl⟩ := hgo [some .write, some .read, none] fun _ => Reason.noConfusion
  obtain ⟨hlast, hother, -⟩ := hkept _ _ hl
  refine ⟨_, _, s, answer, failure, run, ha, hv, hr, htext, hkind, last, hl, ?_, hother⟩
  rw [hlast, Failure.message_toReason]
  exact htext

end Handoff
