import Handoff.Proofs.Blame
import Handoff.Proofs.Stream

/-!
What a reader of the byte stream hears. With room for some bytes it hears of none only at the end of the stream,
and it never hears of that end as a failure.
-/

namespace Handoff

/-- The room of a read that takes the pipe for a stream of bytes. -/
def Call.streams? : Call .read → Option Nat
  | read room | drain room _ | prompt (.pollRead room _) => some room
  | _ => none

/-- With this step one read of the byte stream is over and has this result. A drain reads time after time. -/
inductive Call.Hears : Call .read → Except Failure Bytes → Progress (Call .read) → Prop
  | read (room : Nat) (result : Except Failure Bytes) : Hears (read room) result (.reply (.ofRead result))
  | poll (room : Nat) (waker : Waker) (result : Except Failure Bytes) :
    Hears (prompt (.pollRead room waker)) result (.polled (.ready (.ofRead result)))
  | chunk (room : Nat) (chunks : List Bytes) (bytes : Bytes) :
    Hears (drain room chunks) (.ok bytes) (.onward (drain room (bytes :: chunks)))
  | last (room : Nat) (chunks : List Bytes) :
    Hears (drain room chunks) (.ok []) (.reply (.drained chunks.reverse none))
  | failed (room : Nat) (chunks : List Bytes) (failure : Failure) :
    Hears (drain room chunks) (.error failure) (.reply (.drained chunks.reverse (some failure)))

theorem Reply.ofRead_inj {result other : Except Failure Bytes} (h : ofRead result = ofRead other) :
    result = other := by
  cases result <;> cases other <;> cases h <;> rfl

theorem Reason.toFailure_inj {reason other : Reason} (h : reason.toFailure = other.toFailure) :
    reason = other := by
  obtain ⟨-, hcause⟩ := Failure.carrying.inj h
  exact Cause.reason.inj hcause

theorem Stream.ofPull_error {reason : Reason} (h : reason ≠ .endOfStream) :
    ofPull (.error reason) = .error reason.toFailure := by
  cases reason with
  | endOfStream => exact absurd rfl h
  | closed | custom => rfl

namespace Channel

/-- What a read with room can hear. -/
inductive Audible (c : Channel) (room : Nat) (es : List Effect) : Except Failure Bytes → Prop
  | front (b : Parcel) : c.pipe.closed = false → c.pipe.parcel = some b → b.front room ≠ [] →
      handed es = [b.front room] → Audible c room es (.ok (b.front room))
  | ended : c.pipe.closed = true → c.pipe.reason .read = .endOfStream → Audible c room es (.ok [])
  | stopped : c.pipe.closed = true → c.pipe.reason .read ≠ .endOfStream →
      Audible c room es (.error (c.pipe.reason .read).toFailure)
  | early : c.pipe.closed = false → c.nonblocking = true → c.pipe.available = none →
      Audible c room es (.error (.bare .wouldBlock))

variable {c : Channel} {room : Nat}

theorem Audible.ended_of_nil {es : List Effect} (h : c.Audible room es (.ok [])) :
    c.pipe.closed = true ∧ c.pipe.reason .read = .endOfStream := by
  generalize hres : Except.ok [] = result at h
  cases h with
  | front b _ _ hne => exact absurd (Except.ok.inj hres).symm hne
  | ended hc he => exact ⟨hc, he⟩
  | stopped | early => cases hres

theorem Audible.front_of_ne_nil {es : List Effect} {bytes : Bytes} (h : c.Audible room es (.ok bytes))
    (hne : bytes ≠ []) : c.pipe.closed = false ∧ ∃ b, c.pipe.parcel = some b ∧ bytes = b.front room ∧
      handed es = [bytes] := by
  cases h with
  | front b ho hb _ hgot => exact ⟨ho, b, hb, rfl, hgot⟩
  | ended => exact absurd rfl hne

theorem Audible.failed {es : List Effect} {failure : Failure} (h : c.Audible room es (.error failure)) :
    failure = (c.pipe.reason .read).toFailure ∧ c.pipe.closed = true ∧
        c.pipe.reason .read ≠ .endOfStream ∨
      failure = .bare .wouldBlock ∧ c.pipe.closed = false ∧ c.nonblocking = true ∧
        c.pipe.available = none := by
  cases h with
  | stopped hc hne => exact .inl ⟨rfl, hc, hne⟩
  | early ho hn ha => exact .inr ⟨rfl, ho, hn, ha⟩

theorem Audible.ne_end {es : List Effect} {failure : Failure} (h : c.Audible room es (.error failure)) :
    failure ≠ Reason.endOfStream.toFailure := by
  rcases h.failed with ⟨rfl, -, hne⟩ | ⟨rfl, -⟩
  · exact fun he => hne (Reason.toFailure_inj he)
  · exact fun he => by cases he

theorem Look.audible (hr : room ≠ 0) {pulled : Except Reason Bytes}
    (hp : (c.pipe.pull room).value = Except.map some pulled) {result : Except Failure Bytes}
    (h : Look.ofPull room pulled = .settled result) :
    c.Audible room (c.pipe.pull room).effects result := by
  cases pulled with
  | error reason =>
    obtain ⟨hc, rfl⟩ := Pipe.pull_error hp
    obtain rfl : Stream.ofPull (.error (c.pipe.reason .read)) = result := Look.settled.inj h
    by_cases he : c.pipe.reason .read = .endOfStream
    · rw [he]
      exact .ended hc he
    · rw [Stream.ofPull_error he]
      exact .stopped hc he
  | ok bytes =>
    cases bytes with
    -- An empty write is passed over, so the look is not settled by it.
    | nil =>
      rw [ofPull, if_neg hr] at h
      cases h
    | cons byte rest =>
      obtain rfl : .ok (byte :: rest) = result := Look.settled.inj h
      have hh := Pipe.handed_of_pull hp
      rcases c.pipe.pull_cases room with ⟨other, hn, he⟩ | ⟨b, hc, hb, he⟩
      · rw [he] at hp
        exact absurd hp (hn _)
      · have hfront : b.front room = byte :: rest := by
          rw [he] at hp
          exact Option.some.inj (Except.ok.inj hp)
        rw [← hfront] at hh ⊢
        exact .front b hc (Pipe.available_eq_some hb).1 (by simp [hfront]) hh

theorem look_audible (hr : room ≠ 0) {s : Step Channel Look} (h : c.look room = some s)
    {result : Except Failure Bytes} (hv : s.value = .settled result) : c.Audible room s.effects result := by
  rcases look_cases h with ⟨pulled, hp, rfl⟩ | ⟨hidle, hn, rfl⟩
  · exact Look.audible hr hp hv
  · obtain rfl := Look.settled.inj hv
    have hread := (c.pipe.value_pull_eq_none_iff room).mp hidle
    rw [Pipe.readable, Bool.or_eq_false_iff] at hread
    exact .early hread.1 hn (by simpa using hread.2)

theorem pollLook_audible (hr : room ≠ 0) {waker : Waker} {result : Except Failure Bytes}
    (hv : (c.pollLook room waker).value = .ready (.settled result)) :
    c.Audible room (c.pollLook room waker).effects result := by
  simp only [pollLook, Pipe.pollPull, effects_lift, Step.effects_map] at hv ⊢
  split at hv
  · rename_i bytes hp
    exact @Look.audible _ _ hr (.ok bytes) hp _ (Poll.ready.inj hv)
  · cases hv
  · rename_i reason hp
    exact @Look.audible _ _ hr (.error reason) hp _ (Poll.ready.inj hv)

theorem look_of_empty (hr : room ≠ 0) (h : (c.pipe.pull room).value = .ok (some [])) :
    c.look room = some (c.lift ((c.pipe.pull room).map fun _ => .skipped)) := by
  simp [look, h, Look.ofPull, hr]

theorem pollLook_of_empty (hr : room ≠ 0) (h : (c.pipe.pull room).value = .ok (some [])) (waker : Waker) :
    c.pollLook room waker = c.lift ((c.pipe.pull room).map fun _ => .ready .skipped) := by
  simp [pollLook, Pipe.pollPull, h, Step.map, Poll.map, Look.ofPull, hr]

end Channel

namespace Call

variable {call : Call .read} {room owner : Nat} {c : Channel} {s : Step Channel (Progress (Call .read))}

theorem audible (hc : call.streams? = some room) (hr : room ≠ 0) (h : call.advance owner c = some s)
    {result : Except Failure Bytes} (hh : call.Hears result s.value) :
    c.Audible room s.effects result := by
  generalize hv : s.value = p at hh
  cases hh with
  | read =>
    obtain rfl := Option.some.inj hc
    obtain ⟨l, hl, rfl⟩ := Option.map_eq_some_iff.mp h
    simp only [Step.value_map] at hv
    split at hv
    · cases hv
    · rename_i other hs
      obtain rfl := Reply.ofRead_inj (Answer.reply.inj (Progress.answered.inj hv))
      exact Channel.look_audible hr hl hs
  | poll =>
    obtain rfl := Option.some.inj hc
    obtain rfl := Option.some.inj h
    simp only [Step.value_map, Prompt.advance] at hv
    split at hv
    · cases hv
    · cases hv
    · rename_i other hs
      obtain rfl := Reply.ofRead_inj (Poll.ready.inj (Answer.polled.inj (Progress.answered.inj hv)))
      exact Channel.pollLook_audible hr hs
  | chunk =>
    obtain rfl := Option.some.inj hc
    obtain ⟨l, hl, rfl⟩ := Option.map_eq_some_iff.mp h
    simp only [Step.value_map] at hv
    split at hv
    · simp at hv
    · cases hv
    · rename_i hs
      cases hv
      exact Channel.look_audible hr hl hs
    · cases hv
  | last =>
    obtain rfl := Option.some.inj hc
    obtain ⟨l, hl, rfl⟩ := Option.map_eq_some_iff.mp h
    simp only [Step.value_map] at hv
    split at hv
    · cases hv
    · rename_i hs
      exact Channel.look_audible hr hl hs
    · cases hv
    · cases hv
  | failed =>
    obtain rfl := Option.some.inj hc
    obtain ⟨l, hl, rfl⟩ := Option.map_eq_some_iff.mp h
    simp only [Step.value_map] at hv
    split at hv
    · cases hv
    · cases hv
    · cases hv
    · rename_i failure hs
      cases hv
      exact Channel.look_audible hr hl hs

theorem hears_or_again (hc : call.streams? = some room) (h : call.advance owner c = some s) :
    s.value = .onward call ∨ s.value = .polled .pending ∨ ∃ result, call.Hears result s.value := by
  cases call with
  | read room =>
    obtain ⟨l, hl, rfl⟩ := Option.map_eq_some_iff.mp h
    cases hv : l.value with
    | skipped => exact .inl (by simp [hv])
    | settled result =>
      refine .inr (.inr ⟨result, ?_⟩)
      rw [Step.value_map, hv]
      exact .read room result
  | drain room chunks =>
    obtain ⟨l, hl, rfl⟩ := Option.map_eq_some_iff.mp h
    cases hv : l.value with
    | skipped => exact .inl (by simp [hv])
    | settled result =>
      refine .inr (.inr ⟨result, ?_⟩)
      rw [Step.value_map, hv]
      cases result with
      | error failure => exact .failed room chunks failure
      | ok bytes =>
        cases bytes with
        | nil => exact .last room chunks
        | cons byte rest => exact .chunk room chunks (byte :: rest)
  | prompt p =>
    obtain rfl := Option.some.inj h
    cases p with
    | pollRead room waker =>
      rw [Step.value_map, Prompt.advance, Step.value_map]
      cases (c.pollLook room waker).value with
      | pending => exact .inr (.inl rfl)
      | ready look =>
        cases look with
        | skipped => exact .inl rfl
        | settled result => exact .inr (.inr ⟨result, .poll room waker result⟩)
    | _ => cases hc
  | receive => cases hc

theorem hears_of_closed (hc : call.streams? = some room) (hcl : c.pipe.closed = true) (owner : Nat) :
    ∃ answer, call.advance owner c = some (.quiet (.answered answer) c) ∧
      call.Hears (Stream.ofPull (.error (c.pipe.reason .read))) (.answered answer) := by
  cases call with
  | read room =>
    refine ⟨_, ?_, .read room _⟩
    rw [advance, Channel.look_of_closed hcl]
    rfl
  | drain room chunks =>
    simp only [advance, Channel.look_of_closed hcl]
    by_cases he : c.pipe.reason .read = .endOfStream
    · rw [he]
      exact ⟨_, rfl, .last room chunks⟩
    · rw [Stream.ofPull_error he]
      exact ⟨_, rfl, .failed room chunks _⟩
  | prompt p =>
    cases p with
    | pollRead room waker =>
      refine ⟨_, ?_, .poll room waker _⟩
      rw [advance, Prompt.advance, Channel.pollLook_of_closed hcl]
      rfl
    | _ => cases hc
  | receive => cases hc

theorem again_of_empty (hc : call.streams? = some room) (hr : room ≠ 0) (hcl : c.pipe.closed = false)
    {b : Parcel} (hb : c.pipe.available = some b) (he : b.bytes = []) (owner : Nat) :
    ∃ s, call.advance owner c = some s ∧ s.value = .onward call ∧ handed s.effects = [[]] := by
  have hfront : b.front room = [] := by simp [Parcel.front, Parcel.rest, he]
  have hpull : (c.pipe.pull room).value = .ok (some []) := by simp [Pipe.pull, hcl, hb, hfront]
  have hh : handed (c.pipe.pull room).effects = [[]] := @Pipe.handed_of_pull _ _ (.ok []) hpull
  cases call with
  | read =>
    obtain rfl := Option.some.inj hc
    simp only [advance, Channel.look_of_empty hr hpull]
    exact ⟨_, rfl, rfl, hh⟩
  | drain =>
    obtain rfl := Option.some.inj hc
    simp only [advance, Channel.look_of_empty hr hpull]
    exact ⟨_, rfl, rfl, hh⟩
  | prompt p =>
    cases p with
    | pollRead room' waker =>
      obtain rfl := Option.some.inj hc
      simp only [advance, Prompt.advance, Channel.pollLook_of_empty hr hpull]
      exact ⟨_, rfl, rfl, hh⟩
    | _ => cases hc
  | receive => cases hc

end Call

theorem Run.end_of_closes {settings : Settings} {deeds : List Deed} {l : Link}
    (run : Run (.opened settings) deeds l) (hc : l.channel.pipe.closed = true) :
    (firstReason .read (closes deeds)).or (firstReason .write (closes deeds)) =
      some (l.channel.pipe.reason .read) := by
  rw [← run.excused.own, ← run.excused.own]
  exact run.excused.reason hc .read

theorem Run.zero_means_end {settings : Settings} {deeds : List Deed} {l : Link}
    (run : Run (.opened settings) deeds l) {call : Call .read} {room : Nat}
    (hc : call.streams? = some room) (hr : room ≠ 0) (owner : Nat) :
    (l.channel.pipe.closed = true → ∃ answer,
      call.advance owner l.channel = some (.quiet (.answered answer) l.channel) ∧
      (l.channel.pipe.reason .read = .endOfStream → call.Hears (.ok []) (.answered answer)) ∧
      ∀ reason, l.channel.pipe.reason .read = reason → reason ≠ .endOfStream →
        call.Hears (.error reason.toFailure) (.answered answer)) ∧
    (l.channel.pipe.closed = false → ∀ b, l.channel.pipe.available = some b → b.bytes = [] →
      ∃ s, call.advance owner l.channel = some s ∧ s.value = .onward call ∧ handed s.effects = [[]]) ∧
    (∀ s, call.advance owner l.channel = some s →
      (s.value = .onward call ∨ s.value = .polled .pending ∨ ∃ result, call.Hears result s.value) ∧
      (∀ bytes, call.Hears (.ok bytes) s.value →
        (1 ≤ bytes.length ∧ bytes.length ≤ room ∧ handed s.effects = [bytes] ∧
          l.channel.pipe.closed = false ∧ ∃ b w older, l.channel.pipe.parcel = some b ∧
            bytes = b.front room ∧ ledger (effects deeds) = w :: older ∧ w.Holds b) ∨
        bytes = [] ∧ l.channel.pipe.closed = true ∧ l.channel.pipe.reason .read = .endOfStream ∧
          (firstReason .read (closes deeds)).or (firstReason .write (closes deeds)) =
            some .endOfStream) ∧
      ∀ failure, call.Hears (.error failure) s.value → failure ≠ Reason.endOfStream.toFailure ∧
        (failure = (l.channel.pipe.reason .read).toFailure ∧ l.channel.pipe.closed = true ∧
          l.channel.pipe.reason .read ≠ .endOfStream ∨
        failure = .bare .wouldBlock ∧ l.channel.pipe.closed = false ∧ l.channel.nonblocking = true ∧
          l.channel.pipe.available = none)) ∧
    ∀ begun fired es m, Split (.opened settings) begun fired es m →
      ∀ s, call.advance owner m.channel = some s →
        (call.Hears (.ok []) s.value → m.channel.pipe.closed = true ∧
          (m.channel.pipe.ownReason .read).or (m.channel.pipe.ownReason .write) = some .endOfStream) ∧
        ∀ failure, call.Hears (.error failure) s.value → failure ≠ Reason.endOfStream.toFailure := by
  refine ⟨fun hcl => ?_, fun ho b hb he => Call.again_of_empty hc hr ho hb he owner, fun s hs => ?_, ?_⟩
  · obtain ⟨answer, hs, hh⟩ := Call.hears_of_closed hc hcl owner
    refine ⟨answer, hs, fun he => ?_, ?_⟩
    · rw [he] at hh
      exact hh
    · rintro reason rfl hne
      rw [Stream.ofPull_error hne] at hh
      exact hh
  · refine ⟨Call.hears_or_again hc hs, fun bytes hh => ?_, fun failure hh => ?_⟩
    · have ha := Call.audible hc hr hs hh
      by_cases hb : bytes = []
      · subst hb
        obtain ⟨hcl, he⟩ := ha.ended_of_nil
        exact .inr ⟨rfl, hcl, he, he ▸ run.end_of_closes hcl⟩
      · obtain ⟨ho, b, hp, rfl, hgot⟩ := ha.front_of_ne_nil hb
        obtain ⟨w, older, hled, hold, -⟩ := run.accounts.cons_of_parcel hp
        exact .inl ⟨List.length_pos_iff.mpr hb, List.length_take_le _ _, hgot, ho, b, w, older, hp, rfl,
          hled, hold⟩
    · have ha := Call.audible hc hr hs hh
      exact ⟨ha.ne_end, ha.failed⟩
  · intro begun fired es m split s hs
    refine ⟨fun hh => ?_, fun failure hh => (Call.audible hc hr hs hh).ne_end⟩
    obtain ⟨hcl, he⟩ := (Call.audible hc hr hs hh).ended_of_nil
    exact ⟨hcl, he ▸ split.reason_of_closed hcl .read⟩

/-- The read has passed over an empty write, and the reason wraps the end of the stream without being it. -/
theorem wrapped_end_heard_as_failure :
    ∃ deeds l answer, Run (.opened {}) deeds l ∧ handed (effects deeds) = [[]] ∧
      l.call? 2 = some ⟨.read, .read 4⟩ ∧
      (Call.read 4).advance 2 l.channel = some (.quiet (.answered answer) l.channel) ∧
      (Call.read 4).Hears (.error Reason.endOfStream.toFailure.toReason.toFailure)
        (.answered answer) := by
  have run := @run_of_play (.opened {}) _
    [.spawn ⟨1, "writer", .write, .share, 0,
        [.send [] false, .prompt (.close (some Reason.endOfStream.toFailure.toReason))]⟩,
      .spawn ⟨2, "reader", .read, .share, 0, [.read 4]⟩, .turn 1, .turn 2, .turn 1, .turn 1] _ rfl
  obtain ⟨hclosed, -⟩ := @Run.zero_means_end _ _ _ run (.read 4) 4 rfl (by decide) 2
  obtain ⟨answer, hs, -, hfailed⟩ := hclosed rfl
  exact ⟨_, _, answer, run, rfl, rfl, hs, hfailed _ rfl (by decide)⟩

end Handoff
