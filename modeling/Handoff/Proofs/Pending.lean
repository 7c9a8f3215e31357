import Handoff.Proofs.Sound
import Handoff.Proofs.Stuck
import Handoff.Proofs.Turn

/-!
Polls that were told to wait. As long as a poll would be told so again, its waker stays in the pipe.
-/

namespace Handoff

namespace Call

def polls {half : Half} : Call half → Bool
  | prompt p => p.waker?.isSome
  | _ => false

theorem prompt_of_pending {half : Half} {owner : Nat} {call : Call half} {c : Channel}
    {s : Step Channel (Progress (Call half))} (h : call.advance owner c = some s)
    (hv : s.value = .answered (.polled .pending)) :
    ∃ p, call = .prompt p ∧ (p.advance c).value = .answered (.polled .pending) ∧
      s.state = (p.advance c).state := by
  cases call with
  | prompt p =>
    obtain rfl := Option.some.inj h
    refine ⟨p, rfl, ?_, rfl⟩
    simp only [Step.value_map] at hv
    cases hp : (p.advance c).value with
    | onward => simp [hp, Progress.map] at hv
    | answered answer =>
      rw [hp] at hv
      obtain rfl := Progress.answered.inj hv
      rfl
  | receive room =>
    obtain ⟨result, -, rfl⟩ := receive_cases h
    simp [Progress.reply] at hv
  | read room | drain room chunks =>
    obtain ⟨l, -, rfl⟩ := Option.map_eq_some_iff.mp h
    simp only [Step.value_map] at hv
    split at hv <;> simp [Progress.reply] at hv
  | send bytes placed | write bytes placed =>
    cases placed with
    | false =>
      obtain ⟨l, -, rfl⟩ := Option.map_eq_some_iff.mp h
      simp only [Channel.value_lift, Step.value_map] at hv
      split at hv <;> simp [Progress.reply] at hv
    | true =>
      obtain ⟨l, -, rfl⟩ := Option.map_eq_some_iff.mp h
      simp [Progress.reply] at hv
  | flush =>
    obtain rfl := Option.some.inj h
    simp [Progress.reply] at hv

theorem outstanding_advance {half : Half} {owner : Nat} {call : Call half} {c : Channel}
    {s : Step Channel (Progress (Call half))} (h : call.advance owner c = some s)
    (hp : half = .write → call.polls = false) : s.state.outstanding = c.outstanding := by
  cases call with
  | prompt p =>
    obtain rfl := Option.some.inj h
    cases p with
    | pollWrite | pollFlush | pollClose => simp [polls, Prompt.waker?] at hp
    | _ => rfl
  | receive room =>
    obtain ⟨result, -, rfl⟩ := receive_cases h
    rfl
  | read room | drain room chunks =>
    obtain ⟨l, hl, rfl⟩ := Option.map_eq_some_iff.mp h
    rcases Channel.look_cases hl with ⟨result, -, rfl⟩ | ⟨-, -, rfl⟩
    · rfl
    · rfl
  | send bytes placed | write bytes placed =>
    cases placed <;>
      (obtain ⟨l, -, rfl⟩ := Option.map_eq_some_iff.mp h; rfl)
  | flush =>
    obtain rfl := Option.some.inj h
    rfl

end Call

def Deed.Polls (half : Half) (d : Deed) : Prop :=
  ∃ id call, d.move = .turn id ∧ d.found.call? id = some call ∧ call.1 = half ∧ call.2.polls = true

theorem Link.outstanding_move {l : Link} {m : Move} {s : Step Link (Option Event)}
    (h : l.move m = some s) (hp : ¬ Deed.Polls .write ⟨l, m, s⟩) :
    s.state.channel.outstanding = l.channel.outstanding := by
  cases m with
  | spawn t =>
    obtain ⟨-, -, rfl⟩ := spawned_of_move h
    rfl
  | turn id =>
    cases turned_of_advance h with
    | @called before after t call rest r ht hi hb hc hr =>
      subst hi
      apply Call.outstanding_advance hr
      intro hw
      cases hpo : call.polls with
      | false => rfl
      | true => exact absurd ⟨t.id, _, rfl, call?_of_tasks ht hb hc, hw, hpo⟩ hp
    | ended => rfl
    | dropped => rw [channel_markGone]

/-- Until its handle is polled again, a waker is woken or nothing that it waits for has changed. -/
theorem Run.waiting_or_woke {l m : Link} {deeds : List Deed} (run : Run l deeds m) {half : Half}
    {w : Waker} (hw : w ∈ l.channel.pipe.waiting half) (hp : ∀ d ∈ deeds, ¬ d.Polls half) :
    .woke w ∈ effects deeds ∨
      w ∈ m.channel.pipe.waiting half ∧ l.channel.pipe.Alike m.channel.pipe ∧
        (half = .write → m.channel.outstanding = l.channel.outstanding) := by
  induction run with
  | start => exact .inr ⟨hw, .refl _, fun _ => rfl⟩
  | @next deeds n move s run h ih =>
    rw [effects_concat]
    rcases ih fun d hd => hp d (List.mem_append_left _ hd) with hd | ⟨hm, ha, ho⟩
    · exact .inl (List.mem_append_left _ hd)
    · -- Either the step wakes all that wait, or it leaves the pipe as it was.
      obtain ⟨_, _, _, hsec⟩ := Link.section_of_move h
      cases hsec.heard with
      | told _ hk => exact .inl (List.mem_append_right _ (hk half w hm))
      | still _ hb hk =>
        refine .inr ⟨hk half hm, ha.trans hb, ?_⟩
        rintro rfl
        rw [← ho rfl]
        exact Link.outstanding_move h (hp _ (by simp))

theorem Link.pending_of_move {l : Link} {m : Move} {s : Step Link (Option Event)} {event : Event}
    (h : l.move m = some s) (hv : s.value = some event) (he : event.answer = .polled .pending) :
    ∃ (id : Nat) (half : Half) (p : Prompt half) (w : Waker),
      m = .turn id ∧ l.call? id = some ⟨half, .prompt p⟩ ∧ p.waker? = some w ∧
        p.Stuck s.state.channel ∧ w ∈ s.state.channel.pipe.waiting half := by
  cases m with
  | spawn t =>
    obtain ⟨-, -, rfl⟩ := spawned_of_move h
    simp at hv
  | turn id =>
    cases turned_of_advance h with
    | @called before after t call rest r ht hi hb hc hr =>
      subst hi
      have hr' : r.value = .answered (.polled .pending) := by
        cases ha : r.value with
        | onward => simp [Task.tell, ha] at hv
        | answered answer =>
          simp only [Task.tell, ha, Option.some.injEq] at hv
          rw [← he, ← hv]
      obtain ⟨p, rfl, hp, hs⟩ := Call.prompt_of_pending hr hr'
      obtain ⟨hstuck, w, hw, hm⟩ := Prompt.stuck_of_pending hp
      exact ⟨t.id, t.half, p, w, rfl, call?_of_tasks ht hb hc, hw, hs ▸ hstuck, hs ▸ hm⟩
    | ended => simp at hv
    | dropped => simp at hv

theorem Link.pending_polls_woken {l : Link} (hl : l.Reachable) :
    (l.channel.pipe.waitingReaders ≠ [] →
      l.channel.pipe.closed = false ∧ l.channel.pipe.available = none) ∧
    (l.channel.pipe.waitingWriters ≠ [] →
      l.channel.pipe.closed = false ∧ l.channel.pipe.occupied = true) ∧
    ∀ m s event, l.move m = some s → s.value = some event → event.answer = .polled .pending →
      ∃ (id : Nat) (half : Half) (p : Prompt half) (w : Waker),
        m = .turn id ∧ l.call? id = some ⟨half, .prompt p⟩ ∧ p.waker? = some w ∧
        w ∈ s.state.channel.pipe.waiting half ∧
        ∀ deeds n, Run s.state deeds n → (∀ d ∈ deeds, ¬ d.Polls half) →
          ∀ q, p.Repeats q →
            ((q.run n.channel).value ≠ .polled .pending ∨
              ∃ origin bytes, .placed origin bytes ∈ (q.run n.channel).effects) →
            .woke w ∈ effects deeds := by
  refine ⟨?_, ?_, ?_⟩
  · intro hw
    simpa [Pipe.gate, Pipe.readable] using hl.sound.stalled .read hw
  · intro hw
    simpa [Pipe.gate, Pipe.enterable] using hl.sound.stalled .write hw
  · intro m s event hm hv he
    obtain ⟨id, half, p, w, hi, hc, hw, hstuck, hmem⟩ := pending_of_move hm hv he
    refine ⟨id, half, p, w, hi, hc, hw, hmem, ?_⟩
    intro deeds n run hq q hrep hready
    rcases run.waiting_or_woke hmem hq with hwoke | ⟨-, ha, ho⟩
    · exact hwoke
    · obtain ⟨hval, heff⟩ := Prompt.advance_of_stuck (hstuck.alike ha ho) hrep
      rw [Prompt.run_of_answered hval] at hready
      rcases hready with hne | ⟨origin, bytes, hpl⟩
      · exact absurd rfl hne
      · simp [heff] at hpl

theorem poll_read_woken_by_send :
    ∃ l s deeds n, Link.Reachable l ∧ l.move (.turn 1) = some s ∧
      s.value = some ⟨"reader", 0, .polled .pending⟩ ∧ Run s.state deeds n ∧
      .woke (.named "waker") ∈ effects deeds := by
  have spawned := @run_of_play (.opened {}) _
    [.spawn ⟨1, "reader", .read, .share, 0, [.prompt (.pollRead 4 (.named "waker"))]⟩] _ rfl
  obtain ⟨id, half, p, w, hi, hc, hw, -, hwoke⟩ :=
    (Link.pending_polls_woken ⟨{}, _, spawned⟩).2.2 (.turn 1) _ _ rfl rfl rfl
  obtain rfl := Move.turn.inj hi
  cases hc
  cases hw
  refine ⟨_, _, _, _, ⟨{}, _, spawned⟩, rfl, rfl,
    @Run.cons _ _ (.spawn ⟨2, "writer", .write, .share, 0, [.send [7] false]⟩) _ _ rfl
      (@Run.cons _ _ (.turn 2) _ _ rfl .start), ?_⟩
  apply hwoke _ _ (.cons rfl (.cons rfl .start)) _ _ (.read 4 4 (.named "waker") (.named "waker"))
  · left
    rw [Prompt.run_of_answered rfl]
    decide
  · rintro d (_ | ⟨_, _ | ⟨_, ⟨⟩⟩⟩) ⟨id, call, hm, hc, hh, -⟩
    · cases hm
    · cases hm
      cases hc
      cases hh

end Handoff
