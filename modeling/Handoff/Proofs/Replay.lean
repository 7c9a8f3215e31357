import Handoff.Proofs.Outside
import Handoff.Proofs.Split

/-!
Closes taken apart reach nothing new. A close in one step, made by a task that comes for it and goes,
stands for it from the moment at which others can see that the pipe has been shut.
-/

namespace Handoff

theorem Run.close (l : Link) (half : Half) (reason : Option Reason) :
    ∃ deeds, Run l deeds
        { l with channel := { l.channel with pipe := (l.channel.pipe.close half reason).state } } ∧
      effects deeds = (l.channel.pipe.close half reason).effects := by
  have h := @Run.perform l half (.close reason) rfl
  rw [Link.perform, Prompt.run_of_answered rfl] at h
  exact h

/-- Some run does the same, and all that are owed it have been woken. -/
def Replayed (l : Link) (es : List Effect) (m : Link) : Prop :=
  ∃ deeds, Run l deeds m.seen ∧ untold (effects deeds) = untold es ∧
    wakes (effects deeds) = wakes es ++ m.channel.pipe.owed

namespace Replayed

variable {l m : Link} {es : List Effect}

theorem orderly (h : Replayed l es m) (hl : l.Orderly) : m.Orderly := by
  obtain ⟨deeds, run, -⟩ := h
  have ho := run.orderly hl
  exact ⟨ho.ids, ho.queued⟩

theorem keep (h : Replayed l es m) (half : Half) (reason : Option Reason) :
    Replayed l es (m.kept half reason) := by
  obtain ⟨deeds, run, hu, hw⟩ := h
  have ho : (m.kept half reason).channel.pipe.owed = m.channel.pipe.owed := Pipe.owed_keepReason _ _ _
  cases hc : m.channel.pipe.closed with
  | false =>
    have hs : (m.kept half reason).seen = m.seen := by
      rw [Link.seen, Channel.seen, Link.kept, Pipe.seen_keepReason hc]
      rfl
    refine ⟨deeds, ?_, hu, ?_⟩
    · rw [hs]
      exact run
    · rw [ho, hw]
  | true =>
    obtain ⟨more, next, he⟩ := Run.close m.seen half reason
    have hp : m.seen.channel.pipe.parked = [] := Pipe.parked_seen hc
    have hcs : m.seen.channel.pipe.closed = true := m.channel.pipe.closed_seen.trans hc
    have hs : (m.seen.channel.pipe.close half reason).state =
        (m.kept half reason).channel.pipe.seen := Pipe.close_seen hc half reason
    rw [hs] at next
    refine ⟨deeds ++ more, run.trans next, ?_, ?_⟩
    · rw [effects_append, untold_append, he, Pipe.untold_close, Pipe.effects_shut hcs, hu]
      exact List.append_nil _
    · rw [effects_append, wakes_append, he, Pipe.wakes_close, hp, hw, ho]
      exact List.append_nil _

theorem shut (h : Replayed l es m) {half : Half} {reason : Reason}
    (hr : m.channel.pipe.ownReason half = some reason) :
    Replayed l (es ++ (m.channel.pipe.shut half).effects) (m.shut half) := by
  cases hc : m.channel.pipe.closed with
  | true =>
    have hs : m.shut half = m := by rw [Link.shut, Pipe.shut_of_closed hc]
    rw [hs, Pipe.effects_shut hc, List.append_nil]
    exact h
  | false =>
    obtain ⟨deeds, run, hu, hw⟩ := h
    have hcs : m.seen.channel.pipe.closed = false := m.channel.pipe.closed_seen.trans hc
    have hp : m.seen.channel.pipe.parked = m.channel.pipe.parked := by
      rw [Link.seen, Channel.seen, Pipe.seen_of_open hc]
      rfl
    have hl : (m.seen.channel.pipe.shut half).effects = (m.channel.pipe.shut half).effects := by
      rw [Pipe.shut, Pipe.shut, hcs, hc]
    -- The half that kept its reason shuts the pipe; the other may have kept one, too.
    obtain ⟨first, one, he⟩ := Run.close m.seen half (some reason)
    have run := run.trans one
    have hu1 : untold (effects (deeds ++ first)) =
        untold (es ++ (m.channel.pipe.shut half).effects) := by
      rw [effects_append, untold_append, untold_append, hu, he, Pipe.untold_close, hl, Pipe.untold_shut]
    have hw1 : wakes (effects (deeds ++ first)) =
        wakes (es ++ (m.channel.pipe.shut half).effects) ++ (m.shut half).channel.pipe.owed := by
      have howed : m.channel.pipe.owed = [] := if_neg (by simp [hc])
      rw [effects_append, wakes_append, wakes_append, hw, he, Pipe.wakes_close, hp, Pipe.wakes_shut,
        howed, List.append_nil]
      rfl
    have hs := Pipe.shut_seen hc hr
    cases hother : m.channel.pipe.ownReason half.other with
    | none =>
      rw [hother] at hs
      refine ⟨deeds ++ first, ?_, hu1, hw1⟩
      rw [Link.seen, Channel.seen, Link.shut, hs]
      exact run
    | some other =>
      rw [hother] at hs
      obtain ⟨second, two, he⟩ := Run.close
        { m.seen with channel := { m.seen.channel with
            pipe := (m.seen.channel.pipe.close half (some reason)).state } } half.other (some other)
      have run := run.trans two
      refine ⟨deeds ++ first ++ second, ?_, ?_, ?_⟩
      · rw [Link.seen, Channel.seen, Link.shut, hs]
        exact run
      · rw [effects_append, untold_append, hu1, he, Pipe.untold_close]
        exact List.append_nil _
      · rw [effects_append, wakes_append, hw1, he, Pipe.wakes_close]
        exact List.append_nil _

theorem move (h : Replayed l es m) {move : Move} {s : Step Link (Option Event)}
    (hs : m.move move = some s)
    (hc : ∀ t ∈ m.tasks, move = .turn t.id → t.closing.isSome → m.channel.pipe.closed = true) :
    Replayed l (es ++ s.effects) s.state := by
  obtain ⟨deeds, run, hu, hw⟩ := h
  obtain ⟨q, hq, hst, hm⟩ := Link.mirrored_move hs hc
  refine ⟨_, hst ▸ run.next hq, ?_, ?_⟩
  · rw [effects_concat, untold_append, untold_append, hu]
    exact congrArg _ hm.untold
  · rw [effects_concat, wakes_append, wakes_append, hw, List.append_assoc, List.append_assoc]
    exact congrArg _ hm.wakes

end Replayed

theorem Split.replayed {l m : Link} {begun fired : List Nat} {es : List Effect}
    (split : Split l begun fired es m) (ho : l.Orderly) (hl : Begun l [] []) :
    Begun m begun fired ∧ Replayed l es m := by
  induction split with
  | start =>
    refine ⟨hl, [], ?_, rfl, ?_⟩
    · rw [hl.seen_eq]
      exact .start
    · rw [hl.owed_eq_nil]
      rfl
  | keep _ ht hc ih =>
    obtain ⟨hm, hr⟩ := ih
    exact ⟨hm.keep ht hc, hr.keep _ _⟩
  | shut _ ht hb ih =>
    obtain ⟨hm, hr⟩ := ih
    obtain ⟨u, hu, hi, -, reason, hreason⟩ := hm.closing _ hb
    obtain rfl := (hr.orderly ho).unique hu ht hi
    exact ⟨hm.shutting hb, hr.shut hreason⟩
  | next _ h hc ih =>
    obtain ⟨hm, hr⟩ := ih
    exact ⟨hm.move (hr.orderly ho) h hc, hr.move h (hm.closed_of_turn hc)⟩

theorem Link.begun_opened (settings : Settings) : Begun (.opened settings) [] [] where
  closing := by simp
  within := List.Subset.refl _
  closed h := absurd rfl h
  kept _ half _ h := by cases half <;> simp [opened, Settings.opened, Pipe.ownReason] at h
  owed h := absurd rfl h

namespace Split

variable {settings : Settings} {m : Link} {begun fired : List Nat} {es : List Effect}

theorem reachable_seen (split : Split (.opened settings) begun fired es m) : m.seen.Reachable := by
  obtain ⟨-, deeds, run, -⟩ := split.replayed (Link.orderly_opened settings) (Link.begun_opened settings)
  exact ⟨settings, deeds, run⟩

theorem run (split : Split (.opened settings) [] fired es m) :
    ∃ deeds, Run (.opened settings) deeds m ∧ untold (effects deeds) = untold es ∧
      wakes (effects deeds) = wakes es := by
  obtain ⟨hm, deeds, run, hu, hw⟩ :=
    split.replayed (Link.orderly_opened settings) (Link.begun_opened settings)
  rw [hm.seen_eq] at run
  rw [hm.owed_eq_nil, List.append_nil] at hw
  exact ⟨deeds, run, hu, hw⟩

end Split

end Handoff
