import Mathlib.Data.Fintype.EquivFin
import Handoff.Proofs.Run

/-!
Calls from outside the tasks. They reach nothing that a task of their own would not reach.
-/

namespace Handoff

namespace Link

theorem exists_fresh (tasks : List Task) : ∃ id : Nat, ∀ u ∈ tasks, u.id ≠ id := by
  obtain ⟨id, hid⟩ := Infinite.exists_notMem_finset (tasks.map Task.id).toFinset
  refine ⟨id, ?_⟩
  rintro u hu rfl
  apply hid
  rw [List.mem_toFinset]
  exact List.mem_map_of_mem hu

def joined (l : Link) (c : Channel) {half : Half} (id made : Nat) (calls : List (Call half)) : Link :=
  { l with channel := c, tasks := l.tasks ++ [⟨id, "", half, .own, made, calls⟩] }

end Link

section

variable {l : Link} {id : Nat} {c : Channel} {half : Half} {made : Nat}

theorem Link.move_joined (hb : ∀ u ∈ l.tasks, u.id ≠ id) (p : Prompt half) :
    (l.joined c id made [.prompt p]).move (.turn id) = some
      ⟨Task.tell ⟨id, "", half, .own, made, [.prompt p]⟩ ((p.advance c).value.map Call.prompt),
        { l with
          channel := (p.advance c).state
          tasks := l.tasks ++ [Task.proceed ⟨id, "", half, .own, made, [.prompt p]⟩ []
            ((p.advance c).value.map Call.prompt)] },
        (p.advance c).effects⟩ :=
  (@Turned.called (l.joined c id made [.prompt p]) id l.tasks []
    ⟨id, "", half, .own, made, [.prompt p]⟩ (.prompt p) [] _ rfl rfl hb rfl rfl).advance

theorem Run.left (hb : ∀ u ∈ l.tasks, u.id ≠ id) :
    ∃ deeds, Run (l.joined c id made ([] : List (Call half))) deeds { l with channel := c } ∧
      effects deeds = [] := by
  have hs := (@Link.Turned.ended (l.joined c id made ([] : List (Call half))) id l.tasks []
    ⟨id, "", half, .own, made, []⟩ rfl rfl hb rfl (by simp)).advance
  rw [List.append_nil] at hs
  exact ⟨_, @Run.cons _ _ (.turn id) _ _ hs .start, rfl⟩

theorem Run.joined (hb : ∀ u ∈ l.tasks, u.id ≠ id) (p : Prompt half) :
    ∃ deeds, Run (l.joined c id made [.prompt p]) deeds { l with channel := (p.run c).state } ∧
      effects deeds = (p.run c).effects := by
  -- One turn of the task for each step of the call, and a last one in which the task ends.
  induction p, c using Prompt.run.induct with
  | case1 p c s answer =>
    rename_i hv
    have hv : (p.advance c).value = .answered answer := hv
    have hc := @Link.move_joined l id c half made hb p
    rw [hv] at hc
    obtain ⟨deeds, run, he⟩ := @Run.left l id (p.advance c).state half (made + 1) hb
    rw [Prompt.run_of_answered hv]
    refine ⟨_, .cons hc run, ?_⟩
    rw [effects_cons, he, List.append_nil, Step.effects_map]
  | case2 p c s rest =>
    rename_i hv ih
    have hv : (p.advance c).value = .onward rest := hv
    have hc := @Link.move_joined l id c half made hb p
    rw [hv] at hc
    obtain ⟨deeds, run, he⟩ := ih
    rw [Prompt.run_of_onward hv]
    refine ⟨_, .cons hc run, ?_⟩
    rw [effects_cons, he, Step.effects_after]

end

theorem Run.perform (l : Link) {half : Half} {p : Prompt half} (hp : p.unstarted = true) :
    ∃ deeds, Run l deeds (l.perform p).state ∧ effects deeds = (l.perform p).effects := by
  obtain ⟨id, hid⟩ := Link.exists_fresh l.tasks
  have hs := @Link.move_spawn l ⟨id, "", half, .own, 0, [.prompt p]⟩ (by simpa [Call.unstarted]) hid
  obtain ⟨deeds, run, he⟩ := @Run.joined l id l.channel half 0 hid p
  refine ⟨_, .cons hs run, ?_⟩
  rw [effects_cons, he]
  rfl

theorem Run.dropHandle (l : Link) (half : Half) :
    ∃ deeds, Run l deeds (l.dropHandle half).state ∧
      effects deeds = (l.dropHandle half).effects := by
  obtain ⟨id, hid⟩ := Link.exists_fresh l.tasks
  have hs := @Link.move_spawn l ⟨id, "", half, .drop, 0, []⟩ (by simp) hid
  have ht := (@Link.Turned.dropped (l.spawn ⟨id, "", half, .drop, 0, []⟩) id l.tasks []
    ⟨id, "", half, .drop, 0, []⟩ rfl rfl hid rfl rfl).advance
  rw [List.append_nil] at ht
  refine ⟨_, .cons hs (@Run.cons _ _ (.turn id) _ _ ht .start), ?_⟩
  rw [effects_cons, effects_cons]
  exact List.append_nil _

namespace Link

theorem Reachable.spawn {l : Link} (hl : l.Reachable) {t : Task}
    (hu : ∀ call ∈ t.calls, call.unstarted = true) (hi : ∀ u ∈ l.tasks, u.id ≠ t.id) :
    (l.spawn t).Reachable :=
  hl.move (move_spawn hu hi)

theorem Reachable.perform {l : Link} (hl : l.Reachable) {half : Half} {p : Prompt half}
    (hp : p.unstarted = true) : (l.perform p).state.Reachable := by
  obtain ⟨settings, deeds, run⟩ := hl
  obtain ⟨more, next, -⟩ := Run.perform l hp
  exact ⟨settings, _, run.trans next⟩

theorem Reachable.dropHandle {l : Link} (hl : l.Reachable) (half : Half) :
    (l.dropHandle half).state.Reachable := by
  obtain ⟨settings, deeds, run⟩ := hl
  obtain ⟨more, next, -⟩ := Run.dropHandle l half
  exact ⟨settings, _, run.trans next⟩

end Link

end Handoff
