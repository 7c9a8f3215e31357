import Handoff.Proofs.Gain
import Handoff.Proofs.Turn

/-!
What calls tell along a run. A call tells just the bytes that its own steps were handed.
-/

namespace Handoff

theorem Call.gains_of_unstarted {half : Half} {call : Call half} (h : call.unstarted = true) :
    call.gains = [] := by
  cases call with
  | drain room chunks =>
    obtain rfl := List.isEmpty_iff.mp h
    rfl
  | _ => rfl

def Task.gains (t : Task) : List Bytes :=
  (t.calls.head?.map Call.gains).getD []

theorem Task.gains_cons {t : Task} {call : Call t.half} {rest : List (Call t.half)}
    (h : t.calls = call :: rest) : t.gains = call.gains := by
  rw [gains, h]
  rfl

theorem Task.gains_of_unstarted {t : Task} (h : ∀ call ∈ t.calls, call.unstarted = true) :
    t.gains = [] := by
  rw [gains]
  cases hc : t.calls.head? with
  | none => rfl
  | some call => exact Call.gains_of_unstarted (h call (List.mem_of_head? hc))

def Link.gains (l : Link) (id : Nat) : List Bytes :=
  ((l.task? id).map Task.gains).getD []

/-- What the call of this thread has got after the move, whether or not it has ended with it. -/
def Deed.gains (d : Deed) (id : Nat) : List Bytes :=
  match d.step.value with
  | some event => event.answer.gains
  | none => d.step.state.gains id

theorem Link.Orderly.gains_turn {l : Link} (h : l.Orderly) {id : Nat} {s : Step Link (Option Event)}
    (hs : l.move (.turn id) = some s) :
    (Deed.mk l (.turn id) s).gains id = l.gains id ++ solid (handed s.effects) := by
  cases turned_of_advance hs with
  | @called before after t call rest r ht hi hb hc hr =>
    subst hi
    have hg : l.gains t.id = call.gains := by
      rw [Link.gains, task?_of_tasks ht hb]
      exact Task.gains_cons hc
    rw [hg, ← Call.gains_advance hr]
    cases hv : r.value with
    | answered answer =>
      simp only [Deed.gains, Task.tell]
      rfl
    | onward next =>
      have hn := t.id_proceed rest (.onward next)
      have hf := @task?_of_tasks
        { l with channel := r.state, tasks := before ++ t.proceed rest (.onward next) :: after }
        before after _ rfl (by rwa [hn])
      rw [hn] at hf
      simp only [Deed.gains, Task.tell]
      rw [Link.gains, hf]
      rfl
  | @ended before after t ht hi hb hc =>
    subst hi
    rw [Deed.gains, Link.gains, Link.gains, task?_of_tasks ht hb, h.task?_ended ht rfl]
    simp [Task.gains, hc, handed]
  | @dropped before after t ht hi hb hc =>
    subst hi
    have hh := (Channel.Change.close l.channel t.half none).handed_eq
    have hm := tasks_markGone
      { l with
        channel := { l.channel with pipe := (l.channel.pipe.close t.half none).state }
        tasks := before ++ after } t.half
    rw [Deed.gains, Link.gains, Link.gains, task?_of_tasks ht hb, h.task?_ended ht hm, hh]
    simp [Task.gains, hc]

theorem Task.gains_proceed (t : Task) {rest : List (Call t.half)}
    (hq : ∀ call ∈ rest, call.unstarted = true) (p : Progress (Call t.half)) :
    (t.proceed rest p).gains ⊆ p.gains Call.gains := by
  cases p with
  | onward next => exact List.Subset.refl _
  -- The call has ended, and the one after it has got nothing yet.
  | answered answer =>
    have hn : (t.proceed rest (.answered answer)).gains = [] := gains_of_unstarted hq
    rw [hn]
    exact List.nil_subset _

theorem solid_subset (pieces : List Bytes) : solid pieces ⊆ pieces := by
  intro bytes h
  exact List.mem_of_mem_filter h

theorem Run.gains_subset {settings : Settings} {deeds : List Deed} {l : Link}
    (run : Run (.opened settings) deeds l) : ∀ t ∈ l.tasks, t.gains ⊆ handed (effects deeds) := by
  induction run with
  | start => simp [Link.opened]
  | @next deeds m move s run h ih =>
    have hr : m.Reachable := ⟨settings, _, run⟩
    rw [effects_concat, handed_append]
    -- Nothing is ever struck from the history, so only the task that moved is in question.
    have old : ∀ t ∈ m.tasks, t.gains ⊆ handed (effects deeds) ++ handed s.effects :=
      fun t ht => List.subset_append_of_subset_left _ (ih t ht)
    cases move with
    | spawn t =>
      obtain ⟨hu, -, rfl⟩ := Link.spawned_of_move h
      intro u hum
      rcases List.mem_append.mp hum with hum | hum
      · exact old u hum
      · obtain rfl := List.mem_singleton.mp hum
        rw [Task.gains_of_unstarted hu]
        exact List.nil_subset _
    | turn id =>
      cases Link.turned_of_advance h with
      | @called before after t call rest r ht hi hb hc hr' =>
        have hm : ∀ u ∈ before ++ after, u ∈ m.tasks := fun u hu => (hr.orderly.other ht hu).1
        intro u hu
        rcases List.mem_append.mp hu with hu | hu
        · exact old u (hm u (List.mem_append_left _ hu))
        · rcases List.mem_cons.mp hu with rfl | hu
          · have htm : t ∈ m.tasks := by simp [ht]
            apply List.Subset.trans (t.gains_proceed (hr.orderly.rest htm hc) r.value)
            rw [Call.gains_advance hr', ← Task.gains_cons hc]
            apply List.append_subset.mpr
            refine ⟨old t htm, ?_⟩
            exact List.subset_append_of_subset_right _ (solid_subset _)
          · exact old u (hm u (List.mem_append_right _ hu))
      | ended ht => exact fun u hu => old u (hr.orderly.other ht hu).1
      | dropped ht =>
        rw [Link.tasks_markGone]
        exact fun u hu => old u (hr.orderly.other ht hu).1

theorem Run.handed_of_told {settings : Settings} {deeds : List Deed} {l : Link}
    (run : Run (.opened settings) deeds l) {m : Move} {s : Step Link (Option Event)}
    (h : l.move m = some s) {event : Event} (hv : s.value = some event) {bytes : Bytes}
    (hb : bytes ∈ event.answer.gains) : bytes ∈ handed (effects deeds) ∨ bytes ∈ handed s.effects := by
  cases m with
  | spawn t =>
    obtain ⟨-, -, rfl⟩ := Link.spawned_of_move h
    simp at hv
  | turn id =>
    have hr : l.Reachable := ⟨settings, deeds, run⟩
    have hg := hr.orderly.gains_turn h
    rw [Deed.gains, hv] at hg
    simp only at hg
    rw [hg, Link.gains] at hb
    rcases List.mem_append.mp hb with hb | hb
    · refine .inl ?_
      cases ht : l.task? id with
      | none => simp [ht] at hb
      | some t =>
        rw [ht] at hb
        exact run.gains_subset t (Link.mem_of_task? ht).1 hb
    · exact .inr (solid_subset _ hb)

end Handoff
