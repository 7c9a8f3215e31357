import Mathlib.Data.List.Nodup
import Handoff.Link.Basic
import Handoff.Settings
import Handoff.Proofs.Section

/-!
What a link can do next: a task appears, or a task has its turn. Nothing here asks the tasks to keep
to the rule of borrowing.
-/

namespace Handoff

inductive Move
  | spawn (task : Task)
  | turn (id : Nat)

def Prompt.unstarted {half : Half} : Prompt half → Bool
  | closeFlushed _ => false
  | _ => true

def Call.unstarted {half : Half} : Call half → Bool
  | prompt p => p.unstarted
  | drain _ chunks => chunks.isEmpty
  | send _ placed | write _ placed => !placed
  | receive _ | read _ | flush => true

def Task.proceed (t : Task) (rest : List (Call t.half)) : Progress (Call t.half) → Task
  | .onward call => { t with calls := call :: rest }
  | .answered _ => { t with made := t.made + 1, calls := rest }

@[simp] theorem Task.id_proceed (t : Task) (rest : List (Call t.half)) (p : Progress (Call t.half)) :
    (t.proceed rest p).id = t.id := by
  cases p <;> rfl

def Task.tell (t : Task) {α : Type} : Progress α → Option Event
  | .onward _ => none
  | .answered answer => some ⟨t.name, t.made, answer⟩

namespace Link

def opened (settings : Settings) : Link :=
  { channel := settings.opened }

def move (l : Link) : Move → Option (Step Link (Option Event))
  | .spawn t =>
    if t.calls.all Call.unstarted && l.tasks.all (·.id ≠ t.id) then some (.quiet none (l.spawn t))
    else none
  | .turn id => l.advance id

inductive Turned (l : Link) (id : Nat) : Step Link (Option Event) → Prop
  | called {before after : List Task} {t : Task} {call : Call t.half} {rest : List (Call t.half)}
      {r : Step Channel (Progress (Call t.half))} (ht : l.tasks = before ++ t :: after)
      (hi : t.id = id) (hb : ∀ u ∈ before, u.id ≠ id) (hc : t.calls = call :: rest)
      (hr : call.advance id l.channel = some r) :
      Turned l id ⟨t.tell r.value,
        { l with channel := r.state, tasks := before ++ t.proceed rest r.value :: after }, r.effects⟩
  | ended {before after : List Task} {t : Task} (ht : l.tasks = before ++ t :: after)
      (hi : t.id = id) (hb : ∀ u ∈ before, u.id ≠ id) (hc : t.calls = []) (hm : t.mode ≠ .drop) :
      Turned l id ⟨none, { l with tasks := before ++ after }, []⟩
  | dropped {before after : List Task} {t : Task} (ht : l.tasks = before ++ t :: after)
      (hi : t.id = id) (hb : ∀ u ∈ before, u.id ≠ id) (hc : t.calls = []) (hm : t.mode = .drop) :
      Turned l id ⟨none,
        { l with
          channel := { l.channel with pipe := (l.channel.pipe.close t.half none).state }
          tasks := before ++ after }.markGone t.half,
        (l.channel.pipe.close t.half none).effects⟩

theorem shift_eq_some {id : Nat} {tasks : List Task} {c : Channel} {s : Step Channel Shift}
    (h : shift id tasks c = some s) :
    ∃ before t after r, tasks = before ++ t :: after ∧ t.id = id ∧ (∀ u ∈ before, u.id ≠ id) ∧
      t.advance c = some r ∧
      s = r.map fun turn => { Shift.ofTurn t after turn with
        tasks := before ++ (Shift.ofTurn t after turn).tasks } := by
  induction tasks generalizing s with
  | nil => simp [shift] at h
  | cons t rest ih =>
    unfold shift at h
    split at h
    · rename_i hi
      obtain ⟨r, hr, rfl⟩ := Option.map_eq_some_iff.mp h
      exact ⟨[], t, rest, r, rfl, hi, by simp, hr, rfl⟩
    · rename_i hi
      obtain ⟨q, hq, rfl⟩ := Option.map_eq_some_iff.mp h
      obtain ⟨before, u, after, r, rfl, hu, hb, hr, rfl⟩ := ih hq
      refine ⟨t :: before, u, after, r, rfl, hu, ?_, hr, rfl⟩
      rintro v (_ | ⟨_, hv⟩)
      · exact hi
      · exact hb v hv

theorem turned_of_advance {l : Link} {id : Nat} {s : Step Link (Option Event)}
    (h : l.advance id = some s) : l.Turned id s := by
  obtain ⟨m, hm, rfl⟩ := Option.map_eq_some_iff.mp h
  obtain ⟨before, t, after, r, ht, hi, hb, hr, rfl⟩ := shift_eq_some hm
  unfold Task.advance at hr
  split at hr
  · rename_i hc
    split at hr
    · rename_i hd
      obtain rfl := Option.some.inj hr
      have hs := Turned.dropped ht hi hb hc hd
      simpa [accept, Shift.ofTurn, hd, Channel.lift, Step.within] using hs
    · rename_i hd
      obtain rfl := Option.some.inj hr
      have hs := Turned.ended ht hi hb hc hd
      simpa [accept, Shift.ofTurn, hd] using hs
  · rename_i call rest hc
    obtain ⟨q, hq, rfl⟩ := Option.map_eq_some_iff.mp hr
    subst hi
    have hs := Turned.called ht rfl hb hc hq
    cases hv : q.value with
    | onward next => simpa [accept, Shift.ofTurn, Task.proceed, Task.tell, hv] using hs
    | answered answer => simpa [accept, Shift.ofTurn, Task.proceed, Task.tell, hv] using hs

theorem shift_of_tasks {before : List Task} {t : Task} (hb : ∀ u ∈ before, u.id ≠ t.id)
    (after : List Task) (c : Channel) :
    shift t.id (before ++ t :: after) c = (t.advance c).map fun s => s.map fun turn =>
      { Shift.ofTurn t after turn with tasks := before ++ (Shift.ofTurn t after turn).tasks } := by
  induction before with
  | nil =>
    rw [List.nil_append, shift, if_pos rfl]
    rfl
  | cons u rest ih =>
    have hu : u.id ≠ t.id := hb u List.mem_cons_self
    rw [List.cons_append, shift, if_neg hu, ih fun v hv => hb v (List.mem_cons_of_mem _ hv),
      Option.map_map]
    rfl

theorem Turned.advance {l : Link} {id : Nat} {s : Step Link (Option Event)} (h : l.Turned id s) :
    l.advance id = some s := by
  cases h with
  | @called before after t call rest r ht hi hb hc hr =>
    subst hi
    have hadv : t.advance l.channel = some (r.map fun
        | .onward call => .working { t with calls := call :: rest } none
        | .answered answer =>
          .working { t with made := t.made + 1, calls := rest } (some ⟨t.name, t.made, answer⟩)) := by
      rw [Task.advance, hc]
      simp only [hr]
      rfl
    rw [Link.advance, ht, shift_of_tasks hb, hadv]
    cases hv : r.value <;> simp [accept, Shift.ofTurn, Task.proceed, Task.tell, hv]
  | @ended before after t ht hi hb hc hm =>
    subst hi
    have hadv : t.advance l.channel = some (.quiet .ended l.channel) := by
      rw [Task.advance, hc]
      simp [hm]
    rw [Link.advance, ht, shift_of_tasks hb, hadv]
    simp [accept, Shift.ofTurn, hm]
  | @dropped before after t ht hi hb hc hm =>
    subst hi
    have hadv : t.advance l.channel =
        some (l.channel.lift ((l.channel.pipe.close t.half none).map fun _ => .ended)) := by
      rw [Task.advance, hc]
      simp [hm]
    rw [Link.advance, ht, shift_of_tasks hb, hadv]
    simp [accept, Shift.ofTurn, hm]
    rfl

theorem Turned.section {l : Link} {id : Nat} {s : Step Link (Option Event)} (h : l.Turned id s) :
    ∃ lent left, Section id lent l.channel s.effects s.state.channel left := by
  cases h with
  | called ht hi hb hc hr => exact ⟨_, _, Call.section_of_advance hr⟩
  | ended => exact ⟨none, none, .quiet l.channel⟩
  | @dropped _ _ t =>
    refine ⟨none, none, ?_⟩
    cases t.half <;> exact .other (Channel.Change.close l.channel _ none).changes

theorem spawned_of_move {l : Link} {t : Task} {s : Step Link (Option Event)}
    (h : l.move (.spawn t) = some s) :
    (∀ call ∈ t.calls, call.unstarted = true) ∧ (∀ u ∈ l.tasks, u.id ≠ t.id) ∧
      s = .quiet none (l.spawn t) := by
  simp only [move] at h
  split at h
  · rename_i hc
    obtain rfl := Option.some.inj h
    simp only [Bool.and_eq_true, List.all_eq_true, decide_eq_true_eq] at hc
    exact ⟨hc.1, hc.2, rfl⟩
  · simp at h

theorem move_spawn {l : Link} {t : Task} (hu : ∀ call ∈ t.calls, call.unstarted = true)
    (hi : ∀ u ∈ l.tasks, u.id ≠ t.id) : l.move (.spawn t) = some (.quiet none (l.spawn t)) := by
  rw [move, if_pos]
  simpa [List.all_eq_true] using And.intro hu hi

theorem section_of_move {l : Link} {m : Move} {s : Step Link (Option Event)}
    (h : l.move m = some s) :
    ∃ owner lent left, Section owner lent l.channel s.effects s.state.channel left := by
  cases m with
  | spawn t =>
    obtain ⟨-, -, rfl⟩ := spawned_of_move h
    exact ⟨0, none, none, .quiet l.channel⟩
  | turn id => exact ⟨id, (turned_of_advance h).section⟩

/-- Tasks are told apart by their numbers, and only the first call of a task may have begun. -/
structure Orderly (l : Link) : Prop where
  ids : (l.tasks.map Task.id).Nodup
  queued : ∀ t ∈ l.tasks, ∀ call ∈ t.calls.tail, call.unstarted = true

theorem Orderly.unique {l : Link} (h : l.Orderly) {t u : Task} (ht : t ∈ l.tasks) (hu : u ∈ l.tasks)
    (hi : t.id = u.id) : t = u :=
  List.inj_on_of_nodup_map h.ids ht hu hi

theorem Orderly.spawn {l : Link} (h : l.Orderly) {t : Task}
    (hu : ∀ call ∈ t.calls, call.unstarted = true) (hi : ∀ u ∈ l.tasks, u.id ≠ t.id) :
    (l.spawn t).Orderly where
  ids := by
    rw [Link.spawn, List.map_append, List.nodup_append]
    refine ⟨h.ids, List.nodup_singleton _, ?_⟩
    intro a ha b hb
    obtain ⟨u, hm, rfl⟩ := List.mem_map.mp ha
    obtain rfl : b = t.id := by simpa using hb
    exact hi u hm
  queued u hm call hc := by
    rcases List.mem_append.mp hm with hm | hm
    · exact h.queued u hm call hc
    · obtain rfl := List.mem_singleton.mp hm
      exact hu call (List.mem_of_mem_tail hc)

theorem Orderly.rest {l : Link} (h : l.Orderly) {t : Task} (ht : t ∈ l.tasks) {call : Call t.half}
    {rest : List (Call t.half)} (hc : t.calls = call :: rest) :
    ∀ next ∈ rest, next.unstarted = true := by
  have hq := h.queued t ht
  rw [hc] at hq
  exact hq

theorem Orderly.called {l m : Link} (h : l.Orderly) {before after : List Task} {t : Task}
    {call : Call t.half} {rest : List (Call t.half)} (ht : l.tasks = before ++ t :: after)
    (hc : t.calls = call :: rest) (p : Progress (Call t.half))
    (hm : m.tasks = before ++ t.proceed rest p :: after) : m.Orderly where
  ids := by
    have hi := h.ids
    rw [ht] at hi
    simpa [hm] using hi
  queued u hu c hcu := by
    have hr := h.rest (by simp [ht]) hc
    have hq := h.queued
    simp only [ht, hm, List.mem_append, List.mem_cons] at hq hu
    rcases hu with hu | rfl | hu
    · exact hq u (.inl hu) c hcu
    · cases p with
      | onward next => exact hr c hcu
      | answered answer => exact hr c (List.mem_of_mem_tail hcu)
    · exact hq u (.inr (.inr hu)) c hcu

theorem Orderly.ended {l m : Link} (h : l.Orderly) {before after : List Task} {t : Task}
    (ht : l.tasks = before ++ t :: after) (hm : m.tasks = before ++ after) : m.Orderly where
  ids := by
    have hi := h.ids
    rw [ht] at hi
    rw [hm]
    refine List.Nodup.sublist ?_ hi
    exact ((List.sublist_cons_self t after).append_left before).map Task.id
  queued u hu := by
    apply h.queued u
    rw [ht]
    rw [hm, List.mem_append] at hu
    rw [List.mem_append, List.mem_cons]
    exact hu.imp_right .inr

theorem tasks_markGone (l : Link) (half : Half) : (l.markGone half).tasks = l.tasks := by
  cases half <;> rfl

theorem channel_markGone (l : Link) (half : Half) : (l.markGone half).channel = l.channel := by
  cases half <;> rfl

theorem Orderly.move {l : Link} (h : l.Orderly) {m : Move} {s : Step Link (Option Event)}
    (hs : l.move m = some s) : s.state.Orderly := by
  cases m with
  | spawn t =>
    obtain ⟨hu, hi, rfl⟩ := spawned_of_move hs
    exact h.spawn hu hi
  | turn id =>
    cases turned_of_advance hs with
    | called ht _ _ hc => exact h.called ht hc _ rfl
    | ended ht => exact h.ended ht rfl
    | dropped ht => exact h.ended ht (tasks_markGone _ _)

end Link

end Handoff
