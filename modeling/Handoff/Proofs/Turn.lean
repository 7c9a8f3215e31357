import Handoff.Proofs.Custody

/-!
Which call a turn belongs to, and what the thread is told.
-/

namespace Handoff

def Task.call? (t : Task) : Option ((half : Half) × Call half) :=
  t.calls.head?.map (⟨t.half, ·⟩)

theorem Task.call?_cons {t : Task} {call : Call t.half} {rest : List (Call t.half)}
    (h : t.calls = call :: rest) : t.call? = some ⟨t.half, call⟩ := by
  rw [call?, h]
  rfl

def Progress.answer? {α : Type} : Progress α → Option Answer
  | onward _ => none
  | answered answer => some answer

namespace Link

variable {l : Link} {before after : List Task} {t : Task}

def task? (l : Link) (id : Nat) : Option Task :=
  l.tasks.find? fun t => t.id = id

def call? (l : Link) (id : Nat) : Option ((half : Half) × Call half) :=
  (l.task? id).bind Task.call?

theorem mem_of_task? {id : Nat} (h : l.task? id = some t) : t ∈ l.tasks ∧ t.id = id := by
  obtain ⟨hi, before, after, ht, -⟩ := List.find?_eq_some_iff_append.mp h
  exact ⟨by simp [ht], by simpa using hi⟩

theorem task?_of_tasks (ht : l.tasks = before ++ t :: after) (hb : ∀ u ∈ before, u.id ≠ t.id) :
    l.task? t.id = some t := by
  apply List.find?_eq_some_iff_append.mpr
  refine ⟨by simp, before, after, ht, ?_⟩
  intro u hu
  simpa using hb u hu

theorem call?_of_tasks (ht : l.tasks = before ++ t :: after) (hb : ∀ u ∈ before, u.id ≠ t.id)
    {call : Call t.half} {rest : List (Call t.half)} (hc : t.calls = call :: rest) :
    l.call? t.id = some ⟨t.half, call⟩ := by
  rw [call?, task?_of_tasks ht hb]
  exact Task.call?_cons hc

theorem call?_of_ended (ht : l.tasks = before ++ t :: after) (hb : ∀ u ∈ before, u.id ≠ t.id)
    (hc : t.calls = []) : l.call? t.id = none := by
  rw [call?, task?_of_tasks ht hb, Option.bind_some, Task.call?, hc]
  rfl

theorem called_of_turn {id : Nat} {s : Step Link (Option Event)} (h : l.move (.turn id) = some s)
    {half : Half} {call : Call half} (hc : l.call? id = some ⟨half, call⟩) :
    ∃ r, call.advance id l.channel = some r ∧ s.effects = r.effects ∧ s.state.channel = r.state ∧
      s.value.map Event.answer = r.value.answer? := by
  cases turned_of_advance h with
  | @called before after t first rest r ht hi hb hk hr =>
    subst hi
    obtain ⟨rfl, he⟩ := Sigma.mk.inj (Option.some.inj ((call?_of_tasks ht hb hk).symm.trans hc))
    obtain rfl := eq_of_heq he
    refine ⟨r, hr, rfl, rfl, ?_⟩
    cases hv : r.value <;> rfl
  | ended ht hi hb hk | dropped ht hi hb hk =>
    subst hi
    cases hc.symm.trans (call?_of_ended ht hb hk)

theorem uncalled_of_turn {id : Nat} {s : Step Link (Option Event)} (h : l.move (.turn id) = some s)
    (hc : l.call? id = none) :
    s.effects = [] ∧ s.state.channel = l.channel ∨
      ∃ half, s.effects = (l.channel.pipe.close half none).effects ∧
        s.state.channel = { l.channel with pipe := (l.channel.pipe.close half none).state } := by
  cases turned_of_advance h with
  | called ht hi hb hk =>
    subst hi
    cases hc.symm.trans (call?_of_tasks ht hb hk)
  | ended => exact .inl ⟨rfl, rfl⟩
  | @dropped _ _ t => exact .inr ⟨t.half, rfl, channel_markGone _ _⟩

theorem turn_of_call? {id : Nat} {half : Half} {call : Call half}
    (hc : l.call? id = some ⟨half, call⟩) {r : Step Channel (Progress (Call half))}
    (hr : call.advance id l.channel = some r) : ∃ s, l.move (.turn id) = some s := by
  obtain ⟨t, ht, hhead⟩ := Option.bind_eq_some_iff.mp hc
  obtain ⟨hi, before, after, htasks, hb⟩ := List.find?_eq_some_iff_append.mp ht
  obtain ⟨i, name, half, mode, made, calls⟩ := t
  obtain ⟨first, hfirst, he⟩ := Option.map_eq_some_iff.mp hhead
  cases he
  obtain ⟨rest, hcalls⟩ := List.head?_eq_some_iff.mp hfirst
  exact ⟨_, (Turned.called htasks (by simpa using hi) (by simpa using hb) hcalls hr).advance⟩

/-- What is told at the next turn of a thread, if it can have one. -/
def told? (l : Link) (id : Nat) : Option (Option Answer) :=
  (l.move (.turn id)).map fun s => s.value.map Event.answer

theorem told?_of_call? {id : Nat} {half : Half} {call : Call half}
    (hc : l.call? id = some ⟨half, call⟩) :
    l.told? id = (call.advance id l.channel).map fun r => r.value.answer? := by
  rw [told?]
  cases hs : l.move (.turn id) with
  | some s =>
    obtain ⟨r, hr, -, -, ha⟩ := called_of_turn hs hc
    rw [hr, Option.map_some, Option.map_some, ha]
  | none =>
    cases hr : call.advance id l.channel with
    | none => rfl
    | some r =>
      obtain ⟨s, hsome⟩ := turn_of_call? hc hr
      cases hs.symm.trans hsome

theorem task?_eq_none {id : Nat} (h : ∀ t ∈ l.tasks, t.id ≠ id) : l.task? id = none := by
  apply List.find?_eq_none.mpr
  intro t ht
  simpa using h t ht

theorem Orderly.task?_ended (h : l.Orderly) (ht : l.tasks = before ++ t :: after) {m : Link}
    (hm : m.tasks = before ++ after) : m.task? t.id = none := by
  apply task?_eq_none
  intro u hu
  rw [hm] at hu
  exact (h.other ht hu).2

end Link

end Handoff
