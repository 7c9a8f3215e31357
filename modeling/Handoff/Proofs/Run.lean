import Handoff.Proofs.Move

/-!
Runs of a link, one indivisible step after the other, in any order of the tasks' turns. A close is one
such step here; `Split` takes it apart.
-/

namespace Handoff

structure Deed where
  found : Link
  move : Move
  step : Step Link (Option Event)

def effects (deeds : List Deed) : List Effect :=
  deeds.flatMap fun d => d.step.effects

@[simp] theorem effects_append (deeds more : List Deed) :
    effects (deeds ++ more) = effects deeds ++ effects more :=
  List.flatMap_append

theorem effects_cons (d : Deed) (deeds : List Deed) :
    effects (d :: deeds) = d.step.effects ++ effects deeds :=
  List.flatMap_cons

theorem effects_concat (deeds : List Deed) (d : Deed) :
    effects (deeds ++ [d]) = effects deeds ++ d.step.effects := by
  simp [effects]

inductive Run (l : Link) : List Deed → Link → Prop
  | start : Run l [] l
  | next {deeds : List Deed} {m : Link} {move : Move} {s : Step Link (Option Event)}
      (run : Run l deeds m) (h : m.move move = some s) : Run l (deeds ++ [⟨m, move, s⟩]) s.state

theorem Run.cons {l m : Link} {move : Move} {s : Step Link (Option Event)} {deeds : List Deed}
    (h : l.move move = some s) (run : Run s.state deeds m) : Run l (⟨l, move, s⟩ :: deeds) m := by
  induction run with
  | start => exact .next .start h
  | next _ hm ih => exact ih.next hm

theorem Run.trans {l m n : Link} {deeds more : List Deed} (run : Run l deeds m)
    (next : Run m more n) : Run l (deeds ++ more) n := by
  induction next with
  | start =>
    rw [List.append_nil]
    exact run
  | next _ h ih =>
    rw [← List.append_assoc]
    exact .next ih h

theorem Run.split_at {l m : Link} {earlier later : List Deed} {d : Deed}
    (run : Run l (earlier ++ d :: later) m) :
    Run l earlier d.found ∧ d.found.move d.move = some d.step ∧ Run d.step.state later m := by
  generalize he : earlier ++ d :: later = deeds at run
  induction run generalizing later with
  | start => simp at he
  | next run h ih =>
    rcases later.eq_nil_or_concat with rfl | ⟨rest, e, rfl⟩
    · obtain ⟨rfl, hd⟩ := List.append_inj' he rfl
      obtain rfl := List.singleton_inj.mp hd
      exact ⟨run, h, .start⟩
    · rw [List.concat_eq_append, ← List.cons_append, ← List.append_assoc] at he
      obtain ⟨he, hlast⟩ := List.append_inj' he rfl
      obtain ⟨hr, hm, hrest⟩ := ih he
      obtain rfl := List.singleton_inj.mp hlast
      rw [List.concat_eq_append]
      exact ⟨hr, hm, hrest.next h⟩

theorem Run.split {l m : Link} {deeds : List Deed} (run : Run l deeds m) {d : Deed} (hd : d ∈ deeds) :
    ∃ earlier later, deeds = earlier ++ d :: later ∧ Run l earlier d.found ∧
      d.found.move d.move = some d.step := by
  obtain ⟨earlier, later, rfl⟩ := List.append_of_mem hd
  obtain ⟨hr, hm, -⟩ := run.split_at
  exact ⟨earlier, later, rfl, hr, hm⟩

def Link.play (l : Link) : List Move → Option (List Deed × Link)
  | [] => some ([], l)
  | move :: rest => (l.move move).bind fun s =>
    (s.state.play rest).map fun r => (⟨l, move, s⟩ :: r.1, r.2)

theorem Link.play_concat {l m : Link} {moves : List Move} {deeds : List Deed}
    (h : l.play moves = some (deeds, m)) {move : Move} {s : Step Link (Option Event)}
    (hs : m.move move = some s) :
    l.play (moves ++ [move]) = some (deeds ++ [⟨m, move, s⟩], s.state) := by
  induction moves generalizing l deeds with
  | nil =>
    obtain ⟨rfl, rfl⟩ := Prod.mk.inj (Option.some.inj h)
    simp [play, hs]
  | cons first rest ih =>
    obtain ⟨q, hq, hr⟩ := Option.bind_eq_some_iff.mp h
    obtain ⟨⟨later, _⟩, hp, he⟩ := Option.map_eq_some_iff.mp hr
    obtain ⟨rfl, rfl⟩ := Prod.mk.inj he
    simp [play, hq, ih hp]

theorem run_of_play {l m : Link} {moves : List Move} {deeds : List Deed}
    (h : l.play moves = some (deeds, m)) : Run l deeds m := by
  induction moves generalizing l deeds with
  | nil =>
    obtain ⟨rfl, rfl⟩ := Prod.mk.inj (Option.some.inj h)
    exact .start
  | cons first rest ih =>
    obtain ⟨q, hq, hr⟩ := Option.bind_eq_some_iff.mp h
    obtain ⟨⟨later, _⟩, hp, he⟩ := Option.map_eq_some_iff.mp hr
    obtain ⟨rfl, rfl⟩ := Prod.mk.inj he
    exact .cons hq (ih hp)

theorem run_iff_play {l m : Link} {deeds : List Deed} :
    Run l deeds m ↔ l.play (deeds.map Deed.move) = some (deeds, m) := by
  constructor
  · intro run
    induction run with
    | start => rfl
    | next _ h ih =>
      rw [List.map_append]
      exact Link.play_concat ih h
  · exact run_of_play

def Link.Reachable (l : Link) : Prop :=
  ∃ settings deeds, Run (.opened settings) deeds l

theorem Link.Reachable.move {l : Link} {move : Move} {s : Step Link (Option Event)}
    (hl : l.Reachable) (h : l.move move = some s) : s.state.Reachable := by
  obtain ⟨settings, deeds, run⟩ := hl
  exact ⟨settings, _, run.next h⟩

theorem Run.orderly {l m : Link} {deeds : List Deed} (run : Run l deeds m) (h : l.Orderly) :
    m.Orderly := by
  induction run with
  | start => exact h
  | next _ hm ih => exact ih.move hm

theorem Link.orderly_opened (settings : Settings) : (opened settings).Orderly where
  ids := List.nodup_nil
  queued := by simp [opened]

theorem Link.Reachable.orderly {l : Link} (h : l.Reachable) : l.Orderly := by
  obtain ⟨settings, deeds, run⟩ := h
  exact run.orderly (orderly_opened settings)

theorem Link.Reachable.channel {P : Channel → Prop} (h0 : ∀ settings : Settings, P settings.opened)
    (hs : ∀ {owner lent c es d left}, Section owner lent c es d left → P c → P d) {l : Link}
    (hl : l.Reachable) : P l.channel := by
  obtain ⟨settings, deeds, run⟩ := hl
  induction run with
  | start => exact h0 settings
  | next _ h ih =>
    obtain ⟨owner, lent, left, hsec⟩ := section_of_move h
    exact hs hsec ih

end Handoff
