import Handoff.Proofs.Blocked
import Handoff.Proofs.Portions

/-!
Finitely many tasks come to rest, whoever goes next. A turn lowers the work of the link, so it bounds
the turns, and the resumptions that are made of them; the takes are bounded by what is put up.
-/

namespace Handoff

theorem Task.advance_eq_none_iff (t : Task) (c : Channel) :
    t.advance c = none ↔ t.awaits c = some false := by
  unfold advance awaits
  cases hc : t.calls with
  | nil =>
    simp only [List.head?_nil, Option.bind_none]
    split <;> simp
  | cons call rest =>
    rw [List.head?_cons, Option.bind_some, Option.map_eq_none_iff]
    exact Call.advance_eq_none_iff t.id call c

def Deed.IsTurn (d : Deed) : Prop :=
  ∃ id, d.move = .turn id

namespace Link

theorem advance_eq_none_iff (l : Link) (id : Nat) :
    l.advance id = none ↔ ∀ t, l.task? id = some t → t.awaits l.channel = some false := by
  constructor
  · intro h t ht
    obtain ⟨hi, before, after, hl, hb⟩ := List.find?_eq_some_iff_append.mp ht
    obtain rfl : t.id = id := by simpa using hi
    have hb : ∀ u ∈ before, u.id ≠ t.id := fun u hu => by simpa using hb u hu
    rw [advance, hl, shift_of_tasks hb, Option.map_eq_none_iff, Option.map_eq_none_iff] at h
    exact (t.advance_eq_none_iff l.channel).mp h
  · intro h
    cases hs : l.advance id with
    | none => rfl
    | some s =>
      cases turned_of_advance hs with
      | @called before after t call rest r ht hi hb hc hr =>
        subst hi
        have ha := h t (task?_of_tasks ht hb)
        rw [Task.awaits, hc, List.head?_cons, Option.bind_some, ← Call.advance_eq_none_iff t.id] at ha
        rw [ha] at hr
        cases hr
      | @ended before after t ht hi hb hc | @dropped before after t ht hi hb hc =>
        subst hi
        have ha := h t (task?_of_tasks ht hb)
        rw [Task.awaits, hc] at ha
        cases ha

def AtRest (l : Link) : Prop :=
  ∀ t ∈ l.tasks, t.awaits l.channel = some false

theorem Orderly.task?_of_mem {l : Link} (h : l.Orderly) {t : Task} (ht : t ∈ l.tasks) :
    l.task? t.id = some t := by
  obtain ⟨before, after, hl⟩ := List.append_of_mem ht
  refine task?_of_tasks hl fun u hu hi => ?_
  have hids := h.ids
  rw [hl, List.map_append, List.nodup_append] at hids
  exact hids.2.2 u.id (List.mem_map_of_mem hu) t.id List.mem_cons_self hi

/-- A task goes on until it has to wait or has ended. -/
def resume (l : Link) (id : Nat) : List Deed × Link :=
  match _h : l.advance id with
  | none => ([], l)
  | some s => (⟨l, .turn id, s⟩ :: (s.state.resume id).1, (s.state.resume id).2)
termination_by l.work
decreasing_by all_goals exact work_advance _h

theorem resume_of_none {l : Link} {id : Nat} (h : l.advance id = none) : l.resume id = ([], l) := by
  unfold resume
  split
  · rfl
  · rename_i hs
    rw [h] at hs
    cases hs

theorem resume_of_some {l : Link} {id : Nat} {s : Step Link (Option Event)}
    (h : l.advance id = some s) :
    l.resume id = (⟨l, .turn id, s⟩ :: (s.state.resume id).1, (s.state.resume id).2) := by
  rw [resume]
  split
  · rename_i hn
    rw [h] at hn
    cases hn
  · rename_i hs
    obtain rfl := Option.some.inj (h.symm.trans hs)
    rfl

theorem resume_spec (l : Link) (id : Nat) :
    Run l (l.resume id).1 (l.resume id).2 ∧ (∀ d ∈ (l.resume id).1, d.move = .turn id) ∧
      (l.resume id).2.advance id = none := by
  cases h : l.advance id with
  | none =>
    rw [resume_of_none h]
    exact ⟨.start, by simp, h⟩
  | some s =>
    obtain ⟨run, hd, hn⟩ := s.state.resume_spec id
    rw [resume_of_some h]
    refine ⟨.cons h run, ?_, hn⟩
    rintro d (_ | ⟨_, hm⟩)
    · rfl
    · exact hd d hm
termination_by l.work
decreasing_by exact work_advance h

/-- Tasks that need not wait are resumed one after the other, in any order. -/
inductive Resumed : Link → List Nat → List Deed → Link → Prop
  | rest (l : Link) : Resumed l [] [] l
  | go {l m : Link} {t : Task} {ids : List Nat} {deeds : List Deed} (ht : l.task? t.id = some t)
      (ha : t.awaits l.channel ≠ some false) (later : Resumed (l.resume t.id).2 ids deeds m) :
      Resumed l (t.id :: ids) ((l.resume t.id).1 ++ deeds) m

theorem Resumed.run {l m : Link} {ids : List Nat} {deeds : List Deed} (h : Resumed l ids deeds m) :
    Run l deeds m ∧ (∀ d ∈ deeds, d.IsTurn) ∧ ids.length ≤ deeds.length := by
  induction h with
  | rest => exact ⟨.start, by simp, Nat.le_refl _⟩
  | @go l m t ids deeds ht ha _ ih =>
    obtain ⟨hrun, hturn, hlen⟩ := ih
    obtain ⟨run, hd, -⟩ := l.resume_spec t.id
    have hpos : 0 < (l.resume t.id).1.length := by
      cases hs : l.advance t.id with
      | none => exact absurd ((l.advance_eq_none_iff t.id).mp hs t ht) ha
      | some s =>
        rw [resume_of_some hs]
        exact Nat.zero_lt_succ _
    refine ⟨run.trans hrun, ?_, ?_⟩
    · intro d hm
      exact (List.mem_append.mp hm).elim (fun hm => ⟨t.id, hd d hm⟩) (hturn d)
    · rw [List.length_cons, List.length_append]
      omega

end Link

theorem Run.turns_le {l m : Link} {deeds : List Deed} (run : Run l deeds m)
    (ht : ∀ d ∈ deeds, d.IsTurn) : deeds.length + m.work ≤ l.work := by
  induction run with
  | start => exact Nat.le_of_eq (Nat.zero_add _)
  | @next deeds m move s run h ih =>
    have hle := ih fun d hd => ht d (List.mem_append_left _ hd)
    obtain ⟨id, rfl : move = .turn id⟩ := ht _ (List.mem_append_right _ List.mem_cons_self)
    have hlt := Link.work_advance h
    rw [List.length_append, List.length_singleton]
    omega

namespace Link

theorem exists_resumed_atRest {l : Link} (hl : l.Orderly) :
    ∃ ids deeds m, Resumed l ids deeds m ∧ m.AtRest := by
  by_cases h : l.AtRest
  · exact ⟨[], [], l, .rest l, h⟩
  · obtain ⟨t, hm, ha⟩ : ∃ t ∈ l.tasks, t.awaits l.channel ≠ some false := by
      simpa [AtRest] using h
    have hone := Resumed.go (hl.task?_of_mem hm) ha (.rest _)
    obtain ⟨run, hturn, hlen⟩ := hone.run
    have hle := run.turns_le hturn
    -- A resumption is at least one turn, and so leaves less work.
    have hlt : (l.resume t.id).2.work < l.work := by
      rw [List.length_singleton] at hlen
      omega
    obtain ⟨ids, deeds, m, hrest, hn⟩ := exists_resumed_atRest (run.orderly hl)
    exact ⟨t.id :: ids, _, m, .go (hl.task?_of_mem hm) ha hrest, hn⟩
termination_by l.work
decreasing_by exact hlt

def spawnAll (l : Link) (tasks : List Task) : Link :=
  { l with tasks := l.tasks ++ tasks }

theorem Reachable.spawnAll {l : Link} (hl : l.Reachable) {tasks : List Task}
    (hu : ∀ t ∈ tasks, ∀ call ∈ t.calls, call.unstarted = true)
    (hi : ((l.tasks ++ tasks).map Task.id).Nodup) : (l.spawnAll tasks).Reachable := by
  induction tasks generalizing l with
  | nil =>
    rw [Link.spawnAll, List.append_nil]
    exact hl
  | cons t rest ih =>
    have hfresh : ∀ u ∈ l.tasks, u.id ≠ t.id := by
      intro u hm he
      rw [List.map_append, List.nodup_append] at hi
      exact hi.2.2 u.id (List.mem_map_of_mem hm) t.id List.mem_cons_self he
    have hspawn := hl.move (move_spawn (hu t List.mem_cons_self) hfresh)
    have hids : (((l.spawn t).tasks ++ rest).map Task.id).Nodup := by simpa [Link.spawn] using hi
    have hrest := ih hspawn (fun u hm => hu u (List.mem_cons_of_mem _ hm)) hids
    simpa [Link.spawnAll, Link.spawn] using hrest

theorem comes_to_rest {l : Link} (hl : l.Reachable) {tasks : List Task}
    (hu : ∀ t ∈ tasks, ∀ call ∈ t.calls, call.unstarted = true)
    (hi : ((l.tasks ++ tasks).map Task.id).Nodup) :
    (∀ deeds m, Run (l.spawnAll tasks) deeds m → (∀ d ∈ deeds, d.IsTurn) →
      deeds.length + m.work ≤ (l.spawnAll tasks).work ∧
      (handed (effects deeds)).length ≤ l.channel.pipe.portions + offered (effects deeds) +
        deeds.countP Deed.endsRoomless ∧
      ∀ id, Run m (m.resume id).1 (m.resume id).2 ∧ (∀ d ∈ (m.resume id).1, d.move = .turn id) ∧
        ∀ t, (m.resume id).2.task? id = some t → t.awaits (m.resume id).2.channel = some false) ∧
    ∀ ids deeds m, Resumed (l.spawnAll tasks) ids deeds m →
      Run (l.spawnAll tasks) deeds m ∧ (∀ d ∈ deeds, d.IsTurn) ∧
      ids.length ≤ (l.spawnAll tasks).work ∧ ∃ more later n, Resumed m more later n ∧ n.AtRest := by
  have hstart := hl.spawnAll hu hi
  constructor
  · intro deeds m run hturn
    refine ⟨run.turns_le hturn, ?_, ?_⟩
    · have htakes := run.takes_le hstart
      have hchannel : (l.spawnAll tasks).channel = l.channel := rfl
      rw [hchannel] at htakes
      omega
    · intro id
      obtain ⟨hrun, hd, hn⟩ := m.resume_spec id
      exact ⟨hrun, hd, (advance_eq_none_iff _ id).mp hn⟩
  · intro ids deeds m h
    obtain ⟨run, hturn, hlen⟩ := h.run
    have hle := run.turns_le hturn
    exact ⟨run, hturn, by omega, exists_resumed_atRest (run.orderly hstart.orderly)⟩

/-- The reader reads with room, without any, and then on and on. -/
theorem half_sent_comes_to_rest :
    ∃ l : Link, l.Reachable ∧ ∃ ids deeds m,
      (l.spawnAll [⟨2, "reader", .read, .share, 0, [.receive 2, .read 0, .drain 1 []]⟩]).Resumed
        ids deeds m ∧ m.AtRest ∧ ids.length ≤ 10 ∧
      (handed (effects deeds)).length ≤
        3 + offered (effects deeds) + deeds.countP Deed.endsRoomless := by
  have run := @run_of_play (.opened {}) _
    [.spawn ⟨1, "writer", .write, .share, 0, [.send [1, 2, 3] false]⟩, .turn 1] _ rfl
  have hl : Reachable _ := ⟨_, _, run⟩
  obtain ⟨hbound, hresumed⟩ := @comes_to_rest _ hl
    [⟨2, "reader", .read, .share, 0, [.receive 2, .read 0, .drain 1 []]⟩] (by decide) (by decide)
  obtain ⟨-, -, -, ids, deeds, m, h, hm⟩ := hresumed [] [] _ (.rest _)
  obtain ⟨hrun, hturn, hlen, -⟩ := hresumed ids deeds m h
  exact ⟨_, hl, ids, deeds, m, h, hm, hlen, (hbound deeds m hrun hturn).2.1⟩

end Link

end Handoff
