import Handoff.Proofs.Pending
import Handoff.Proofs.Staged

/-!
Writes under way: when a call or a polled write began, and what has been put up since.
-/

namespace Handoff

@[simp] theorem placed_append (es fs : List Effect) : placed (es ++ fs) = placed es ++ placed fs :=
  List.filterMap_append

theorem mem_placed {es : List Effect} {origin : Origin} {bytes : Bytes} :
    (origin, bytes) ∈ placed es ↔ .placed origin bytes ∈ es := by
  rw [placed, List.mem_filterMap]
  constructor
  · rintro ⟨e, he, hp⟩
    cases e with
    | placed =>
      obtain ⟨rfl, rfl⟩ := Prod.mk.inj (Option.some.inj hp)
      exact he
    | _ => simp [Effect.placed?] at hp
  · exact fun h => ⟨_, h, rfl⟩

theorem mem_authored_of_placed {es : List Effect} {origin : Origin} {bytes : Bytes}
    (h : (origin, bytes) ∈ placed es) : .placed origin bytes ∈ authored es :=
  List.mem_filter.mpr ⟨mem_placed.mp h, rfl⟩

theorem Task.unstarted_of_call? {t : Task} (h : ∀ call ∈ t.calls, call.unstarted = true)
    {call : (half : Half) × Call half} (hc : t.call? = some call) : call.2.unstarted = true := by
  obtain ⟨first, hf, rfl⟩ := Option.map_eq_some_iff.mp hc
  exact h first (List.mem_of_head? hf)

namespace Link

variable {l m : Link} {before after : List Task} {t u : Task}

theorem task?_of_other (ht : l.tasks = before ++ t :: after) (hm : m.tasks = before ++ u :: after)
    {id : Nat} (hi : t.id ≠ id) (hu : u.id ≠ id) : m.task? id = l.task? id := by
  simp [task?, ht, hm, List.find?_append, hi, hu]

theorem task?_of_left (ht : l.tasks = before ++ t :: after) (hm : m.tasks = before ++ after)
    {id : Nat} (hi : t.id ≠ id) : m.task? id = l.task? id := by
  simp [task?, ht, hm, List.find?_append, hi]

/-- Where the call that a thread has under way after a move comes from. -/
inductive Comes (l : Link) (m : Move) (s : Step Link (Option Event)) (id : Nat)
    (call : (half : Half) × Call half) : Prop
  | same (hm : m ≠ .turn id) (hc : l.call? id = some call)
  | fresh (hu : call.2.unstarted = true)
  | onward {old : Call call.1} {r : Step Channel (Progress (Call call.1))} (hm : m = .turn id)
      (hc : l.call? id = some ⟨call.1, old⟩) (hr : old.advance id l.channel = some r)
      (hv : r.value = .onward call.2) (he : s.effects = r.effects) (hs : s.value = none)

theorem Orderly.comes (h : l.Orderly) {m : Move} {s : Step Link (Option Event)}
    (hs : l.move m = some s) {id : Nat} {call : (half : Half) × Call half}
    (hc : s.state.call? id = some call) : l.Comes m s id call := by
  obtain ⟨task, htask, hcall⟩ := Option.bind_eq_some_iff.mp hc
  cases m with
  | spawn t =>
    obtain ⟨hu, hi, rfl⟩ := spawned_of_move hs
    have hf : (l.tasks.find? fun u => u.id = id).or
        ([t].find? fun u => u.id = id) = some task := by
      rw [← List.find?_append]
      exact htask
    rcases Option.or_eq_some_iff.mp hf with hf | ⟨-, hf⟩
    · refine .same (by simp) ?_
      rw [call?, task?, hf]
      exact hcall
    · obtain rfl := List.mem_singleton.mp (List.mem_of_find?_eq_some hf)
      exact .fresh (Task.unstarted_of_call? hu hcall)
  | turn other =>
    cases turned_of_advance hs with
    | @called before after t old rest r ht hi hb hk hr =>
      subst hi
      by_cases hid : t.id = id
      · subst hid
        have hn : (t.proceed rest r.value).id = t.id := t.id_proceed rest r.value
        have hq := h.rest (by simp [ht]) hk
        rw [← hn, task?_of_tasks rfl (by rwa [hn])] at htask
        obtain rfl := Option.some.inj htask
        cases hv : r.value with
        | answered answer =>
          rw [hv] at hcall
          exact .fresh (Task.unstarted_of_call? hq hcall)
        | onward next =>
          rw [hv] at hcall
          obtain rfl := Option.some.inj hcall
          exact .onward rfl (call?_of_tasks ht hb hk) hr hv rfl (by simp [Task.tell])
      · refine .same (by simpa using hid) ?_
        rw [task?_of_other ht rfl hid (by rwa [Task.id_proceed])] at htask
        rw [call?, htask]
        exact hcall
    | @ended before after t ht hi hb hk =>
      subst hi
      by_cases hid : t.id = id
      · subst hid
        cases (h.task?_ended ht (by rfl)).symm.trans htask
      · refine .same (by simpa using hid) ?_
        rw [task?_of_left ht rfl hid] at htask
        rw [call?, htask]
        exact hcall
    | @dropped before after t ht hi hb hk =>
      subst hi
      by_cases hid : t.id = id
      · subst hid
        cases (h.task?_ended ht (by exact tasks_markGone _ _)).symm.trans htask
      · refine .same (by simpa using hid) ?_
        rw [task?_of_left ht (tasks_markGone _ _) hid] at htask
        rw [call?, htask]
        exact hcall

theorem lent_of_move {m : Move} {s : Step Link (Option Event)} (h : l.move m = some s) {owner : Nat}
    {bytes : Bytes} (hp : (.lent owner, bytes) ∈ placed s.effects) : m = .turn owner := by
  obtain ⟨id, half, call, r, rfl, -, -, -, ha⟩ := author_of_move h (mem_authored_of_placed hp)
  cases ha
  rfl

theorem copied_of_move {m : Move} {s : Step Link (Option Event)} (h : l.move m = some s)
    {stamp : UInt64} {bytes : Bytes} (hp : (.copied stamp, bytes) ∈ placed s.effects) :
    ∃ slice : Slice, slice.bytes = bytes ∧ s.state.channel.outstanding = some ⟨stamp, slice⟩ ∧
      ∀ write, l.channel.outstanding = some write → write.slice ≠ slice := by
  obtain ⟨id, half, call, r, rfl, -, -, hr, ha⟩ := author_of_move h (mem_authored_of_placed hp)
  cases ha with
  | copy slice _ _ hb ha => exact ⟨slice, rfl, hr ▸ ha, hb⟩

end Link

theorem Call.started_of_onward {half : Half} {owner : Nat} {old next : Call half} {c : Channel}
    {s : Step Channel (Progress (Call half))} (h : old.advance owner c = some s)
    (hv : s.value = .onward next) {bytes : Bytes} (hd : next.data? = some bytes) :
    old.unstarted = true ∧ old.data? = some bytes ∧ next.lending = some bytes ∧
      placed s.effects = [(.lent owner, bytes)] := by
  cases old with
  | prompt p =>
    obtain rfl := Option.some.inj h
    simp only [Step.value_map] at hv
    cases hp : (p.advance c).value with
    | answered => simp [hp, Progress.map] at hv
    | onward rest =>
      rw [hp] at hv
      obtain rfl := Progress.onward.inj hv
      simp [data?] at hd
  | receive room =>
    obtain ⟨result, -, rfl⟩ := receive_cases h
    simp [Progress.reply] at hv
  | read room | drain room chunks =>
    cases next with
    | _ => simp [data?] at hd
  | flush =>
    obtain rfl := Option.some.inj h
    simp [Progress.reply] at hv
  | send data placed | write data placed =>
    cases placed with
    | true =>
      obtain ⟨r, -, rfl⟩ := Option.map_eq_some_iff.mp h
      simp [Progress.reply] at hv
    | false =>
      obtain ⟨r, hr, rfl⟩ := Option.map_eq_some_iff.mp h
      rcases Pipe.enter_cases hr with rfl | ⟨-, -, rfl⟩
      · simp [Progress.reply] at hv
      · obtain rfl := Progress.onward.inj hv
        obtain rfl := Option.some.inj hd
        refine ⟨rfl, rfl, rfl, ?_⟩
        exact congrArg (_ :: ·) (Pipe.filterMap_announce rfl (fun _ => rfl) _)

@[simp] theorem Pipe.placed_announce (p : Pipe) : placed p.announce.effects = [] :=
  filterMap_announce rfl (fun _ => rfl) p

namespace Channel

theorem outstanding_watch {c : Channel} {write other : Outstanding} {waker : Waker}
    (h : (c.watch write waker).state.outstanding = some other) : c.outstanding = some other := by
  unfold watch at h
  split at h
  · simp at h
  · split at h
    · simp [lift] at h
    · exact h

theorem outstanding_pollFlush {c : Channel} {write : Outstanding} {waker : Waker}
    (h : (c.pollFlush waker).state.outstanding = some write) : c.outstanding = some write := by
  unfold pollFlush at h
  split at h
  · exact h
  · exact outstanding_watch h

theorem outstanding_start {c : Channel} {slice : Slice} {waker : Waker} {write : Outstanding}
    (h : (c.start slice waker).state.outstanding = some write) :
    c.outstanding = some write ∨
      placed (c.start slice waker).effects = [(.copied write.stamp, write.slice.bytes)] := by
  unfold start at h ⊢
  split at h
  · exact .inl h
  · rename_i hc
    split at h
    · exact .inl h
    · rename_i ho
      obtain rfl := Option.some.inj h
      rw [if_neg hc, if_neg ho]
      exact .inr (congrArg (_ :: ·) (Pipe.placed_announce _))

theorem placed_cancel (c : Channel) (write : Outstanding) : placed (c.cancel write).effects = [] := by
  unfold cancel
  dsimp only
  split
  · exact Pipe.placed_announce _
  · rfl

theorem outstanding_pollWrite {c : Channel} {slice : Slice} {waker : Waker} {write : Outstanding}
    (h : (c.pollWrite slice waker).state.outstanding = some write) :
    c.outstanding = some write ∨
      placed (c.pollWrite slice waker).effects = [(.copied write.stamp, write.slice.bytes)] := by
  unfold pollWrite at h ⊢
  cases ho : c.outstanding with
  | none =>
    rw [ho] at h
    have hs := outstanding_start h
    rw [ho] at hs
    exact hs
  | some old =>
    simp only [ho] at h ⊢
    split at h
    · have hw := outstanding_watch h
      rw [ho] at hw
      exact .inl hw
    · rename_i hn
      rw [if_neg hn, Step.effects_after, placed_append, placed_cancel]
      exact .inr ((outstanding_start h).resolve_left (by simp))

end Channel

theorem Call.outstanding_cases {half : Half} {owner : Nat} {call : Call half} {c : Channel}
    {s : Step Channel (Progress (Call half))} (h : call.advance owner c = some s) {write : Outstanding}
    (hw : s.state.outstanding = some write) :
    c.outstanding = some write ∨
      placed s.effects = [(.copied write.stamp, write.slice.bytes)] := by
  cases hp : call.polls with
  | false => exact .inl ((outstanding_advance h fun _ => hp).symm.trans hw)
  | true =>
    cases call with
    | prompt p =>
      obtain rfl := Option.some.inj h
      cases p with
      | pollWrite slice waker => exact Channel.outstanding_pollWrite hw
      | pollFlush waker | pollClose waker => exact .inl (Channel.outstanding_pollFlush hw)
      | _ => exact .inl hw
    | _ => simp [polls] at hp

theorem Link.outstanding_cases {l : Link} {m : Move} {s : Step Link (Option Event)}
    (h : l.move m = some s) {write : Outstanding} (hw : s.state.channel.outstanding = some write) :
    l.channel.outstanding = some write ∨
      placed s.effects = [(.copied write.stamp, write.slice.bytes)] := by
  cases m with
  | spawn t =>
    obtain ⟨-, -, rfl⟩ := spawned_of_move h
    exact .inl hw
  | turn id =>
    cases turned_of_advance h with
    | called _ _ _ _ hr => exact Call.outstanding_cases hr hw
    | ended => exact .inl hw
    | dropped =>
      rw [channel_markGone] at hw
      exact .inl hw

/-- These deeds begin with the one that put the write up, and it has been on record ever since. -/
structure Staged (since : List Deed) (write : Outstanding) : Prop where
  first : ∃ d later, since = d :: later ∧
    placed d.step.effects = [(.copied write.stamp, write.slice.bytes)] ∧
    ∀ p ∈ placed (effects later), ∃ owner, p.1 = .lent owner
  kept : ∀ d ∈ since, d.step.state.channel.outstanding = some write

theorem Staged.offers {since : List Deed} {write : Outstanding} (h : Staged since write) :
    ∃ later, placed (effects since) = (.copied write.stamp, write.slice.bytes) :: later ∧
      ∀ p ∈ later, ∃ owner, p.1 = .lent owner := by
  obtain ⟨d, later, rfl, hd, hlent⟩ := h.first
  refine ⟨placed (effects later), ?_, hlent⟩
  rw [effects_cons, placed_append, hd]
  rfl

theorem Staged.placed_once {since : List Deed} {write : Outstanding} (h : Staged since write) :
    (placed (effects since)).filter (·.1 = .copied write.stamp) =
      [(.copied write.stamp, write.slice.bytes)] := by
  obtain ⟨later, hp, hlent⟩ := h.offers
  rw [hp, List.filter_cons_of_pos (by simp), List.filter_eq_nil_iff.mpr]
  intro p hp
  obtain ⟨owner, ho⟩ := hlent p hp
  simp [ho]

theorem Run.staged {settings : Settings} {deeds : List Deed} {l : Link}
    (run : Run (.opened settings) deeds l) {write : Outstanding}
    (hw : l.channel.outstanding = some write) :
    ∃ earlier since, deeds = earlier ++ since ∧ Staged since write := by
  induction run with
  | start => simp [Link.opened, Settings.opened] at hw
  | @next deeds m move s run h ih =>
    have hlast : ∀ d ∈ [Deed.mk m move s], d.step.state.channel.outstanding = some write := by
      intro d hd
      obtain rfl := List.mem_singleton.mp hd
      exact hw
    rcases Link.outstanding_cases h hw with hm | hp
    · obtain ⟨earlier, since, rfl, ⟨d, later, rfl, hd, hlent⟩, hkept⟩ := ih hm
      refine ⟨earlier, d :: later ++ [⟨m, move, s⟩], by simp,
        ⟨d, later ++ [⟨m, move, s⟩], rfl, hd, ?_⟩, ?_⟩
      · rintro ⟨origin, bytes⟩ hp
        rw [effects_concat, placed_append] at hp
        rcases List.mem_append.mp hp with hp | hp
        · exact hlent _ hp
        -- A copy would have been put up for another slice, and that slice would be on record now.
        · cases origin with
          | lent owner => exact ⟨owner, rfl⟩
          | copied stamp =>
            obtain ⟨slice, -, hs, hne⟩ := Link.copied_of_move h hp
            obtain rfl := Option.some.inj (hs.symm.trans hw)
            exact absurd rfl (hne _ hm)
      · intro e he
        exact (List.mem_append.mp he).elim (hkept e) (hlast e)
    · exact ⟨deeds, [⟨m, move, s⟩], rfl, ⟨_, [], rfl, hp, by simp [effects, placed]⟩, hlast⟩

/-- The thread was about to begin a call with these bytes, and no call of its own has ended during
the deeds after that. -/
structure Underway (settings : Settings) (earlier during : List Deed) (id : Nat) (bytes : Bytes) :
    Prop where
  start : ∃ l call, Run (.opened settings) earlier l ∧ l.call? id = some call ∧
    call.2.unstarted = true ∧ call.2.data? = some bytes
  quiet : ∀ d ∈ during, d.move = .turn id → d.step.value = none

theorem Underway.next {settings : Settings} {earlier during : List Deed} {id : Nat} {bytes : Bytes}
    (h : Underway settings earlier during id bytes) {d : Deed}
    (hd : d.move = .turn id → d.step.value = none) :
    Underway settings earlier (during ++ [d]) id bytes where
  start := h.start
  quiet e he := by
    rcases List.mem_append.mp he with he | he
    · exact h.quiet e he
    · obtain rfl := List.mem_singleton.mp he
      exact hd

theorem Run.underway {settings : Settings} {deeds : List Deed} {l : Link}
    (run : Run (.opened settings) deeds l) {id : Nat} {call : (half : Half) × Call half}
    (hc : l.call? id = some call) {bytes : Bytes} (hd : call.2.data? = some bytes) :
    ∃ earlier during, deeds = earlier ++ during ∧ Underway settings earlier during id bytes ∧
      (placed (effects during)).filter (·.1 = .lent id) =
        (call.2.lending.map (Prod.mk (.lent id))).toList := by
  induction run generalizing call with
  | start => simp [Link.opened, Link.call?, Link.task?] at hc
  | @next deeds m move s run h ih =>
    have hm : m.Orderly := Link.Reachable.orderly ⟨settings, deeds, run⟩
    cases hm.comes h hc with
    | same hne hold =>
      obtain ⟨earlier, during, rfl, hu, hp⟩ := ih hold hd
      have hother : (placed s.effects).filter (·.1 = .lent id) = [] := by
        rw [List.filter_eq_nil_iff]
        rintro ⟨origin, data⟩ hmem ho
        obtain rfl : origin = .lent id := by simpa using ho
        exact hne (Link.lent_of_move h hmem)
      refine ⟨earlier, during ++ [⟨m, move, s⟩], by simp, hu.next fun he => absurd he hne, ?_⟩
      rw [effects_concat, placed_append, List.filter_append, hp, hother, List.append_nil]
    | fresh hu =>
      refine ⟨_, [], (List.append_nil _).symm,
        ⟨⟨s.state, call, run.next h, hc, hu, hd⟩, by simp⟩, ?_⟩
      rw [Call.lending_of_unstarted hu]
      rfl
    | @onward old r hm hold hr hv he hs =>
      obtain ⟨hold', hb, hl, hp⟩ := Call.started_of_onward hr hv hd
      obtain ⟨earlier, during, rfl, hu, hnone⟩ := ih hold hb
      refine ⟨earlier, during ++ [⟨m, move, s⟩], by simp, hu.next fun _ => hs, ?_⟩
      rw [effects_concat, placed_append, List.filter_append, hnone, he, hp,
        Call.lending_of_unstarted hold', hl]
      simp

end Handoff
