import Handoff.Proofs.Confluence
import Handoff.Proofs.Underway

/-!
Two tasks on a link that nobody else uses. Their turns, each close in one of them, are among the ways
in which a writer and a reader can go on.
-/

namespace Handoff

/-- What a thread has been told along a run. -/
def told (id : Nat) (deeds : List Deed) : List Answer :=
  deeds.filterMap fun d =>
    match d.move with
    | .turn other => if other = id then d.step.value.map Event.answer else none
    | .spawn _ => none

namespace Link

variable {l : Link} {id : Nat} {s : Step Link (Option Event)}

theorem task_of_turn (h : l.move (.turn id) = some s) : ∃ t ∈ l.tasks, t.id = id := by
  cases turned_of_advance h with
  | called ht hi | ended ht hi | dropped ht hi => exact ⟨_, by rw [ht]; simp, hi⟩

theorem mem_of_turn (h : l.move (.turn id) = some s) {t : Task} (ht : t ∈ s.state.tasks) :
    ∃ u ∈ l.tasks, u.id = t.id := by
  have other {before after : List Task} {u : Task} (hl : l.tasks = before ++ u :: after)
      (ht : t ∈ before ++ after) : ∃ u ∈ l.tasks, u.id = t.id := by
    refine ⟨t, ?_, rfl⟩
    rw [hl, List.mem_append, List.mem_cons]
    exact (List.mem_append.mp ht).imp_right .inr
  cases turned_of_advance h with
  | @called before after u call rest r hl =>
    rcases List.mem_append.mp ht with hb | ha
    · exact other hl (List.mem_append_left _ hb)
    · rcases List.mem_cons.mp ha with rfl | ha
      · exact ⟨u, by simp [hl], (u.id_proceed rest r.value).symm⟩
      · exact other hl (List.mem_append_right _ ha)
  | ended hl => exact other hl ht
  | dropped hl => exact other hl (by rwa [tasks_markGone] at ht)

theorem task?_of_turn (h : l.move (.turn id) = some s) {other : Nat} (hi : id ≠ other) :
    s.state.task? other = l.task? other := by
  cases turned_of_advance h with
  | called ht htid =>
    subst htid
    exact task?_of_other ht rfl hi (by rwa [Task.id_proceed])
  | ended ht htid => exact task?_of_left ht rfl (htid ▸ hi)
  | dropped ht htid => exact task?_of_left ht (tasks_markGone _ _) (htid ▸ hi)

end Link

/-- If its next step is to close its half, this is the whole of the call. -/
def Call.Plain {half : Half} (call : Call half) : Prop :=
  ∀ reason, call.closing = some reason → call = .prompt (.close reason)

theorem Call.plain_of_blocking {half : Half} {call : Call half} (hb : call.blocking = true) :
    call.Plain := by
  intro reason hcl
  cases Call.blocks hb with
  | receive | read => simp [Call.closing] at hcl
  | enter hw => simp [hw.closing.1] at hcl
  | leave hw => simp [hw.closing.2] at hcl
  | close => exact congrArg (fun r => Call.prompt (.close r)) (Option.some.inj hcl)

namespace Thread

variable {half : Half}

inductive Goes : Thread half → Channel → Channel → Thread half → Prop
  | stay (t : Thread half) (c : Channel) : Goes t c c t
  | step {t u v : Thread half} {c d e : Channel} (h : t.Went c d u) (g : Goes u d e v) : Goes t c e v

theorem Went.goes {t u : Thread half} {c d : Channel} (h : t.Went c d u) : t.Goes c d u :=
  .step h (.stay u d)

theorem goes_of_advance {t : Thread half} {call : Call half} {rest : List (Call half)}
    (hc : t.calls = call :: rest) (hp : call.Plain) (hs : t.stage = .fresh) {c : Channel}
    {s : Step Channel (Progress (Call half))} (h : call.advance t.id c = some s) :
    t.Goes c s.state (t.proceed rest s.value) := by
  cases hcl : call.closing with
  | none => exact (went_of_open hc hcl h).goes
  | some reason =>
    obtain rfl := hp reason hcl
    obtain rfl := Option.some.inj h
    refine .step (.kept hc hcl hs) (.step (.shut hc hcl rfl) ?_)
    let shut := ((c.pipe.keepReason half (reason.getD (Pipe.defaultReason half))).shut half).state
    have hlast : (shut.close half reason).state = (c.pipe.close half reason).state := by
      cases half <;> simp [shut, Pipe.close, Pipe.keepReason, Pipe.shut, Pipe.announce]
    have hgo : ({ t with stage := .shut } : Thread half).Went { c with pipe := shut }
        { c with pipe := (shut.close half reason).state } (t.proceed rest (.reply .done)) :=
      @Went.called half { t with stage := .shut } { c with pipe := shut } (.prompt (.close reason))
        rest _ hc (fun _ => rfl) rfl
    rw [hlast] at hgo
    exact hgo.goes

theorem Went.advances {t u : Thread half} {c d : Channel} (h : t.Went c d u) :
    ∃ call rest s, t.calls = call :: rest ∧ call.advance t.id c = some s := by
  cases h with
  | @kept call rest reason hc hr | @shut call rest reason hc hr =>
    cases call with
    | prompt p => exact ⟨_, rest, _, hc, rfl⟩
    | _ => simp [Call.closing] at hr
  | called hc _ hr => exact ⟨_, _, _, hc, hr⟩

/-- The task that stands for a thread in a link, unless it has ended. -/
def Stands (t : Thread half) (l : Link) : Prop :=
  t.stage = .fresh ∧ (t.calls = [] ∧ l.task? t.id = none ∨
    ∃ name mode, mode ≠ .drop ∧
      l.task? t.id = some ⟨t.id, name, half, mode, t.told.length, t.calls⟩)

theorem Stands.other {t : Thread half} {l : Link} (h : t.Stands l) {id : Nat} (hi : id ≠ t.id)
    {s : Step Link (Option Event)} (hs : l.move (.turn id) = some s) : t.Stands s.state := by
  unfold Stands
  rw [Link.task?_of_turn hs hi]
  exact h

theorem Stands.task {t : Thread half} {l : Link} (h : t.Stands l) {before after : List Task}
    {task : Task} (ht : l.tasks = before ++ task :: after) (hi : task.id = t.id)
    (hb : ∀ u ∈ before, u.id ≠ t.id) :
    ∃ name mode, mode ≠ .drop ∧ task = ⟨t.id, name, half, mode, t.told.length, t.calls⟩ := by
  have htask : l.task? t.id = some task := hi ▸ Link.task?_of_tasks ht (hi ▸ hb)
  rcases h.2 with ⟨-, hn⟩ | ⟨name, mode, hm, hsome⟩
  · simp [hn] at htask
  · exact ⟨name, mode, hm, Option.some.inj (htask.symm.trans hsome)⟩

theorem Stands.turn {t : Thread half} {l : Link} (h : t.Stands l) (ho : l.Orderly)
    (hplain : ∀ call ∈ t.calls, call.Plain) {s : Step Link (Option Event)}
    (hs : l.move (.turn t.id) = some s) : ∃ u : Thread half, t.Goes l.channel s.state.channel u ∧
      u.Stands s.state ∧ u.id = t.id ∧ u.told = t.told ++ (s.value.map Event.answer).toList := by
  cases Link.turned_of_advance hs with
  | @called before after task call rest r ht hi hb hc hr =>
    obtain ⟨name, mode, hm, rfl⟩ := h.task ht hi hb
    have hplain : call.Plain := hplain call (by simp [show t.calls = call :: rest from hc])
    refine ⟨_, goes_of_advance hc hplain h.1 hr, ⟨?_, .inr ⟨name, mode, hm, ?_⟩⟩, ?_, ?_⟩
    · cases r.value <;> rfl
    · cases r.value with
      | onward next =>
        exact @Link.task?_of_tasks _ before after
          ⟨t.id, name, half, mode, t.told.length, next :: rest⟩ rfl hb
      | answered answer =>
        simp only [proceed, List.length_append, List.length_singleton]
        exact @Link.task?_of_tasks _ before after
          ⟨t.id, name, half, mode, t.told.length + 1, rest⟩ rfl hb
    · cases r.value <;> rfl
    · cases r.value <;> simp [proceed, Task.tell]
  | @ended before after task ht hi hb hc hm =>
    obtain ⟨name, mode, -, rfl⟩ := h.task ht hi hb
    refine ⟨t, .stay t _, ⟨h.1, .inl ⟨hc, ?_⟩⟩, rfl, by simp⟩
    exact ho.task?_ended ht rfl
  | @dropped before after task ht hi hb hc hm =>
    obtain ⟨name, mode, hm', rfl⟩ := h.task ht hi hb
    exact absurd hm hm'

theorem Stands.advances {t : Thread half} {l : Link} (h : t.Stands l) {d : Channel} {u : Thread half}
    (hw : t.Went l.channel d u) : l.advance t.id ≠ none := by
  obtain ⟨call, rest, r, hc, hr⟩ := hw.advances
  rcases h.2 with ⟨hn, -⟩ | ⟨name, mode, -, htask⟩
  · simp [hc] at hn
  · obtain ⟨-, before, after, ht, hb⟩ := List.find?_eq_some_iff_append.mp htask
    have hb : ∀ u ∈ before, u.id ≠ t.id := fun u hu => by simpa using hb u hu
    have hturn := Link.Turned.called ht rfl hb hc hr
    rw [hturn.advance]
    exact Option.some_ne_none _

end Thread

namespace Duo

/-- The link on which two tasks stand for the two threads. -/
structure Stands (d : Duo) (l : Link) : Prop where
  channel : l.channel = d.channel
  writer : d.writer.Stands l
  reader : d.reader.Stands l
  apart : d.writer.id ≠ d.reader.id
  alone : ∀ t ∈ l.tasks, t.id = d.writer.id ∨ t.id = d.reader.id

theorem play_of_writes {t u : Thread .write} {c e : Channel} (h : t.Goes c e u) (r : Thread .read) :
    ∃ s, (Duo.mk c t r).play s = some ⟨e, u, r⟩ := by
  induction h with
  | stay t c => exact ⟨[], rfl⟩
  | step h _ ih =>
    obtain ⟨s, hs⟩ := ih
    exact ⟨.write :: s, play_cons (advance_write h) hs⟩

theorem play_of_reads {t u : Thread .read} {c e : Channel} (h : t.Goes c e u) (w : Thread .write) :
    ∃ s, (Duo.mk c w t).play s = some ⟨e, w, u⟩ := by
  induction h with
  | stay t c => exact ⟨[], rfl⟩
  | step h _ ih =>
    obtain ⟨s, hs⟩ := ih
    exact ⟨.read :: s, play_cons (advance_read h) hs⟩

theorem told_turn (l : Link) (id other : Nat) (s : Step Link (Option Event)) :
    Handoff.told other [⟨l, .turn id, s⟩] =
      if id = other then (s.value.map Event.answer).toList else [] := by
  by_cases h : id = other
  · cases hv : s.value <;> simp [Handoff.told, h, hv]
  · simp [Handoff.told, h]

theorem Stands.turn {d : Duo} {l : Link} (h : d.Stands l) (hd : d.Steady) (ho : l.Orderly) {id : Nat}
    {s : Step Link (Option Event)} (hs : l.move (.turn id) = some s) :
    ∃ t e, d.play t = some e ∧ e.Stands s.state ∧
      (e.writer.id = d.writer.id ∧ e.reader.id = d.reader.id) ∧
      e.writer.told = d.writer.told ++ told d.writer.id [⟨l, .turn id, s⟩] ∧
      e.reader.told = d.reader.told ++ told d.reader.id [⟨l, .turn id, s⟩] := by
  have halone : ∀ t ∈ s.state.tasks, t.id = d.writer.id ∨ t.id = d.reader.id := by
    intro t ht
    obtain ⟨u, hu, hi⟩ := Link.mem_of_turn hs ht
    exact hi ▸ h.alone u hu
  obtain ⟨task, htask, hid⟩ := Link.task_of_turn hs
  rw [told_turn, told_turn]
  rcases h.alone task htask with hw | hr
  · obtain rfl := hid.symm.trans hw
    obtain ⟨w, hg, hw, hi, ht⟩ :=
      h.writer.turn ho (fun call hc => Call.plain_of_blocking (hd.writer.blocking call hc)) hs
    rw [h.channel] at hg
    obtain ⟨t, hp⟩ := play_of_writes hg d.reader
    refine ⟨t, _, hp, ⟨rfl, hw, h.reader.other h.apart hs, ?_, ?_⟩, ⟨hi, rfl⟩, ?_, ?_⟩
    · simpa [hi] using h.apart
    · simpa [hi] using halone
    · rw [if_pos rfl, ht]
    · rw [if_neg h.apart, List.append_nil]
  · obtain rfl := hid.symm.trans hr
    obtain ⟨r, hg, hr, hi, ht⟩ :=
      h.reader.turn ho (fun call hc => Call.plain_of_blocking (hd.reader.blocking call hc)) hs
    rw [h.channel] at hg
    obtain ⟨t, hp⟩ := play_of_reads hg d.writer
    refine ⟨t, _, hp, ⟨rfl, h.writer.other h.apart.symm hs, hr, ?_, ?_⟩, ⟨rfl, hi⟩, ?_, ?_⟩
    · simpa [hi] using h.apart
    · simpa [hi] using halone
    · rw [if_neg h.apart.symm, List.append_nil]
    · rw [if_pos rfl, ht]

theorem Stands.stuck {d : Duo} {l : Link} (h : d.Stands l) (hs : ∀ id, l.advance id = none) :
    d.Stuck := by
  intro half
  cases half with
  | write =>
    rw [Duo.advance, Option.map_eq_none_iff]
    cases hw : d.writer.advance d.channel with
    | none => rfl
    | some r =>
      have hw := Thread.went_iff.mp hw
      rw [← h.channel] at hw
      exact absurd (hs _) (h.writer.advances hw)
  | read =>
    rw [Duo.advance, Option.map_eq_none_iff]
    cases hr : d.reader.advance d.channel with
    | none => rfl
    | some r =>
      have hr := Thread.went_iff.mp hr
      rw [← h.channel] at hr
      exact absurd (hs _) (h.reader.advances hr)

end Duo

def Link.pair (writer : Nat × List (Call .write)) (reader : Nat × List (Call .read)) : Link where
  channel := Settings.opened {}
  tasks := [⟨writer.1, "writer", .write, .share, 0, writer.2⟩,
    ⟨reader.1, "reader", .read, .share, 0, reader.2⟩]

theorem Link.orderly_pair {writer : Nat × List (Call .write)} {reader : Nat × List (Call .read)}
    (hi : writer.1 ≠ reader.1) (hw : ∀ call ∈ writer.2, call.unstarted = true)
    (hr : ∀ call ∈ reader.2, call.unstarted = true) : (pair writer reader).Orderly where
  ids := by simpa [pair] using hi
  queued t ht := by
    rcases ht with _ | ⟨_, _ | ⟨_, ⟨⟩⟩⟩
    · exact fun call hc => hw call (List.mem_of_mem_tail hc)
    · exact fun call hc => hr call (List.mem_of_mem_tail hc)

theorem Duo.stands_opened {writer : Nat × List (Call .write)} {reader : Nat × List (Call .read)}
    (hi : writer.1 ≠ reader.1) : (opened {} writer reader).Stands (.pair writer reader) where
  channel := rfl
  writer := ⟨rfl, .inr ⟨"writer", .share, by simp, by simp [Link.task?, Link.pair, opened]⟩⟩
  reader := ⟨rfl, .inr ⟨"reader", .share, by simp, by simp [Link.task?, Link.pair, opened, hi]⟩⟩
  apart := hi
  alone := by simp [Link.pair, opened]

theorem told_append (id : Nat) (deeds more : List Deed) :
    told id (deeds ++ more) = told id deeds ++ told id more :=
  List.filterMap_append

namespace Run

variable {writer : Nat × List (Call .write)} {reader : Nat × List (Call .read)}

theorem played (hi : writer.1 ≠ reader.1)
    (hw : ∀ call ∈ writer.2, call.blocking = true ∧ call.unstarted = true)
    (hr : ∀ call ∈ reader.2, call.blocking = true ∧ call.unstarted = true) {deeds : List Deed}
    {l : Link}
    (run : Run (.pair writer reader) deeds l) (ht : ∀ d ∈ deeds, ∃ id, d.move = .turn id) :
    ∃ t e, (Duo.opened {} writer reader).play t = some e ∧ e.Stands l ∧
      (e.writer.id = writer.1 ∧ e.reader.id = reader.1) ∧
      e.writer.told = told writer.1 deeds ∧ e.reader.told = told reader.1 deeds := by
  induction run with
  | start => exact ⟨[], _, rfl, Duo.stands_opened hi, ⟨rfl, rfl⟩, rfl, rfl⟩
  | @next deeds m move s run h ih =>
    obtain ⟨t, e, hp, he, ⟨hwi, hri⟩, hwt, hrt⟩ := ih fun d hd => ht d (List.mem_append_left _ hd)
    obtain ⟨id, hid⟩ := ht ⟨m, move, s⟩ (by simp)
    subst hid
    have ho := run.orderly (Link.orderly_pair hi (fun c hc => (hw c hc).2) fun c hc => (hr c hc).2)
    have hsteady := (Duo.steady_opened hw hr).play hp
    obtain ⟨u, f, hq, hf, ⟨hwf, hrf⟩, hwu, hru⟩ := he.turn hsteady ho h
    refine ⟨t ++ u, f, (Duo.play_append hp u).trans hq, hf, ⟨hwf.trans hwi, hrf.trans hri⟩, ?_, ?_⟩
    · rw [hwu, hwt, hwi, told_append]
    · rw [hru, hrt, hri, told_append]

/-- Whatever turns two tasks take until neither can go on, they are told the same, and the same of their
calls are left. -/
theorem turns_settle_once (hi : writer.1 ≠ reader.1)
    (hw : ∀ call ∈ writer.2, call.blocking = true ∧ call.unstarted = true)
    (hr : ∀ call ∈ reader.2, call.blocking = true ∧ call.unstarted = true) {deeds more : List Deed}
    {l m : Link} (run : Run (.pair writer reader) deeds l) (again : Run (.pair writer reader) more m)
    (ht : ∀ d ∈ deeds, ∃ id, d.move = .turn id) (hu : ∀ d ∈ more, ∃ id, d.move = .turn id)
    (hl : ∀ id, l.advance id = none) (hm : ∀ id, m.advance id = none) :
    told writer.1 deeds = told writer.1 more ∧ told reader.1 deeds = told reader.1 more ∧
      ∃ d : Duo, d.Stands l ∧ d.Stands m := by
  obtain ⟨s, a, hs, ha, -, haw, har⟩ := run.played hi hw hr ht
  obtain ⟨t, b, ht, hb, -, hbw, hbr⟩ := again.played hi hw hr hu
  obtain rfl := (Duo.steady_opened hw hr).settles_once hs ht (ha.stuck hl) (hb.stuck hm)
  exact ⟨haw.symm.trans hbw, har.symm.trans hbr, a, ha, hb⟩

end Run

end Handoff
