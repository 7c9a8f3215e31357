import Handoff.Proofs.Crossing
import Handoff.Proofs.Duet
import Handoff.Proofs.Rest

/-!
Strings that a writer hands over before it drops its handle, and a reader that reads to the end. Both
finish in whatever order they go on, and everything arrives.
-/

namespace Handoff

theorem Crossing.plain {room : Nat} {strings : List Bytes} {d : Duo} (h : Crossing room strings d) :
    (∀ call ∈ d.writer.calls, call.Plain) ∧ ∀ call ∈ d.reader.calls, call.Plain := by
  have hclose : (Call.prompt (@Prompt.close .write none)).Plain := by
    rintro reason hr
    obtain rfl := Option.some.inj hr
    rfl
  have hwrites : ∀ todo, ∀ call ∈ writes todo, call.Plain := by
    intro todo call hm
    rcases List.mem_append.mp hm with hm | hm
    · obtain ⟨bytes, -, rfl⟩ := List.mem_map.mp hm
      rintro reason ⟨⟩
    · obtain rfl := List.mem_singleton.mp hm
      exact hclose
  have hdrain : ∀ chunks, ∀ call ∈ [Call.drain room chunks], call.Plain := by
    intro chunks call hm
    obtain rfl := List.mem_singleton.mp hm
    rintro reason ⟨⟩
  cases h with
  | between hs hp hw hr | kept hc hp hw hr =>
    rw [hw.calls, hr.reader.calls]
    exact ⟨hwrites _, hdrain _⟩
  | within hs hp hw hr =>
    rw [hw.calls, hr.reader.calls]
    refine ⟨?_, hdrain _⟩
    rintro call (_ | ⟨_, hm⟩)
    · rintro reason ⟨⟩
    · exact hwrites _ call hm
  | shut hc hp hw hr =>
    constructor
    · rcases hw with hw | hw
      · rw [hw.calls]
        exact hwrites _
      · rw [hw.calls]
        exact List.forall_mem_nil _
    · rcases hr with hr | hr
      · rw [hr.reader.calls]
        exact hdrain _
      · rw [hr.reader.calls]
        exact List.forall_mem_nil _

namespace Thread

/-- The task that stands for a thread, except that it drops its handle where the thread closes it. -/
def Drops (t : Thread .write) (l : Link) (heard : List Answer) : Prop :=
  t.stage = .fresh ∧
    (t.calls = [] ∧ l.task? t.id = none ∧ t.told = heard ++ [.reply .done] ∨
      ∃ name made calls, t.calls = calls ++ [.prompt (.close none)] ∧
        l.task? t.id = some ⟨t.id, name, .write, .drop, made, calls⟩ ∧ t.told = heard)

theorem Drops.other {t : Thread .write} {l : Link} {heard : List Answer} (h : t.Drops l heard)
    {id : Nat} (hi : id ≠ t.id) {s : Step Link (Option Event)} (hs : l.move (.turn id) = some s) :
    t.Drops s.state heard := by
  unfold Drops
  rw [Link.task?_of_turn hs hi]
  exact h

theorem Drops.task {t : Thread .write} {l : Link} {heard : List Answer} (h : t.Drops l heard)
    {before after : List Task} {task : Task} (ht : l.tasks = before ++ task :: after)
    (hi : task.id = t.id) (hb : ∀ u ∈ before, u.id ≠ t.id) :
    ∃ name made calls, t.calls = calls ++ [.prompt (.close none)] ∧ t.told = heard ∧
      task = ⟨t.id, name, .write, .drop, made, calls⟩ := by
  have htask : l.task? t.id = some task := hi ▸ Link.task?_of_tasks ht (hi ▸ hb)
  rcases h.2 with ⟨-, hn, -⟩ | ⟨name, made, calls, hc, hsome, hh⟩
  · simp [hn] at htask
  · exact ⟨name, made, calls, hc, hh, Option.some.inj (htask.symm.trans hsome)⟩

theorem Drops.turn {t : Thread .write} {l : Link} {heard : List Answer} (h : t.Drops l heard)
    (ho : l.Orderly) (hplain : ∀ call ∈ t.calls, call.Plain) {s : Step Link (Option Event)}
    (hs : l.move (.turn t.id) = some s) : ∃ u : Thread .write, t.Goes l.channel s.state.channel u ∧
      u.Drops s.state (heard ++ (s.value.map Event.answer).toList) ∧ u.id = t.id := by
  cases Link.turned_of_advance hs with
  | @called before after task call rest r ht hi hb hk hr =>
    obtain ⟨name, made, calls, hc, hh, rfl⟩ := h.task ht hi hb
    have hc : t.calls = call :: (rest ++ [.prompt (.close none)]) :=
      hc.trans (congrArg (· ++ [Call.prompt (.close none)]) hk)
    have hcall : call.Plain := hplain call (by simp [hc])
    refine ⟨_, goes_of_advance hc hcall h.1 hr, ⟨?_, .inr ?_⟩, ?_⟩
    · cases r.value <;> rfl
    · cases r.value with
      | onward next =>
        refine ⟨name, made, next :: rest, rfl, ?_, by simp [proceed, Task.tell, hh]⟩
        exact @Link.task?_of_tasks _ before after ⟨t.id, name, .write, .drop, made, next :: rest⟩ rfl hb
      | answered answer =>
        refine ⟨name, made + 1, rest, rfl, ?_, by simp [proceed, Task.tell, hh]⟩
        exact @Link.task?_of_tasks _ before after ⟨t.id, name, .write, .drop, made + 1, rest⟩ rfl hb
    · cases r.value <;> rfl
  | @ended before after task ht hi hb hk hm =>
    obtain ⟨name, made, calls, -, -, rfl⟩ := h.task ht hi hb
    exact absurd rfl hm
  | @dropped before after task ht hi hb hk hm =>
    obtain ⟨name, made, calls, hc, hh, rfl⟩ := h.task ht hi hb
    -- The end of the task is for the thread the last call, its close.
    obtain rfl : calls = [] := hk
    have hgo := goes_of_advance hc (hplain _ (by simp [hc])) h.1
      (show (Call.prompt (.close none)).advance t.id l.channel = some _ from rfl)
    rw [Link.channel_markGone]
    refine ⟨_, hgo, ⟨rfl, .inl ⟨rfl, ?_, ?_⟩⟩, rfl⟩
    · exact ho.task?_ended ht (Link.tasks_markGone _ _)
    · exact congrArg₂ (· ++ ·) (hh.trans (List.append_nil _).symm) rfl

end Thread

theorem Thread.Drops.advances {t : Thread .write} {l : Link} {heard : List Answer} (h : t.Drops l heard)
    {d : Channel} {u : Thread .write} (hw : t.Went l.channel d u) : l.advance t.id ≠ none := by
  obtain ⟨call, rest, r, hc, hr⟩ := hw.advances
  rcases h.2 with ⟨hn, -⟩ | ⟨name, made, calls, hcalls, htask, -⟩
  · simp [hc] at hn
  · obtain ⟨-, before, after, ht, hb⟩ := List.find?_eq_some_iff_append.mp htask
    have hb : ∀ u ∈ before, u.id ≠ t.id := fun u hu => by simpa using hb u hu
    cases calls with
    | nil =>
      rw [(Link.Turned.dropped ht rfl hb rfl rfl).advance]
      exact Option.some_ne_none _
    | cons first others =>
      obtain ⟨rfl, -⟩ := List.cons.inj (hc.symm.trans hcalls)
      rw [(Link.Turned.called ht rfl hb rfl hr).advance]
      exact Option.some_ne_none _

/-- The link of two threads of which the writer has dropped its handle, or is going to. -/
structure Duo.Carries (d : Duo) (l : Link) (heard : List Answer) : Prop where
  channel : l.channel = d.channel
  writer : d.writer.Drops l heard
  reader : d.reader.Stands l
  apart : d.writer.id ≠ d.reader.id
  alone : ∀ t ∈ l.tasks, t.id = d.writer.id ∨ t.id = d.reader.id

namespace Duo.Carries

variable {d : Duo} {l : Link} {heard : List Answer}

theorem turn (h : d.Carries l heard) (hw : ∀ call ∈ d.writer.calls, call.Plain)
    (hr : ∀ call ∈ d.reader.calls, call.Plain) (ho : l.Orderly) {id : Nat}
    {s : Step Link (Option Event)} (hs : l.move (.turn id) = some s) :
    ∃ schedule e, d.play schedule = some e ∧
      e.Carries s.state (heard ++ told d.writer.id [⟨l, .turn id, s⟩]) ∧
      (e.writer.id = d.writer.id ∧ e.reader.id = d.reader.id) ∧
      e.reader.told = d.reader.told ++ told d.reader.id [⟨l, .turn id, s⟩] := by
  have halone : ∀ t ∈ s.state.tasks, t.id = d.writer.id ∨ t.id = d.reader.id := by
    intro t ht
    obtain ⟨u, hu, hi⟩ := Link.mem_of_turn hs ht
    exact hi ▸ h.alone u hu
  obtain ⟨task, htask, hid⟩ := Link.task_of_turn hs
  rw [told_turn, told_turn]
  rcases h.alone task htask with hwid | hrid
  · obtain rfl := hid.symm.trans hwid
    obtain ⟨w, hg, hdrops, hi⟩ := h.writer.turn ho hw hs
    rw [h.channel] at hg
    obtain ⟨schedule, hp⟩ := play_of_writes hg d.reader
    rw [if_pos rfl, if_neg h.apart, List.append_nil]
    refine ⟨schedule, _, hp, ⟨rfl, hdrops, h.reader.other h.apart hs, ?_, ?_⟩, ⟨hi, rfl⟩, rfl⟩
    · simpa [hi] using h.apart
    · simpa [hi] using halone
  · obtain rfl := hid.symm.trans hrid
    obtain ⟨r, hg, hstands, hi, ht⟩ := h.reader.turn ho hr hs
    rw [h.channel] at hg
    obtain ⟨schedule, hp⟩ := play_of_reads hg d.writer
    rw [if_neg h.apart.symm, if_pos rfl, List.append_nil]
    refine ⟨schedule, _, hp, ⟨rfl, h.writer.other h.apart.symm hs, hstands, ?_, ?_⟩, ⟨rfl, hi⟩, ht⟩
    · simpa [hi] using h.apart
    · simpa [hi] using halone

theorem stuck (h : d.Carries l heard) (hs : ∀ id, l.advance id = none) : d.Stuck := by
  intro half
  cases half with
  | write =>
    rw [Duo.advance, Option.map_eq_none_iff]
    cases hw : d.writer.advance d.channel with
    | none => rfl
    | some r =>
      have hw := Thread.went_iff.mp hw
      rw [← h.channel] at hw
      exact absurd (hs _) (h.writer.advances hw)
  | read =>
    rw [Duo.advance, Option.map_eq_none_iff]
    cases hr : d.reader.advance d.channel with
    | none => rfl
    | some r =>
      have hr := Thread.went_iff.mp hr
      rw [← h.channel] at hr
      exact absurd (hs _) (h.reader.advances hr)

theorem ended (h : d.Carries l heard) (hw : d.writer.calls = []) (hr : d.reader.calls = [])
    (hs : l.AtRest) : l.tasks = [] ∧ d.writer.told = heard ++ [.reply .done] := by
  have hwriter : l.task? d.writer.id = none ∧ d.writer.told = heard ++ [.reply .done] := by
    rcases h.writer.2 with ⟨-, hn, ht⟩ | ⟨_, _, calls, hc, -⟩
    · exact ⟨hn, ht⟩
    · simp [hw] at hc
  have hreader : l.task? d.reader.id = none := by
    rcases h.reader.2 with ⟨-, hn⟩ | ⟨name, mode, -, htask⟩
    · exact hn
    · have ha := hs _ (Link.mem_of_task? htask).1
      simp [Task.awaits, hr] at ha
  refine ⟨List.eq_nil_iff_forall_not_mem.mpr fun t ht => ?_, hwriter.2⟩
  have hn : l.task? t.id = none := by
    rcases h.alone t ht with hi | hi
    · exact hi ▸ hwriter.1
    · exact hi ▸ hreader
  simpa using List.find?_eq_none.mp hn t ht

end Duo.Carries

/-- A task that writes these strings and then drops its handle, and one that reads to the end. -/
def Link.crossing (room : Nat) (strings : List Bytes) (writer reader : Nat) : Link where
  channel := Settings.opened {}
  tasks := [⟨writer, "writer", .write, .drop, 0, strings.map (.write · false)⟩,
    ⟨reader, "reader", .read, .share, 0, [.drain room []]⟩]

theorem Link.orderly_crossing (room : Nat) (strings : List Bytes) {writer reader : Nat}
    (hi : writer ≠ reader) : (crossing room strings writer reader).Orderly where
  ids := by simpa [crossing] using hi
  queued t ht := by
    rcases ht with _ | ⟨_, _ | ⟨_, ⟨⟩⟩⟩
    · intro call hc
      obtain ⟨bytes, -, rfl⟩ := List.mem_map.mp (List.mem_of_mem_tail hc)
      rfl
    · exact List.forall_mem_nil _

theorem Duo.carries_opened (room : Nat) (strings : List Bytes) {writer reader : Nat}
    (hi : writer ≠ reader) : (opened {} (writer, writes strings) (reader, [.drain room []])).Carries
      (.crossing room strings writer reader) [] where
  channel := rfl
  writer := ⟨rfl, .inr ⟨"writer", 0, strings.map (.write · false), rfl,
    by simp [Link.task?, Link.crossing, opened], rfl⟩⟩
  reader := ⟨rfl, .inr ⟨"reader", .share, by simp, by simp [Link.task?, Link.crossing, opened, hi]⟩⟩
  apart := hi
  alone := by simp [Link.crossing, opened]

theorem Run.crossed {room : Nat} (hroom : room ≠ 0) {strings : List Bytes} {writer reader : Nat}
    (hi : writer ≠ reader) {deeds : List Deed} {l : Link}
    (run : Run (.crossing room strings writer reader) deeds l) (ht : ∀ d ∈ deeds, d.IsTurn) :
    ∃ d, Crossing room strings d ∧ d.Carries l (told writer deeds) ∧
      (d.writer.id = writer ∧ d.reader.id = reader) ∧ d.reader.told = told reader deeds := by
  induction run with
  | start =>
    exact ⟨_, Crossing.opened room strings writer reader, Duo.carries_opened room strings hi,
      ⟨rfl, rfl⟩, rfl⟩
  | @next deeds m move s run h ih =>
    obtain ⟨d, hd, hcarries, ⟨rfl, rfl⟩, htold⟩ := ih fun d hm => ht d (List.mem_append_left _ hm)
    obtain ⟨id, hid⟩ := ht ⟨m, move, s⟩ (by simp)
    subst hid
    have ho := run.orderly (Link.orderly_crossing room strings hi)
    obtain ⟨schedule, e, hp, he, hids, hread⟩ := hcarries.turn hd.plain.1 hd.plain.2 ho h
    refine ⟨e, hd.play hroom hp, ?_, hids, ?_⟩
    · rw [told_append]
      exact he
    · rw [hread, htold, told_append]

/-- The writer's last call is the close of its handle, which the task makes by dropping it. -/
theorem strings_cross {room : Nat} (hroom : room ≠ 0) (strings : List Bytes) {writer reader : Nat}
    (hi : writer ≠ reader) :
    ((strings.flatMap (pieces room)).flatten = strings.flatten ∧
      (strings.flatMap (pieces room)).map List.length = strings.flatMap fun bytes =>
        List.replicate (bytes.length / room) room ++
          if bytes.length % room = 0 then [] else [bytes.length % room]) ∧
    (∀ schedule d, (Duo.opened {} (writer, writes strings) (reader, [.drain room []])).play schedule =
        some d →
      schedule.length ≤
        (Duo.opened {} (writer, writes strings) (reader, [.drain room []])).work ∧
      (∃ more e, d.play more = some e ∧ e.Stuck) ∧
      (d.Stuck → d.writer.calls = [] ∧ d.writer.told = counted strings ++ [.reply .done] ∧
        d.reader.calls = [] ∧
        d.reader.told = [.reply (.drained (strings.flatMap (pieces room)) none)])) ∧
    ∀ deeds l, Run (.crossing room strings writer reader) deeds l → (∀ d ∈ deeds, d.IsTurn) →
      deeds.length ≤ (Link.crossing room strings writer reader).work ∧
      (∃ ids more m, l.Resumed ids more m ∧ m.AtRest) ∧
      (l.AtRest → l.tasks = [] ∧ told writer deeds = counted strings ∧
        told reader deeds = [.reply (.drained (strings.flatMap (pieces room)) none)]) := by
  refine ⟨⟨?_, ?_⟩, ?_, ?_⟩
  · rw [List.flatMap, List.flatten_flatten, List.map_map]
    exact congrArg List.flatten (List.map_id'' (flatten_pieces hroom) strings)
  · rw [List.map_flatMap]
    exact congrArg (strings.flatMap ·) (funext (length_pieces hroom))
  · intro schedule d hp
    have hlen := Duo.play_length hp
    refine ⟨by omega, d.settles, fun hs => ?_⟩
    obtain ⟨hw, hr⟩ := ((Crossing.opened room strings writer reader).play hroom hp).finished hroom hs
    exact ⟨hw.calls, hw.told, hr.calls, hr.told⟩
  · intro deeds l run ht
    have hlen := run.turns_le ht
    have ho := run.orderly (Link.orderly_crossing room strings hi)
    refine ⟨by omega, Link.exists_resumed_atRest ho, fun hs => ?_⟩
    obtain ⟨d, hd, hcarries, ⟨rfl, rfl⟩, htold⟩ := run.crossed hroom hi ht
    have hstuck : ∀ id, l.advance id = none := by
      intro id
      rw [Link.advance_eq_none_iff]
      exact fun t ht => hs t (Link.mem_of_task? ht).1
    obtain ⟨hw, hr⟩ := hd.finished hroom (hcarries.stuck hstuck)
    obtain ⟨htasks, hheard⟩ := hcarries.ended hw.calls hr.calls hs
    refine ⟨htasks, ?_, htold.symm.trans hr.told⟩
    exact List.append_cancel_right (hheard.symm.trans hw.told)

theorem three_bytes_cross :
    ∃ deeds l, Run (.crossing 2 [[1, 2, 3], []] 1 2) deeds l ∧ l.tasks = [] ∧
      told 1 deeds = [.reply (.count 3), .reply (.count 0)] ∧
      told 2 deeds = [.reply (.drained [[1, 2], [3]] none)] := by
  obtain ⟨-, -, hlink⟩ := @strings_cross 2 (by decide) [[1, 2, 3], []] 1 2 (by decide)
  obtain ⟨-, ⟨ids, deeds, l, h, hl⟩, -⟩ := hlink [] _ .start (by simp)
  obtain ⟨run, ht, -⟩ := h.run
  obtain ⟨htasks, hw, hr⟩ := (hlink deeds l run ht).2.2 hl
  refine ⟨deeds, l, run, htasks, hw, ?_⟩
  have hpieces : [[1, 2, 3], []].flatMap (pieces 2) = [[1, 2], [3]] := by simp [pieces]
  rw [hr, hpieces]

end Handoff
