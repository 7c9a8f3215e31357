import Handoff.Proofs.Duo

/-!
What holds between any two steps of a writer and a reader.
-/

namespace Handoff

/-- The calls that threads without polls make of a pipe that is theirs to wait on. -/
def Call.blocking {half : Half} : Call half → Bool
  | receive _ | read _ | send _ _ | write _ _ | prompt (.close _) => true
  | _ => false

namespace Call

def entered (next : Call .write) (tell : Except ShortWrite Nat → Reply) :
    Except ShortWrite Unit → Progress (Call .write)
  | .ok () => .onward next
  | .error short => .reply (tell (.error short))

/-- A blocking write before and after it has put its bytes up, and how it tells its result. -/
structure Writes (first next : Call .write) (bytes : Bytes) (tell : Except ShortWrite Nat → Reply) :
    Prop where
  closing : first.closing = none ∧ next.closing = none
  lending : first.lending = none ∧ next.lending = some bytes
  blocking : next.blocking = true
  enter : ∀ owner (c : Channel), first.advance owner c =
    (c.pipe.enter owner bytes).map fun s => c.lift (s.map (entered next tell))
  leave : ∀ owner (c : Channel), next.advance owner c =
    c.pipe.leave.map fun s => c.lift (s.map fun result => .reply (tell result))

inductive Blocks : {half : Half} → Call half → Prop
  | receive (room : Nat) : Blocks (receive room)
  | read (room : Nat) : Blocks (read room)
  | enter {first next : Call .write} {bytes : Bytes} {tell : Except ShortWrite Nat → Reply}
      (h : Writes first next bytes tell) : Blocks first
  | leave {first next : Call .write} {bytes : Bytes} {tell : Except ShortWrite Nat → Reply}
      (h : Writes first next bytes tell) : Blocks next
  | close {half : Half} (reason : Option Reason) : Blocks (prompt (@Prompt.close half reason))

variable {half : Half} {owner : Nat} {c : Channel}

theorem blocks {call : Call half} (hb : call.blocking = true) : call.Blocks := by
  cases call with
  | receive room => exact .receive room
  | read room => exact .read room
  | send bytes placed =>
    have h : Writes (send bytes false) (send bytes true) bytes Reply.ofSend :=
      ⟨⟨rfl, rfl⟩, ⟨rfl, rfl⟩, rfl, fun _ _ => rfl, fun _ _ => rfl⟩
    cases placed with
    | false => exact .enter h
    | true => exact .leave h
  | write bytes placed =>
    have h : Writes (write bytes false) (write bytes true) bytes
        fun result => Reply.ofWrite (Stream.ofWrite result) :=
      ⟨⟨rfl, rfl⟩, ⟨rfl, rfl⟩, rfl, fun _ _ => rfl, fun _ _ => rfl⟩
    cases placed with
    | false => exact .enter h
    | true => exact .leave h
  | drain | flush => simp [blocking] at hb
  | prompt p =>
    cases p with
    | close reason => exact .close reason
    | _ => simp [blocking] at hb

theorem pipe_of_look {room : Nat} {s : Step Channel Channel.Look} (h : c.look room = some s) :
    s.state = { c with pipe := (c.pipe.pull room).state } := by
  rcases Channel.look_cases h with ⟨result, -, rfl⟩ | ⟨-, -, rfl⟩ <;> rfl

theorem Blocks.state {call : Call half} (hb : call.Blocks) {s : Step Channel (Progress (Call half))}
    (h : call.advance owner c = some s) :
    ∃ p, s.state = { c with pipe := p } ∧ (p = c.pipe ∨ ∀ half, p.waiting half = []) := by
  have pull (room : Nat) : (c.pipe.pull room).state = c.pipe ∨
      ∀ half, (c.pipe.pull room).state.waiting half = [] := by
    rcases c.pipe.pull_cases room with ⟨result, -, he⟩ | ⟨b, -, -, he⟩
    · exact .inl (congrArg Step.state he)
    · rw [he]
      exact .inr fun half => Pipe.waiting_announce _ half
  cases hb with
  | receive room =>
    obtain ⟨result, -, rfl⟩ := receive_cases h
    exact ⟨_, rfl, pull room⟩
  | read room =>
    obtain ⟨l, hl, rfl⟩ := Option.map_eq_some_iff.mp h
    exact ⟨_, pipe_of_look hl, pull room⟩
  | enter hw =>
    rw [hw.enter] at h
    obtain ⟨l, hl, rfl⟩ := Option.map_eq_some_iff.mp h
    refine ⟨l.state, rfl, ?_⟩
    rcases Pipe.enter_cases hl with rfl | ⟨-, -, rfl⟩
    · exact .inl rfl
    · exact .inr fun half => Pipe.waiting_announce _ half
  | leave hw =>
    rw [hw.leave] at h
    obtain ⟨l, hl, rfl⟩ := Option.map_eq_some_iff.mp h
    obtain ⟨-, result, log, rfl, -⟩ := Pipe.leave_cases hl
    exact ⟨_, rfl, .inr fun half => Pipe.waiting_announce _ half⟩
  | close reason =>
    obtain rfl := Option.some.inj h
    exact ⟨_, rfl, .inr fun half => Pipe.waiting_announce _ half⟩

theorem Blocks.onward {call next : Call half} (hb : call.Blocks)
    {s : Step Channel (Progress (Call half))} (h : call.advance owner c = some s)
    (hv : s.value = .onward next) : next.blocking = true := by
  cases hb with
  | receive room =>
    obtain ⟨result, -, rfl⟩ := receive_cases h
    simp [Progress.reply] at hv
  | read room =>
    obtain ⟨l, -, rfl⟩ := Option.map_eq_some_iff.mp h
    simp only [Step.value_map] at hv
    split at hv
    · obtain rfl := Progress.onward.inj hv
      rfl
    · simp [Progress.reply] at hv
  | enter hw =>
    rw [hw.enter] at h
    obtain ⟨l, -, rfl⟩ := Option.map_eq_some_iff.mp h
    simp only [Channel.value_lift, Step.value_map] at hv
    cases hl : l.value with
    | ok =>
      rw [hl] at hv
      obtain rfl := Progress.onward.inj hv
      exact hw.blocking
    | error => simp [hl, entered, Progress.reply] at hv
  | leave hw =>
    rw [hw.leave] at h
    obtain ⟨l, -, rfl⟩ := Option.map_eq_some_iff.mp h
    simp [Progress.reply] at hv
  | close reason =>
    obtain rfl := Option.some.inj h
    simp [Prompt.advance, Progress.map, Progress.reply] at hv

theorem Blocks.reader_parcel {call : Call .read} (hb : call.Blocks)
    {s : Step Channel (Progress (Call .read))} (h : call.advance owner c = some s)
    (hs : s.state.pipe.parcel.isSome) : c.pipe.parcel.isSome := by
  have pull {room : Nat} (hs : (c.pipe.pull room).state.parcel.isSome) : c.pipe.parcel.isSome := by
    rcases c.pipe.pull_cases room with ⟨result, -, he⟩ | ⟨b, -, hb, -⟩
    · rwa [he] at hs
    · simp [(Pipe.available_eq_some hb).1]
  cases hb with
  | receive room =>
    obtain ⟨result, -, rfl⟩ := receive_cases h
    exact pull hs
  | read room =>
    obtain ⟨l, hl, rfl⟩ := Option.map_eq_some_iff.mp h
    rw [Step.state_map, pipe_of_look hl] at hs
    exact pull hs
  | close reason =>
    obtain rfl := Option.some.inj h
    exact hs

theorem Blocks.writer_parcel {call : Call .write} (hb : call.Blocks)
    {s : Step Channel (Progress (Call .write))} (h : call.advance owner c = some s)
    (hs : s.state.pipe.parcel.isSome) :
    s.value.lending.isSome ∨ call.lending = none ∧ c.pipe.parcel.isSome := by
  cases hb with
  | enter hw =>
    rw [hw.enter] at h
    obtain ⟨l, hl, rfl⟩ := Option.map_eq_some_iff.mp h
    rcases Pipe.enter_cases hl with rfl | ⟨-, -, rfl⟩
    · exact .inr ⟨hw.lending.1, hs⟩
    · exact .inl (Option.isSome_iff_exists.mpr ⟨_, hw.lending.2⟩)
  | leave hw =>
    rw [hw.leave] at h
    obtain ⟨l, hl, rfl⟩ := Option.map_eq_some_iff.mp h
    obtain ⟨-, result, log, rfl, -⟩ := Pipe.leave_cases hl
    exact absurd hs Bool.false_ne_true
  | close reason =>
    obtain rfl := Option.some.inj h
    exact .inr ⟨rfl, hs⟩

end Call

namespace Thread

variable {half : Half}

def lending (t : Thread half) : Option Bytes :=
  t.calls.head?.bind Call.lending

/-- A close that has begun has kept a reason, and one that has gone further has shut the pipe. -/
structure Steady (t : Thread half) (p : Pipe) : Prop where
  blocking : ∀ call ∈ t.calls, call.blocking = true
  queued : ∀ call ∈ t.calls.tail, call.unstarted = true
  kept : t.stage ≠ .fresh → (p.ownReason half).isSome
  shut : t.stage = .shut → p.closed = true

structure Onward (p q : Pipe) : Prop where
  closed : p.closed = true → q.closed = true
  kept : ∀ half, (p.ownReason half).isSome → (q.ownReason half).isSome

theorem Steady.onward {t : Thread half} {p q : Pipe} (h : t.Steady p) (ho : Onward p q) :
    t.Steady q where
  blocking := h.blocking
  queued := h.queued
  kept hs := ho.kept half (h.kept hs)
  shut hs := ho.closed (h.shut hs)

theorem Steady.went {t u : Thread half} {c d : Channel} (h : t.Steady c.pipe) (hw : t.Went c d u) :
    u.Steady d.pipe ∧ Onward c.pipe d.pipe ∧
      (d.pipe.closed = true → c.pipe.closed = true ∨ (c.pipe.ownReason half).isSome) := by
  cases hw with
  | @kept call rest reason hc hr hs =>
    have hk : ((c.pipe.keepReason half (reason.getD (Pipe.defaultReason half))).ownReason
        half).isSome := by
      rw [Pipe.ownReason_keepReason, if_pos rfl]
      cases c.pipe.ownReason half <;> rfl
    refine ⟨⟨h.blocking, h.queued, fun _ => hk, by simp⟩, ⟨?_, ?_⟩, ?_⟩
    · simp
    · intro other ho
      obtain ⟨old, ho⟩ := Option.isSome_iff_exists.mp ho
      rw [c.pipe.keepReason_of_kept half _ ho]
      rfl
    · intro hcl
      exact .inl (by simpa using hcl)
  | @shut call rest reason hc hr hs =>
    have hk := h.kept (by simp [hs])
    have ho : ∀ other, (c.pipe.shut half).state.ownReason other = c.pipe.ownReason other := by
      intro other
      cases other <;> rfl
    exact ⟨⟨h.blocking, h.queued, fun _ => (ho half).symm ▸ hk, fun _ => rfl⟩,
      ⟨fun _ => rfl, fun other hs => (ho other).symm ▸ hs⟩, fun _ => .inr hk⟩
  | @called call rest s hc hs hr =>
    have hb := h.blocking
    have hq := h.queued
    rw [hc] at hb hq
    have hcl : s.state.pipe.closed = c.pipe.closed := by
      obtain ⟨q, -, hm⟩ := Call.mirrored hr fun hcl => h.shut (hs hcl)
      exact hm.closed
    have hl := (Call.section_of_advance hr).leads
    have hsteady : (t.proceed rest s.value).Steady s.state.pipe := by
      cases hv : s.value with
      | onward next =>
        refine ⟨?_, hq, by simp [proceed], by simp [proceed]⟩
        rintro later (_ | ⟨_, hl⟩)
        · exact (Call.blocks (hb call List.mem_cons_self)).onward hr hv
        · exact hb later (List.mem_cons_of_mem _ hl)
      | answered answer =>
        refine ⟨fun later hl => hb later (List.mem_cons_of_mem _ hl), ?_, by simp [proceed],
          by simp [proceed]⟩
        exact fun later hl => hq later (List.mem_of_mem_tail hl)
    refine ⟨hsteady, ⟨fun hc => hcl.trans hc, ?_⟩, fun hd => .inl (hcl.symm.trans hd)⟩
    intro other ho
    obtain ⟨old, ho⟩ := Option.isSome_iff_exists.mp ho
    rw [hl.kept other old ho]
    rfl

theorem lending_proceed {t : Thread half} {rest : List (Call half)}
    (hq : ∀ call ∈ rest, call.unstarted = true) (p : Progress (Call half)) :
    (t.proceed rest p).lending = p.lending := by
  cases p with
  | onward call => rfl
  | answered answer =>
    rw [lending, proceed, Option.bind_eq_none_iff.mpr]
    · rfl
    · intro call hc
      exact Call.lending_of_unstarted (hq call (List.mem_of_head? hc))

theorem Steady.pipe {t u : Thread half} {c d : Channel} (h : t.Steady c.pipe) (hw : t.Went c d u) :
    d.nonblocking = c.nonblocking ∧
      ((∀ half, c.pipe.waiting half = []) → ∀ half, d.pipe.waiting half = []) := by
  cases hw with
  | kept | shut =>
    refine ⟨rfl, fun hc other => ?_⟩
    rw [← hc other]
    cases half <;> cases other <;> rfl
  | called hc hs hr =>
    obtain ⟨p, hp, hw⟩ := (Call.blocks (h.blocking _ (by simp [hc]))).state hr
    rw [hp]
    refine ⟨rfl, fun hc => ?_⟩
    rcases hw with rfl | hw
    · exact hc
    · exact hw

end Thread

namespace Duo

structure Steady (d : Duo) : Prop where
  writer : d.writer.Steady d.channel.pipe
  reader : d.reader.Steady d.channel.pipe
  waits : d.channel.nonblocking = false
  calm : ∀ half, d.channel.pipe.waiting half = []
  blamed : d.channel.pipe.closed = true → ∃ half, (d.channel.pipe.ownReason half).isSome
  lent : d.channel.pipe.parcel.isSome → d.writer.lending.isSome

theorem Steady.blame {d : Duo} (h : d.Steady) {half : Half} {p : Pipe}
    (ho : Thread.Onward d.channel.pipe p)
    (hp : p.closed = true → d.channel.pipe.closed = true ∨ (d.channel.pipe.ownReason half).isSome) :
    p.closed = true → ∃ half, (p.ownReason half).isSome := by
  intro hc
  rcases hp hc with hc | hk
  · obtain ⟨half, hk⟩ := h.blamed hc
    exact ⟨half, ho.kept half hk⟩
  · exact ⟨half, ho.kept half hk⟩

theorem Steady.writes {d : Duo} (h : d.Steady) {c : Channel} {t : Thread .write}
    (hw : d.writer.Went d.channel c t) : Steady { d with channel := c, writer := t } := by
  obtain ⟨ht, ho, hb⟩ := h.writer.went hw
  obtain ⟨hn, hq⟩ := h.writer.pipe hw
  refine ⟨ht, h.reader.onward ho, hn.trans h.waits, hq h.calm, h.blame ho hb, ?_⟩
  cases hw with
  | kept | shut => exact h.lent
  | @called call rest s hc hs hr =>
    intro hp
    have hq : ∀ later ∈ rest, later.unstarted = true := by
      have hq := h.writer.queued
      rwa [hc] at hq
    change (d.writer.proceed rest s.value).lending.isSome
    rw [Thread.lending_proceed hq]
    have hblocks := Call.blocks (h.writer.blocking call (by simp [hc]))
    rcases hblocks.writer_parcel hr hp with hl | ⟨hl, hp⟩
    · exact hl
    · have hlent := h.lent hp
      simp [Thread.lending, hc, hl] at hlent

theorem Steady.reads {d : Duo} (h : d.Steady) {c : Channel} {t : Thread .read}
    (hw : d.reader.Went d.channel c t) : Steady { d with channel := c, reader := t } := by
  obtain ⟨ht, ho, hb⟩ := h.reader.went hw
  obtain ⟨hn, hq⟩ := h.reader.pipe hw
  refine ⟨h.writer.onward ho, ht, hn.trans h.waits, hq h.calm, h.blame ho hb, ?_⟩
  cases hw with
  | kept | shut => exact h.lent
  | @called call rest s hc hs hr =>
    intro hp
    exact h.lent ((Call.blocks (h.reader.blocking call (by simp [hc]))).reader_parcel hr hp)

theorem Steady.advance {d e : Duo} (h : d.Steady) {half : Half} (he : d.advance half = some e) :
    e.Steady := by
  cases half with
  | write =>
    obtain ⟨⟨c, t⟩, hr, rfl⟩ := Option.map_eq_some_iff.mp he
    exact h.writes (Thread.went_iff.mp hr)
  | read =>
    obtain ⟨⟨c, t⟩, hr, rfl⟩ := Option.map_eq_some_iff.mp he
    exact h.reads (Thread.went_iff.mp hr)

theorem Steady.play {d e : Duo} (h : d.Steady) {s : List Half} (he : d.play s = some e) : e.Steady := by
  induction s generalizing d with
  | nil =>
    obtain rfl := Option.some.inj he
    exact h
  | cons half rest ih =>
    obtain ⟨a, ha, hr⟩ := Option.bind_eq_some_iff.mp he
    exact ih (h.advance ha) hr

theorem steady_opened {writer : Nat × List (Call .write)} {reader : Nat × List (Call .read)}
    (hw : ∀ call ∈ writer.2, call.blocking = true ∧ call.unstarted = true)
    (hr : ∀ call ∈ reader.2, call.blocking = true ∧ call.unstarted = true) :
    (opened {} writer reader).Steady where
  writer := ⟨fun call hc => (hw call hc).1, fun call hc => (hw call (List.mem_of_mem_tail hc)).2,
    fun h => absurd rfl h, by simp [opened]⟩
  reader := ⟨fun call hc => (hr call hc).1, fun call hc => (hr call (List.mem_of_mem_tail hc)).2,
    fun h => absurd rfl h, by simp [opened]⟩
  waits := rfl
  calm half := by cases half <;> rfl
  blamed := by simp [opened, Settings.opened]
  lent := by simp [opened, Settings.opened]

end Duo

end Handoff
