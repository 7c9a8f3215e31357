import Handoff.Proofs.Custody
import Handoff.Proofs.Notice

/-!
What blocked calls wait for, and what the pipe is like when none of them can go on.
-/

namespace Handoff

/-- Whether what a blocking call waits for has come. A reader that refuses to block never waits. -/
def Call.awaits {half : Half} (c : Channel) : Call half → Option Bool
  | receive _ => some c.pipe.readable
  | read _ | drain _ _ => if c.nonblocking then none else some c.pipe.readable
  | send _ false | write _ false => some c.pipe.enterable
  | send _ true | write _ true => some c.pipe.leavable
  | prompt _ | flush => none

theorem Channel.look_eq_none_iff (c : Channel) (room : Nat) :
    c.look room = none ↔ c.nonblocking = false ∧ c.pipe.readable = false := by
  rw [← c.pipe.value_pull_eq_none_iff room]
  unfold look
  dsimp only
  split
  · simp [*]
  · split <;> simp [*]
  · simp [*]

theorem Call.advance_eq_none_iff {half : Half} (owner : Nat) (call : Call half) (c : Channel) :
    call.advance owner c = none ↔ call.awaits c = some false := by
  cases call with
  | prompt p => simp [advance, awaits]
  | receive room =>
    rw [awaits, Option.some_inj, ← c.pipe.value_pull_eq_none_iff room]
    simp only [advance]
    split <;> simp [*]
  | read room | drain room chunks =>
    simp only [advance, Option.map_eq_none_iff, Channel.look_eq_none_iff, awaits]
    cases c.nonblocking <;> simp
  | send bytes placed | write bytes placed =>
    cases placed
    · simp [advance, awaits, Pipe.enter_eq_none_iff]
    · simp [advance, awaits, Pipe.leave_eq_none_iff]
  | flush => simp [advance, awaits]

theorem Call.awaits_of_closed {half : Half} {call : Call half} {c : Channel}
    (h : c.pipe.closed = true) : call.awaits c ≠ some false := by
  cases call with
  | prompt | flush => simp [awaits]
  | receive => simp [awaits, Pipe.readable, h]
  | read | drain => cases hn : c.nonblocking <;> simp [awaits, hn, Pipe.readable, h]
  | send _ placed | write _ placed =>
    cases placed <;> simp [awaits, Pipe.enterable, Pipe.leavable, h]

theorem Call.awaits_of_lending {half : Half} {call : Call half} {bytes : Bytes} (c : Channel)
    (h : call.lending = some bytes) : call.awaits c = some c.pipe.leavable := by
  cases call with
  | send _ placed | write _ placed =>
    cases placed with
    | false => simp [lending] at h
    | true => rfl
  | _ => simp [lending] at h

theorem Call.read_awaits {call : Call .read} {c : Channel} {on : Bool} (h : call.awaits c = some on) :
    on = c.pipe.readable := by
  cases call with
  | prompt => simp [awaits] at h
  | receive => exact (Option.some.inj h).symm
  | read | drain =>
    simp only [awaits] at h
    split at h
    · simp at h
    · exact (Option.some.inj h).symm

theorem Call.write_awaits {call : Call .write} {c : Channel} {on : Bool} (h : call.awaits c = some on) :
    on = c.pipe.enterable ∨ on = c.pipe.leavable ∧ ∃ bytes, call.lending = some bytes := by
  cases call with
  | prompt | flush => simp [awaits] at h
  | send bytes placed | write bytes placed =>
    cases placed with
    | false => exact .inl (Option.some.inj h).symm
    | true => exact .inr ⟨(Option.some.inj h).symm, bytes, rfl⟩

theorem Heard.announced {c d : Channel} {es : List Effect} (h : Heard c es d) {half : Half}
    {call : Call half} (hc : call.awaits c = some false) (hd : call.awaits d = some true) :
    Announced es := by
  cases h with
  | told ha => exact ha
  | still _ ha =>
    have hr := ha.readable
    have he := ha.enterable
    have hl := ha.leavable
    cases half with
    | read =>
      have hc := Call.read_awaits hc
      have hd := Call.read_awaits hd
      rw [hr, ← hc] at hd
      simp at hd
    | write =>
      cases call with
      | prompt | flush => simp [Call.awaits] at hc
      | send _ placed | write _ placed => cases placed <;> simp_all [Call.awaits]

namespace Task

def awaits (t : Task) (c : Channel) : Option Bool :=
  t.calls.head?.bind (Call.awaits c)

theorem awaits_of_lending {t : Task} {bytes : Bytes} (c : Channel) (h : t.lending = some bytes) :
    t.awaits c = some c.pipe.leavable := by
  obtain ⟨call, hc, hl⟩ := Option.bind_eq_some_iff.mp h
  rw [awaits, hc]
  exact Call.awaits_of_lending c hl

theorem awaits_of_closed {t : Task} {c : Channel} (h : c.pipe.closed = true) :
    t.awaits c ≠ some false := by
  intro ha
  obtain ⟨call, -, hl⟩ := Option.bind_eq_some_iff.mp ha
  exact Call.awaits_of_closed h hl

theorem read_awaits {t : Task} {c : Channel} {on : Bool} (hh : t.half = .read)
    (h : t.awaits c = some on) : on = c.pipe.readable := by
  obtain ⟨id, name, half, mode, made, calls⟩ := t
  obtain rfl : half = .read := hh
  obtain ⟨call, -, hl⟩ := Option.bind_eq_some_iff.mp h
  exact Call.read_awaits hl

theorem write_awaits {t : Task} {c : Channel} {on : Bool} (hh : t.half = .write)
    (h : t.awaits c = some on) :
    on = c.pipe.enterable ∨ on = c.pipe.leavable ∧ ∃ bytes, t.lending = some bytes := by
  obtain ⟨id, name, half, mode, made, calls⟩ := t
  obtain rfl : half = .write := hh
  obtain ⟨call, hc, hl⟩ := Option.bind_eq_some_iff.mp h
  refine (Call.write_awaits hl).imp_right ?_
  rintro ⟨he, bytes, hb⟩
  refine ⟨he, bytes, ?_⟩
  rw [lending, hc]
  exact hb

end Task

namespace Link

def Stalled (l : Link) : Prop :=
  ∀ t ∈ l.tasks, t.awaits l.channel ≠ some true

variable {l : Link}

theorem Stalled.unfinished (h : l.Stalled) (hl : l.Reachable) {b : Parcel}
    (hb : l.channel.pipe.parcel = some b) : b.finished = false := by
  cases hf : b.finished with
  | false => rfl
  -- A finished parcel is lent, so its writer is blocked no longer.
  | true =>
    have hk := (hl.sound.parcel b hb).kept
    cases ho : b.origin with
    | copied stamp => simp [Parcel.lapsed, hf, ho, Origin.stamp?] at hk
    | lent owner =>
      obtain ⟨t, ht, -, hlent⟩ := hl.lender_of_origin hb ho
      have ha := t.awaits_of_lending l.channel hlent
      rw [Pipe.leavable, Pipe.consumed, hb, Option.any_some, hf, Bool.true_or] at ha
      exact absurd ha (h t ht)

theorem Stalled.read (h : l.Stalled) (hl : l.Reachable) {t : Task} (hh : t.half = .read)
    (ht : t.awaits l.channel = some false) :
    l.channel.pipe.parcel = none ∧ l.channel.pipe.occupied = false ∧
      ∀ u ∈ l.tasks, u.half = .write → u.awaits l.channel = none := by
  have hr := Task.read_awaits hh ht
  have hp : l.channel.pipe.parcel = none := by
    cases hb : l.channel.pipe.parcel with
    | none => rfl
    | some b => simp [Pipe.readable, Pipe.available, hb, h.unfinished hl hb] at hr
  have ho : l.channel.pipe.occupied = false := by simp [hl.sound.occupied_eq, hp]
  refine ⟨hp, ho, ?_⟩
  intro u hu huw
  cases ha : u.awaits l.channel with
  | none => rfl
  | some on =>
    rcases Task.write_awaits huw ha with he | ⟨-, bytes, hb⟩
    · rw [he, Pipe.enterable, ho] at ha
      exact absurd (by simpa using ha) (h u hu)
    · obtain ⟨b, hpb, -⟩ := hl.parcel_of_lending hu hb
      simp [hp] at hpb

theorem Stalled.write (h : l.Stalled) (hl : l.Reachable) {t : Task} (hm : t ∈ l.tasks)
    (hh : t.half = .write) (ht : t.awaits l.channel = some false) :
    ∃ b, l.channel.pipe.parcel = some b ∧ b.finished = false := by
  suffices ∃ b, l.channel.pipe.parcel = some b by
    obtain ⟨b, hb⟩ := this
    exact ⟨b, hb, h.unfinished hl hb⟩
  rcases Task.write_awaits hh ht with he | ⟨-, bytes, hb⟩
  · have ho := hl.sound.occupied_eq
    simp only [Pipe.enterable, Bool.false_eq, Bool.or_eq_false_iff, Bool.not_eq_false'] at he
    rw [he.2] at ho
    exact Option.isSome_iff_exists.mp ho.symm
  · obtain ⟨b, hp, -⟩ := hl.parcel_of_lending hm hb
    exact ⟨b, hp⟩

theorem blocked_calls (hl : l.Reachable) :
    (∀ (half : Half) (call : Call half) (owner : Nat),
      call.advance owner l.channel = none ↔ call.awaits l.channel = some false) ∧
    (∀ m s, l.move m = some s → ∀ (half : Half) (call : Call half),
      call.awaits l.channel = some false → call.awaits s.state.channel = some true →
      Announced s.effects) ∧
    (l.Stalled →
      (l.channel.pipe.closed = true → ∀ t ∈ l.tasks, t.awaits l.channel = none) ∧
      (∀ t ∈ l.tasks, t.half = .read → t.awaits l.channel = some false →
        l.channel.pipe.parcel = none ∧ l.channel.pipe.occupied = false ∧
          ∀ u ∈ l.tasks, u.half = .write → u.awaits l.channel = none) ∧
      ∀ t ∈ l.tasks, t.half = .write → t.awaits l.channel = some false →
        ∃ b, l.channel.pipe.parcel = some b ∧ b.finished = false ∧
          ∀ u ∈ l.tasks, u.lending.isSome →
            b.origin = .lent u.id ∧ ∀ v ∈ l.tasks, v.lending.isSome → v = u) := by
  refine ⟨?_, ?_, ?_⟩
  · intro half call owner
    exact Call.advance_eq_none_iff owner call l.channel
  · intro m s hm half call hc hd
    obtain ⟨_, _, _, hsec⟩ := section_of_move hm
    exact hsec.heard.announced hc hd
  · intro hs
    refine ⟨?_, fun t _ hh ht => hs.read hl hh ht, ?_⟩
    · intro hc t ht
      cases ha : t.awaits l.channel with
      | none => rfl
      | some on =>
        cases on
        · exact absurd ha (Task.awaits_of_closed hc)
        · exact absurd ha (hs t ht)
    · intro t ht hh ha
      obtain ⟨b, hb, hf⟩ := hs.write hl ht hh ha
      refine ⟨b, hb, hf, ?_⟩
      intro u hu hlu
      constructor
      · exact hl.origin_of_lending hu hlu hb
      · intro v hv hlv
        exact hl.lender_unique hb hv hu hlv hlu

theorem two_sends_blocked :
    ∃ deeds l, Run (.opened {}) deeds l ∧ l.Stalled ∧
      ∃ b, l.channel.pipe.parcel = some b ∧ b.finished = false := by
  have run := @run_of_play (.opened {}) _
    [.spawn ⟨1, "first", .write, .share, 0, [.send [1, 2, 3] false]⟩,
      .spawn ⟨2, "second", .write, .share, 0, [.send [4] false]⟩, .turn 1] _ rfl
  refine ⟨_, _, run, by unfold Stalled; decide, ?_⟩
  have hs := (blocked_calls ⟨_, _, run⟩).2.2 (by unfold Stalled; decide)
  obtain ⟨b, hb, hf, -⟩ := hs.2.2 _ (.tail _ (.head _)) rfl rfl
  exact ⟨b, hb, hf⟩

end Link

end Handoff
