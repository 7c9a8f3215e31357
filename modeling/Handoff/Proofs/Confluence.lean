import Handoff.Proofs.Blocked
import Handoff.Proofs.Steady

/-!
The order in which a writer and a reader go on makes no difference in the end. Where it makes one for a
while, a write enters a pipe that the reader is about to shut: it fails with nothing written all the
same, one step later.
-/

namespace Handoff

/-- What a half does to a pipe without moving any bytes. -/
inductive Nudge (half : Half) : (Pipe → Pipe) → Prop
  | stay : Nudge half fun p => p
  | keep (reason : Reason) : Nudge half fun p => p.keepReason half reason
  | shut : Nudge half fun p => (p.shut half).state
  | close (reason : Option Reason) : Nudge half fun p => (p.close half reason).state

namespace Pipe

def Settled (half : Half) (p q : Pipe) : Prop :=
  p.closed = true → q.closed = true ∧ q.reason half = p.reason half

/-- What the other half has done to the pipe in the meantime, as far as a writer can tell. -/
structure Nudged (p q : Pipe) : Prop where
  parcel : q.parcel = p.parcel
  occupied : q.occupied = p.occupied
  calm : (∀ half, p.waiting half = []) → ∀ half, q.waiting half = []
  settled : p.Settled .write q

theorem reason_of_kept {p q : Pipe} {half : Half} (hk : ∃ half, (p.ownReason half).isSome)
    (ho : q.ownReason half = p.ownReason half)
    (h : ∀ reason, p.ownReason half.other = some reason → q.ownReason half.other = some reason) :
    q.reason half = p.reason half := by
  unfold reason
  rw [ho]
  cases hr : p.ownReason half with
  | some reason => rfl
  | none =>
    have hs : (p.ownReason half.other).isSome := by
      obtain ⟨other, hs⟩ := hk
      cases half <;> cases other <;> simp_all [Half.other]
    obtain ⟨reason, hs⟩ := Option.isSome_iff_exists.mp hs
    rw [hs, h reason hs]

end Pipe

namespace Nudge

variable {half : Half} {f g : Pipe → Pipe}

theorem settled (h : Nudge half f) {p : Pipe}
    (hb : p.closed = true → ∃ half, (p.ownReason half).isSome) : p.Settled half.other (f p) := by
  intro hc
  have kept (reason : Reason) : (p.keepReason half reason).reason half.other = p.reason half.other :=
    Pipe.reason_of_kept (hb hc) (by cases half <;> rfl) fun _ ho => p.keepReason_of_kept half reason ho
  cases h with
  | stay => exact ⟨hc, rfl⟩
  | keep reason => exact ⟨by simpa using hc, kept reason⟩
  | shut => exact ⟨rfl, by cases half <;> rfl⟩
  | close reason =>
    refine ⟨rfl, ?_⟩
    rw [← kept (reason.getD (Pipe.defaultReason half))]
    cases half <;> rfl

theorem nudged (h : Nudge .read f) {p : Pipe}
    (hb : p.closed = true → ∃ half, (p.ownReason half).isSome) : p.Nudged (f p) := by
  refine ⟨?_, ?_, ?_, h.settled hb⟩
  · cases h <;> rfl
  · cases h <;> rfl
  · intro hw other
    cases h with
    | close reason => exact Pipe.waiting_announce _ other
    | stay => exact hw other
    | keep | shut =>
      rw [← hw other]
      cases other <;> rfl

theorem comm (h : Nudge .write f) (hg : Nudge .read g) (p : Pipe) : f (g p) = g (f p) := by
  cases h <;> cases hg <;> rfl

theorem place (h : Nudge .read g) (p : Pipe) (origin : Origin) (bytes : Bytes) :
    ((g p).place origin bytes).state = g (p.place origin bytes).state := by
  cases h <;> rfl

theorem vacate (h : Nudge .read g) (p : Pipe) : (g p).vacate.state = g p.vacate.state := by
  cases h <;> rfl

end Nudge

theorem Call.Blocks.closes_or_reads {call : Call .read} (hb : call.Blocks) {c : Channel}
    (hn : c.nonblocking = false) : (∃ reason, call = .prompt (.close reason)) ∨
      call.awaits c = some c.pipe.readable ∧
        ∀ reason, ∃ answer, call.ending? reason = some answer := by
  cases hb with
  | receive room => exact .inr ⟨rfl, fun _ => ⟨_, rfl⟩⟩
  | read room => exact .inr ⟨by simp [awaits, hn], fun _ => ⟨_, rfl⟩⟩
  | close reason => exact .inl ⟨reason, rfl⟩

namespace Thread

theorem Steady.read_again {t u : Thread .read} {c d : Channel} (h : t.Steady c.pipe)
    (hn : c.nonblocking = false) (hw : t.Went c d u) :
    (∃ g, Nudge .read g ∧ d = { c with pipe := g c.pipe } ∧
      ∀ e : Channel, c.pipe.Settled .read e.pipe → t.Went e { e with pipe := g e.pipe } u) ∨
    c.pipe.closed = false ∧ c.pipe.available.isSome := by
  cases hw with
  | kept hc hr hs => exact .inl ⟨_, .keep _, rfl, fun e _ => .kept hc hr hs⟩
  | shut hc hr hs => exact .inl ⟨_, .shut, rfl, fun e _ => .shut hc hr hs⟩
  | @called call rest s hc hs hr =>
    have hb := Call.blocks (h.blocking call (by simp [hc]))
    rcases hb.closes_or_reads hn with ⟨reason, rfl⟩ | ⟨ha, he⟩
    · obtain rfl := Option.some.inj hr
      exact .inl ⟨_, .close reason, rfl, fun e _ => .called hc hs rfl⟩
    · cases hcl : c.pipe.closed with
      | false =>
        -- It has not had to wait, so there is something to read.
        refine .inr ⟨rfl, ?_⟩
        have hn : call.awaits c ≠ some false := by
          rw [Ne, ← Call.advance_eq_none_iff t.id, hr]
          simp
        simpa [ha, Pipe.readable, hcl, Option.isSome_iff_ne_none] using hn
      | true =>
        obtain ⟨answer, he⟩ := he (c.pipe.reason .read)
        obtain rfl := Option.some.inj (hr.symm.trans (Call.advance_of_ending hcl he t.id))
        refine .inl ⟨_, .stay, rfl, fun e hse => ?_⟩
        obtain ⟨hec, her⟩ := hse hcl
        exact .called hc hs (Call.advance_of_ending hec (her ▸ he) t.id)

end Thread

theorem Pipe.Nudged.leave {p q : Pipe} (h : p.Nudged q) {s : Step Pipe (Except ShortWrite Nat)}
    (hs : p.leave = some s) :
    ∃ r, q.leave = some r ∧ r.value = s.value ∧ r.state = q.vacate.state := by
  obtain ⟨-, hv⟩ := Pipe.leave_value hs
  have hvac : q.vacate.value = p.vacate.value := by rw [Pipe.vacate, Pipe.vacate, h.parcel]; rfl
  have hcon : q.consumed = p.consumed := congrArg (Option.any _) h.parcel
  unfold Pipe.leave
  dsimp only
  rw [hcon]
  rcases hv with ⟨hf, hv⟩ | ⟨hf, hc, hv⟩
  · rw [hf, hv, ← hvac]
    exact ⟨_, rfl, rfl, rfl⟩
  · obtain ⟨hqc, hqr⟩ := h.settled hc
    rw [hf, hqc, hv, ← hvac, ← hqr]
    exact ⟨_, rfl, rfl, rfl⟩

theorem Pipe.enter_of_closed {p : Pipe} (h : p.closed = true) (owner : Nat) (bytes : Bytes) :
    p.enter owner bytes = some (.quiet (.error ⟨0, p.reason .write⟩) p) :=
  if_pos h

theorem Pipe.enter_of_open {p : Pipe} (h : p.closed = false) (owner : Nat) (bytes : Bytes) :
    p.enter owner bytes =
      if p.occupied then none else some ((p.place (.lent owner) bytes).map .ok) := by
  rw [enter, h]
  rfl

namespace Thread

/-- A writer has entered the first pipe. In the second, shut in the meantime, it fails right away, as it
would inside the first once that is shut. -/
structure Overtaken (t u : Thread .write) (p : Pipe) (e : Channel) (f : Pipe → Pipe) : Prop where
  vacant : p.occupied = false ∧ t.lending = none
  entered : e.pipe.closed = true ∧
    ∃ bytes, (f = fun q => (q.place (.lent t.id) bytes).state) ∧ ∃ last, t.Went e e last ∧
    ∀ d : Channel, d.pipe.closed = true → d.pipe.parcel = some (.fresh (.lent t.id) bytes) →
      d.pipe.reason .write = e.pipe.reason .write → u.Went d { d with pipe := d.pipe.vacate.state } last

/-- The writer's step does `f` to its pipe. It goes the same way after the reader has done something
without moving bytes, unless that overtakes it. -/
structure Loose (t u : Thread .write) (c d : Channel) (f : Pipe → Pipe) : Prop where
  does : d = { c with pipe := f c.pipe }
  comm : ∀ g, Nudge .read g → ∀ p, f (g p) = g (f p)
  settled : c.pipe.Settled .read (f c.pipe)
  again : ∀ e : Channel, c.pipe.Nudged e.pipe →
    t.Went e { e with pipe := f e.pipe } u ∨ t.Overtaken u c.pipe e f

theorem went_of_open {half : Half} {t : Thread half} {call : Call half} {rest : List (Call half)}
    (hc : t.calls = call :: rest) (hn : call.closing = none) {c : Channel}
    {s : Step Channel (Progress (Call half))} (h : call.advance t.id c = some s) :
    t.Went c s.state (t.proceed rest s.value) :=
  .called hc (by simp [hn]) h

theorem loose_enter {t : Thread .write} {first next : Call .write} {rest : List (Call .write)}
    {bytes : Bytes} {tell : Except ShortWrite Nat → Reply} (hc : t.calls = first :: rest)
    (hw : Call.Writes first next bytes tell) {c : Channel} {s : Step Channel (Progress (Call .write))}
    (h : first.advance t.id c = some s) :
    ∃ f, t.Loose (t.proceed rest s.value) c s.state f := by
  have failed {e : Channel} (he : e.pipe.closed = true) :
      t.Went e e (t.proceed rest (.reply (tell (.error ⟨0, e.pipe.reason .write⟩)))) := by
    have hg := hw.enter t.id e
    rw [Pipe.enter_of_closed he] at hg
    exact went_of_open hc hw.closing.1 hg
  have hl : t.lending = none := by simp [lending, hc, hw.lending.1]
  have hg := hw.enter t.id c
  rw [h] at hg
  cases hcl : c.pipe.closed with
  | true =>
    rw [Pipe.enter_of_closed hcl] at hg
    obtain rfl := Option.some.inj hg
    refine ⟨fun p => p, rfl, fun _ _ _ => rfl, fun hc => ⟨hc, rfl⟩, fun e he => .inl ?_⟩
    obtain ⟨hec, her⟩ := he.settled hcl
    have hgo := failed hec
    rw [her] at hgo
    exact hgo
  | false =>
    rw [Pipe.enter_of_open hcl] at hg
    cases ho : c.pipe.occupied with
    | true => simp [ho] at hg
    | false =>
      rw [ho] at hg
      obtain rfl := Option.some.inj hg
      refine ⟨fun p => (p.place (.lent t.id) bytes).state, rfl, fun g hn p => hn.place p _ bytes,
        by simp [Pipe.Settled, hcl], fun e he => ?_⟩
      cases hec : e.pipe.closed with
      | false =>
        have hge := hw.enter t.id e
        rw [Pipe.enter_of_open hec, he.occupied, ho] at hge
        exact .inl (went_of_open hc hw.closing.1 hge)
      | true =>
        refine .inr ⟨⟨ho, hl⟩, hec, bytes, rfl, _, failed hec, fun d hd hp hr => ?_⟩
        have hleave := hw.leave t.id d
        have hval : d.pipe.leave =
            some (d.pipe.vacate.map fun _ => .error ⟨0, e.pipe.reason .write⟩) := by
          simp [Pipe.leave, Pipe.consumed, hp, hd, hr, Pipe.vacate, Parcel.finished, Parcel.fresh,
            Step.map]
        rw [hval] at hleave
        exact went_of_open (t := t.proceed rest (.onward next)) rfl hw.closing.2 hleave

theorem loose_leave {t : Thread .write} {first next : Call .write} {rest : List (Call .write)}
    {bytes : Bytes} {tell : Except ShortWrite Nat → Reply} (hc : t.calls = next :: rest)
    (hw : Call.Writes first next bytes tell) {c : Channel} {s : Step Channel (Progress (Call .write))}
    (h : next.advance t.id c = some s) :
    t.Loose (t.proceed rest s.value) c s.state fun p => p.vacate.state := by
  rw [hw.leave] at h
  obtain ⟨l, hl, rfl⟩ := Option.map_eq_some_iff.mp h
  refine ⟨?_, fun g hg => hg.vacate, fun hc => ⟨hc, rfl⟩, fun e he => .inl ?_⟩
  · rw [← (Pipe.leave_value hl).1]
    rfl
  · obtain ⟨r, hr, hv, hs⟩ := he.leave hl
    have hleave := hw.leave t.id e
    rw [hr] at hleave
    have hgo := went_of_open hc hw.closing.2 hleave
    simp only [Channel.lift, Step.within, Step.map, hs, hv] at hgo
    exact hgo

theorem Steady.loose {t u : Thread .write} {c d : Channel} (h : t.Steady c.pipe)
    (hb : c.pipe.closed = true → ∃ half, (c.pipe.ownReason half).isSome) (hw : t.Went c d u) :
    ∃ f, t.Loose u c d f := by
  have nudge {f : Pipe → Pipe} (hf : Nudge .write f) (hd : d = { c with pipe := f c.pipe })
      (hg : ∀ e : Channel, t.Went e { e with pipe := f e.pipe } u) : ∃ f, t.Loose u c d f :=
    ⟨f, hd, fun g hn => hf.comm hn, hf.settled hb, fun e _ => .inl (hg e)⟩
  cases hw with
  | kept hc hr hs => exact nudge (.keep _) rfl fun e => .kept hc hr hs
  | shut hc hr hs => exact nudge .shut rfl fun e => .shut hc hr hs
  | @called call rest s hc hs hr =>
    cases Call.blocks (h.blocking call (by simp [hc])) with
    | enter hw => exact loose_enter hc hw hr
    | leave hw => exact ⟨_, loose_leave hc hw hr⟩
    | close reason =>
      obtain rfl := Option.some.inj hr
      exact nudge (.close reason) rfl fun e => .called hc hs rfl

end Thread

namespace Pipe

theorem vacate_of_vacant {p : Pipe} (ho : p.occupied = false) (hp : p.parcel = none)
    (hw : ∀ half, p.waiting half = []) : p.vacate.state = p := by
  have hr : p.waitingReaders = [] := hw .read
  have hs : p.waitingWriters = [] := hw .write
  cases p
  simp_all [vacate, announce]

end Pipe

theorem Call.closing_of_lending {half : Half} {call : Call half} {bytes : Bytes}
    (h : call.lending = some bytes) : call.closing = none := by
  cases call with
  | prompt => simp [lending] at h
  | _ => rfl

namespace Duo

theorem Steady.writer_waits {d : Duo} (h : d.Steady) (hc : d.channel.pipe.closed = false)
    (ha : d.channel.pipe.available.isSome) {c : Channel} {w : Thread .write} :
    ¬ d.writer.Went d.channel c w := by
  obtain ⟨b, hb⟩ := Option.isSome_iff_exists.mp ha
  obtain ⟨hp, hf⟩ := Pipe.available_eq_some hb
  obtain ⟨bytes, hl⟩ := Option.isSome_iff_exists.mp (h.lent (by simp [hp]))
  have lending {call : Call .write} {rest : List (Call .write)}
      (hcalls : d.writer.calls = call :: rest) : call.lending = some bytes := by
    simpa [Thread.lending, hcalls] using hl
  intro hw
  cases hw with
  | kept hcalls hr | shut hcalls hr =>
    have hcl := Call.closing_of_lending (lending hcalls)
    simp [hcl] at hr
  | called hcalls _ hr =>
    have haw := Call.awaits_of_lending d.channel (lending hcalls)
    have hfalse : d.channel.pipe.leavable = false := by simp [Pipe.leavable, Pipe.consumed, hp, hf, hc]
    rw [hfalse, ← Call.advance_eq_none_iff d.writer.id, hr] at haw
    simp at haw

theorem Steady.parcel_of_lending {d : Duo} (h : d.Steady) (hl : d.writer.lending = none) :
    d.channel.pipe.parcel = none := by
  cases hp : d.channel.pipe.parcel with
  | none => rfl
  | some b =>
    have hlent := h.lent (by simp [hp])
    simp [hl] at hlent

theorem advance_write {d : Duo} {c : Channel} {w : Thread .write} (h : d.writer.Went d.channel c w) :
    d.advance .write = some { d with channel := c, writer := w } := by
  rw [advance, Thread.went_iff.mpr h]
  rfl

theorem advance_read {d : Duo} {c : Channel} {r : Thread .read} (h : d.reader.Went d.channel c r) :
    d.advance .read = some { d with channel := c, reader := r } := by
  rw [advance, Thread.went_iff.mpr h]
  rfl

theorem play_cons {d e f : Duo} {half : Half} {rest : List Half} (h : d.advance half = some e)
    (t : e.play rest = some f) : d.play (half :: rest) = some f := by
  rw [play, h]
  exact t

theorem Steady.diamond {d a b : Duo} (h : d.Steady) (ha : d.advance .write = some a)
    (hb : d.advance .read = some b) : ∃ s t e, a.play s = some e ∧ b.play t = some e := by
  obtain ⟨⟨c, w⟩, hw, rfl⟩ := Option.map_eq_some_iff.mp ha
  obtain ⟨⟨e, r⟩, hr, rfl⟩ := Option.map_eq_some_iff.mp hb
  rw [Thread.went_iff] at hw hr
  rcases h.reader.read_again h.waits hr with ⟨g, hg, rfl, hread⟩ | ⟨hc, hp⟩
  · obtain ⟨f, hf⟩ := h.writer.loose h.blamed hw
    obtain rfl := hf.does
    have hcomm := hf.comm g hg d.channel.pipe
    have hread := hread { d.channel with pipe := f d.channel.pipe } hf.settled
    have hnudged := hg.nudged h.blamed
    rcases hf.again { d.channel with pipe := g d.channel.pipe } hnudged with hwrite | ho
    · refine ⟨[.read], [.write], ⟨{ d.channel with pipe := f (g d.channel.pipe) }, w, r⟩, ?_, ?_⟩
      · rw [hcomm]
        exact play_cons (advance_read hread) rfl
      · exact play_cons (advance_write hwrite) rfl
    · obtain ⟨hclosed, bytes, rfl, last, hfail, hlast⟩ := ho.entered
      refine ⟨[.read, .write], [.write], ⟨{ d.channel with pipe := g d.channel.pipe }, last, r⟩,
        ?_, ?_⟩
      · have hplace := hg.place d.channel.pipe (.lent d.writer.id) bytes
        have hback : (g (d.channel.pipe.place (.lent d.writer.id) bytes).state).vacate.state =
            g d.channel.pipe := by
          rw [← hplace]
          exact Pipe.vacate_of_vacant (hnudged.occupied.trans ho.vacant.1)
            (hnudged.parcel.trans (h.parcel_of_lending ho.vacant.2)) (hnudged.calm h.calm)
        rw [← hback]
        refine play_cons (advance_read hread) (play_cons (advance_write (hlast _ ?_ ?_ ?_)) rfl)
        · rw [← hplace]
          exact hclosed
        · rw [← hplace]
          rfl
        · rw [← hplace]
          rfl
      · exact play_cons (advance_write hfail) rfl
  · exact absurd hw (h.writer_waits hc hp)

theorem Steady.joins {d a b : Duo} (h : d.Steady) {first second : Half}
    (ha : d.advance first = some a) (hb : d.advance second = some b) :
    ∃ s t e, a.play s = some e ∧ b.play t = some e := by
  cases first with
  | write =>
    cases second with
    | write => exact ⟨[], [], a, rfl, by rw [ha] at hb; rw [Option.some.inj hb]; rfl⟩
    | read => exact h.diamond ha hb
  | read =>
    cases second with
    | write =>
      obtain ⟨s, t, e, hs, ht⟩ := h.diamond hb ha
      exact ⟨t, s, e, ht, hs⟩
    | read => exact ⟨[], [], a, rfl, by rw [ha] at hb; rw [Option.some.inj hb]; rfl⟩

theorem play_append {d e : Duo} {s : List Half} (h : d.play s = some e) (t : List Half) :
    d.play (s ++ t) = e.play t := by
  induction s generalizing d with
  | nil =>
    obtain rfl := Option.some.inj h
    rfl
  | cons half rest ih =>
    obtain ⟨a, ha, hr⟩ := Option.bind_eq_some_iff.mp h
    rw [List.cons_append, play, ha]
    exact ih hr

theorem settles (d : Duo) : ∃ s e, d.play s = some e ∧ e.Stuck := by
  by_cases h : d.Stuck
  · exact ⟨[], d, rfl, h⟩
  · obtain ⟨half, ha⟩ := not_forall.mp h
    obtain ⟨a, ha⟩ := Option.ne_none_iff_exists'.mp ha
    have := work_advance ha
    obtain ⟨s, e, hs, he⟩ := settles a
    exact ⟨half :: s, e, play_cons ha hs, he⟩
termination_by d.work

theorem Steady.settles_once {d a b : Duo} (h : d.Steady) {s t : List Half} (ha : d.play s = some a)
    (hb : d.play t = some b) (hsa : a.Stuck) (hsb : b.Stuck) : a = b := by
  cases s with
  | nil =>
    obtain rfl := Option.some.inj ha
    cases t with
    | nil => exact Option.some.inj hb
    | cons half rest =>
      obtain ⟨e, he, -⟩ := Option.bind_eq_some_iff.mp hb
      simp [hsa half] at he
  | cons first later =>
    obtain ⟨p, hp, ha⟩ := Option.bind_eq_some_iff.mp ha
    cases t with
    | nil =>
      obtain rfl := Option.some.inj hb
      simp [hsb first] at hp
    | cons second rest =>
      obtain ⟨q, hq, hb⟩ := Option.bind_eq_some_iff.mp hb
      -- What the two first steps lead to can be joined, and what has been joined ends somewhere.
      obtain ⟨s, t, e, hs, ht⟩ := h.joins hp hq
      obtain ⟨u, z, hu, hz⟩ := settles e
      have hpz : p.play (s ++ u) = some z := (play_append hs u).trans hu
      have hqz : q.play (t ++ u) = some z := (play_append ht u).trans hu
      have := work_advance hp
      have := work_advance hq
      rw [(h.advance hp).settles_once ha hpz hsa hz, (h.advance hq).settles_once hb hqz hsb hz]
termination_by d.work

/-- In whatever order the two threads go on, they are told the same in the end, and the same of their
calls are left. -/
theorem schedule_independent {writer : Nat × List (Call .write)} {reader : Nat × List (Call .read)}
    (hw : ∀ call ∈ writer.2, call.blocking = true ∧ call.unstarted = true)
    (hr : ∀ call ∈ reader.2, call.blocking = true ∧ call.unstarted = true) {s t : List Half}
    {a b : Duo}
    (ha : (opened {} writer reader).play s = some a) (hb : (opened {} writer reader).play t = some b)
    (hsa : a.Stuck) (hsb : b.Stuck) : a = b :=
  (steady_opened hw hr).settles_once ha hb hsa hsb

theorem two_sends_schedule_independent :
    let d := opened {} (1, [.send [1, 2] false, .send [3] false])
      (2, [.receive 2, .prompt (.close none)])
    ∃ a b, d.play [.write, .read, .write, .write, .read, .read, .read, .write] = some a ∧
      d.play [.write, .read, .read, .read, .read, .write, .write] = some b ∧
      a = b ∧ a.writer.told = [.reply (.count 2), .reply (.shortWrite ⟨0, .closed⟩)] := by
  refine ⟨_, _, rfl, rfl, ?_, rfl⟩
  exact @schedule_independent (1, [.send [1, 2] false, .send [3] false])
    (2, [.receive 2, .prompt (.close none)]) (by decide) (by decide)
    [.write, .read, .write, .write, .read, .read, .read, .write]
    [.write, .read, .read, .read, .read, .write, .write] _ _ rfl rfl
    (fun half => by cases half <;> rfl) (fun half => by cases half <;> rfl)

end Duo

end Handoff
