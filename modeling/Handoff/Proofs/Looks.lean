import Handoff.Proofs.Abreast
import Handoff.Proofs.Pending

/-!
A blocking write against a polled one. Writers that look at the same moments hear the same, and so does
everybody else on the pipe.
-/

namespace Handoff

/-- What is done to a channel that a write is made on: its writer looks how it fares, or another call
takes a step. -/
inductive Act
  | look (waker : Waker)
  | step (owner : Nat) {half : Half} (call : Call half) (apart : call.apart = true)

/-- What comes of it. Nothing comes of the step of a call that has to wait. -/
inductive Outcome
  | look (outlook : Poll Answer)
  | step {half : Half} (progress : Option (Progress (Call half)))

structure Writing (ω : Type) where
  channel : Channel
  write : ω

/-- A way to write: how far a write is at first, how its writer takes it on, and what it is told. -/
structure Writer (ω : Type) where
  start : ω
  look : Waker → Writing ω → Writing ω
  outlook : ω → Poll Answer

namespace Writer

variable {ω : Type}

def act (k : Writer ω) (w : Writing ω) : Act → Outcome × Writing ω
  | .look waker => (.look (k.outlook (k.look waker w).write), k.look waker w)
  | .step owner call _ =>
    let s := call.advance owner w.channel
    (.step (s.map Step.value), { w with channel := (s.map Step.state).getD w.channel })

/-- The first acts on a channel from the start of a write. What is done next may depend on all that has
been heard; a call that is several steps long goes on from what it has heard of the last. -/
def play (k : Writer ω) (c : Channel) (next : List Outcome → Act) : Nat → List Outcome × Writing ω
  | 0 => ([], ⟨c, k.start⟩)
  | n + 1 =>
    let past := k.play c next n
    let now := k.act past.2 (next past.1)
    (past.1 ++ [now.1], now.2)

def script (acts : List Act) (heard : List Outcome) : Act :=
  acts.getD heard.length (.look .silent)

/-- A thread that is blocked in its write, and goes on at each look if it can. -/
def blocking (owner : Nat) (bytes : Bytes) : Writer (Progress (Call .write)) where
  start := .onward (.send bytes false)
  look _ w :=
    match w.write with
    | .answered _ => w
    | .onward call =>
      match call.advance owner w.channel with
      | none => w
      | some s => ⟨s.state, s.value⟩
  outlook
    | .onward _ => .pending
    | .answered answer => .ready answer

/-- A task that polls with the same slice at each look until its write is ready. -/
def polling (slice : Slice) : Writer (Poll (Except ShortWrite Nat)) where
  start := .pending
  look waker w :=
    match w.write with
    | .ready _ => w
    | .pending =>
      let s := w.channel.pollWrite slice waker
      ⟨s.state, s.value⟩
  outlook poll := poll.map fun result => .reply (.ofSend result)

end Writer

theorem Call.outstanding_of_apart {half : Half} {owner : Nat} {call : Call half} {c : Channel}
    {s : Step Channel (Progress (Call half))} (h : call.advance owner c = some s)
    (hp : call.apart = true) : s.state.outstanding = c.outstanding := by
  apply outstanding_advance h
  rintro rfl
  cases call with
  | prompt p => cases p <;> first | rfl | simp [apart, Prompt.apart] at hp
  | send | write | flush => rfl

namespace Abreast

variable {offer : Option (Nat × Bytes)} {stamp : UInt64} {c d : Channel}

theorem parcel_eq_none (h : Abreast none stamp c d) :
    c.pipe.parcel = none ∧ d.pipe.parcel = none := by
  have hc : c.pipe.parcel = none := Option.map_eq_none_iff.mp h.offered
  refine ⟨hc, ?_⟩
  rw [h.parcel, Pipe.available, hc]
  rfl

theorem place (h : Abreast none stamp c d) (owner : Nat) (slice : Slice) (waker : Waker) :
    Abreast (some (owner, slice.bytes)) d.pipe.nextStamp
      { c with pipe := (c.pipe.place (.lent owner) slice.bytes).state }
      { d with
        pipe := (d.pipe.placeCopy slice.bytes).state.park .write waker
        outstanding := some ⟨d.pipe.nextStamp, slice⟩ } where
  nonblocking := h.nonblocking
  closed := by
    rw [Pipe.closed_park]
    exact h.closed
  ownReason half := by
    rw [Pipe.ownReason_park]
    have hr := h.ownReason half
    cases half <;> exact hr
  offered := rfl
  parcel := by
    rw [Pipe.parcel_park]
    rfl

theorem wait (h : Abreast offer stamp c d) (half : Half) (waker : Waker) :
    Abreast offer stamp c { d with pipe := d.pipe.park half waker } where
  nonblocking := h.nonblocking
  closed := by simpa using h.closed
  ownReason other := by simpa only [Pipe.ownReason_park] using h.ownReason other
  offered := h.offered
  parcel := by simpa using h.parcel

theorem step (h : Abreast offer stamp c d) {half : Half} {call : Call half} (hp : call.apart = true)
    (owner : Nat) :
    (call.advance owner c).map Step.value = (call.advance owner d).map Step.value ∧
      Abreast offer stamp (((call.advance owner c).map Step.state).getD c)
        (((call.advance owner d).map Step.state).getD d) ∧
      (((call.advance owner d).map Step.state).getD d).outstanding = d.outstanding := by
  have hpace := Call.pacing hp owner h
  generalize call.advance owner c = s at hpace ⊢
  generalize hd : call.advance owner d = q at hpace ⊢
  cases hpace with
  | wait => exact ⟨rfl, h, rfl⟩
  | go hs => exact ⟨congrArg some hs.value.symm, hs.state, Call.outstanding_of_apart hd hp⟩

theorem ended (h : Abreast offer stamp c d) {p q : Pipe} (hp : p.parcel = none) (hq : q.parcel = none)
    (hpc : p.closed = c.pipe.closed) (hqc : q.closed = d.pipe.closed)
    (hpr : p.ownReason = c.pipe.ownReason) (hqr : q.ownReason = d.pipe.ownReason) :
    Abreast none stamp { c with pipe := p } { d with pipe := q, outstanding := none } where
  nonblocking := h.nonblocking
  closed := by simp only [hpc, hqc, h.closed]
  ownReason half := by simp only [hpr, hqr, h.ownReason]
  offered := by simp only [hp]; rfl
  parcel := by simp only [hq, Pipe.available, hp]; rfl

end Abreast

inductive Alongside (owner : Nat) (slice : Slice) :
    Writing (Progress (Call .write)) → Writing (Poll (Except ShortWrite Nat)) → Prop
  | before {stamp : UInt64} {c d : Channel} (h : Abreast none stamp c d) (ho : d.outstanding = none) :
      Alongside owner slice ⟨c, .onward (.send slice.bytes false)⟩ ⟨d, .pending⟩
  | during {stamp : UInt64} {c d : Channel} (h : Abreast (some (owner, slice.bytes)) stamp c d)
      (ho : d.outstanding = some ⟨stamp, slice⟩) :
      Alongside owner slice ⟨c, .onward (.send slice.bytes true)⟩ ⟨d, .pending⟩
  | ended {stamp : UInt64} {c d : Channel} (h : Abreast none stamp c d) (ho : d.outstanding = none)
      (result : Except ShortWrite Nat) :
      Alongside owner slice ⟨c, .answered (.reply (.ofSend result))⟩ ⟨d, .ready result⟩

namespace Alongside

variable {owner : Nat} {slice : Slice} {a : Writing (Progress (Call .write))}
  {b : Writing (Poll (Except ShortWrite Nat))}

theorem outlook (h : Alongside owner slice a b) :
    (Writer.blocking owner slice.bytes).outlook a.write = (Writer.polling slice).outlook b.write := by
  cases h <;> rfl

theorem start {c d : Channel} {stamp : UInt64} (h : Abreast none stamp c d) (ho : d.outstanding = none)
    (hc : c.pipe.Sound) (hs : d.pipe.Sound) (waker : Waker) :
    Alongside owner slice
      ((Writer.blocking owner slice.bytes).look waker ⟨c, .onward (.send slice.bytes false)⟩)
      ((Writer.polling slice).look waker ⟨d, .pending⟩) := by
  obtain ⟨hcp, hdp⟩ := h.parcel_eq_none
  have hco : c.pipe.occupied = false := by rw [hc.occupied_eq, hcp]; rfl
  have hdo : d.pipe.occupied = false := by rw [hs.occupied_eq, hdp]; rfl
  simp only [Writer.blocking, Writer.polling, Channel.pollWrite_of_none ho, Call.advance, Pipe.enter,
    Channel.start, h.closed, h.reason, hco, hdo]
  cases c.pipe.closed with
  | true => exact .ended h ho _
  | false => exact .during (h.place owner slice waker) rfl

theorem finish {c d : Channel} {stamp : UInt64} (h : Abreast (some (owner, slice.bytes)) stamp c d)
    (ho : d.outstanding = some ⟨stamp, slice⟩) (hc : c.pipe.Sound) (waker : Waker) :
    Alongside owner slice
      ((Writer.blocking owner slice.bytes).look waker ⟨c, .onward (.send slice.bytes true)⟩)
      ((Writer.polling slice).look waker ⟨d, .pending⟩) := by
  obtain ⟨b, hb, hbo⟩ := Option.map_eq_some_iff.mp h.offered
  have hbytes : b.bytes = slice.bytes := (Prod.mk.inj hbo).2
  have hpassed : c.pipe.vacate.value = b.passed := by simp [Pipe.vacate, hb]
  have hpoll : d.pollWrite slice waker = d.watch ⟨stamp, slice⟩ waker :=
    Channel.pollWrite_of_outstanding ho waker
  cases hf : b.finished with
  | true =>
    -- Readers have let the copy go, and they have as much of the lent bytes as there is.
    have hgone : d.pipe.parcel = none := by simp [h.parcel, Pipe.available, hb, hf]
    have hlength : c.pipe.vacate.value = slice.bytes.length := by
      rw [hpassed, (hc.parcel b hb).passed_of_finished hf, hbytes]
    have hleave : c.pipe.leave = some ((c.pipe.vacate.map .ok).andThen
        [.logged (.consumed c.pipe.vacate.value)]) := by
      simp [Pipe.leave, Pipe.consumed, hb, hf]
    have hwatch : d.watch ⟨stamp, slice⟩ waker = (Step.quiet (.ready (.ok c.pipe.vacate.value))
        { d with outstanding := none }).andThen [.logged (.consumed slice.bytes.length)] := by
      rw [Channel.watch_of_gone (by simp [Pipe.carries, hgone]), hlength]
    simp only [Writer.blocking, Writer.polling, Call.advance, hleave, hpoll, hwatch]
    exact .ended (h.ended (p := c.pipe.vacate.state) rfl hgone rfl rfl rfl rfl) rfl (.ok _)
  | false =>
    have hcopy : d.pipe.parcel = some (b.copy stamp) := by simp [h.parcel, Pipe.available, hb, hf]
    have hcarries : d.pipe.carries stamp = true := Pipe.carries_of_parcel hcopy rfl
    cases hcl : c.pipe.closed with
    | true =>
      have hsame : d.pipe.vacate.value = c.pipe.vacate.value := by
        rw [hpassed]
        simp [Pipe.vacate, hcopy, Parcel.copy]
      have hleave : c.pipe.leave = some (c.pipe.vacate.map fun written =>
          .error ⟨written, c.pipe.reason .write⟩) := by
        simp [Pipe.leave, Pipe.consumed, hb, hf, hcl]
      have hwatch : d.watch ⟨stamp, slice⟩ waker = { d with outstanding := none }.lift
          (d.pipe.vacate.map fun _ =>
            .ready (.error ⟨c.pipe.vacate.value, c.pipe.reason .write⟩)) := by
        rw [Channel.watch_of_cut hcarries (by rw [h.closed, hcl])]
        simp [h.reason, Step.map, hsame]
      simp only [Writer.blocking, Writer.polling, Call.advance, hleave, hpoll, hwatch]
      exact .ended (h.ended (p := c.pipe.vacate.state) (q := d.pipe.vacate.state) rfl rfl rfl rfl rfl rfl)
        rfl (.error _)
    | false =>
      have hleave : c.pipe.leave = none := by simp [Pipe.leave, Pipe.consumed, hb, hf, hcl]
      have hwatch := @Channel.watch_of_waiting d ⟨stamp, slice⟩ hcarries (h.closed.trans hcl) waker
      simp only [Writer.blocking, Writer.polling, Call.advance, hleave, hpoll, hwatch]
      exact .during (h.wait .write waker) ho

theorem look (h : Alongside owner slice a b) (ha : a.channel.pipe.Sound) (hb : b.channel.pipe.Sound)
    (waker : Waker) :
    Alongside owner slice ((Writer.blocking owner slice.bytes).look waker a)
      ((Writer.polling slice).look waker b) := by
  cases h with
  | before h ho => exact start h ho ha hb waker
  | during h ho => exact finish h ho ha waker
  | ended h ho result => exact .ended h ho result

theorem act (h : Alongside owner slice a b) (ha : a.channel.pipe.Sound) (hb : b.channel.pipe.Sound)
    (act : Act) :
    ((Writer.blocking owner slice.bytes).act a act).1 = ((Writer.polling slice).act b act).1 ∧
      Alongside owner slice ((Writer.blocking owner slice.bytes).act a act).2
        ((Writer.polling slice).act b act).2 := by
  cases act with
  | look waker =>
    have hn := h.look ha hb waker
    exact ⟨congrArg Outcome.look hn.outlook, hn⟩
  | step thread call hp =>
    cases h with
    | before h ho =>
      obtain ⟨hv, hs, hso⟩ := h.step hp thread
      exact ⟨congrArg Outcome.step hv, .before hs (hso.trans ho)⟩
    | during h ho =>
      obtain ⟨hv, hs, hso⟩ := h.step hp thread
      exact ⟨congrArg Outcome.step hv, .during hs (hso.trans ho)⟩
    | ended h ho result =>
      obtain ⟨hv, hs, hso⟩ := h.step hp thread
      exact ⟨congrArg Outcome.step hv, .ended hs (hso.trans ho) result⟩

theorem left_behind (h : Alongside owner slice a b) (ha : a.channel.pipe.Sound)
    (hb : b.channel.pipe.Sound) {result : Except ShortWrite Nat} (hr : b.write = .ready result) :
    a.channel.pipe.occupied = false ∧ a.channel.pipe.parcel = none ∧
      b.channel.pipe.occupied = false ∧ b.channel.pipe.parcel = none ∧
        b.channel.outstanding = none := by
  cases h with
  | before | during => simp at hr
  | ended h ho =>
    obtain ⟨hap, hbp⟩ := h.parcel_eq_none
    exact ⟨by rw [ha.occupied_eq, hap]; rfl, hap, by rw [hb.occupied_eq, hbp]; rfl, hbp, ho⟩

end Alongside

namespace Writer

theorem sound_act {ω : Type} {k : Writer ω}
    (hk : ∀ waker w, w.channel.pipe.Sound → (k.look waker w).channel.pipe.Sound) {w : Writing ω}
    (hw : w.channel.pipe.Sound) (act : Act) : (k.act w act).2.channel.pipe.Sound := by
  cases act with
  | look waker => exact hk waker w hw
  | step owner call =>
    simp only [Writer.act]
    cases hs : call.advance owner w.channel with
    | none => exact hw
    | some s => exact (Call.section_of_advance hs).sound hw

theorem sound_blocking (owner : Nat) (bytes : Bytes) (waker : Waker)
    (w : Writing (Progress (Call .write))) (hw : w.channel.pipe.Sound) :
    ((blocking owner bytes).look waker w).channel.pipe.Sound := by
  simp only [blocking]
  split
  · exact hw
  · split
    · exact hw
    · rename_i hs
      exact (Call.section_of_advance hs).sound hw

theorem sound_polling (slice : Slice) (waker : Waker) (w : Writing (Poll (Except ShortWrite Nat)))
    (hw : w.channel.pipe.Sound) : ((polling slice).look waker w).channel.pipe.Sound := by
  simp only [polling]
  split
  · exact hw
  · exact (w.channel.changes_pollWrite slice waker).sound hw

end Writer

theorem Alongside.play {c : Channel} (hc : c.pipe.Sound) (hp : c.pipe.parcel = none)
    (ho : c.outstanding = none) (owner : Nat) (slice : Slice) (next : List Outcome → Act) (n : Nat) :
    let a := (Writer.blocking owner slice.bytes).play c next n
    let b := (Writer.polling slice).play c next n
    a.1 = b.1 ∧ Alongside owner slice a.2 b.2 ∧ a.2.channel.pipe.Sound ∧
      b.2.channel.pipe.Sound := by
  induction n with
  | zero =>
    have h : Abreast none 0 c c :=
      ⟨rfl, rfl, fun _ => rfl, by rw [hp]; rfl, by rw [Pipe.available, hp]; rfl⟩
    exact ⟨rfl, .before h ho, hc, hc⟩
  | succ n ih =>
    obtain ⟨ht, h, ha, hb⟩ := ih
    simp only [Writer.play, ht]
    obtain ⟨hv, hn⟩ := h.act ha hb (next ((Writer.polling slice).play c next n).1)
    exact ⟨by rw [hv], hn, Writer.sound_act (Writer.sound_blocking owner slice.bytes) ha _,
      Writer.sound_act (Writer.sound_polling slice) hb _⟩

/-- Whether a write blocks or is polled, the same is heard of it and of everything else on the pipe, and
once it is over it has left nothing behind. -/
theorem Link.Reachable.blocking_polling_agree {l : Link} (hl : l.Reachable)
    (hf : l.channel.pipe.occupied = false) (ho : l.channel.outstanding = none) (owner : Nat)
    (slice : Slice) (next : List Outcome → Act) (n : Nat) :
    ∃ heard a b, (Writer.blocking owner slice.bytes).play l.channel next n = (heard, a) ∧
      (Writer.polling slice).play l.channel next n = (heard, b) ∧
      (Writer.blocking owner slice.bytes).outlook a.write = (Writer.polling slice).outlook b.write ∧
      ∀ result, b.write = .ready result →
        a.channel.pipe.occupied = false ∧ a.channel.pipe.parcel = none ∧
        b.channel.pipe.occupied = false ∧ b.channel.pipe.parcel = none ∧
          b.channel.outstanding = none := by
  have hp : l.channel.pipe.parcel = none := by simpa [hf] using hl.sound.occupied_eq
  obtain ⟨ht, h, ha, hb⟩ := Alongside.play hl.sound hp ho owner slice next n
  exact ⟨_, _, _, rfl, Prod.ext ht.symm rfl, h.outlook, fun _ hr => h.left_behind ha hb hr⟩

theorem three_bytes_blocking_polling_agree :
    let next := Writer.script [.look .silent, .step 2 (.prompt (.tryReceive 2)) rfl, .look .silent,
      .step 2 (.prompt (.tryReceive 2)) rfl, .step 2 (.prompt (@Prompt.close .read none)) rfl]
    ∃ heard a b, (Writer.blocking 1 [1, 2, 3]).play (Link.opened {}).channel next 6 = (heard, a) ∧
      (Writer.polling ⟨"data", 0, [1, 2, 3]⟩).play (Link.opened {}).channel next 6 = (heard, b) ∧
      heard.getLast? = some (.look (.ready (.reply (.count 3)))) ∧
      a.channel.pipe.occupied = false ∧ b.channel.outstanding = none := by
  intro next
  obtain ⟨heard, a, b, ha, hb, -, hover⟩ := @Link.Reachable.blocking_polling_agree (.opened {})
    ⟨{}, [], .start⟩ rfl rfl 1 ⟨"data", 0, [1, 2, 3]⟩ next 6
  have hr : b.write = .ready (.ok 3) := congrArg (fun r => r.2.write) hb.symm
  obtain ⟨hao, -, -, -, hbo⟩ := hover _ hr
  exact ⟨heard, a, b, ha, hb, congrArg (fun r => r.1.getLast?) ha.symm, hao, hbo⟩

end Handoff
