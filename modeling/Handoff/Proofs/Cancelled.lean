import Handoff.Proofs.Reported

/-!
A polled write given up for another slice. Either no read has met it, and then none ever will, or readers
get the rest of it before anything else; and its writer is not told of it again.
-/

namespace Handoff

theorem Pipe.unmet_eq_false {p : Pipe} {b : Parcel} (hb : p.parcel = some b) {stamp : UInt64}
    (h : b.origin = .copied stamp → b.met = true) : p.unmet stamp = false := by
  by_contra hu
  obtain ⟨c, hc, ho, hm⟩ := parcel_of_unmet (by simpa using hu)
  obtain rfl : c = b := Option.some.inj (hc.symm.trans hb)
  cases hm.symm.trans (h ho)

namespace Channel

variable {c : Channel} {write : Outstanding} {slice : Slice}

theorem cancel_of_unmet (h : c.pipe.unmet write.stamp = true) :
    c.cancel write = ⟨(), { c with pipe := c.pipe.vacate.state, outstanding := none },
      .logged (.withdrawn write.slice.bytes.length) :: c.pipe.vacate.effects⟩ := by
  rw [cancel, if_pos h]
  rfl

theorem cancel_of_met (h : c.pipe.unmet write.stamp = false) :
    c.cancel write = .quiet () { c with outstanding := none } := by
  rw [cancel, if_neg (by simp [h])]

theorem value_start (c : Channel) (slice : Slice) (waker : Waker) :
    (c.start slice waker).value =
      if c.pipe.closed then .ready (.error ⟨0, c.pipe.reason .write⟩) else .pending := by
  unfold start
  split
  · rfl
  · split <;> rfl

theorem value_pollWrite_of_other (ho : c.outstanding = some write) (hn : write.slice ≠ slice)
    (waker : Waker) : (c.pollWrite slice waker).value =
      if c.pipe.closed then .ready (.error ⟨0, c.pipe.reason .write⟩) else .pending := by
  obtain ⟨hc, hr⟩ := c.cancel_pipe write
  rw [pollWrite_of_other ho hn, Step.value_after, value_start, hc, hr]

theorem slice_of_pollWrite_of_other (ho : c.outstanding = some write) (hn : write.slice ≠ slice)
    {waker : Waker} {other : Outstanding}
    (h : (c.pollWrite slice waker).state.outstanding = some other) : other.slice = slice := by
  rw [pollWrite_of_other ho hn, Step.state_after, start] at h
  split at h
  · simp at h
  · split at h
    · simp at h
    · obtain rfl := Option.some.inj h
      rfl

theorem pollWrite_of_met (hs : c.pipe.Sound) (ho : c.outstanding = some write)
    (hn : write.slice ≠ slice) (hu : c.pipe.unmet write.stamp = false) {b : Parcel}
    (hb : c.pipe.parcel = some b) (waker : Waker) :
    (c.pollWrite slice waker).state.pipe.parcel = some b ∧
      (c.pollWrite slice waker).state.outstanding = none ∧
      placed (c.pollWrite slice waker).effects = [] := by
  rw [pollWrite_of_other ho hn, cancel_of_met hu]
  cases hc : c.pipe.closed with
  | true =>
    rw [Step.state_quiet, start_of_closed (by exact hc)]
    exact ⟨hb, rfl, rfl⟩
  | false =>
    have hg : c.pipe.enterable = false := by simp [Pipe.enterable, hc, hs.occupied_eq, hb]
    rw [Step.state_quiet, start_of_unenterable (by exact hg)]
    exact ⟨(Pipe.parcel_park ..).trans hb, rfl, rfl⟩

theorem pollWrite_of_unmet (ho : c.outstanding = some write) (hn : write.slice ≠ slice)
    (hu : c.pipe.unmet write.stamp = true) (waker : Waker) :
    ∃ rest, (c.pollWrite slice waker).effects =
      .logged (.withdrawn write.slice.bytes.length) :: rest := by
  rw [pollWrite_of_other ho hn, cancel_of_unmet hu]
  exact ⟨_, rfl⟩

theorem pollWrite_restages (ho : c.outstanding = some write) (hn : write.slice ≠ slice)
    (hu : c.pipe.unmet write.stamp = true) (hc : c.pipe.closed = false) (waker : Waker) :
    (c.pollWrite slice waker).state.outstanding = some ⟨c.pipe.nextStamp, slice⟩ ∧
      (c.pollWrite slice waker).state.pipe.parcel =
        some (.fresh (.copied c.pipe.nextStamp) slice.bytes) ∧
      placed (c.pollWrite slice waker).effects = [(.copied c.pipe.nextStamp, slice.bytes)] := by
  have hstart : (c.cancel write).state.start slice waker =
      Channel.lift { c with outstanding := some ⟨c.pipe.nextStamp, slice⟩ }
        (((c.pipe.vacate.state.placeCopy slice.bytes).map fun _ => Poll.pending).within
          (·.park .write waker)) := by
    rw [cancel_of_unmet hu]
    exact @start_of_free { c with pipe := c.pipe.vacate.state, outstanding := none } hc rfl slice waker
  rw [pollWrite_of_other ho hn, Step.effects_after, placed_append, placed_cancel, Step.state_after, hstart]
  exact ⟨rfl, Pipe.parcel_park .., Pipe.placed_place _ _ slice.bytes⟩

end Channel

theorem Link.turn_of_pollWrite {l : Link} {id : Nat} {slice : Slice} {waker : Waker}
    (hc : l.call? id = some ⟨.write, .prompt (.pollWrite slice waker)⟩) :
    ∃ s, l.move (.turn id) = some s ∧ s.effects = (l.channel.pollWrite slice waker).effects ∧
      s.state.channel = (l.channel.pollWrite slice waker).state ∧
      s.value.map Event.answer = some (.polled ((l.channel.pollWrite slice waker).value.map
        fun result => .ofWrite (Stream.ofWrite result))) := by
  obtain ⟨s, hmove⟩ := turn_of_call? hc rfl
  obtain ⟨r, hr, heffects, hstate, hanswer⟩ := called_of_turn hmove hc
  obtain rfl := Option.some.inj hr
  exact ⟨s, hmove, heffects, hstate, hanswer⟩

theorem Delivery.Holds.received_append_rest {d : Delivery} {b : Parcel} (h : d.Holds b) :
    d.received ++ b.rest = d.bytes := by
  rw [h.received, h.bytes]
  exact List.take_append_drop _ _

theorem Delivery.Becomes.received {d w : Delivery} {es : List Effect} {newer : List Delivery}
    {more : List Bytes} (h : d.Becomes es newer w more) : w.received = d.received ++ more.flatten := by
  rw [Delivery.received, h.pieces, List.flatten_append]
  rfl

theorem Delivery.Becomes.offer {d w : Delivery} {es : List Effect} {newer : List Delivery}
    {more : List Bytes} (h : d.Becomes es newer w more) : w.offer = d.offer :=
  Prod.ext h.origin h.bytes

/-- The deed gives up the write `d`, which is on record, for another slice, and this is what becomes of
the write however the run goes on: one that no read has met is taken back, one that readers are at
is finished first, and one that they have had whole is not handed out again. -/
structure GivenUp (deeds : List Deed) (write : Outstanding) (slice : Slice) (d : Delivery)
    (older : List Delivery) (turn : Deed) : Prop where
  waits : turn.found.channel.pipe.closed = false →
    turn.step.value.map Event.answer = some (.polled .pending)
  refused : turn.found.channel.pipe.closed = true →
    turn.step.value.map Event.answer =
      some (.polled (.ready (.failed (turn.found.channel.pipe.reason .write).toFailure)))
  others : ∀ b, turn.found.channel.pipe.parcel = some b → b.origin ≠ .copied write.stamp →
    turn.step.state.channel.pipe.parcel = some b
  restaged : d.pieces = [] → turn.found.channel.pipe.closed = false →
    ∃ stamp, turn.step.state.channel.outstanding = some ⟨stamp, slice⟩ ∧
      turn.step.state.channel.pipe.parcel = some (.fresh (.copied stamp) slice.bytes) ∧
      placed turn.step.effects = [(.copied stamp, slice.bytes)]
  unmet : d.pieces = [] → ∀ later m, Run turn.step.state later m →
    ∃ newer w, ledger (effects (deeds ++ turn :: later)) = newer ++ w :: older ∧ w.offer = d.offer ∧
      w.pieces = []
  underway : d.pieces ≠ [] → d.received ≠ d.bytes →
    ∃ b, turn.found.channel.pipe.parcel = some b ∧ b.origin = .copied write.stamp ∧
      d.received ++ b.rest = write.slice.bytes ∧
      turn.step.state.channel.pipe.parcel = some b ∧ turn.step.state.channel.outstanding = none ∧
      placed turn.step.effects = [] ∧
      ∀ later m, Run turn.step.state later m →
        ∃ newer w more, ledger (effects (deeds ++ turn :: later)) = newer ++ w :: older ∧
          w.offer = d.offer ∧ w.pieces = d.pieces ++ more ∧
          handed (effects later) = more ++ newer.reverse.flatMap Delivery.pieces ∧
          (more.flatten = b.rest ∨ newer = [] ∧ more.flatten <+: b.rest ∧
            (m.channel.pipe.closed = true ∨ ∃ c, m.channel.pipe.parcel = some c ∧
              c.origin = b.origin ∧ more.flatten ++ c.rest = b.rest))
  complete : d.pieces ≠ [] → d.received = d.bytes → ∀ later m, Run turn.step.state later m →
    ∃ newer w, ledger (effects (deeds ++ turn :: later)) = newer ++ w :: older ∧ w.offer = d.offer ∧
      w.pieces = d.pieces
  reports : ∀ before e after m other result, Run turn.step.state (before ++ e :: after) m →
    e.Reports other result → ∃ gap since, turn :: before = gap ++ since ∧ Staged since other ∧
      result = e.found.channel.pipe.verdict other.slice.bytes
        (served (.copied other.stamp) (effects since))

namespace Run

variable {settings : Settings} {deeds later : List Deed} {turn : Deed} {m : Link} {d : Delivery}
  {older : List Delivery}

theorem unmet_of_withdrawn (run : Run (.opened settings) (deeds ++ turn :: later) m)
    (hled : ledger (effects deeds) = d :: older) {count : Nat} {rest : List Effect}
    (he : turn.step.effects = .logged (.withdrawn count) :: rest) :
    ∃ newer w, ledger (effects (deeds ++ turn :: later)) = newer ++ w :: older ∧ w.offer = d.offer ∧
      w.pieces = [] := by
  obtain ⟨newer, w, more, hf, hw⟩ :=
    exists_becomes { d with cancelled := true } older (rest ++ effects later)
  have hall : ledger (effects (deeds ++ turn :: later)) = newer ++ w :: older := by
    rw [effects_append, ledger_append, hled, effects_cons, he]
    exact hf
  have hacc := run.accounts
  rw [hall] at hacc
  exact ⟨newer, w, hall, hw.offer, hacc.unread_of_cancelled (hw.cancelled rfl)⟩

theorem rest_first (run : Run (.opened settings) (deeds ++ turn :: later) m)
    (hled : ledger (effects deeds) = d :: older) (hh : handed turn.step.effects = []) {b : Parcel}
    (hb : d.Holds b) (hm : d.pieces ≠ []) :
    ∃ newer w more, ledger (effects (deeds ++ turn :: later)) = newer ++ w :: older ∧
      w.offer = d.offer ∧ w.pieces = d.pieces ++ more ∧
      handed (effects later) = more ++ newer.reverse.flatMap Delivery.pieces ∧
      (more.flatten = b.rest ∨ newer = [] ∧ more.flatten <+: b.rest ∧
        (m.channel.pipe.closed = true ∨ ∃ c, m.channel.pipe.parcel = some c ∧
          c.origin = b.origin ∧ more.flatten ++ c.rest = b.rest)) := by
  obtain ⟨newer, w, more, hf, hw⟩ := exists_becomes d older (effects (turn :: later))
  have hall : ledger (effects (deeds ++ turn :: later)) = newer ++ w :: older := by
    rw [effects_append, ledger_append, hled, hf]
  have hhanded : handed (effects later) = more ++ newer.reverse.flatMap Delivery.pieces := by
    rw [← hw.handed, effects_cons, handed_append, hh, List.nil_append]
  refine ⟨newer, w, more, hall, hw.offer, hw.pieces, hhanded, ?_⟩
  have hacc := run.accounts
  rw [hall] at hacc
  have hbytes : w.bytes = d.received ++ b.rest := hw.bytes.trans hb.received_append_rest.symm
  have hmet : w.pieces ≠ [] := by simp [hw.pieces, hm]
  rcases hacc.complete_or_latest hmet with hc | ⟨hn, hcl | ⟨c, hc, hold⟩⟩
  · have hwhole : d.received ++ more.flatten = d.received ++ b.rest := by
      rw [← hw.received, ← hbytes]
      exact hc.2.2
    exact .inl (List.append_cancel_left hwhole)
  · refine .inr ⟨hn, ?_, .inl hcl⟩
    have hp := @hacc.received _ _ w (by simp)
    rwa [hw.received, hbytes, List.prefix_append_right_inj] at hp
  · have hwhole : d.received ++ (more.flatten ++ c.rest) = d.received ++ b.rest := by
      rw [← List.append_assoc, ← hw.received, ← hbytes]
      exact hold.received_append_rest
    have hrest : more.flatten ++ c.rest = b.rest := List.append_cancel_left hwhole
    have horigin : c.origin = b.origin := hold.origin.symm.trans (hw.origin.trans hb.origin)
    exact .inr ⟨hn, ⟨c.rest, hrest⟩, .inr ⟨c, hc, horigin, hrest⟩⟩

theorem complete_for_good {above : List Delivery} (run : Run (.opened settings) (deeds ++ later) m)
    (hled : ledger (effects deeds) = above ++ d :: older) (hm : d.pieces ≠ [])
    (hd : d.received = d.bytes) :
    ∃ newer w, ledger (effects (deeds ++ later)) = newer ++ w :: older ∧ w.offer = d.offer ∧
      w.pieces = d.pieces := by
  rw [effects_append, ledger_append, hled]
  cases above with
  | cons e above =>
    obtain ⟨newer, w, more, hf, -⟩ := exists_becomes e (above ++ d :: older) (effects later)
    exact ⟨newer ++ w :: above, d, by rw [List.cons_append, hf]; simp, rfl, rfl⟩
  | nil =>
    obtain ⟨newer, w, more, hf, hw⟩ := exists_becomes d older (effects later)
    have ht : w.Timely := by
      apply run.timely
      rw [effects_append, ledger_append, hled, List.nil_append, hf]
      simp
    refine ⟨newer, w, hf, hw.offer, ?_⟩
    rw [hw.pieces]
    cases hmore : more with
    | nil => exact List.append_nil _
    | cons piece back =>
      rw [hmore] at hw
      exact absurd (hd.trans hw.bytes.symm) (ht d.pieces piece back hw.pieces hm)

theorem reports_since (run : Run (.opened settings) deeds turn.found)
    (h : turn.found.move turn.move = some turn.step) {write : Outstanding}
    (hw : turn.found.channel.outstanding = some write)
    (hn : ∀ other, turn.step.state.channel.outstanding = some other → other.slice ≠ write.slice)
    {before after : List Deed} {e : Deed} (next : Run turn.step.state (before ++ e :: after) m)
    {other : Outstanding} {result : Except ShortWrite Nat} (he : e.Reports other result) :
    ∃ gap since, turn :: before = gap ++ since ∧ Staged since other ∧
      result = e.found.channel.pipe.verdict other.slice.bytes
        (served (.copied other.stamp) (effects since)) := by
  have hrun := run.trans (.cons h next.split_at.1)
  obtain ⟨ho, -, -, waker, -, -, -, hv⟩ := he
  obtain ⟨earlier, since, hsplit, hst, hj⟩ := hrun.judged_of_watch ho hv
  rcases List.append_eq_append_iff.mp hsplit with ⟨gap, -, hsince⟩ | ⟨rest, rfl, rfl⟩
  · exact ⟨gap, since, hsince, hst, hj.verdict⟩
  · rcases rest.eq_nil_or_concat with rfl | ⟨front, last, rfl⟩
    · exact ⟨[], _, rfl, hst, hj.verdict⟩
    -- Else the same write would be on record before and after the turn.
    · rw [List.concat_eq_append, ← List.append_assoc] at run
      have hlast : turn.found = last.step.state :=
        (Prod.mk.inj (Option.some.inj (run_iff_play.mp run.split_at.2.2))).2.symm
      have hbefore := hst.kept last (by simp)
      obtain rfl : write = other := Option.some.inj (hw.symm.trans (hlast ▸ hbefore))
      exact absurd rfl (hn _ (hst.kept turn (by simp)))

theorem cancel_all_or_nothing {l : Link} (run : Run (.opened settings) deeds l) {write : Outstanding}
    (hw : l.channel.outstanding = some write) {id : Nat} {slice : Slice} {waker : Waker}
    (hc : l.call? id = some ⟨.write, .prompt (.pollWrite slice waker)⟩) (hn : write.slice ≠ slice) :
    ∃ s newer d older, l.move (.turn id) = some s ∧ ledger (effects deeds) = newer ++ d :: older ∧
      d.Awaited write ∧ (∀ e ∈ newer, ∃ owner, e.origin = .lent owner) ∧
      GivenUp deeds write slice d older ⟨l, .turn id, s⟩ := by
  have hs : l.channel.pipe.Sound := Link.Reachable.sound ⟨settings, deeds, run⟩
  obtain ⟨s, hmove, heffects, hstate, hanswer⟩ := Link.turn_of_pollWrite hc
  rw [Channel.value_pollWrite_of_other hw hn] at hanswer
  have hhanded : handed s.effects = [] := heffects ▸ (l.channel.changes_pollWrite slice waker).handed_eq
  obtain ⟨newer, d, older, hled, hd, hlent, hcase⟩ := run.place hw
  refine ⟨s, newer, d, older, hmove, hled, hd, hlent, ?_⟩
  have held (hinc : ¬ d.Complete) : newer = [] ∧ ∃ b, l.channel.pipe.parcel = some b ∧ d.Holds b := by
    rcases hcase with ⟨-, hcomplete⟩ | ⟨-, hnew, hb⟩
    · exact absurd hcomplete hinc
    · exact ⟨hnew, hb⟩
  have hunmet (hp : d.pieces = []) : l.channel.pipe.unmet write.stamp = true := by
    obtain ⟨-, b, hb, hold⟩ := held fun hcomplete => hcomplete.2.1 hp
    have ho : b.origin = .copied write.stamp := hold.origin.symm.trans hd.origin
    rw [Pipe.unmet_of_parcel hb ho, hold.unmet.mp hp]
    rfl
  have hcont {later : List Deed} {m : Link} (next : Run s.state later m) :
      Run (.opened settings) (deeds ++ ⟨l, .turn id, s⟩ :: later) m := run.trans (.cons hmove next)
  constructor
  case waits =>
    intro ho
    rw [hanswer, if_neg (by simp [show l.channel.pipe.closed = false from ho])]
    rfl
  case refused =>
    intro hcl
    rw [hanswer, if_pos hcl]
    rfl
  case others =>
    intro b hb hne
    have hu := Pipe.unmet_eq_false hb fun ho => absurd ho hne
    rw [hstate]
    exact (Channel.pollWrite_of_met hs hw hn hu hb waker).1
  case restaged =>
    intro hp ho
    rw [hstate, heffects]
    exact ⟨_, Channel.pollWrite_restages hw hn (hunmet hp) ho waker⟩
  case unmet =>
    intro hp later m next
    obtain ⟨rfl, -⟩ := held fun hcomplete => hcomplete.2.1 hp
    obtain ⟨rest, he⟩ := Channel.pollWrite_of_unmet hw hn (hunmet hp) waker
    exact (hcont next).unmet_of_withdrawn hled (heffects.trans he)
  case underway =>
    intro hp hne
    obtain ⟨rfl, b, hb, hold⟩ := held fun hcomplete => hne hcomplete.2.2
    have ho : b.origin = .copied write.stamp := hold.origin.symm.trans hd.origin
    have hmet : b.met = true := by simpa using mt hold.unmet.mpr hp
    have hu := Pipe.unmet_eq_false hb fun (_ : b.origin = .copied write.stamp) => hmet
    obtain ⟨hparcel, hnone, hplaced⟩ := Channel.pollWrite_of_met hs hw hn hu hb waker
    refine ⟨b, hb, ho, hold.received_append_rest.trans hd.bytes, ?_, ?_, ?_, fun later m next => ?_⟩
    · rw [hstate, hparcel]
    · rw [hstate, hnone]
    · rw [heffects, hplaced]
    · exact (hcont next).rest_first hled hhanded hold hp
  case complete =>
    intro hp hwhole later m next
    exact (hcont next).complete_for_good hled hp hwhole
  case reports =>
    intro before e after m other result next he
    refine run.reports_since hmove hw (fun new hnew => ?_) next he
    rw [hstate] at hnew
    rw [Channel.slice_of_pollWrite_of_other hw hn hnew]
    exact hn.symm

end Run

theorem half_read_copy_given_up :
    ∃ deeds l s newer d older, Run (.opened {}) deeds l ∧
      l.channel.outstanding = some ⟨0, ⟨"data", 0, [1, 2, 3]⟩⟩ ∧ handed (effects deeds) = [[1, 2]] ∧
      l.call? 1 = some ⟨.write, .prompt (.pollWrite ⟨"data", 0, [9]⟩ .silent)⟩ ∧
      l.move (.turn 1) = some s ∧ ledger (effects deeds) = newer ++ d :: older ∧
      GivenUp deeds ⟨0, ⟨"data", 0, [1, 2, 3]⟩⟩ ⟨"data", 0, [9]⟩ d older ⟨l, .turn 1, s⟩ := by
  have run := @run_of_play (.opened {}) _
    [.spawn ⟨1, "writer", .write, .share, 0, [.prompt (.pollWrite ⟨"data", 0, [1, 2, 3]⟩ .silent),
        .prompt (.pollWrite ⟨"data", 0, [9]⟩ .silent)]⟩, .turn 1,
      .spawn ⟨2, "reader", .read, .share, 0, [.receive 2]⟩, .turn 2] _ rfl
  obtain ⟨s, newer, d, older, hmove, hled, -, -, hgiven⟩ :=
    @Run.cancel_all_or_nothing _ _ _ run _ rfl 1 ⟨"data", 0, [9]⟩ .silent rfl (by decide)
  exact ⟨_, _, s, newer, d, older, run, rfl, rfl, rfl, hmove, hled, hgiven⟩

end Handoff
