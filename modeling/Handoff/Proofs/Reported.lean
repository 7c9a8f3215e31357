import Handoff.Proofs.Places
import Handoff.Proofs.Stamps

/-!
What a writer is told of a polled write on record. Whatever else goes through the pipe, the write is still
there and unfinished, or readers have got it whole; and it is reported once at most.
-/

namespace Handoff

/-- The write is in the pipe, and readers are not done with it. -/
def Outstanding.Waits (write : Outstanding) (p : Pipe) : Prop :=
  ∃ b, p.parcel = some b ∧ b.origin = .copied write.stamp ∧ b.bytes = write.slice.bytes ∧
    b.finished = false

/-- The write has left the pipe, and readers have got each of its bytes once. -/
structure Outstanding.Delivered (write : Outstanding) (p : Pipe) (es : List Effect) : Prop where
  gone : ∀ b, p.parcel = some b → b.origin ≠ .copied write.stamp
  placed : (placed es).filter (·.1 = .copied write.stamp) = [(.copied write.stamp, write.slice.bytes)]
  received : (served (.copied write.stamp) es).flatten = write.slice.bytes
  met : served (.copied write.stamp) es ≠ []
  once : write.slice.bytes = [] → served (.copied write.stamp) es = [[]]

/-- These polls ask how the write on record fares. -/
inductive Prompt.Watches (write : Outstanding) (waker : Waker) : Prompt .write → Prop
  | write : Watches write waker (.pollWrite write.slice waker)
  | flush : Watches write waker (.pollFlush waker)
  | close : Watches write waker (.pollClose waker)

/-- With this deed a poll is ready, and the result is that of the write on record. -/
def Deed.Reports (d : Deed) (write : Outstanding) (result : Except ShortWrite Nat) : Prop :=
  d.found.channel.outstanding = some write ∧
    ∃ (id : Nat) (p : Prompt .write) (waker : Waker), d.move = .turn id ∧
      d.found.call? id = some ⟨.write, .prompt p⟩ ∧ p.Watches write waker ∧
      (d.found.channel.watch write waker).value = .ready result

theorem Pipe.carries_eq_false_iff {p : Pipe} {stamp : UInt64} :
    p.carries stamp = false ↔ ∀ b, p.parcel = some b → b.origin ≠ .copied stamp := by
  constructor
  · rintro h b hb ho
    cases h.symm.trans (carries_of_parcel hb ho)
  · intro h
    cases hc : p.carries stamp with
    | false => rfl
    | true =>
      obtain ⟨b, hb, ho⟩ := parcel_of_carries hc
      exact absurd ho (h b hb)

namespace Channel

variable {c : Channel} {write : Outstanding} {waker : Waker}

theorem watch_ready_ok_iff {count : Nat} : (c.watch write waker).value = .ready (.ok count) ↔
    count = write.slice.bytes.length ∧ c.pipe.carries write.stamp = false := by
  cases hc : c.pipe.carries write.stamp with
  | false =>
    rw [watch_of_gone hc]
    simp [eq_comm]
  | true =>
    cases hcl : c.pipe.closed with
    | false => simp [watch_of_waiting hc hcl]
    | true => simp [watch_of_cut hc hcl]

theorem pollFlush_ready_ok_iff (ho : c.outstanding = some write) :
    (c.pollFlush waker).value = .ready (.ok ()) ↔ c.pipe.carries write.stamp = false := by
  have hflush : (c.pollFlush waker).value = .ready (.ok ()) ↔
      ∃ count, (c.watch write waker).value = .ready (.ok count) := by
    rw [pollFlush_of_outstanding ho, Step.value_map]
    cases (c.watch write waker).value with
    | pending => simp [Poll.map]
    | ready result => cases result <;> simp [Poll.map, Except.map]
  rw [hflush]
  simp [watch_ready_ok_iff]

theorem outstanding_watch_ready {result : Except ShortWrite Nat}
    (h : (c.watch write waker).value = .ready result) :
    (c.watch write waker).state.outstanding = none := by
  cases hc : c.pipe.carries write.stamp with
  | false =>
    rw [watch_of_gone hc]
    rfl
  | true =>
    cases hcl : c.pipe.closed with
    | false =>
      rw [watch_of_waiting hc hcl] at h
      cases h
    | true =>
      rw [watch_of_cut hc hcl]
      rfl

end Channel

theorem Prompt.Watches.state {write : Outstanding} {waker : Waker} {p : Prompt .write}
    (h : p.Watches write waker) {c : Channel} (ho : c.outstanding = some write) :
    (p.advance c).state = (c.watch write waker).state := by
  cases h with
  | write => exact congrArg Step.state (Channel.pollWrite_of_outstanding ho waker)
  | flush | close => simp only [Prompt.advance, Step.state_map, Channel.pollFlush_of_outstanding ho]

theorem Deed.Reports.outstanding {d : Deed} {write : Outstanding} {result : Except ShortWrite Nat}
    (h : d.Reports write result) (hm : d.found.move d.move = some d.step) :
    d.step.state.channel.outstanding = none := by
  obtain ⟨ho, id, p, waker, hturn, hcall, hp, hv⟩ := h
  rw [hturn] at hm
  obtain ⟨r, hr, -, hstate, -⟩ := Link.called_of_turn hm hcall
  obtain rfl := Option.some.inj hr
  rw [hstate, Step.state_map, hp.state ho]
  exact Channel.outstanding_watch_ready hv

namespace Run

variable {settings : Settings} {deeds : List Deed} {l : Link}

theorem waits_or_delivered (run : Run (.opened settings) deeds l) (hn : (stamps (effects deeds)).Nodup)
    {write : Outstanding} (hw : l.channel.outstanding = some write) :
    l.channel.pipe.carries write.stamp = true ∧ write.Waits l.channel.pipe ∨
      l.channel.pipe.carries write.stamp = false ∧
        write.Delivered l.channel.pipe (effects deeds) := by
  have hl : l.Reachable := ⟨settings, deeds, run⟩
  have htimely := run.timely
  obtain ⟨earlier, since, d, rfl, hst, -, hbytes, hserved, hcase⟩ := run.tracked hw
  rcases hcase with ⟨hcar, hd⟩ | ⟨hcar, b, hb, hold⟩
  · have hsince := hst.mem_stamps
    have hearlier : (placed (effects earlier)).filter (·.1 = .copied write.stamp) = [] := by
      rw [effects_append, stamps_append] at hn
      rw [List.filter_eq_nil_iff]
      rintro ⟨origin, bytes⟩ hp ho
      obtain rfl : origin = .copied write.stamp := by simpa using ho
      exact (List.nodup_append.mp hn).2.2 _ (mem_stamps.mpr ⟨bytes, hp⟩) _ hsince rfl
    have hplaced : (placed (effects (earlier ++ since))).filter (·.1 = .copied write.stamp) =
        [(.copied write.stamp, write.slice.bytes)] := by
      rw [effects_append, placed_append, List.filter_append, hearlier, hst.placed_once, List.nil_append]
    have hall : served (.copied write.stamp) (effects (earlier ++ since)) = d.pieces := by
      rw [effects_append, served_append hearlier, hserved]
    refine .inr ⟨hcar, Pipe.carries_eq_false_iff.mp hcar, hplaced, ?_, ?_, ?_⟩
    · rw [hall, ← hbytes]
      exact hd.2.2
    · rw [hall]
      exact hd.2.1
    · intro he
      obtain ⟨newer, w, older, hled, -, -, hwb, hwp⟩ := served_of_placed hplaced
      have ht : w.Timely := htimely w (hled ▸ by simp)
      have hflat : w.pieces.flatten = [] := by
        rw [← hwp, hall]
        exact hd.2.2.trans (hbytes.trans he)
      rw [hwp]
      cases hp : w.pieces with
      | nil => exact absurd (hall.symm.trans (hwp.trans hp)) hd.2.1
      | cons piece rest =>
        rw [hp, List.flatten_cons, List.append_eq_nil_iff] at hflat
        obtain ⟨rfl, -⟩ := hflat
        -- A second read would have met a write that readers already had.
        cases rest with
        | nil => rfl
        | cons next back => exact absurd (hwb.trans he).symm (ht [[]] next back hp (List.cons_ne_nil _ _))
  · obtain ⟨c, hc, ho⟩ := Pipe.parcel_of_carries hcar
    obtain rfl : b = c := Option.some.inj (hb.symm.trans hc)
    exact .inl ⟨hcar, b, hb, ho, hold.bytes.symm.trans hbytes,
      (hl.sound.parcel b hb).unfinished_of_copied ho⟩

theorem reports_pairwise (run : Run (.opened settings) deeds l)
    (hn : (stamps (effects deeds)).Nodup) :
    deeds.Pairwise fun d e => ∀ write result other later, d.Reports write result →
      e.Reports other later → write.stamp ≠ other.stamp := by
  induction run with
  | start => exact .nil
  | @next deeds m move s run h ih =>
    have hprefix : (stamps (effects deeds)).Nodup := by
      rw [effects_concat, stamps_append] at hn
      exact (List.nodup_append.mp hn).1
    refine List.pairwise_append.mpr ⟨ih hprefix, List.pairwise_singleton _ _, ?_⟩
    intro d hd e he write result other later hdr her heq
    obtain rfl := List.mem_singleton.mp he
    -- The later write was put up after the first had been reported, for its record has stood since.
    obtain ⟨earlier, since, rfl, hst⟩ := run.staged her.1
    rcases List.mem_append.mp hd with hd | hd
    · obtain ⟨before, after, rfl⟩ := List.append_of_mem hd
      rw [List.append_assoc, List.cons_append] at run
      obtain ⟨first, rest, rfl, hst'⟩ := run.split_at.1.staged hdr.1
      rw [effects_append, stamps_append, List.nodup_append] at hprefix
      refine hprefix.2.2 _ ?_ _ hst.mem_stamps heq
      simp [effects_append, hst'.mem_stamps]
    · obtain ⟨_, _, -, -, hm⟩ := run.split (List.mem_append_right _ hd)
      cases (hst.kept d hd).symm.trans (hdr.outstanding hm)

end Run

theorem Pipe.park_write (p : Pipe) (waker : Waker) :
    ∃ wakers, p.park .write waker = { p with waitingWriters := wakers } ∧
      ∀ other, other ∈ wakers ↔ other ∈ p.waitingWriters ∨ other = waker := by
  refine ⟨(p.park .write waker).waitingWriters, ?_, fun other => ?_⟩
  · unfold park
    split <;> rfl
  · have h := @mem_waiting_park p .write .write waker other
    simpa [waiting] using h

/-- While there are stamps enough to tell the polled writes apart, a write on record is in the pipe and
unfinished or has been read whole, polls say which, and none says so twice. -/
theorem Run.outstanding_sound {settings : Settings} {deeds : List Deed} {l : Link}
    (run : Run (.opened settings) deeds l) (h : (stamps (effects deeds)).length ≤ 2 ^ 64) :
    (∀ write, l.channel.outstanding = some write →
      Xor (write.Waits l.channel.pipe) (write.Delivered l.channel.pipe (effects deeds)) ∧
      (∀ waker count, (l.channel.pollWrite write.slice waker).value = .ready (.ok count) ↔
        count = write.slice.bytes.length ∧ write.Delivered l.channel.pipe (effects deeds)) ∧
      (∀ waker, (l.channel.pollFlush waker).value = .ready (.ok ()) ↔
        write.Delivered l.channel.pipe (effects deeds)) ∧
      (write.Waits l.channel.pipe → l.channel.pipe.closed = false → ∀ waker, ∃ wakers,
        l.channel.pollWrite write.slice waker = .quiet .pending
          { l.channel with pipe := { l.channel.pipe with waitingWriters := wakers } } ∧
        ∀ other, other ∈ wakers ↔ other ∈ l.channel.pipe.waitingWriters ∨ other = waker)) ∧
    deeds.Pairwise fun d e => ∀ write result other later, d.Reports write result →
      e.Reports other later → write.stamp ≠ other.stamp := by
  have hn := run.stamps_nodup h
  refine ⟨fun write hw => ?_, run.reports_pairwise hn⟩
  have hcarries : write.Waits l.channel.pipe → l.channel.pipe.carries write.stamp = true := by
    rintro ⟨b, hb, ho, -⟩
    exact Pipe.carries_of_parcel hb ho
  have hcases := run.waits_or_delivered hn hw
  have hdelivered : write.Delivered l.channel.pipe (effects deeds) ↔
      l.channel.pipe.carries write.stamp = false := by
    constructor
    · exact fun hd => Pipe.carries_eq_false_iff.mpr hd.gone
    · intro hc
      rcases hcases with ⟨ht, -⟩ | ⟨-, hd⟩
      · cases hc.symm.trans ht
      · exact hd
  refine ⟨?_, fun waker count => ?_, fun waker => ?_, fun hwait hc waker => ?_⟩
  · rcases hcases with ⟨ht, hwait⟩ | ⟨hf, hd⟩
    · exact .inl ⟨hwait, fun hd => by cases ht.symm.trans (hdelivered.mp hd)⟩
    · exact .inr ⟨hd, fun hwait => by cases hf.symm.trans (hcarries hwait)⟩
  · rw [Channel.pollWrite_of_outstanding hw, Channel.watch_ready_ok_iff, hdelivered]
  · rw [Channel.pollFlush_ready_ok_iff hw, hdelivered]
  · obtain ⟨wakers, hp, hmem⟩ := l.channel.pipe.park_write waker
    refine ⟨wakers, ?_, hmem⟩
    rw [Channel.pollWrite_of_outstanding hw, Channel.watch_of_carried ⟨hw, hcarries hwait, hc⟩, hp]

theorem copy_behind_send_outstanding :
    ∃ deeds l, Run (.opened {}) deeds l ∧ (stamps (effects deeds)).length ≤ 2 ^ 64 ∧
      l.channel.outstanding = some ⟨0, ⟨"data", 0, [1, 2, 3]⟩⟩ ∧
      l.channel.pipe.parcel = some (.fresh (.lent 3) [9]) ∧
      Outstanding.Delivered ⟨0, ⟨"data", 0, [1, 2, 3]⟩⟩ l.channel.pipe (effects deeds) := by
  have run := @run_of_play (.opened {}) _
    [.spawn ⟨1, "writer", .write, .share, 0, [.prompt (.pollWrite ⟨"data", 0, [1, 2, 3]⟩ .silent)]⟩,
      .turn 1,
      .spawn ⟨2, "reader", .read, .share, 0, [.receive 2, .receive 2]⟩, .turn 2, .turn 2,
      .spawn ⟨3, "sender", .write, .share, 0, [.send [9] false]⟩, .turn 3] _ rfl
  obtain ⟨-, -, hflush, -⟩ := (run.outstanding_sound (by decide)).1 _ rfl
  exact ⟨_, _, run, by decide, rfl, rfl, (hflush .silent).mp rfl⟩

end Handoff
