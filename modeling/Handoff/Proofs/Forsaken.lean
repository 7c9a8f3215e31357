import Handoff.Proofs.Cancelled

/-!
Copies without a record. A writer that gives up a polled write which readers have begun leaves the rest of it
in the pipe, and no flush or close of its own waits for that any more. This is the only way to leave one.
-/

namespace Handoff

/-- With this deed the writer polls with another slice while readers are at the write on record. -/
structure Deed.Forsakes (d : Deed) (write : Outstanding) : Prop where
  recorded : d.found.channel.outstanding = some write
  polled : ∃ (id : Nat) (slice : Slice) (waker : Waker), d.move = .turn id ∧
    d.found.call? id = some ⟨.write, .prompt (.pollWrite slice waker)⟩ ∧ write.slice ≠ slice
  begun : ∃ b, d.found.channel.pipe.parcel = some b ∧ b.origin = .copied write.stamp ∧ b.met = true

/-- The latest write was forsaken, and nothing has been put up since. -/
def Forsaken (deeds : List Deed) (stamp : UInt64) : Prop :=
  ∃ earlier d later write, deeds = earlier ++ d :: later ∧ d.Forsakes write ∧ write.stamp = stamp ∧
    placed (effects (d :: later)) = []

theorem Forsaken.next {deeds : List Deed} {stamp : UInt64} (h : Forsaken deeds stamp) {d : Deed}
    (hd : placed d.step.effects = []) : Forsaken (deeds ++ [d]) stamp := by
  obtain ⟨earlier, e, later, write, rfl, he, hs, hp⟩ := h
  refine ⟨earlier, e, later ++ [d], write, by simp, he, hs, ?_⟩
  rw [← List.cons_append, effects_concat, placed_append, hp, hd]
  rfl

namespace Channel

variable {c : Channel} {write : Outstanding}

theorem Change.origin {d : Channel} {es : List Effect} (h : c.Change es d) {b : Parcel}
    (hb : d.pipe.parcel = some b) :
    c.pipe.parcel = some b ∧ placed es = [] ∨ (b.origin, b.bytes) ∈ placed es := by
  cases h with
  | mode | conclude | forsake => exact .inl ⟨hb, rfl⟩
  | close half reason =>
    exact .inl ⟨(c.pipe.parcel_close half reason).symm.trans hb, c.pipe.placed_close half reason⟩
  | await | watch => exact .inl ⟨(Pipe.parcel_park ..).symm.trans hb, rfl⟩
  | fail | withdraw => cases hb
  | stage slice =>
    obtain rfl := Option.some.inj hb
    exact .inr (List.mem_cons_self)

theorem Changes.origin {d : Channel} {es : List Effect} (h : c.Changes es d) {b : Parcel}
    (hb : d.pipe.parcel = some b) :
    c.pipe.parcel = some b ∧ placed es = [] ∨ (b.origin, b.bytes) ∈ placed es := by
  induction h with
  | nil => exact .inl ⟨hb, rfl⟩
  | cons h _ ih =>
    rw [placed_append]
    rcases ih hb with ⟨hp, he⟩ | hp
    · rw [he, List.append_nil]
      exact h.origin hp
    · exact .inr (List.mem_append_right _ hp)

end Channel

theorem Section.origin {owner : Nat} {lent left : Option Bytes} {c d : Channel} {es : List Effect}
    (h : Section owner lent c es d left) {b : Parcel} (hb : d.pipe.parcel = some b) :
    (∃ a, c.pipe.parcel = some a ∧ a.origin = b.origin ∧ placed es = []) ∨
      (b.origin, b.bytes) ∈ placed es := by
  cases h with
  | @pull _ a room _ ha =>
    refine .inl ⟨a, (Pipe.available_eq_some ha).1, ?_, Pipe.placed_announce _⟩
    change (c.pipe.advance a room).parcel = some b at hb
    unfold Pipe.advance at hb
    split at hb
    · cases hb
    · obtain rfl := Option.some.inj hb
      rfl
  | enter bytes =>
    obtain rfl := Option.some.inj hb
    exact .inr (List.mem_cons_self)
  | leave => cases hb
  | other h =>
    refine (h.origin hb).imp_left ?_
    rintro ⟨hp, he⟩
    exact ⟨b, hp, rfl, he⟩

namespace Channel

variable {c : Channel} {write : Outstanding}

theorem outstanding_watch_of_carries (hc : c.pipe.carries write.stamp = true) {waker : Waker}
    (hp : (c.watch write waker).state.pipe.parcel ≠ none) :
    (c.watch write waker).state.outstanding = c.outstanding := by
  cases hcl : c.pipe.closed with
  | false =>
    rw [watch_of_waiting hc hcl]
    rfl
  | true =>
    rw [watch_of_cut hc hcl] at hp
    exact absurd rfl hp

theorem outstanding_pollWrite_of_carries (hw : c.outstanding = some write)
    (hc : c.pipe.carries write.stamp = true) {slice : Slice} {waker : Waker}
    (hp : (c.pollWrite slice waker).state.pipe.parcel ≠ none)
    (hn : placed (c.pollWrite slice waker).effects = []) :
    (c.pollWrite slice waker).state.outstanding = some write ∨
      write.slice ≠ slice ∧ c.pipe.unmet write.stamp = false := by
  by_cases hs : write.slice = slice
  · subst hs
    rw [pollWrite_of_outstanding hw] at hp ⊢
    exact .inl ((outstanding_watch_of_carries hc hp).trans hw)
  · cases hu : c.pipe.unmet write.stamp with
    | false => exact .inr ⟨hs, rfl⟩
    -- An unmet write would have been taken back, for the new one to take its place.
    | true =>
      cases hcl : c.pipe.closed with
      | false =>
        obtain ⟨-, -, hplaced⟩ := pollWrite_restages hw hs hu hcl waker
        cases hplaced.symm.trans hn
      | true =>
        rw [pollWrite_of_other hw hs, Step.state_after, cancel_of_unmet hu,
          start_of_closed (by exact hcl)] at hp
        exact absurd rfl hp

end Channel

theorem Link.outstanding_or_forsakes {l : Link} {m : Move} {s : Step Link (Option Event)}
    (h : l.move m = some s) {write : Outstanding} (hw : l.channel.outstanding = some write) {b : Parcel}
    (hb : l.channel.pipe.parcel = some b) (ho : b.origin = .copied write.stamp)
    (hp : s.state.channel.pipe.parcel ≠ none) (hn : placed s.effects = []) :
    s.state.channel.outstanding = some write ∨ Deed.Forsakes ⟨l, m, s⟩ write := by
  have hc := Pipe.carries_of_parcel hb ho
  by_cases hpolls : Deed.Polls .write ⟨l, m, s⟩
  · obtain ⟨id, ⟨half, call⟩, rfl, hcall, rfl, hpoll⟩ := hpolls
    obtain ⟨r, hr, he, hstate, -⟩ := called_of_turn h hcall
    rw [hstate] at hp ⊢
    rw [he] at hn
    cases call with
    | prompt p =>
      obtain rfl := Option.some.inj hr
      cases p with
      | pollWrite slice waker =>
        rcases Channel.outstanding_pollWrite_of_carries hw hc hp hn with hkept | ⟨hs, hu⟩
        · exact .inl hkept
        · have hm : b.met = true := by simpa [Pipe.unmet_of_parcel hb ho] using hu
          exact .inr ⟨hw, ⟨id, slice, waker, rfl, hcall, hs⟩, b, hb, ho, hm⟩
      | pollFlush waker =>
        rw [Step.state_map, Prompt.Watches.flush.state hw] at hp ⊢
        exact .inl ((Channel.outstanding_watch_of_carries hc hp).trans hw)
      | pollClose waker =>
        rw [Step.state_map, Prompt.Watches.close.state hw] at hp ⊢
        exact .inl ((Channel.outstanding_watch_of_carries hc hp).trans hw)
      | _ => cases hpoll
    | _ => cases hpoll
  · exact .inl ((outstanding_move h hpolls).trans hw)

namespace Run

variable {settings : Settings} {deeds : List Deed} {l : Link}

theorem outstanding_or_forsaken (run : Run (.opened settings) deeds l) {b : Parcel}
    (hb : l.channel.pipe.parcel = some b) {stamp : UInt64} (ho : b.origin = .copied stamp) :
    (∃ write, l.channel.outstanding = some write ∧ write.stamp = stamp) ∨ Forsaken deeds stamp := by
  induction run generalizing b with
  | start => cases hb
  | @next deeds m move s run h ih =>
    obtain ⟨_, _, _, hsec⟩ := Link.section_of_move h
    rcases hsec.origin hb with ⟨a, ha, hao, hn⟩ | hp
    · rcases ih ha (hao.trans ho) with ⟨write, hw, rfl⟩ | hf
      · rcases Link.outstanding_or_forsakes h hw ha (hao.trans ho) (by simp [hb]) hn with hkept | hd
        · exact .inl ⟨write, hkept, rfl⟩
        · refine .inr ⟨deeds, _, [], write, rfl, hd, rfl, ?_⟩
          rw [effects_cons, placed_append, hn]
          rfl
      · exact .inr (hf.next hn)
    · rw [ho] at hp
      obtain ⟨slice, -, hw, -⟩ := Link.copied_of_move h hp
      exact .inl ⟨_, hw, rfl⟩

theorem outstanding_eq_none {m : Link} {later : List Deed} (run : Run l later m)
    (h : l.channel.outstanding = none) (hn : placed (effects later) = []) :
    m.channel.outstanding = none := by
  induction run with
  | start => exact h
  | next run hm ih =>
    rw [effects_concat, placed_append, List.append_eq_nil_iff] at hn
    have hnone := ih hn.1
    by_contra hs
    obtain ⟨write, hw⟩ := Option.ne_none_iff_exists'.mp hs
    rcases Link.outstanding_cases hm hw with hw | hp
    · cases hnone.symm.trans hw
    · cases hn.2.symm.trans hp

theorem outstanding_of_forsaken (run : Run (.opened settings) deeds l) {stamp : UInt64}
    (h : Forsaken deeds stamp) : l.channel.outstanding = none := by
  obtain ⟨earlier, d, later, write, rfl, hd, -, hn⟩ := h
  rw [effects_cons, placed_append, List.append_eq_nil_iff] at hn
  obtain ⟨hr, hm, next⟩ := run.split_at
  refine next.outstanding_eq_none ?_ hn.2
  obtain ⟨hw, ⟨id, slice, waker, hturn, hcall, hs⟩, b, hb, -, hmet⟩ := hd
  have hsound : d.found.channel.pipe.Sound := Link.Reachable.sound ⟨settings, earlier, hr⟩
  rw [hturn] at hm
  obtain ⟨r, hadv, -, hstate, -⟩ := Link.called_of_turn hm hcall
  obtain rfl := Option.some.inj hadv
  rw [hstate]
  exact (Channel.pollWrite_of_met hsound hw hs (Pipe.unmet_eq_false hb fun _ => hmet) hb waker).2.1

theorem outstanding_of_flushed {m : Link} {later : List Deed} (run : Run l later m)
    (h : l.channel.outstanding = none) (hn : ∀ d ∈ later, ¬ d.Polls .write) :
    m.channel.outstanding = none := by
  induction run with
  | start => exact h
  | next run hm ih =>
    rw [Link.outstanding_move hm (hn _ (by simp))]
    exact ih fun d hd => hn d (by simp [hd])

/-- While a polled write is in the pipe a flush is ready only if that write was forsaken, and only a forsaken
one is still there when a polled close shuts the pipe. -/
theorem flush_misses_forsaken (run : Run (.opened settings) deeds l) :
    (∀ waker b stamp, l.channel.pipe.parcel = some b → b.origin = .copied stamp →
      ((l.channel.pollFlush waker).value = .ready (.ok ()) ↔ Forsaken deeds stamp)) ∧
    ∀ id waker s later m t, l.call? id = some ⟨.write, .prompt (.pollClose waker)⟩ →
      (l.channel.pollFlush waker).value = .ready (.ok ()) → l.move (.turn id) = some s →
      Run s.state later m → (∀ d ∈ later, ¬ d.Polls .write) →
      m.call? id = some ⟨.write, .prompt (.closeFlushed (.ok ()))⟩ → m.move (.turn id) = some t →
      ∀ b stamp, t.state.channel.pipe.parcel = some b → b.origin = .copied stamp →
        Forsaken (deeds ++ ⟨l, .turn id, s⟩ :: later) stamp := by
  have gone {write : Outstanding} {waker : Waker} (hw : l.channel.outstanding = some write)
      (hflush : (l.channel.pollFlush waker).value = .ready (.ok ())) :=
    Pipe.carries_eq_false_iff.mp ((Channel.pollFlush_ready_ok_iff hw).mp hflush)
  constructor
  · intro waker b stamp hb ho
    constructor
    · intro hflush
      rcases run.outstanding_or_forsaken hb ho with ⟨write, hw, rfl⟩ | hf
      · exact absurd ho (gone hw hflush b hb)
      · exact hf
    · intro hf
      rw [Channel.pollFlush_of_none (run.outstanding_of_forsaken hf)]
      rfl
  · intro id waker s later m t hcall hflush hs next hpolls hcall' ht b stamp hb ho
    obtain ⟨r, hr, -, hstate, -⟩ := Link.called_of_turn hs hcall
    obtain rfl := Option.some.inj hr
    have hnone : s.state.channel.outstanding = none := by
      rw [hstate]
      cases hw : l.channel.outstanding with
      | none =>
        change (l.channel.pollFlush waker).state.outstanding = none
        rw [Channel.pollFlush_of_none hw]
        exact hw
      | some write =>
        have hgone := (Channel.pollFlush_ready_ok_iff hw).mp hflush
        have hready : (l.channel.watch write waker).value = .ready (.ok write.slice.bytes.length) :=
          Channel.watch_ready_ok_iff.mpr ⟨rfl, hgone⟩
        rw [Step.state_map, Prompt.Watches.close.state hw]
        exact Channel.outstanding_watch_ready hready
    obtain ⟨r, hr, -, hstate', -⟩ := Link.called_of_turn ht hcall'
    obtain rfl := Option.some.inj hr
    have hparcel : m.channel.pipe.parcel = some b := by
      rw [hstate'] at hb
      exact (m.channel.pipe.parcel_close .write none).symm.trans hb
    rcases (run.trans (.cons hs next)).outstanding_or_forsaken hparcel ho with ⟨write, hw, -⟩ | hf
    · cases (next.outstanding_of_flushed hnone hpolls).symm.trans hw
    · exact hf

end Run

theorem half_read_copy_forsaken :
    ∃ deeds l, Run (.opened {}) deeds l ∧
      l.channel.pipe.parcel = some ⟨.copied 0, [1, 2, 3], 1, true⟩ ∧
      (l.channel.pollFlush .silent).value = .ready (.ok ()) ∧ Forsaken deeds 0 := by
  have run := @run_of_play (.opened {}) _
    [.spawn ⟨1, "writer", .write, .share, 0, [.prompt (.pollWrite ⟨"data", 0, [1, 2, 3]⟩ .silent),
        .prompt (.pollWrite ⟨"other", 0, [9]⟩ .silent)]⟩, .turn 1,
      .spawn ⟨2, "reader", .read, .share, 0, [.receive 1]⟩, .turn 2, .turn 1] _ rfl
  exact ⟨_, _, run, rfl, rfl, (run.flush_misses_forsaken.1 .silent _ 0 rfl rfl).mp rfl⟩

/-- A flush that is ready, and then a polled close, leave a copy in the pipe that readers had begun. -/
theorem half_read_copy_cut_by_close :
    ∃ deeds l s t b, Run (.opened {}) deeds l ∧ l.channel.pipe.parcel = some b ∧
      b.origin = .copied 0 ∧ b.met = true ∧ b.rest = [2, 3] ∧ b.finished = false ∧
      (l.channel.pollFlush .silent).value = .ready (.ok ()) ∧
      l.call? 1 = some ⟨.write, .prompt (.pollClose .silent)⟩ ∧ l.channel.pipe.closed = false ∧
      l.move (.turn 1) = some s ∧ s.state.move (.turn 1) = some t ∧
      t.value.map Event.answer = some (.polled (.ready .done)) ∧
      t.state.channel.pipe.closed = true ∧ t.state.channel.pipe.parcel = some b := by
  have run := @run_of_play (.opened {}) _
    [.spawn ⟨1, "writer", .write, .share, 0, [.prompt (.pollWrite ⟨"data", 0, [1, 2, 3]⟩ .silent),
        .prompt (.pollWrite ⟨"other", 0, [9]⟩ .silent), .prompt (.pollClose .silent)]⟩, .turn 1,
      .spawn ⟨2, "reader", .read, .share, 0, [.receive 1]⟩, .turn 2, .turn 1] _ rfl
  exact ⟨_, _, _, _, _, run, rfl, rfl, rfl, rfl, rfl, rfl, rfl, rfl, rfl, rfl, rfl, rfl, rfl⟩

end Handoff
