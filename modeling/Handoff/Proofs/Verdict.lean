import Handoff.Proofs.Judged
import Handoff.Proofs.Receipt

/-!
How writes end. What a write is told of its bytes agrees with what readers got of them, whichever way
its count was kept and whenever the pipe was closed.
-/

namespace Handoff

theorem Link.answered_of_turn {l : Link} {id : Nat} {s : Step Link (Option Event)}
    (h : l.move (.turn id) = some s) {event : Event} (hv : s.value = some event)
    {call : (half : Half) × Call half} (hc : l.call? id = some call) :
    ∃ r, call.2.advance id l.channel = some r ∧ r.value = .answered event.answer ∧
      r.effects = s.effects ∧ r.state = s.state.channel := by
  obtain ⟨r, hr, he, hst, ha⟩ := called_of_turn h hc
  refine ⟨r, hr, ?_, he.symm, hst.symm⟩
  rw [hv] at ha
  cases hx : r.value with
  | onward => simp [hx, Progress.answer?] at ha
  | answered answer =>
    rw [hx] at ha
    rw [Option.some.inj ha]

theorem Link.lending_of_call? {l : Link} {id : Nat} {call : (half : Half) × Call half}
    (h : l.call? id = some call) : ∃ t ∈ l.tasks, t.id = id ∧ t.lending = call.2.lending := by
  obtain ⟨t, ht, hc⟩ := Option.bind_eq_some_iff.mp h
  obtain ⟨hm, hi⟩ := mem_of_task? ht
  refine ⟨t, hm, hi, ?_⟩
  obtain ⟨first, hf, rfl⟩ := Option.map_eq_some_iff.mp hc
  rw [Task.lending, hf]
  rfl

/-- The write that its writer awaits is in the pipe, and then it is the latest, or has been read whole. -/
theorem Accounts.awaited {newer older : List Delivery} {d : Delivery} {p : Pipe}
    (h : Accounts (newer ++ d :: older) p) {write : Outstanding} (hd : d.Awaited write)
    (hn : ∀ e ∈ newer, ∃ owner, e.origin = .lent owner) :
    p.carries write.stamp = false ∧ d.Complete ∨
      p.carries write.stamp = true ∧ newer = [] ∧ ∃ b, p.parcel = some b ∧ d.Holds b := by
  -- Nobody has taken it back or out, so what has left the pipe is complete.
  have left : d.Complete ∨ d.Recalled → d.Complete := by
    rintro (hc | ⟨hc, -⟩)
    · exact hc
    · simp [hd.standing] at hc
  cases newer with
  | cons e newer =>
    refine .inl ⟨?_, left (h.older d (by simp))⟩
    cases hcar : p.carries write.stamp with
    | false => rfl
    | true =>
      obtain ⟨b, hb, ho⟩ := Pipe.parcel_of_carries hcar
      obtain ⟨f, hf, hold⟩ := h.held b hb
      obtain rfl : e = f := Option.some.inj hf
      obtain ⟨owner, he⟩ := hn e List.mem_cons_self
      cases he.symm.trans (hold.origin.trans ho)
  | nil =>
    cases hb : p.parcel with
    | some b =>
      obtain ⟨f, hf, hold⟩ := h.held b hb
      obtain rfl : d = f := Option.some.inj hf
      have ho : b.origin = .copied write.stamp := hold.origin.symm.trans hd.origin
      exact .inr ⟨Pipe.carries_of_parcel hb ho, rfl, b, rfl, hold⟩
    | none =>
      refine .inl ⟨by simp [Pipe.carries, hb], ?_⟩
      rcases h.latest hb d rfl with hc | hc | ⟨-, -, hv, -⟩
      · exact hc
      · exact left (.inr hc)
      · simp [hd.present] at hv

namespace Run

variable {settings : Settings} {deeds : List Deed} {l : Link}

theorem judged_of_underway {earlier during : List Deed} (run : Run (.opened settings) (earlier ++ during) l)
    {id : Nat} {s : Step Link (Option Event)} (hs : l.move (.turn id) = some s) {event : Event}
    (hv : s.value = some event) {call : (half : Half) × Call half} (hc : l.call? id = some call)
    {bytes : Bytes} (hd : call.2.data? = some bytes)
    (hp : (placed (effects during)).filter (·.1 = .lent id) =
      (call.2.lending.map (Prod.mk (.lent id))).toList) :
    ∃ result, call.2.Yields id l.channel result ∧ call.2.Tells result event.answer ∧
      Judged l.channel.pipe s.state.channel.pipe (.lent id) bytes (effects during) result := by
  have hl : l.Reachable := ⟨settings, _, run⟩
  obtain ⟨r, hr, hx, -, hst⟩ := Link.answered_of_turn hs hv hc
  obtain ⟨t, ht, rfl, htl⟩ := Link.lending_of_call? hc
  obtain ⟨result, hyields, htells, hcase⟩ := Call.tells_of_blocking hr hx hd
  refine ⟨result, hyields, htells, ?_⟩
  rw [← hst]
  rcases hcase with ⟨hnone, hcl, rfl, hsame⟩ | ⟨hlent, left, hleft, rfl, hsame⟩
  · rw [hnone] at hp htl
    refine .of_unplaced hp hcl ?_
    intro b hb ho
    rw [hsame] at hb
    obtain ⟨u, hum, hui, hul⟩ := hl.lender_of_origin hb ho
    obtain rfl := hl.orderly.unique hum ht hui
    simp [htl] at hul
  · rw [hlent] at hp htl
    obtain ⟨b, hb, ho, hbytes⟩ := hl.parcel_of_lending ht htl
    obtain ⟨newer, d, older, hled, hn, hdo, rfl, hpieces⟩ := served_of_placed hp
    obtain ⟨rest, hfold⟩ := exists_foldl_record (ledger (effects earlier)) (effects during)
    have hacc := run.accounts
    rw [effects_append, ledger_append, hfold, hled] at hacc
    -- The parcel in the pipe is the latest write of all, and it is the one that the call has put up.
    have hold : d.Holds b := by
      obtain ⟨e, he, hold⟩ := hacc.held b hb
      cases newer with
      | nil =>
        obtain rfl : d = e := Option.some.inj he
        exact hold
      | cons first newer =>
        obtain rfl : first = e := Option.some.inj he
        exact absurd (hold.origin.trans ho) (hn first List.mem_cons_self)
    have hpassed : l.channel.pipe.vacate.value = b.passed := by simp [Pipe.vacate, hb]
    have hfin : l.channel.pipe.consumed = b.finished := by simp [Pipe.consumed, hb]
    have hsound := hl.sound.parcel b hb
    obtain ⟨hgone, hval⟩ := Pipe.leave_value hleft
    rw [hfin, hpassed] at hval
    have hmem : (.lent t.id, d.bytes) ∈ placed (effects during) := by
      apply List.mem_of_mem_filter
      rw [hp]
      exact List.mem_singleton_self _
    have hnone : ∀ c, r.state.pipe.parcel = some c → c.origin ≠ .lent t.id := by
      intro c hc
      simp [hsame, hgone, Pipe.vacate, Pipe.announce] at hc
    rcases hval with ⟨hf, hval⟩ | ⟨hf, hcl, hval⟩
    · rw [hval, hsound.passed_of_finished hf, ← hold.bytes]
      exact .of_complete hmem hpieces (hold.complete hf) hnone
    · rw [hval]
      exact .of_short hmem hpieces hold hsound hf hcl hnone

theorem judged_of_blocking (run : Run (.opened settings) deeds l) {id : Nat}
    {s : Step Link (Option Event)} (hs : l.move (.turn id) = some s) {event : Event}
    (hv : s.value = some event) {call : (half : Half) × Call half} (hc : l.call? id = some call)
    {bytes : Bytes} (hd : call.2.data? = some bytes) :
    ∃ earlier during result, deeds = earlier ++ during ∧ Underway settings earlier during id bytes ∧
      call.2.Yields id l.channel result ∧ call.2.Tells result event.answer ∧
      Judged l.channel.pipe s.state.channel.pipe (.lent id) bytes (effects during) result := by
  obtain ⟨earlier, during, rfl, hu, hp⟩ := run.underway hc hd
  obtain ⟨result, hyields, htells, hj⟩ := run.judged_of_underway hs hv hc hd hp
  exact ⟨earlier, during, result, rfl, hu, hyields, htells, hj⟩

/-- The write on record is in the pipe, as far as readers have got with it, or has been read whole. -/
theorem tracked (run : Run (.opened settings) deeds l) {write : Outstanding}
    (hw : l.channel.outstanding = some write) :
    ∃ (earlier since : List Deed) (d : Delivery), deeds = earlier ++ since ∧ Staged since write ∧
      (.copied write.stamp, d.bytes) ∈ placed (effects since) ∧ d.bytes = write.slice.bytes ∧
      served (.copied write.stamp) (effects since) = d.pieces ∧
      (l.channel.pipe.carries write.stamp = false ∧ d.Complete ∨
        l.channel.pipe.carries write.stamp = true ∧
          ∃ b, l.channel.pipe.parcel = some b ∧ d.Holds b) := by
  obtain ⟨earlier, since, rfl, hst⟩ := run.staged hw
  obtain ⟨later, hoffers, hlent⟩ := hst.offers
  obtain ⟨newer, d, older, hled, hn, hdo, hdb, hpieces⟩ := served_of_placed hst.placed_once
  obtain ⟨rest, hfold⟩ := exists_foldl_record (ledger (effects earlier)) (effects since)
  have hacc := run.accounts
  have hrec := run.recorded write hw
  rw [effects_append, ledger_append, hfold, hled, List.append_assoc, List.cons_append] at hacc hrec
  have hnewer : ∀ e ∈ newer, ∃ owner, e.origin = .lent owner := by
    intro e he
    have hm : e.offer ∈ placed (effects since) := by
      rw [← offer_ledger, hled]
      exact List.mem_map_of_mem (by simp [he])
    rw [hoffers] at hm
    rcases List.mem_cons.mp hm with hm | hm
    · exact absurd (congrArg Prod.fst hm) (hn e he)
    · exact hlent _ hm
  have haw := hrec.awaited hnewer hdo
  have hmem : (.copied write.stamp, d.bytes) ∈ placed (effects since) := by
    rw [hoffers, hdb]
    exact List.mem_cons_self
  refine ⟨earlier, since, d, rfl, hst, hmem, hdb, hpieces, ?_⟩
  exact (hacc.awaited haw hnewer).imp_right fun ⟨hcar, _, hb⟩ => ⟨hcar, hb⟩

theorem judged_of_watch (run : Run (.opened settings) deeds l) {write : Outstanding}
    (hw : l.channel.outstanding = some write) {waker : Waker} {result : Except ShortWrite Nat}
    (h : (l.channel.watch write waker).value = .ready result) :
    ∃ earlier since, deeds = earlier ++ since ∧ Staged since write ∧
      Judged l.channel.pipe (l.channel.watch write waker).state.pipe (.copied write.stamp)
        write.slice.bytes (effects since) result := by
  obtain ⟨earlier, since, d, rfl, hst, hmem, hbytes, hserved, hcase⟩ := run.tracked hw
  refine ⟨earlier, since, rfl, hst, ?_⟩
  rw [← hbytes]
  unfold Channel.watch at h ⊢
  rcases hcase with ⟨hcar, hd⟩ | ⟨hcar, b, hb, hold⟩
  · rw [hcar] at h
    obtain rfl : .ok write.slice.bytes.length = result := Poll.ready.inj h
    rw [hcar]
    rw [← hbytes]
    refine .of_complete hmem hserved hd ?_
    intro c hc ho
    have hp : l.channel.pipe.parcel = some c := hc
    cases hcar.symm.trans (Pipe.carries_of_parcel hp ho)
  · rw [hcar] at h
    cases hcl : l.channel.pipe.closed with
    | false => simp [hcl] at h
    | true =>
      rw [hcl] at h
      have hpassed : l.channel.pipe.vacate.value = b.passed := by simp [Pipe.vacate, hb]
      obtain rfl : .error ⟨l.channel.pipe.vacate.value, l.channel.pipe.reason .write⟩ = result :=
        Poll.ready.inj h
      have hl : Link.Reachable l := ⟨settings, _, run⟩
      have hsound := hl.sound.parcel b hb
      have hf : b.finished = false := by
        obtain ⟨c, hc, ho⟩ := Pipe.parcel_of_carries hcar
        obtain rfl : b = c := Option.some.inj (hb.symm.trans hc)
        exact hsound.unfinished_of_copied ho
      rw [hcar, hpassed]
      refine .of_short hmem hserved hold hsound hf hcl ?_
      intro c hc
      simp [Channel.lift, Pipe.vacate, Pipe.announce] at hc

end Run

/-- A write that ends has been put up since its call began, or else the pipe was closed before it was,
and either way it is told what readers got of it. -/
theorem Run.writes_judged {settings : Settings} {deeds : List Deed} {l : Link}
    (run : Run (.opened settings) deeds l) {id : Nat} {s : Step Link (Option Event)}
    (hs : l.move (.turn id) = some s) {event : Event} (hv : s.value = some event)
    {call : (half : Half) × Call half} (hc : l.call? id = some call) :
    (∀ bytes, call.2.data? = some bytes →
      ∃ earlier during result, deeds = earlier ++ during ∧
        Underway settings earlier during id bytes ∧ call.2.Yields id l.channel result ∧
        call.2.Tells result event.answer ∧
        Judged l.channel.pipe s.state.channel.pipe (.lent id) bytes (effects during) result) ∧
    ∀ slice, call.2.slice? = some slice → event.answer ≠ .polled .pending →
      ∃ result, call.2.Yields id l.channel result ∧ call.2.Tells result event.answer ∧
        ((∃ write earlier since, l.channel.outstanding = some write ∧ write.slice = slice ∧
            deeds = earlier ++ since ∧ Staged since write ∧
            Judged l.channel.pipe s.state.channel.pipe (.copied write.stamp) slice.bytes
              (effects since) result) ∨
          (∀ write, l.channel.outstanding = some write → write.slice ≠ slice) ∧
            l.channel.pipe.closed = true ∧ result = .error ⟨0, l.channel.pipe.reason .write⟩ ∧
            placed s.effects = [] ∧ handed s.effects = []) := by
  refine ⟨fun bytes hd => run.judged_of_blocking hs hv hc hd, ?_⟩
  intro slice hsl hp
  obtain ⟨r, hr, hx, he, hst⟩ := Link.answered_of_turn hs hv hc
  obtain ⟨waker, result, hyields, htells, hval, hstate, heff⟩ := Call.tells_of_poll hr hx hp hsl
  refine ⟨result, hyields, htells, ?_⟩
  by_cases hrep : ∃ write, l.channel.outstanding = some write ∧ write.slice = slice
  · obtain ⟨write, hw, rfl⟩ := hrep
    rw [Channel.pollWrite_of_outstanding hw] at hval hstate
    obtain ⟨earlier, since, hdeeds, hstaged, hj⟩ := run.judged_of_watch hw hval
    rw [← hst, hstate]
    exact .inl ⟨write, earlier, since, hw, rfl, hdeeds, hstaged, hj⟩
  · have hn : ∀ write, l.channel.outstanding = some write → write.slice ≠ slice :=
      fun write hw hslice => hrep ⟨write, hw, hslice⟩
    obtain ⟨hcl, hres, hpl, hh⟩ := Channel.pollWrite_ready_of_new hn hval
    rw [← he, heff]
    exact .inr ⟨hn, hcl, hres, hpl, hh⟩

/-- A write read in part when the reader closes, one not let in any more, one read whole, and a polled one
read in part, whose caller hears of the count alone. -/
theorem half_read_send_judged :
    (∃ deeds l s t event other, Run (.opened {}) deeds l ∧ l.channel.pipe.closed = true ∧
      l.move (.turn 1) = some s ∧ s.value = some event ∧
      event.answer = .reply (.shortWrite ⟨2, .closed⟩) ∧
      (∃ earlier during, deeds = earlier ++ during ∧
        Judged l.channel.pipe s.state.channel.pipe (.lent 1) [1, 2, 3] (effects during)
          (.error ⟨2, .closed⟩)) ∧
      l.move (.turn 2) = some t ∧ t.value = some other ∧
      other.answer = .reply (.failed (.carrying .brokenPipe (.reason .closed)))) ∧
    (∃ deeds l s event, Run (.opened {}) deeds l ∧ l.channel.pipe.closed = true ∧
      l.move (.turn 1) = some s ∧ s.value = some event ∧ event.answer = .reply (.count 3) ∧
      ∃ earlier during, deeds = earlier ++ during ∧
        Judged l.channel.pipe s.state.channel.pipe (.lent 1) [1, 2, 3] (effects during) (.ok 3)) ∧
    ∃ deeds l s event, Run (.opened {}) deeds l ∧ l.channel.pipe.closed = true ∧
      l.move (.turn 1) = some s ∧ s.value = some event ∧ event.answer = .polled (.ready (.count 2)) ∧
      (l.channel.pollWrite ⟨"data", 0, [1, 2, 3]⟩ .silent).value = .ready (.error ⟨2, .closed⟩) := by
  refine ⟨?_, ?_, ?_⟩
  · have run := @run_of_play (.opened {}) _
      [.spawn ⟨1, "writer", .write, .share, 0, [.send [1, 2, 3] false]⟩, .turn 1,
        .spawn ⟨2, "writer", .write, .share, 0, [.write [4] false]⟩,
        .spawn ⟨3, "reader", .read, .share, 0, [.receive 2, .prompt (.close none)]⟩, .turn 3, .turn 3]
      _ rfl
    obtain ⟨earlier, during, result, hd, -, hyields, htells, hj⟩ :=
      (@Run.writes_judged _ _ _ run 1 _ rfl _ rfl _ rfl).1 [1, 2, 3] rfl
    obtain rfl : result = .error ⟨2, .closed⟩ := hyields.unique (.left rfl rfl rfl)
    obtain ⟨-, -, barred, -, -, hbarred, hrefused, -⟩ :=
      (@Run.writes_judged _ _ _ run 2 _ rfl _ rfl _ rfl).1 [4] rfl
    obtain rfl : barred = .error ⟨0, .closed⟩ := hbarred.unique (.barred rfl rfl rfl rfl)
    exact ⟨_, _, _, _, _, _, run, rfl, rfl, rfl, htells.unique (.send _ _ (.short _)),
      ⟨earlier, during, hd, hj⟩, rfl, rfl, hrefused.unique (.write _ _ (.none _))⟩
  · have run := @run_of_play (.opened {}) _
      [.spawn ⟨1, "writer", .write, .share, 0, [.send [1, 2, 3] false]⟩, .turn 1,
        .spawn ⟨2, "reader", .read, .share, 0, [.receive 3, .prompt (.close none)]⟩, .turn 2, .turn 2]
      _ rfl
    obtain ⟨earlier, during, result, hd, -, hyields, htells, hj⟩ :=
      (@Run.writes_judged _ _ _ run 1 _ rfl _ rfl _ rfl).1 [1, 2, 3] rfl
    obtain rfl : result = .ok 3 := hyields.unique (.left rfl rfl rfl)
    exact ⟨_, _, _, _, run, rfl, rfl, rfl, htells.unique (.send _ _ (.whole _)), earlier, during, hd, hj⟩
  · have run := @run_of_play (.opened {}) _
      [.spawn ⟨1, "writer", .write, .share, 0, [.prompt (.pollWrite ⟨"data", 0, [1, 2, 3]⟩ .silent),
          .prompt (.pollWrite ⟨"data", 0, [1, 2, 3]⟩ .silent)]⟩, .turn 1,
        .spawn ⟨2, "reader", .read, .share, 0, [.receive 2, .prompt (.close none)]⟩, .turn 2, .turn 2]
      _ rfl
    obtain ⟨result, hyields, htells, -⟩ :=
      (@Run.writes_judged _ _ _ run 1 _ rfl _ rfl _ rfl).2 ⟨"data", 0, [1, 2, 3]⟩ rfl (by decide)
    obtain rfl : result = .error ⟨2, .closed⟩ := hyields.unique (.polled rfl)
    exact ⟨_, _, _, _, run, rfl, rfl, rfl, htells.unique (.poll _ _ (.part _ (by decide))), rfl⟩

end Handoff
