import Handoff.Proofs.Frozen
import Handoff.Reason.Message

/-!
Writes of the byte stream. Such a write may succeed with fewer bytes than it had and keep back why; whoever
writes next is told.
-/

namespace Handoff

/-- The bytes of a write whose call ends here, and the pieces that readers have got of them. A poll that was
refused has put nothing up. -/
inductive Share (settings : Settings) (deeds : List Deed) (l : Link) (id : Nat)
    (call : (half : Half) × Call half) : Bytes → List Bytes → Prop
  | lent {bytes : Bytes} {earlier during : List Deed} (hd : call.2.data? = some bytes)
      (he : deeds = earlier ++ during) (hu : Underway settings earlier during id bytes) :
      Share settings deeds l id call bytes (served (.lent id) (effects during))
  | copied {write : Outstanding} {earlier since : List Deed} (hs : call.2.slice? = some write.slice)
      (hw : l.channel.outstanding = some write) (he : deeds = earlier ++ since) (hst : Staged since write) :
      Share settings deeds l id call write.slice.bytes (served (.copied write.stamp) (effects since))
  | refused {slice : Slice} (hs : call.2.slice? = some slice)
      (hn : ∀ write, l.channel.outstanding = some write → write.slice ≠ slice) :
      Share settings deeds l id call slice.bytes []

/-- The write got this result, which is right for what readers have got of it. -/
structure Reckoned (deeds : List Deed) (p : Pipe) (bytes : Bytes) (pieces : List Bytes)
    (result : Except ShortWrite Nat) : Prop where
  verdict : result = p.verdict bytes pieces
  received : pieces.flatten <+: bytes
  failed : ∀ short, result = .error short →
    p.closed = true ∧ (short.written < bytes.length ∨ bytes = [] ∧ short.written = 0)
  listed : pieces = [] ∨ ∃ w ∈ ledger (effects deeds), w.bytes = bytes ∧ w.pieces = pieces

theorem Call.data?_of_lending {half : Half} {call : Call half} {bytes : Bytes}
    (h : call.lending = some bytes) : call.data? = some bytes := by
  unfold lending at h
  split at h
  · exact h
  · exact h
  · cases h

theorem mem_ledger_of_placed {origin : Origin} {bytes : Bytes} {earlier during : List Deed}
    (h : (placed (effects during)).filter (·.1 = origin) = [(origin, bytes)]) :
    ∃ w ∈ ledger (effects (earlier ++ during)), w.bytes = bytes ∧
      w.pieces = served origin (effects during) := by
  obtain ⟨newer, d, older, hled, -, -, hbytes, hpieces⟩ := served_of_placed h
  obtain ⟨rest, hfold⟩ := exists_foldl_record (ledger (effects earlier)) (effects during)
  refine ⟨d, ?_, hbytes, hpieces.symm⟩
  rw [effects_append, ledger_append, hfold, hled]
  simp

theorem Judged.reckoned {deeds : List Deed} {p q : Pipe} {origin : Origin} {bytes : Bytes} {es : List Effect}
    {result : Except ShortWrite Nat} (h : Judged p q origin bytes es result)
    (hl : served origin es = [] ∨
      ∃ w ∈ ledger (effects deeds), w.bytes = bytes ∧ w.pieces = served origin es) :
    Reckoned deeds p bytes (served origin es) result where
  verdict := h.verdict
  received := h.received
  failed := h.failed
  listed := hl

theorem Reckoned.refused {deeds : List Deed} {p : Pipe} (bytes : Bytes) (hc : p.closed = true) :
    Reckoned deeds p bytes [] (.error ⟨0, p.reason .write⟩) where
  verdict := by simp [Pipe.verdict]
  received := List.nil_prefix
  failed short hs := by
    obtain rfl := Except.error.inj hs
    refine ⟨hc, ?_⟩
    cases bytes with
    | nil => exact .inr ⟨rfl, rfl⟩
    | cons => exact .inl (Nat.succ_pos _)
  listed := .inl rfl

/-- Every write that ends is told what readers got of it, whichever kind of write it is. -/
theorem Run.reckoned {settings : Settings} {deeds : List Deed} {l : Link}
    (run : Run (.opened settings) deeds l) {id : Nat} {s : Step Link (Option Event)}
    (hs : l.move (.turn id) = some s) {event : Event} (hv : s.value = some event)
    (hp : event.answer ≠ .polled .pending) {call : (half : Half) × Call half} (hc : l.call? id = some call)
    {bytes : Bytes} (hb : call.2.bytes? = some bytes) :
    ∃ pieces result, Share settings deeds l id call bytes pieces ∧ call.2.Yields id l.channel result ∧
      call.2.Tells result event.answer ∧ Reckoned deeds l.channel.pipe bytes pieces result := by
  unfold Call.bytes? at hb
  cases hd : call.2.data? with
  | some data =>
    rw [hd] at hb
    obtain rfl := Option.some.inj hb
    obtain ⟨earlier, during, rfl, hu, hplaced⟩ := run.underway hc hd
    obtain ⟨result, hyields, htells, hj⟩ := run.judged_of_underway hs hv hc hd hplaced
    refine ⟨_, result, .lent hd rfl hu, hyields, htells, hj.reckoned ?_⟩
    cases hl : call.2.lending with
    | none =>
      rw [hl] at hplaced
      exact .inl (served_of_unplaced hplaced)
    | some lent =>
      obtain rfl : lent = data := Option.some.inj ((Call.data?_of_lending hl).symm.trans hd)
      rw [hl] at hplaced
      exact .inr (mem_ledger_of_placed hplaced)
  | none =>
    rw [hd, Option.none_or] at hb
    obtain ⟨slice, hslice, rfl⟩ := Option.map_eq_some_iff.mp hb
    obtain ⟨r, hr, hx, -, -⟩ := Link.answered_of_turn hs hv hc
    obtain ⟨waker, result, hyields, htells, hval, -, -⟩ := Call.tells_of_poll hr hx hp hslice
    by_cases hrep : ∃ write, l.channel.outstanding = some write ∧ write.slice = slice
    · obtain ⟨write, hw, rfl⟩ := hrep
      rw [Channel.pollWrite_of_outstanding hw] at hval
      obtain ⟨earlier, since, rfl, hst, hj⟩ := run.judged_of_watch hw hval
      exact ⟨_, result, .copied hslice hw rfl hst, hyields, htells,
        hj.reckoned (.inr (mem_ledger_of_placed hst.placed_once))⟩
    · have hn : ∀ write, l.channel.outstanding = some write → write.slice ≠ slice :=
        fun write hw hne => hrep ⟨write, hw, hne⟩
      obtain ⟨hcl, rfl, -, -⟩ := Channel.pollWrite_ready_of_new hn hval
      exact ⟨[], _, .refused hslice hn, hyields, htells, .refused slice.bytes hcl⟩

theorem Reckoned.whole_or_short {deeds : List Deed} {p : Pipe} {bytes : Bytes} {pieces : List Bytes}
    {result : Except ShortWrite Nat} (h : Reckoned deeds p bytes pieces result) :
    pieces ≠ [] ∧ pieces.flatten.length = bytes.length ∧ result = .ok bytes.length ∨
      p.closed = true ∧ result = .error ⟨pieces.flatten.length, p.reason .write⟩ ∧
        (pieces.flatten.length < bytes.length ∨ bytes = [] ∧ pieces = []) := by
  have hv := h.verdict
  unfold Pipe.verdict at hv
  split at hv
  · rename_i hw
    exact .inl ⟨hw.1, hw.2, hv⟩
  · rename_i hw
    obtain ⟨hc, hlen⟩ := h.failed _ hv
    refine .inr ⟨hc, hv, hlen.imp_right ?_⟩
    rintro ⟨rfl, hzero⟩
    exact ⟨rfl, by_contra fun hne => hw ⟨hne, hzero⟩⟩

theorem Reckoned.boundary {deeds : List Deed} {p : Pipe} {bytes : Bytes} {pieces : List Bytes}
    {result : Except ShortWrite Nat} (h : Reckoned deeds p bytes pieces result) :
    pieces ≠ [] ∧ pieces.flatten.length = bytes.length ∧
        Stream.ofWrite result = .ok pieces.flatten.length ∨
      p.closed = true ∧ 0 < pieces.flatten.length ∧ pieces.flatten.length < bytes.length ∧
        Stream.ofWrite result = .ok pieces.flatten.length ∨
      p.closed = true ∧ pieces.flatten = [] ∧ (bytes = [] → pieces = []) ∧
        Stream.ofWrite result = .error (p.reason .write).toFailure := by
  rcases h.whole_or_short with ⟨hne, hlen, rfl⟩ | ⟨hc, rfl, hlen⟩
  · exact .inl ⟨hne, hlen, congrArg Except.ok hlen.symm⟩
  · by_cases hz : pieces.flatten.length = 0
    · refine .inr (.inr ⟨hc, List.length_eq_zero_iff.mp hz, ?_, if_pos hz⟩)
      rintro rfl
      exact (hlen.resolve_left (Nat.not_lt_zero _)).2
    · have hlt : pieces.flatten.length < bytes.length := by
        refine hlen.resolve_right ?_
        rintro ⟨-, rfl⟩
        exact hz rfl
      exact .inr (.inl ⟨hc, Nat.pos_of_ne_zero hz, hlt, if_neg hz⟩)

inductive Call.Returns : {half : Half} → Call half → Bytes → Except Failure Nat → Answer → Prop
  | write (bytes : Bytes) (placed : Bool) (result : Except Failure Nat) :
    Returns (write bytes placed) bytes result (.reply (.ofWrite result))
  | poll (slice : Slice) (waker : Waker) (result : Except Failure Nat) :
    Returns (prompt (.pollWrite slice waker)) slice.bytes result (.polled (.ready (.ofWrite result)))

/-- A write of the byte stream with these bytes that puts up none before its next step. A poll for the slice
on record is none: it asks after a write that has begun. -/
inductive Call.Starts (c : Channel) : Call .write → Bytes → Prop
  | write (bytes : Bytes) : Starts c (write bytes false) bytes
  | poll (slice : Slice) (waker : Waker) (hn : ∀ write, c.outstanding = some write → write.slice ≠ slice) :
    Starts c (prompt (.pollWrite slice waker)) slice.bytes

theorem Reply.ofWrite_inj {result other : Except Failure Nat} (h : ofWrite result = ofWrite other) :
    result = other := by
  cases result <;> cases other <;> cases h <;> rfl

namespace Call

variable {half : Half} {call : Call half} {bytes : Bytes} {result : Except Failure Nat} {answer : Answer}

theorem Returns.data (h : call.Returns bytes result answer) :
    call.bytes? = some bytes := by
  cases h <;> rfl

theorem Returns.ready (h : call.Returns bytes result answer) : answer ≠ .polled .pending := by
  cases h <;> simp

theorem Returns.ofWrite (h : call.Returns bytes result answer) {short : Except ShortWrite Nat}
    (ht : call.Tells short answer) : result = Stream.ofWrite short := by
  cases h with
  | write =>
    cases ht with
    | write _ _ ht => exact Reply.ofWrite_inj ht.eq
  | poll =>
    cases ht with
    | poll _ _ ht => exact Reply.ofWrite_inj ht.eq

theorem Tells.returns {short : Except ShortWrite Nat} (h : call.Tells short answer)
    (hb : call.bytes? = some bytes) (hn : ∀ placed, Sigma.mk half call ≠ ⟨.write, .send bytes placed⟩) :
    call.Returns bytes (Stream.ofWrite short) answer := by
  cases h with
  | send data placed =>
    obtain rfl := Option.some.inj hb
    exact absurd rfl (hn placed)
  | write data placed h =>
    obtain rfl := Option.some.inj hb
    rw [h.eq]
    exact .write data placed _
  | poll slice waker h =>
    obtain rfl := Option.some.inj hb
    rw [h.eq]
    exact .poll slice waker _

theorem Starts.refused {next : Call .write} {c : Channel} (h : next.Starts c bytes)
    (hc : c.pipe.closed = true) (owner : Nat) :
    ∃ s answer, next.advance owner c = some s ∧ s.value = .answered answer ∧
      next.Returns bytes (.error (c.pipe.reason .write).toFailure) answer ∧
      placed s.effects = [] ∧ handed s.effects = [] := by
  cases h with
  | write =>
    exact ⟨_, _, @advance_of_refusal (.write bytes false) c hc _ rfl owner, rfl, .write bytes false _, rfl, rfl⟩
  | poll slice waker hn =>
    obtain ⟨short, hv⟩ := Channel.pollWrite_of_closed hc slice waker
    obtain ⟨-, rfl, hp, hh⟩ := Channel.pollWrite_ready_of_new hn hv
    obtain ⟨s, hs, ha, he⟩ := advance_of_pollWrite hv owner
    rw [← he] at hp hh
    exact ⟨s, _, hs, ha, .poll slice waker _, hp, hh⟩

end Call

/-- Every write that ends is a `send`, or else returns a result to its caller. -/
theorem Run.returns {settings : Settings} {deeds : List Deed} {l : Link}
    (run : Run (.opened settings) deeds l) {id : Nat} {s : Step Link (Option Event)}
    (hs : l.move (.turn id) = some s) {event : Event} (hv : s.value = some event)
    (hp : event.answer ≠ .polled .pending) {call : (half : Half) × Call half} (hc : l.call? id = some call)
    {bytes : Bytes} (hb : call.2.bytes? = some bytes) (hn : ∀ placed, call ≠ ⟨.write, .send bytes placed⟩) :
    ∃ result, call.2.Returns bytes result event.answer := by
  obtain ⟨_, short, -, -, htells, -⟩ := run.reckoned hs hv hp hc hb
  exact ⟨_, htells.returns hb hn⟩

/-- A write of the byte stream succeeds with what readers got of it if that is all or at least some of it, and
otherwise fails with the reason. The reason that a short success keeps back is told to every write that starts
from then on. -/
theorem Run.short_write_defers_reason {settings : Settings} {deeds : List Deed} {l : Link}
    (run : Run (.opened settings) deeds l) {id : Nat} {s : Step Link (Option Event)}
    (hs : l.move (.turn id) = some s) {event : Event} (hv : s.value = some event)
    {call : (half : Half) × Call half} (hc : l.call? id = some call) {bytes : Bytes}
    {result : Except Failure Nat} (hr : call.2.Returns bytes result event.answer) :
    (∃ pieces, Share settings deeds l id call bytes pieces ∧ pieces.flatten <+: bytes ∧
      (pieces ≠ [] ∧ pieces.flatten.length = bytes.length ∧ result = .ok pieces.flatten.length ∨
        l.channel.pipe.closed = true ∧ 0 < pieces.flatten.length ∧
          pieces.flatten.length < bytes.length ∧ result = .ok pieces.flatten.length ∨
        l.channel.pipe.closed = true ∧ pieces.flatten = [] ∧ (bytes = [] → pieces = []) ∧
          result = .error (l.channel.pipe.reason .write).toFailure)) ∧
    (result = .ok 0 → bytes = []) ∧
    ∀ count, result = .ok count → count < bytes.length → ∀ later m, Run s.state later m →
      m.channel.pipe.closed = true ∧ placed (effects later) = [] ∧ handed (effects later) = [] ∧
      ∀ owner (next : Call .write) data, next.Starts m.channel data →
        ∃ q answer failure, next.advance owner m.channel = some q ∧ q.value = .answered answer ∧
          next.Returns data (.error failure) answer ∧
          failure.kind = (m.channel.pipe.reason .write).kind ∧
          failure.message = (m.channel.pipe.reason .write).message ∧
          placed q.effects = [] ∧ handed q.effects = [] := by
  obtain ⟨pieces, short, hshare, -, htells, hreck⟩ := run.reckoned hs hv hr.ready hc hr.data
  obtain rfl := hr.ofWrite htells
  have hcases := hreck.boundary
  refine ⟨⟨pieces, hshare, hreck.received, hcases⟩, ?_, ?_⟩
  · intro hzero
    rw [hzero] at hcases
    rcases hcases with ⟨-, hlen, hok⟩ | ⟨-, hpos, -, hok⟩ | ⟨-, -, -, hok⟩
    · rw [← Except.ok.inj hok] at hlen
      exact List.length_eq_zero_iff.mp hlen.symm
    · rw [← Except.ok.inj hok] at hpos
      exact absurd hpos (Nat.lt_irrefl 0)
    · cases hok
  · intro count hcount hlt later m next
    have hcl : l.channel.pipe.closed = true := by
      rw [hcount] at hcases
      rcases hcases with ⟨-, hlen, hok⟩ | ⟨hcl, -⟩ | ⟨hcl, -⟩
      · rw [Except.ok.inj hok, hlen] at hlt
        exact absurd hlt (Nat.lt_irrefl _)
      · exact hcl
      · exact hcl
    obtain ⟨_, _, _, hsec⟩ := Link.section_of_move hs
    have hf := next.frozen (hsec.frozen hcl).closed
    refine ⟨hf.closed, hf.placed, hf.handed, ?_⟩
    intro owner write data hstart
    obtain ⟨q, answer, hq, ha, hret, hp, hh⟩ := hstart.refused hf.closed owner
    exact ⟨q, answer, _, hq, ha, hret, Reason.kind_toFailure _, Reason.message_toFailure _, hp, hh⟩

theorem half_read_write_defers_reason :
    ∃ deeds l s, Run (.opened {}) deeds l ∧ l.move (.turn 1) = some s ∧
      s.value = some ⟨"writer", 0, .reply (.count 2)⟩ ∧
      l.call? 1 = some ⟨.write, .write [1, 2, 3] true⟩ ∧
      (Call.write [1, 2, 3] true).Returns [1, 2, 3] (.ok 2) (.reply (.count 2)) ∧
      ∃ q answer failure, (Call.write [4] false).advance 1 s.state.channel = some q ∧
        q.value = .answered answer ∧ (Call.write [4] false).Returns [4] (.error failure) answer ∧
        failure.kind = .brokenPipe := by
  have run := @run_of_play (.opened {}) _
    [.spawn ⟨1, "writer", .write, .share, 0, [.write [1, 2, 3] false, .write [4] false]⟩, .turn 1,
      .spawn ⟨2, "reader", .read, .share, 0, [.receive 2, .prompt (.close none)]⟩, .turn 2, .turn 2]
    _ rfl
  obtain ⟨-, -, hlater⟩ := @Run.short_write_defers_reason _ _ _ run 1 _ rfl _ rfl _ rfl _ (.ok 2)
    (.write [1, 2, 3] true (.ok 2))
  obtain ⟨-, -, -, hnext⟩ := hlater 2 rfl (by decide) [] _ .start
  obtain ⟨q, answer, failure, hq, ha, hr, hk, -⟩ := hnext 1 (.write [4] false) [4] (.write [4])
  exact ⟨_, _, _, run, rfl, rfl, rfl, .write [1, 2, 3] true (.ok 2), q, answer, failure, hq, ha, hr, hk⟩

end Handoff
