import Handoff.Proofs.Verdict

/-!
Closed for good. Nothing goes through a closed pipe, whatever has been left in it, and every call on it
is told at once how it has ended.
-/

namespace Handoff

/-- Nothing is handed out or put up any more. What is in the pipe stays as it is or is taken out. -/
structure Frozen (p : Pipe) (es : List Effect) (q : Pipe) : Prop where
  closed : q.closed = true
  handed : Handoff.handed es = []
  placed : Handoff.placed es = []
  parcel : q.parcel = p.parcel ∨ q.parcel = none

namespace Frozen

theorem refl {p : Pipe} (h : p.closed = true) : Frozen p [] p :=
  ⟨h, rfl, rfl, .inl rfl⟩

theorem trans {p q r : Pipe} {es fs : List Effect} (h : Frozen p es q) (t : Frozen q fs r) :
    Frozen p (es ++ fs) r where
  closed := t.closed
  handed := by rw [handed_append, h.handed, t.handed, List.append_nil]
  placed := by rw [placed_append, h.placed, t.placed, List.append_nil]
  parcel := by
    rcases t.parcel with ht | ht
    · rw [ht]
      exact h.parcel
    · exact .inr ht

theorem vacate {p : Pipe} (h : p.closed = true) : Frozen p p.vacate.effects p.vacate.state where
  closed := h
  handed := p.handed_vacate
  placed := Pipe.placed_announce _
  parcel := .inr rfl

end Frozen

theorem placed_of_consumed {log : List Effect}
    (h : ∀ e ∈ log, ∃ count, e = .logged (.consumed count)) :
    placed log = [] := by
  rw [placed, List.filterMap_eq_nil_iff]
  intro e he
  obtain ⟨count, rfl⟩ := h e he
  rfl

theorem Pipe.placed_close (p : Pipe) (half : Half) (reason : Option Reason) :
    placed (p.close half reason).effects = [] := by
  rw [effects_close, placed_append, placed_announce]
  split <;> rfl

theorem Channel.Change.frozen {c d : Channel} {es : List Effect} (h : c.Change es d)
    (hc : c.pipe.closed = true) : Frozen c.pipe es d.pipe := by
  cases h with
  | mode => exact .refl hc
  | conclude | forsake => exact ⟨hc, rfl, rfl, .inl rfl⟩
  | close half reason =>
    exact ⟨rfl, (Channel.Change.close c half reason).handed_eq, c.pipe.placed_close half reason,
      .inl (c.pipe.parcel_close half reason)⟩
  | await | watch => exact ⟨by simpa using hc, rfl, rfl, .inl (Pipe.parcel_park ..)⟩
  | fail => exact .vacate hc
  | withdraw =>
    have hv := Frozen.vacate hc
    exact ⟨hv.closed, hv.handed, hv.placed, hv.parcel⟩
  | stage slice _ ho => simp [hc] at ho

theorem Channel.Changes.frozen {c d : Channel} {es : List Effect} (h : c.Changes es d)
    (hc : c.pipe.closed = true) : Frozen c.pipe es d.pipe := by
  induction h with
  | nil => exact .refl hc
  | cons h _ ih => exact (h.frozen hc).trans (ih (h.frozen hc).closed)

theorem Section.frozen {owner : Nat} {lent left : Option Bytes} {c d : Channel} {es : List Effect}
    (h : Section owner lent c es d left) (hc : c.pipe.closed = true) : Frozen c.pipe es d.pipe := by
  cases h with
  | pull room ho => simp [hc] at ho
  | enter bytes ho => simp [hc] at ho
  | leave bytes _ he =>
    exact (Frozen.vacate hc).trans ⟨hc, handed_of_consumed he, placed_of_consumed he, .inl rfl⟩
  | other h => exact h.frozen hc

theorem Run.frozen {l m : Link} {deeds : List Deed} (run : Run l deeds m)
    (hc : l.channel.pipe.closed = true) : Frozen l.channel.pipe (effects deeds) m.channel.pipe := by
  induction run with
  | start => exact .refl hc
  | next _ h ih =>
    obtain ⟨_, _, _, hsec⟩ := Link.section_of_move h
    rw [effects_concat]
    exact ih.trans (hsec.frozen ih.closed)

def Reason.ending : Reason → Reply
  | endOfStream => .bytes []
  | reason => .failed reason.toFailure

def Reason.failure? : Reason → Option Failure
  | endOfStream => none
  | reason => some reason.toFailure

/-- What a read is told once the pipe has been closed for this reason. -/
def Call.ending? (reason : Reason) : Call .read → Option Answer
  | receive _ | prompt (.tryReceive _) => some (.reply (.refused reason))
  | read _ => some (.reply reason.ending)
  | drain _ chunks => some (.reply (.drained chunks.reverse reason.failure?))
  | prompt (.pollRead _ _) => some (.polled (.ready reason.ending))
  | _ => none

/-- What a blocking write that has put nothing up is told once the pipe has been closed for this reason. -/
def Call.refusal? (reason : Reason) : Call .write → Option Answer
  | send _ false => some (.reply (.shortWrite ⟨0, reason⟩))
  | write _ false => some (.reply (.failed reason.toFailure))
  | _ => none

/-- Callers are told at once why: readers are given the reason of the pipe for reads, and writers that for
writes. A polled close that has flushed in vain tells of it once it has closed, whatever happens meanwhile. -/
structure Channel.TellsWhy (c : Channel) : Prop where
  reads : ∀ owner (call : Call .read) answer, call.ending? (c.pipe.reason .read) = some answer →
    call.advance owner c = some (.quiet (.answered answer) c)
  starts : ∀ owner (call : Call .write) answer, call.refusal? (c.pipe.reason .write) = some answer →
    call.advance owner c = some (.quiet (.answered answer) c)
  polls : ∀ owner slice waker, (∀ write, c.outstanding = some write → write.slice ≠ slice) →
    (c.pollWrite slice waker).value = .ready (.error ⟨0, c.pipe.reason .write⟩) ∧
    ∃ s, (Call.prompt (.pollWrite slice waker)).advance owner c = some s ∧
      s.value = .answered (.polled (.ready (.failed (c.pipe.reason .write).toFailure)))
  ends : ∀ owner (call : Call .write) bytes, call.bytes? = some bytes →
    ∃ s answer result, call.advance owner c = some s ∧ s.value = .answered answer ∧
      call.Yields owner c result ∧ call.Tells result answer ∧
      (call.ReadWhole c ∧ (∃ count, result = .ok count) ∨
        ¬ call.ReadWhole c ∧ ∃ written, result = .error ⟨written, c.pipe.reason .write⟩)
  flushes : ∀ owner waker write, c.outstanding = some write → c.pipe.carries write.stamp = true →
    ∃ s, (Call.prompt (.pollFlush waker)).advance owner c = some s ∧
      s.value = .answered (.polled (.ready (.failed (c.pipe.reason .write).toFailure)))
  closes : ∀ owner waker write, c.outstanding = some write → c.pipe.carries write.stamp = true →
    ∃ s rest, (Call.prompt (.pollClose waker)).advance owner c = some s ∧ s.value = .onward rest ∧
      ∀ d, ∃ t, rest.advance owner d = some t ∧
        t.value = .answered (.polled (.ready (.failed (c.pipe.reason .write).toFailure)))

theorem Pipe.pull_of_closed {p : Pipe} (h : p.closed = true) (room : Nat) :
    p.pull room = .quiet (.error (p.reason .read)) p :=
  if_pos h

theorem Reason.ofRead_ending (reason : Reason) :
    Reply.ofRead (Stream.ofPull (.error reason)) = reason.ending := by
  cases reason <;> rfl

theorem Channel.look_of_closed {c : Channel} (h : c.pipe.closed = true) (room : Nat) :
    c.look room = some (.quiet (.settled (Stream.ofPull (.error (c.pipe.reason .read)))) c) := by
  rw [look, Pipe.pull_of_closed h]
  rfl

theorem Channel.pollLook_of_closed {c : Channel} (h : c.pipe.closed = true) (room : Nat)
    (waker : Waker) : c.pollLook room waker =
      .quiet (.ready (.settled (Stream.ofPull (.error (c.pipe.reason .read))))) c := by
  rw [pollLook, Pipe.pollPull, Pipe.pull_of_closed h]
  rfl

theorem Call.advance_of_ending {call : Call .read} {c : Channel} (hc : c.pipe.closed = true)
    {answer : Answer} (h : call.ending? (c.pipe.reason .read) = some answer) (owner : Nat) :
    call.advance owner c = some (.quiet (.answered answer) c) := by
  cases call with
  | receive room =>
    obtain rfl := Option.some.inj h
    simp only [advance, Pipe.pull_of_closed hc]
    rfl
  | read room =>
    obtain rfl := Option.some.inj h
    rw [advance, Channel.look_of_closed hc, ← Reason.ofRead_ending]
    rfl
  | prompt p =>
    cases p with
    | tryReceive room =>
      obtain rfl := Option.some.inj h
      simp only [advance, Prompt.advance, Pipe.pull_of_closed hc]
      rfl
    | pollRead room waker =>
      obtain rfl := Option.some.inj h
      simp only [advance, Prompt.advance, Channel.pollLook_of_closed hc, ← Reason.ofRead_ending]
      rfl
    | _ => simp [ending?] at h
  | drain room chunks =>
    obtain rfl := Option.some.inj h
    rw [advance, Channel.look_of_closed hc]
    cases c.pipe.reason .read <;> rfl

theorem Call.advance_of_refusal {call : Call .write} {c : Channel} (hc : c.pipe.closed = true)
    {answer : Answer} (h : call.refusal? (c.pipe.reason .write) = some answer) (owner : Nat) :
    call.advance owner c = some (.quiet (.answered answer) c) := by
  cases call with
  | send bytes placed | write bytes placed =>
    cases placed with
    | true => cases h
    | false =>
      obtain rfl := Option.some.inj h
      simp only [advance, Pipe.enter, hc]
      rfl
  | prompt | flush => cases h

theorem Channel.pollFlush_of_cut {c : Channel} {write : Outstanding} (ho : c.outstanding = some write)
    (hp : c.pipe.carries write.stamp = true) (hc : c.pipe.closed = true) (waker : Waker) :
    ∃ written, (c.pollFlush waker).value = .ready (.error ⟨written, c.pipe.reason .write⟩) := by
  rw [pollFlush_of_outstanding ho, watch_of_cut hp hc]
  exact ⟨_, rfl⟩

theorem Channel.tellsWhy {c : Channel} (hc : c.pipe.closed = true) : c.TellsWhy where
  reads owner call answer h := Call.advance_of_ending hc h owner
  starts owner call answer h := Call.advance_of_refusal hc h owner
  polls owner slice waker hn := by
    obtain ⟨result, hr⟩ := pollWrite_of_closed hc slice waker
    obtain ⟨-, rfl, -⟩ := pollWrite_ready_of_new hn hr
    obtain ⟨s, hs, hv, -⟩ := Call.advance_of_pollWrite hr owner
    exact ⟨hr, s, hs, hv⟩
  ends owner call bytes hb := Call.ends_of_closed hc hb owner
  flushes owner waker write ho hp := by
    obtain ⟨written, hw⟩ := pollFlush_of_cut ho hp hc waker
    refine ⟨_, rfl, ?_⟩
    simp only [Prompt.advance, Step.value_map, hw]
    rfl
  closes owner waker write ho hp := by
    obtain ⟨written, hw⟩ := pollFlush_of_cut ho hp hc waker
    refine ⟨_, .prompt (.closeFlushed (.error ⟨written, c.pipe.reason .write⟩)), rfl, ?_, fun d => ⟨_, rfl, rfl⟩⟩
    simp only [Prompt.advance, Step.value_map, hw]
    rfl

theorem Staged.before_close {deeds later : List Deed} {p q : Pipe} (h : Frozen p (effects later) q)
    {earlier since : List Deed} {write : Outstanding} (he : deeds ++ later = earlier ++ since)
    (hs : Staged since write) : ∃ before, deeds = earlier ++ before ∧ since = before ++ later := by
  rcases List.append_eq_append_iff.mp he with ⟨rest, -, hlater⟩ | ⟨before, hd, hsince⟩
  · obtain ⟨d, more, rfl, hd, -⟩ := hs.first
    have hp := h.placed
    rw [hlater, effects_append, effects_cons, placed_append, placed_append, hd] at hp
    simp at hp
  · exact ⟨before, hd, hsince⟩

/-- However a run goes on from a closed pipe, the pipe is frozen, and reads and new writes are told its
reason at once. A polled write from before the close is still told what readers got of it. -/
theorem Run.closed_for_good {settings : Settings} {deeds : List Deed} {l : Link}
    (run : Run (.opened settings) deeds l) (hc : l.channel.pipe.closed = true) {later : List Deed}
    {m : Link} (next : Run l later m) :
    Frozen l.channel.pipe (effects later) m.channel.pipe ∧ m.channel.TellsWhy ∧
    ∀ owner write waker, m.channel.outstanding = some write →
      ∃ earlier since s result told, deeds = earlier ++ since ∧ Staged (since ++ later) write ∧
        (Call.prompt (.pollWrite write.slice waker)).advance owner m.channel = some s ∧
        s.value = .answered (.polled (.ready told)) ∧
        (m.channel.pollWrite write.slice waker).value = .ready result ∧ Reply.TellsWrite result told ∧
        result = m.channel.pipe.verdict write.slice.bytes
          (served (.copied write.stamp) (effects (since ++ later))) := by
  have hf := next.frozen hc
  refine ⟨hf, Channel.tellsWhy hf.closed, ?_⟩
  intro owner write waker hw
  obtain ⟨result, hr⟩ := Channel.pollWrite_of_closed hf.closed write.slice waker
  have hv := hr
  rw [Channel.pollWrite_of_outstanding hw] at hv
  obtain ⟨earlier, since, he, hs, hj⟩ := (run.trans next).judged_of_watch hw hv
  obtain ⟨before, hd, rfl⟩ := hs.before_close hf he
  obtain ⟨s, hadvance, hvalue, -⟩ := Call.advance_of_pollWrite hr owner
  exact ⟨earlier, before, s, result, _, hd, hs, hadvance, hvalue, hr, Reply.tells_ofWrite result, hj.verdict⟩

theorem half_read_copy_frozen :
    ∃ deeds l later m, Run (.opened {}) deeds l ∧ l.channel.pipe.closed = true ∧ Run l later m ∧
      Frozen l.channel.pipe (effects later) m.channel.pipe ∧
      m.channel.outstanding = some ⟨0, ⟨"data", 0, [1, 2, 3]⟩⟩ ∧
      (∃ earlier since, deeds = earlier ++ since ∧
        Staged (since ++ later) ⟨0, ⟨"data", 0, [1, 2, 3]⟩⟩) ∧
      (∃ s, (Call.prompt (.pollWrite ⟨"data", 0, [1, 2, 3]⟩ .silent)).advance 1 m.channel = some s ∧
        s.value = .answered (.polled (.ready (.count 2)))) ∧
      (∃ s, (Call.prompt (.pollWrite ⟨"data", 0, [9]⟩ .silent)).advance 1 m.channel = some s ∧
        s.value = .answered (.polled (.ready (.failed (.carrying .brokenPipe (.reason .closed)))))) ∧
      (Call.send [4] false).advance 3 m.channel =
        some (.quiet (.answered (.reply (.shortWrite ⟨0, .closed⟩))) m.channel) ∧
      (Call.write [4] false).advance 3 m.channel = some (.quiet (.answered (.reply
        (.failed (.carrying .brokenPipe (.reason .closed))))) m.channel) ∧
      (Call.receive 2).advance 2 m.channel =
        some (.quiet (.answered (.reply (.refused .closed))) m.channel) := by
  have run := @run_of_play (.opened {}) _
    [.spawn ⟨1, "writer", .write, .share, 0, [.prompt (.pollWrite ⟨"data", 0, [1, 2, 3]⟩ .silent)]⟩,
      .turn 1,
      .spawn ⟨2, "reader", .read, .share, 0, [.receive 2, .prompt (.close none), .receive 2]⟩,
      .turn 2, .turn 2] _ rfl
  obtain ⟨hf, hwhy, hrepeat⟩ := run.closed_for_good rfl (@run_of_play _ _ [.turn 2] _ rfl)
  obtain ⟨earlier, since, s, result, told, hd, hstaged, hs, hv, hpoll, htells, -⟩ :=
    hrepeat 1 ⟨0, ⟨"data", 0, [1, 2, 3]⟩⟩ .silent rfl
  obtain rfl : .error ⟨2, .closed⟩ = result := Poll.ready.inj hpoll
  obtain rfl : told = .count 2 := htells.unique (.part _ (by decide))
  refine ⟨_, _, _, _, run, rfl, @run_of_play _ _ [.turn 2] _ rfl, hf, rfl,
    ⟨earlier, since, hd, hstaged⟩, ⟨s, hs, hv⟩, ?_, ?_, ?_, ?_⟩
  · refine (hwhy.polls 1 ⟨"data", 0, [9]⟩ .silent ?_).2
    intro write hw
    obtain rfl := Option.some.inj hw
    decide
  · exact hwhy.starts 3 (.send [4] false) _ rfl
  · exact hwhy.starts 3 (.write [4] false) _ rfl
  · exact hwhy.reads 2 (.receive 2) _ rfl

end Handoff
