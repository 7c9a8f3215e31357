import Handoff.Proofs.Closes
import Handoff.Proofs.Frozen
import Handoff.Proofs.Replay

/-!
What closes have to say. Of the closes of a half only the first counts, and of all closes only the first
is logged; who is told a reason is told that of its own half, or else that of the other.
-/

namespace Handoff

def Failure.reason? : Failure → Option Reason
  | carrying _ (.reason reason) => some reason
  | _ => none

def Reply.reason? : Reply → Option Reason
  | refused reason => some reason
  | shortWrite short => some short.reason
  | failed failure | drained _ (some failure) => failure.reason?
  | _ => none

def Answer.reason? : Answer → Option Reason
  | .reply told => told.reason?
  | .polled (.ready told) => told.reason?
  | .polled .pending => none

/-- Why the flush of a polled close has failed, while the close itself is still to come. -/
def Call.flushReason? {half : Half} : Call half → Option Reason
  | prompt (.closeFlushed (.error short)) => some short.reason
  | _ => none

def Progress.reason? {half : Half} : Progress (Call half) → Option Reason
  | onward call => call.flushReason?
  | answered answer => answer.reason?

theorem Reply.reason?_ofRead (result : Except Reason Bytes) {reason : Reason}
    (h : (Reply.ofRead (Stream.ofPull result)).reason? = some reason) : result = .error reason := by
  cases result with
  | ok bytes => simp [Stream.ofPull, Reply.ofRead, Reply.reason?] at h
  | error other =>
    cases other with
    | endOfStream => cases h
    | closed | custom cause => exact congrArg Except.error (Option.some.inj h)

theorem Reply.TellsSend.reason {result : Except ShortWrite Nat} {told : Reply} (h : TellsSend result told)
    {reason : Reason} (hr : told.reason? = some reason) : ∃ written, result = .error ⟨written, reason⟩ := by
  cases h with
  | whole => cases hr
  | short short =>
    obtain ⟨written, other⟩ := short
    obtain rfl : other = reason := Option.some.inj hr
    exact ⟨written, rfl⟩

theorem Reply.TellsWrite.reason {result : Except ShortWrite Nat} {told : Reply} (h : TellsWrite result told)
    {reason : Reason} (hr : told.reason? = some reason) : ∃ written, result = .error ⟨written, reason⟩ := by
  cases h with
  | whole | part => cases hr
  | none other =>
    obtain rfl : other = reason := Option.some.inj hr
    exact ⟨0, rfl⟩

namespace Pipe

theorem pull_error {p : Pipe} {room : Nat} {reason : Reason}
    (h : (p.pull room).value = .error reason) : p.closed = true ∧ reason = p.reason .read := by
  unfold pull at h
  split at h
  · rename_i hc
    exact ⟨hc, (Except.error.inj h).symm⟩
  · split at h <;> simp at h

end Pipe

namespace Channel

theorem Look.ofPull_reason {room : Nat} {pulled : Except Reason Bytes} {result : Except Failure Bytes}
    (h : Look.ofPull room pulled = .settled result) {reason : Reason}
    (hr : (Reply.ofRead result).reason? = some reason) : pulled = .error reason := by
  unfold ofPull at h
  split at h
  · split at h
    · obtain rfl := Look.settled.inj h
      cases hr
    · cases h
  · obtain rfl := Look.settled.inj h
    exact Reply.reason?_ofRead pulled hr

theorem look_reason {c : Channel} {room : Nat} {s : Step Channel Look} (h : c.look room = some s)
    {result : Except Failure Bytes} (hv : s.value = .settled result) {reason : Reason}
    (hr : (Reply.ofRead result).reason? = some reason) :
    c.pipe.closed = true ∧ reason = c.pipe.reason .read := by
  rcases look_cases h with ⟨pulled, hp, rfl⟩ | ⟨-, -, rfl⟩
  · rw [Look.ofPull_reason hv hr] at hp
    exact Pipe.pull_error hp
  · obtain rfl := Look.settled.inj hv
    cases hr

theorem pollLook_reason {c : Channel} {room : Nat} {waker : Waker} {result : Except Failure Bytes}
    (hv : (c.pollLook room waker).value = .ready (.settled result)) {reason : Reason}
    (hr : (Reply.ofRead result).reason? = some reason) :
    c.pipe.closed = true ∧ reason = c.pipe.reason .read := by
  simp only [pollLook, Pipe.pollPull] at hv
  split at hv
  · rename_i bytes _
    cases Look.ofPull_reason (Poll.ready.inj hv) hr
  · cases hv
  · rename_i other hp
    obtain rfl := Except.error.inj (Look.ofPull_reason (Poll.ready.inj hv) hr)
    exact Pipe.pull_error hp

theorem pollFlush_error {c : Channel} {waker : Waker} {short : ShortWrite}
    (h : (c.pollFlush waker).value = .ready (.error short)) :
    c.pipe.closed = true ∧ short.reason = c.pipe.reason .write := by
  cases ho : c.outstanding with
  | none =>
    rw [pollFlush_of_none ho] at h
    cases h
  | some write =>
    rw [pollFlush_of_outstanding ho, Step.value_map] at h
    cases hv : (c.watch write waker).value with
    | pending => simp [hv, Poll.map] at h
    | ready result =>
      cases result with
      | ok all => simp [hv, Poll.map, Except.map] at h
      | error other =>
        obtain rfl : other = short := by simpa [hv, Poll.map, Except.map] using h
        exact watch_error hv

end Channel

theorem Prompt.reason_told {half : Half} {p : Prompt half} {c : Channel} {reason : Reason}
    (h : ((p.advance c).value.map Call.prompt).reason? = some reason) :
    (Call.prompt p).flushReason? = some reason ∨
      c.pipe.closed = true ∧ reason = c.pipe.reason half := by
  cases p with
  | tryReceive room =>
    simp only [advance, Channel.value_lift, Step.value_map] at h
    split at h
    · cases h
    · cases h
    · rename_i other hv
      obtain rfl : other = reason := Option.some.inj h
      exact .inr (Pipe.pull_error hv)
  | pollRead room waker =>
    simp only [advance, Step.value_map] at h
    split at h
    · cases h
    · cases h
    · rename_i result hv
      exact .inr (Channel.pollLook_reason hv h)
  | setNonblocking | isClosed | describe | close => cases h
  | pollWrite slice waker =>
    simp only [advance, Step.value_map] at h
    cases hv : (c.pollWrite slice waker).value with
    | pending =>
      rw [hv] at h
      cases h
    | ready result =>
      rw [hv] at h
      obtain ⟨written, rfl⟩ := (Reply.tells_ofWrite result).reason h
      exact .inr (Channel.pollWrite_error hv)
  | pollFlush waker =>
    simp only [advance, Step.value_map] at h
    cases hv : (c.pollFlush waker).value with
    | pending =>
      rw [hv] at h
      cases h
    | ready result =>
      rw [hv] at h
      cases result with
      | ok => cases h
      | error short =>
        obtain rfl := Option.some.inj h
        exact .inr (Channel.pollFlush_error hv)
  | pollClose waker =>
    simp only [advance, Step.value_map] at h
    cases hv : (c.pollFlush waker).value with
    | pending =>
      rw [hv] at h
      cases h
    | ready flushed =>
      rw [hv] at h
      cases flushed with
      | ok => cases h
      | error short =>
        obtain rfl := Option.some.inj h
        exact .inr (Channel.pollFlush_error hv)
  | closeFlushed flushed =>
    cases flushed with
    | ok => cases h
    | error short => exact .inl h

theorem Call.Tells.reason {half : Half} {call : Call half} {result : Except ShortWrite Nat}
    {answer : Answer} (h : call.Tells result answer) {reason : Reason}
    (hr : answer.reason? = some reason) : ∃ written, result = .error ⟨written, reason⟩ := by
  cases h with
  | send _ _ h => exact h.reason hr
  | write _ _ h | poll _ _ h => exact h.reason hr

theorem Call.flushReason?_of_data {half : Half} {owner : Nat} {call next : Call half} {c : Channel}
    {s : Step Channel (Progress (Call half))} (h : call.advance owner c = some s) {bytes : Bytes}
    (hd : call.data? = some bytes) (hv : s.value = .onward next) : next.flushReason? = none := by
  cases call with
  | send data placed | write data placed =>
    cases placed with
    | false =>
      obtain ⟨l, -, rfl⟩ := Option.map_eq_some_iff.mp h
      cases hx : l.value with
      | ok =>
        simp only [Channel.value_lift, Step.value_map, hx] at hv
        obtain rfl := Progress.onward.inj hv
        rfl
      | error => simp [hx, Progress.reply] at hv
    | true =>
      obtain ⟨l, -, rfl⟩ := Option.map_eq_some_iff.mp h
      cases hv
  | _ => simp [data?] at hd

/-- A reason that a call is told is that of its half at the time, or was when a polled close flushed. -/
theorem Call.reason_told {half : Half} {owner : Nat} {call : Call half} {c : Channel}
    {s : Step Channel (Progress (Call half))} (h : call.advance owner c = some s) {reason : Reason}
    (hr : s.value.reason? = some reason) :
    call.flushReason? = some reason ∨ c.pipe.closed = true ∧ reason = c.pipe.reason half := by
  cases call with
  | prompt p =>
    obtain rfl := Option.some.inj h
    exact Prompt.reason_told hr
  | receive room =>
    obtain ⟨result, hv, rfl⟩ := receive_cases h
    cases result with
    | ok => cases hr
    | error other =>
      obtain rfl : other = reason := Option.some.inj hr
      exact .inr (Pipe.pull_error hv)
  | read room =>
    obtain ⟨l, hl, rfl⟩ := Option.map_eq_some_iff.mp h
    simp only [Step.value_map] at hr
    split at hr
    · cases hr
    · rename_i result hv
      exact .inr (Channel.look_reason hl hv hr)
  | drain room chunks =>
    obtain ⟨l, hl, rfl⟩ := Option.map_eq_some_iff.mp h
    simp only [Step.value_map] at hr
    split at hr
    · cases hr
    · cases hr
    · cases hr
    · rename_i failure hv
      refine .inr (Channel.look_reason hl hv ?_)
      rw [← hr]
      rfl
  | send bytes placed | write bytes placed =>
    cases hv : s.value with
    | answered answer =>
      rw [hv] at hr
      obtain ⟨result, hyields, htells, -⟩ := Call.tells_of_blocking h hv rfl
      obtain ⟨written, rfl⟩ := htells.reason hr
      exact .inr hyields.error
    | onward next =>
      rw [hv] at hr
      cases hr.symm.trans (Call.flushReason?_of_data h rfl hv)
  | flush =>
    obtain rfl := Option.some.inj h
    cases hr

/-- The reasons in a pipe are those of the first of these closes on each half. -/
structure Excused (p : Pipe) (closes : List (Half × Reason)) : Prop where
  own : ∀ half, p.ownReason half = firstReason half closes
  closed : p.closed = true ↔ ∃ half reason, p.ownReason half = some reason
  reason : p.closed = true → ∀ half,
    (p.ownReason half).or (p.ownReason half.other) = some (p.reason half)

theorem Run.excused {settings : Settings} {deeds : List Deed} {l : Link}
    (run : Run (.opened settings) deeds l) : Excused l.channel.pipe (closes deeds) := by
  have hb := run.blamed
  have hown : ∀ half, l.channel.pipe.ownReason half = firstReason half (closes deeds) := by
    intro half
    rw [hb.own]
    cases half <;> rfl
  have hsome : l.channel.pipe.closed = true → ∀ half,
      ((l.channel.pipe.ownReason half).or (l.channel.pipe.ownReason half.other)).isSome := by
    intro hc half
    have hne : closes deeds ≠ [] := by
      rintro hnil
      rw [hb.closed, hnil] at hc
      cases hc
    rw [hown, hown]
    exact firstReason_or_other hne half
  refine ⟨hown, ⟨fun hc => ?_, ?_⟩, fun hc half => ?_⟩
  · obtain ⟨reason, hr⟩ := Option.isSome_iff_exists.mp (hsome hc .read)
    rcases Option.or_eq_some_iff.mp hr with hr | ⟨-, hr⟩
    · exact ⟨_, reason, hr⟩
    · exact ⟨_, reason, hr⟩
  · rintro ⟨half, reason, hr⟩
    have hne : closes deeds ≠ [] := by
      rintro hnil
      rw [hown, hnil] at hr
      cases hr
    rw [hb.closed]
    simpa using Or.inr hne
  · obtain ⟨reason, hr⟩ := Option.isSome_iff_exists.mp (hsome hc half)
    rw [Pipe.reason, hr]
    rfl

theorem Blamed.reason {p q : Pipe} {cs : List (Half × Reason)} {es : List Effect}
    (h : Blamed p cs es q) {half : Half}
    (hp : (p.ownReason half).or (p.ownReason half.other) = some (p.reason half)) :
    q.reason half = ((p.ownReason half).or (firstReason half cs)).getD (p.reason half) := by
  rw [Pipe.reason, h.own, h.own]
  cases ho : p.ownReason half with
  | some reason => simp
  | none =>
    rw [ho, Option.none_or] at hp
    rw [hp, Option.none_or]
    cases firstReason half cs <;> rfl

/-- With this deed the half is given another reason than before. -/
def Deed.shifts (half : Half) (d : Deed) : Bool :=
  d.found.channel.pipe.reason half ≠ d.step.state.channel.pipe.reason half

theorem Deed.shifts_spec {d : Deed} (hm : d.found.move d.move = some d.step) {half : Half}
    (hp : (d.found.channel.pipe.ownReason half).or (d.found.channel.pipe.ownReason half.other) =
      some (d.found.channel.pipe.reason half)) (hs : d.shifts half = true) :
    d.found.channel.pipe.ownReason half = none ∧
      firstReason half d.closes = some (d.step.state.channel.pipe.reason half) := by
  have hr : d.step.state.channel.pipe.reason half =
      ((d.found.channel.pipe.ownReason half).or (firstReason half d.closes)).getD
        (d.found.channel.pipe.reason half) := (Link.blamed_move hm).reason hp
  have hne : d.found.channel.pipe.reason half ≠ d.step.state.channel.pipe.reason half := by
    simpa [shifts] using hs
  cases ho : d.found.channel.pipe.ownReason half with
  | some reason =>
    rw [ho] at hp hr
    exact absurd ((Option.some.inj hp).symm.trans hr.symm) hne
  | none =>
    rw [ho, Option.none_or] at hr
    cases hf : firstReason half d.closes with
    | none =>
      rw [hf] at hr
      exact absurd hr.symm hne
    | some reason =>
      rw [hf] at hr
      exact ⟨rfl, congrArg some hr.symm⟩

theorem Run.shifts {settings : Settings} {deeds later : List Deed} {l m : Link}
    (run : Run (.opened settings) deeds l) (hc : l.channel.pipe.closed = true) (next : Run l later m)
    (half : Half) :
    (∀ d ∈ later, d.shifts half = true → d.found.channel.pipe.ownReason half = none ∧
      firstReason half d.closes = some (d.step.state.channel.pipe.reason half)) ∧
    later.countP (Deed.shifts half) ≤ if (m.channel.pipe.ownReason half).isSome then 1 else 0 := by
  induction next with
  | start => exact ⟨by simp, Nat.zero_le _⟩
  | @next later m move s next h ih =>
    obtain ⟨hd, hcount⟩ := ih
    have hcm : m.channel.pipe.closed = true := (next.frozen hc).closed
    have hspec := @Deed.shifts_spec ⟨m, move, s⟩ h half ((run.trans next).excused.reason hcm half)
    have hown := (Link.blamed_move h).own half
    constructor
    · intro d hm hs
      rcases List.mem_append.mp hm with hm | hm
      · exact hd d hm hs
      · obtain rfl := List.mem_singleton.mp hm
        exact hspec hs
    · rw [List.countP_append, List.countP_singleton]
      cases hs : Deed.shifts half ⟨m, move, s⟩ with
      | true =>
        -- The half had no reason of its own until now, so no deed before has shifted it.
        obtain ⟨hnone, hfirst⟩ := hspec hs
        rw [hnone, Option.none_or, hfirst] at hown
        simp only [hnone, Option.isSome_none, Bool.false_eq_true, if_false] at hcount
        simp only [hown, Option.isSome_some, if_true]
        omega
      | false =>
        have hkeep : (m.channel.pipe.ownReason half).isSome →
            (s.state.channel.pipe.ownReason half).isSome := by
          intro hm
          rw [hown, Option.isSome_or, hm, Bool.true_or]
        simp only [Bool.false_eq_true, if_false, Nat.add_zero]
        refine hcount.trans ?_
        split
        · rename_i hm
          rw [if_pos (hkeep hm)]
        · exact Nat.zero_le _

@[simp] theorem shutdowns_untold (es : List Effect) : shutdowns (untold es) = shutdowns es := by
  induction es with
  | nil => rfl
  | cons e es ih =>
    cases e with
    | logged entry => cases entry <;> simpa [untold, shutdowns, Effect.tells] using ih
    | _ => simpa [untold, shutdowns, Effect.tells] using ih

theorem Split.reason_of_closed {settings : Settings} {begun fired : List Nat} {es : List Effect}
    {m : Link} (split : Split (.opened settings) begun fired es m)
    (hc : m.channel.pipe.closed = true) (half : Half) :
    (m.channel.pipe.ownReason half).or (m.channel.pipe.ownReason half.other) =
      some (m.channel.pipe.reason half) := by
  -- A close under way has shut the pipe already, as a run sees it once it is announced.
  obtain ⟨settings, deeds, run⟩ := split.reachable_seen
  have hs : m.channel.pipe.seen = m.channel.pipe.announce.state := Pipe.seen_of_closed hc
  have hr := run.excused.reason (m.channel.pipe.closed_seen.trans hc) half
  rw [Link.seen, Channel.seen, hs, Pipe.ownReason_announce, Pipe.ownReason_announce] at hr
  rw [hr]
  cases half <;> rfl

theorem Split.excused {settings : Settings} {fired : List Nat} {es : List Effect} {m : Link}
    (split : Split (.opened settings) [] fired es m) :
    ∃ deeds, Run (.opened settings) deeds m ∧ Excused m.channel.pipe (closes deeds) ∧
      shutdowns es = ((closes deeds).head?.map Prod.fst).toList := by
  obtain ⟨deeds, run, hu, -⟩ := split.run
  refine ⟨deeds, run, run.excused, ?_⟩
  rw [← shutdowns_untold, ← hu, shutdowns_untold]
  exact run.blamed.shutdowns

theorem Run.first_closes_count {settings : Settings} {deeds : List Deed} {l : Link}
    (run : Run (.opened settings) deeds l) :
    Excused l.channel.pipe (closes deeds) ∧
    shutdowns (effects deeds) = ((closes deeds).head?.map Prod.fst).toList ∧
    (l.channel.pipe.closed = true → l.channel.TellsWhy) ∧
    (∀ half owner (call : Call half) s reason, call.advance owner l.channel = some s →
      s.value.reason? = some reason → call.flushReason? = some reason ∨
        l.channel.pipe.closed = true ∧ reason = l.channel.pipe.reason half) ∧
    (∀ later m, Run l later m →
      (∀ half reason, l.channel.pipe.ownReason half = some reason →
        m.channel.pipe.ownReason half = some reason) ∧
      (l.channel.pipe.closed = true → ∀ half,
        m.channel.pipe.reason half = ((l.channel.pipe.ownReason half).or
          (firstReason half (closes later))).getD (l.channel.pipe.reason half) ∧
        later.countP (Deed.shifts half) ≤ 1 ∧
        ∀ d ∈ later, d.shifts half = true → d.found.channel.pipe.ownReason half = none ∧
          firstReason half d.closes = some (d.step.state.channel.pipe.reason half))) ∧
    (∀ others other m, Run (.opened other) others m →
      (∀ half, firstReason half (closes others) = firstReason half (closes deeds)) →
      m.channel.pipe.closed = l.channel.pipe.closed ∧ ∀ half,
        m.channel.pipe.ownReason half = l.channel.pipe.ownReason half ∧
        m.channel.pipe.reason half = l.channel.pipe.reason half) ∧
    ∀ begun fired es m, Split (.opened settings) begun fired es m →
      (m.channel.pipe.closed = true → ∀ half,
        (m.channel.pipe.ownReason half).or (m.channel.pipe.ownReason half.other) =
          some (m.channel.pipe.reason half)) ∧
      (begun = [] → ∃ whole, Run (.opened settings) whole m ∧
        Excused m.channel.pipe (closes whole) ∧
        shutdowns es = ((closes whole).head?.map Prod.fst).toList) := by
  have hex := run.excused
  refine ⟨hex, run.blamed.shutdowns, Channel.tellsWhy, ?_, ?_, ?_, ?_⟩
  · intro half owner call s reason h hr
    exact Call.reason_told h hr
  · intro later m next
    have hb := next.blamed
    refine ⟨fun half reason hr => ?_, fun hc half => ?_⟩
    · rw [hb.own, hr]
      rfl
    · obtain ⟨hshift, hcount⟩ := run.shifts hc next half
      refine ⟨hb.reason (hex.reason hc half), hcount.trans ?_, hshift⟩
      split <;> omega
  · intro others other m run' hsame
    have hex' := run'.excused
    have hown : ∀ half, m.channel.pipe.ownReason half = l.channel.pipe.ownReason half := by
      intro half
      rw [hex'.own, hex.own, hsame]
    refine ⟨?_, fun half => ⟨hown half, ?_⟩⟩
    · rw [Bool.eq_iff_iff, hex'.closed, hex.closed]
      simp only [hown]
    · rw [Pipe.reason, Pipe.reason, hown, hown]
  · rintro begun fired es m split
    refine ⟨split.reason_of_closed, ?_⟩
    rintro rfl
    exact split.excused

/-- The writer's second close comes to nothing, and the reader's first one shuts nothing. Writes that begin
now are given the writer's reason and reads the reader's, and a write read whole before is still told so. -/
theorem three_closes_count :
    ∃ deeds l, Run (.opened {}) deeds l ∧ l.channel.pipe.closed = true ∧
      l.channel.pipe.ownReason .read = some .closed ∧
      l.channel.pipe.ownReason .write = some (.custom (.text "late")) ∧
      shutdowns (effects deeds) = [.write] ∧
      (Call.receive 1).advance 5 l.channel =
        some (.quiet (.answered (.reply (.refused .closed))) l.channel) ∧
      (Call.send [8] false).advance 5 l.channel =
        some (.quiet (.answered (.reply (.shortWrite ⟨0, .custom (.text "late")⟩))) l.channel) ∧
      (Call.write [8] false).advance 5 l.channel = some (.quiet (.answered (.reply
        (.failed (.carrying .other (.reason (.custom (.text "late"))))))) l.channel) ∧
      ∃ s answer, (Call.send [7] true).advance 3 l.channel = some s ∧ s.value = .answered answer ∧
        answer = .reply (.count 1) := by
  have run := @run_of_play (.opened {}) _
    [.spawn ⟨1, "writer", .write, .share, 0,
        [.prompt (.close (some (.custom (.text "late")))), .prompt (.close none)]⟩,
      .spawn ⟨2, "reader", .read, .drop, 0, [.receive 1]⟩,
      .spawn ⟨3, "writer", .write, .share, 0, [.send [7] false]⟩,
      .turn 3, .turn 2, .turn 1, .turn 2, .turn 1] _ rfl
  obtain ⟨hex, hlog, hwhy, -⟩ := run.first_closes_count
  have htold := hwhy (hex.closed.mpr ⟨.write, _, hex.own .write⟩)
  obtain ⟨s, answer, result, hs, hv, hyields, htells, -⟩ := htold.ends 3 (.send [7] true) [7] rfl
  obtain rfl : result = .ok 1 := hyields.unique (.left rfl rfl rfl)
  refine ⟨_, _, run, ?_, ?_, ?_, hlog, ?_, ?_, ?_, s, answer, hs, hv, ?_⟩
  · exact hex.closed.mpr ⟨.write, _, hex.own .write⟩
  · exact hex.own .read
  · exact hex.own .write
  · exact htold.reads 5 (.receive 1) _ rfl
  · exact htold.starts 5 (.send [8] false) _ rfl
  · exact htold.starts 5 (.write [8] false) _ rfl
  · exact htells.unique (.send _ _ (.whole _))

end Handoff
