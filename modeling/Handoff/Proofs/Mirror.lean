import Handoff.Proofs.Move
import Handoff.Proofs.Seen

/-!
Each step is mirrored by the same step on what can be seen.
-/

namespace Handoff

namespace Mirrored

variable {α : Type} {c : Channel} {s q : Step Channel α}

theorem vacate (c : Channel) (outstanding : Option Outstanding) (f : Nat → α) :
    Mirrored c ({ c with outstanding := outstanding }.lift (c.pipe.vacate.map f))
      ({ c.seen with outstanding := outstanding }.lift (c.seen.pipe.vacate.map f)) := by
  have h := @announce c { c.pipe with occupied := false, parcel := none } rfl rfl outstanding
    [.vacated ((c.pipe.parcel.map Parcel.passed).getD 0)] rfl
  rw [Pipe.seen_fill] at h
  have hm := h.map fun _ => f ((c.pipe.parcel.map Parcel.passed).getD 0)
  have hp : c.seen.pipe.parcel = c.pipe.parcel := c.pipe.parcel_seen
  simp only [Pipe.vacate, hp]
  exact hm

theorem place (c : Channel) (origin : Origin) (bytes : Bytes) :
    Mirrored c (c.lift (c.pipe.place origin bytes)) (c.seen.lift (c.seen.pipe.place origin bytes)) := by
  have h := @announce c { c.pipe with occupied := true, parcel := some (.fresh origin bytes) } rfl rfl
    c.outstanding [.placed origin bytes] rfl
  rw [Pipe.seen_fill] at h
  exact h

theorem advance (c : Channel) (b : Parcel) (room : Nat) :
    Mirrored c (c.lift ((c.pipe.advance b room).announce.after [.handed room (b.front room)]))
      (c.seen.lift ((c.seen.pipe.advance b room).announce.after [.handed room (b.front room)])) := by
  unfold Pipe.advance
  split
  · have h := @announce c { c.pipe with occupied := false, parcel := none } rfl rfl
      c.outstanding [.handed room (b.front room)] rfl
    rw [Pipe.seen_fill] at h
    exact h
  · have h := @announce c { c.pipe with parcel := some (b.advance room) } rfl rfl
      c.outstanding [.handed room (b.front room)] rfl
    rw [Pipe.seen_swap] at h
    exact h

theorem pull (c : Channel) (room : Nat) :
    Mirrored c (c.lift (c.pipe.pull room)) (c.seen.lift (c.seen.pipe.pull room)) := by
  unfold Pipe.pull
  cases hc : c.pipe.closed with
  | true =>
    have hs : c.seen.pipe.closed = true := c.pipe.closed_seen.trans hc
    have hr : c.seen.pipe.reason .read = c.pipe.reason .read := Pipe.reason_seen hc .read
    rw [if_pos rfl, hs, if_pos rfl, hr]
    exact quiet c _
  | false =>
    have hs : c.seen.pipe.closed = false := c.pipe.closed_seen.trans hc
    have ha : c.seen.pipe.available = c.pipe.available := by
      rw [Pipe.available, Channel.seen, Pipe.parcel_seen, Pipe.available]
    rw [if_neg Bool.false_ne_true, hs, if_neg Bool.false_ne_true, ha]
    cases c.pipe.available with
    | none => exact quiet c _
    | some b =>
      let got : Except Reason (Option Bytes) := .ok (some (b.front room))
      exact (advance c b room).map fun _ => got

theorem enter {owner : Nat} {bytes : Bytes} {s : Step Pipe (Except ShortWrite Unit)}
    (h : c.pipe.enter owner bytes = some s) :
    ∃ q, c.seen.pipe.enter owner bytes = some q ∧ Mirrored c (c.lift s) (c.seen.lift q) := by
  have ho : c.seen.pipe.occupied = c.pipe.occupied := c.pipe.occupied_seen
  have hcs : c.seen.pipe.closed = c.pipe.closed := c.pipe.closed_seen
  unfold Pipe.enter at h ⊢
  rw [ho, hcs]
  split at h
  · rename_i hc
    obtain rfl := Option.some.inj h
    refine ⟨_, if_pos hc, ?_⟩
    have hr : c.seen.pipe.reason .write = c.pipe.reason .write := Pipe.reason_seen hc .write
    rw [hr]
    exact quiet c _
  · rename_i hc
    split at h
    · simp at h
    · rename_i hf
      obtain rfl := Option.some.inj h
      refine ⟨_, by rw [if_neg hc, if_neg hf], ?_⟩
      exact (place c (.lent owner) bytes).map _

theorem leave {s : Step Pipe (Except ShortWrite Nat)} (h : c.pipe.leave = some s) :
    ∃ q, c.seen.pipe.leave = some q ∧ Mirrored c (c.lift s) (c.seen.lift q) := by
  have hcs : c.seen.pipe.closed = c.pipe.closed := c.pipe.closed_seen
  have hps : c.seen.pipe.consumed = c.pipe.consumed := congrArg (Option.any _) c.pipe.parcel_seen
  unfold Pipe.leave at h ⊢
  dsimp only at h ⊢
  rw [hcs, hps]
  split at h
  · rename_i hd
    obtain rfl := Option.some.inj h
    refine ⟨_, if_pos hd, ?_⟩
    have hl : c.seen.pipe.vacate.value = c.pipe.vacate.value := (vacate c none id).value
    rw [hl]
    exact (vacate c c.outstanding Except.ok).log rfl
  · rename_i hd
    split at h
    · rename_i hc
      obtain rfl := Option.some.inj h
      refine ⟨_, by rw [if_neg hd, if_pos hc], ?_⟩
      have hr : c.seen.pipe.reason .write = c.pipe.reason .write := Pipe.reason_seen hc .write
      rw [hr]
      exact vacate c c.outstanding _
    · simp at h

theorem settle (c : Channel) (room : Nat) (a : α) :
    Mirrored c (c.lift ((c.pipe.pull room).map fun _ => a))
      (c.seen.lift ((c.seen.pipe.pull room).map fun _ => a)) :=
  (pull c room).map fun _ => a

theorem value_pull (c : Channel) (room : Nat) :
    (c.seen.pipe.pull room).value = (c.pipe.pull room).value :=
  (pull c room).value

theorem look {room : Nat} {s : Step Channel Channel.Look} (h : c.look room = some s) :
    ∃ q, c.seen.look room = some q ∧ Mirrored c s q := by
  have hv := value_pull c room
  rcases Channel.look_cases h with ⟨result, hr, rfl⟩ | ⟨hr, hn, rfl⟩
  · refine ⟨_, ?_, settle c room _⟩
    rw [Channel.look, hv, hr]
    cases result <;> rfl
  · refine ⟨_, ?_, settle c room _⟩
    rw [Channel.look, hv, hr]
    exact if_pos hn

theorem park (h : Mirrored c s q) (hc : c.pipe.closed = false) (half : Half) (waker : Waker) :
    Mirrored c (s.within fun d => { d with pipe := d.pipe.park half waker })
      (q.within fun d => { d with pipe := d.pipe.park half waker }) where
  value := h.value
  state := by
    have hs : s.state.pipe.closed = false := h.closed.trans hc
    simp [Channel.seen, h.state, Pipe.seen_park hs]
  closed := by simp [h.closed]
  untold := h.untold
  wakes := by
    have hs : s.state.pipe.closed = false := h.closed.trans hc
    have hw := h.wakes
    simpa [Pipe.owed, hs] using hw
  calm := h.calm

theorem pollLook (c : Channel) (room : Nat) (waker : Waker) :
    Mirrored c (c.pollLook room waker) (c.seen.pollLook room waker) := by
  have hv := value_pull c room
  unfold Channel.pollLook Pipe.pollPull
  dsimp only
  rw [hv]
  cases hr : (c.pipe.pull room).value with
  | error reason => exact settle c room _
  | ok got =>
    cases got with
    | some bytes => exact settle c room _
    | none =>
      have hf := (c.pipe.value_pull_eq_none_iff room).mp hr
      have hg := (c.seen.pipe.value_pull_eq_none_iff room).mp (hv.trans hr)
      rw [c.pipe.pull_of_unreadable hf, c.seen.pipe.pull_of_unreadable hg]
      have hc : c.pipe.closed = false := by
        simp only [Pipe.readable, Bool.or_eq_false_iff] at hf
        exact hf.1
      exact (quiet c Poll.pending).park hc .read waker

theorem watch (c : Channel) (write : Outstanding) (waker : Waker) :
    Mirrored c (c.watch write waker) (c.seen.watch write waker) := by
  have hcs : c.seen.pipe.closed = c.pipe.closed := c.pipe.closed_seen
  have hps : c.seen.pipe.carries write.stamp = c.pipe.carries write.stamp :=
    congrArg (Option.any _) c.pipe.parcel_seen
  unfold Channel.watch
  rw [hps, hcs]
  split
  · exact @note _ c { c with outstanding := none } rfl _ _ rfl
  · split
    · rename_i hc
      have hr : c.seen.pipe.reason .write = c.pipe.reason .write := Pipe.reason_seen hc .write
      rw [hr]
      exact vacate c none _
    · rename_i hc
      exact (quiet c Poll.pending).park (by simpa using hc) .write waker

theorem cancel (c : Channel) (write : Outstanding) :
    Mirrored c (c.cancel write) (c.seen.cancel write) := by
  have hps : c.seen.pipe.unmet write.stamp = c.pipe.unmet write.stamp :=
    congrArg (Option.any _) c.pipe.parcel_seen
  unfold Channel.cancel
  dsimp only
  rw [hps]
  split
  · have hn := @note _ c c rfl () [.logged (.withdrawn write.slice.bytes.length)] rfl
    exact hn.after (vacate c none fun _ => ())
  · exact @note _ c { c with outstanding := none } rfl _ _ rfl

theorem start (c : Channel) (slice : Slice) (waker : Waker) :
    Mirrored c (c.start slice waker) (c.seen.start slice waker) := by
  have hcs : c.seen.pipe.closed = c.pipe.closed := c.pipe.closed_seen
  have ho : c.seen.pipe.occupied = c.pipe.occupied := c.pipe.occupied_seen
  unfold Channel.start
  rw [hcs, ho]
  split
  · rename_i hc
    have hr : c.seen.pipe.reason .write = c.pipe.reason .write := Pipe.reason_seen hc .write
    rw [hr]
    exact quiet c _
  · rename_i hc
    have hc : c.pipe.closed = false := by simpa using hc
    split
    · exact (quiet c Poll.pending).park hc .write waker
    · have hn : c.seen.pipe.nextStamp = c.pipe.nextStamp := c.pipe.nextStamp_seen
      have h := @announce c { { c.pipe with nextStamp := c.pipe.nextStamp + 1 } with
          occupied := true
          parcel := some (.fresh (.copied c.pipe.nextStamp) slice.bytes) } rfl rfl
        (some ⟨c.pipe.nextStamp, slice⟩) [.placed (.copied c.pipe.nextStamp) slice.bytes] rfl
      rw [Pipe.seen_fill, Pipe.seen_stamp] at h
      simp only [Pipe.placeCopy, hn]
      exact (h.map fun _ => Poll.pending).park hc .write waker

theorem pollWrite (c : Channel) (slice : Slice) (waker : Waker) :
    Mirrored c (c.pollWrite slice waker) (c.seen.pollWrite slice waker) := by
  have ho : c.seen.outstanding = c.outstanding := rfl
  unfold Channel.pollWrite
  rw [ho]
  cases c.outstanding with
  | none => exact start c slice waker
  | some write =>
    dsimp only
    split
    · exact watch c write waker
    · have hk := cancel c write
      rw [hk.state]
      exact hk.after (start _ slice waker)

theorem pollFlush (c : Channel) (waker : Waker) :
    Mirrored c (c.pollFlush waker) (c.seen.pollFlush waker) := by
  have ho : c.seen.outstanding = c.outstanding := rfl
  unfold Channel.pollFlush
  rw [ho]
  cases c.outstanding with
  | none => exact quiet c _
  | some write => exact (watch c write waker).map _

theorem close (hc : c.pipe.closed = true) (half : Half) (reason : Option Reason) :
    Mirrored c (c.lift (c.pipe.close half reason)) (c.seen.lift (c.seen.pipe.close half reason)) := by
  have hs : c.seen.pipe.closed = true := c.pipe.closed_seen.trans hc
  let kept := c.pipe.keepReason half (reason.getD (Pipe.defaultReason half))
  have h := @announce c (kept.shut half).state hc.symm (by cases half <;> rfl) c.outstanding [] rfl
  rw [Pipe.seen_shut hc] at h
  have hk : ∀ p : Pipe, p.closed = true →
      ((p.keepReason half (reason.getD (Pipe.defaultReason half))).shut half).effects = [] := by
    intro p hp
    cases half <;> exact if_pos hp
  unfold Pipe.close
  dsimp only
  rw [hk _ hc, hk _ hs]
  exact h

end Mirrored

/-- A call whose next step is to close its half, and the reason it has for that. -/
def Prompt.closing {half : Half} : Prompt half → Option (Option Reason)
  | close reason => some reason
  | closeFlushed _ => some none
  | _ => none

def Call.closing {half : Half} : Call half → Option (Option Reason)
  | prompt p => p.closing
  | _ => none

theorem Prompt.mirrored {half : Half} {p : Prompt half} {c : Channel}
    (h : p.closing.isSome → c.pipe.closed = true) : Mirrored c (p.advance c) (p.advance c.seen) := by
  have hcs : c.seen.pipe.closed = c.pipe.closed := c.pipe.closed_seen
  cases p <;> simp only [advance]
  case tryReceive room => exact (Mirrored.pull c room).mapLift _
  case pollRead room waker => exact (Mirrored.pollLook c room waker).map _
  case setNonblocking on => exact @Mirrored.note _ c { c with nonblocking := on } rfl _ _ rfl
  case pollWrite slice waker => exact (Mirrored.pollWrite c slice waker).map _
  case pollFlush waker => exact (Mirrored.pollFlush c waker).map _
  case pollClose waker => exact (Mirrored.pollFlush c waker).map _
  case closeFlushed => exact (Mirrored.close (h rfl) .write none).mapLift _
  case close reason => exact (Mirrored.close (h rfl) half reason).mapLift _
  case isClosed =>
    rw [hcs]
    exact Mirrored.quiet c _
  case describe =>
    have ho : c.seen.outline half = c.outline half := by
      unfold Channel.outline
      rw [hcs]
      rfl
    rw [ho]
    exact Mirrored.quiet c _

theorem Call.mirrored {half : Half} {owner : Nat} {call : Call half} {c : Channel}
    {s : Step Channel (Progress (Call half))} (h : call.advance owner c = some s)
    (hc : call.closing.isSome → c.pipe.closed = true) :
    ∃ q, call.advance owner c.seen = some q ∧ Mirrored c s q := by
  cases call with
  | prompt p =>
    obtain rfl := Option.some.inj h
    exact ⟨_, rfl, (Prompt.mirrored hc).map _⟩
  | receive room =>
    obtain ⟨result, hr, rfl⟩ := receive_cases h
    refine ⟨_, ?_, Mirrored.settle c room _⟩
    simp only [advance]
    rw [Mirrored.value_pull, hr]
    cases result <;> rfl
  | read room | drain room chunks =>
    obtain ⟨l, hl, rfl⟩ := Option.map_eq_some_iff.mp h
    obtain ⟨q, hq, hm⟩ := Mirrored.look hl
    refine ⟨_, ?_, hm.map _⟩
    simp only [advance, hq]
    rfl
  | send bytes placed | write bytes placed =>
    cases placed with
    | false =>
      obtain ⟨l, hl, rfl⟩ := Option.map_eq_some_iff.mp h
      obtain ⟨q, hq, hm⟩ := Mirrored.enter hl
      refine ⟨_, ?_, hm.mapLift _⟩
      simp only [advance, hq]
      rfl
    | true =>
      obtain ⟨l, hl, rfl⟩ := Option.map_eq_some_iff.mp h
      obtain ⟨q, hq, hm⟩ := Mirrored.leave hl
      refine ⟨_, ?_, hm.mapLift _⟩
      simp only [advance, hq]
      rfl
  | flush =>
    obtain rfl := Option.some.inj h
    exact ⟨_, rfl, Mirrored.quiet c _⟩

def Task.closing (t : Task) : Option (Option Reason) :=
  match t.calls with
  | [] => if t.mode = .drop then some none else none
  | call :: _ => call.closing

namespace Link

def seen (l : Link) : Link :=
  { l with channel := l.channel.seen }

theorem seen_markGone (l : Link) (half : Half) : (l.markGone half).seen = l.seen.markGone half := by
  cases half <;> rfl

theorem mirrored_move {l : Link} {m : Move} {s : Step Link (Option Event)} (h : l.move m = some s)
    (hc : ∀ t ∈ l.tasks, m = .turn t.id → t.closing.isSome → l.channel.pipe.closed = true) :
    ∃ q, l.seen.move m = some q ∧ q.state = s.state.seen ∧
      Mirrored l.channel (s.within Link.channel) (q.within Link.channel) := by
  cases m with
  | spawn t =>
    obtain ⟨hu, hi, rfl⟩ := spawned_of_move h
    refine ⟨_, move_spawn hu hi, rfl, ?_⟩
    exact Mirrored.quiet l.channel none
  | turn id =>
    cases turned_of_advance h with
    | @called before after t call rest r ht hi hb hk hr =>
      subst hi
      have hcl : call.closing.isSome → l.channel.pipe.closed = true := by
        have hm := hc t (by simp [ht]) rfl
        simpa only [Task.closing, hk] using hm
      obtain ⟨q, hq, hm⟩ := Call.mirrored hr hcl
      refine ⟨_, (@Turned.called l.seen t.id before after t call rest q ht rfl hb hk hq).advance, ?_, ?_⟩
      · rw [hm.value, hm.state]
        rfl
      · exact hm.map t.tell
    | @ended before after t ht hi hb hk hm =>
      refine ⟨_, (@Turned.ended l.seen id before after t ht hi hb hk hm).advance, rfl, ?_⟩
      exact Mirrored.quiet l.channel none
    | @dropped before after t ht hi hb hk hm =>
      subst hi
      have hcl : l.channel.pipe.closed = true := by
        have hm' := hc t (by simp [ht]) rfl
        simpa [Task.closing, hk, hm] using hm'
      have hcm := (Mirrored.close hcl t.half none).map fun _ => (none : Option Event)
      refine ⟨_, (@Turned.dropped l.seen t.id before after t ht rfl hb hk hm).advance, ?_, ?_⟩
      · rw [seen_markGone]
        exact congrArg (fun c => { l with channel := c, tasks := before ++ after }.markGone t.half)
          hcm.state
      · rw [Step.within, Step.within, channel_markGone, channel_markGone]
        exact hcm

end Link

end Handoff
