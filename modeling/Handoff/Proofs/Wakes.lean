import Handoff.Proofs.Pending
import Handoff.Proofs.Portions
import Handoff.Proofs.Seen

/-!
What a step does to those who wait. It wakes either nobody or all of them, and the waker that it leaves behind
starts to wait after that.
-/

namespace Handoff

namespace Pipe

/-- Either nothing that anyone waits for has changed, or all that waited have been woken and forgotten,
readers before writers. -/
inductive Stirred (p : Pipe) (es : List Effect) (q : Pipe) : Prop
  | still (hw : wakes es = []) (ha : p.Alike q) (hk : ∀ half, q.waiting half = p.waiting half)
  | roused (hw : wakes es = p.parked) (hk : ∀ half, q.waiting half = [])

theorem parked_of_waiting {p q : Pipe} (h : ∀ half, q.waiting half = p.waiting half) :
    q.parked = p.parked :=
  congrArg₂ (· ++ ·) (h .read) (h .write)

namespace Stirred

variable {p q r : Pipe} {es fs : List Effect}

theorem refl (p : Pipe) : p.Stirred [] p :=
  .still rfl (.refl p) fun _ => rfl

theorem trans (h : p.Stirred es q) (t : q.Stirred fs r) : p.Stirred (es ++ fs) r := by
  cases h with
  | still hw ha hk =>
    cases t with
    | still hw' ha' hk' =>
      exact .still (by rw [wakes_append, hw, hw']; rfl) (ha.trans ha') fun half => (hk' half).trans (hk half)
    | roused hw' hk' =>
      exact .roused (by rw [wakes_append, hw, hw', parked_of_waiting hk]; rfl) hk'
  | roused hw hk =>
    -- Nobody waits any more, so that nobody is woken again.
    have hnone : q.parked = [] := congrArg₂ (· ++ ·) (hk .read) (hk .write)
    cases t with
    | still hw' _ hk' =>
      exact .roused (by rw [wakes_append, hw, hw', List.append_nil]) fun half => (hk' half).trans (hk half)
    | roused hw' hk' => exact .roused (by rw [wakes_append, hw, hw', hnone, List.append_nil]) hk'

theorem log (h : p.Stirred es q) (hf : wakes fs = []) : p.Stirred (es ++ fs) q :=
  h.trans (.still hf (.refl q) fun _ => rfl)

theorem announce (hq : ∀ half, q.waiting half = p.waiting half) (he : wakes es = []) :
    p.Stirred (es ++ q.announce.effects) q.announce.state := by
  refine .roused ?_ q.waiting_announce
  rw [wakes_append, he, wakes_announce, parked_of_waiting hq]
  rfl

end Stirred

theorem waiting_fill (p : Pipe) (occupied : Bool) (parcel : Option Parcel) (half : Half) :
    waiting { p with occupied := occupied, parcel := parcel } half = p.waiting half := by
  cases half <;> rfl

theorem stirred_pull (p : Pipe) (room : Nat) : p.Stirred (p.pull room).effects (p.pull room).state := by
  rcases p.pull_cases room with ⟨result, -, he⟩ | ⟨b, -, -, he⟩
  · rw [he]
    exact .refl p
  · rw [he]
    exact @Stirred.announce _ _ [_] (p.waiting_advance b room) rfl

theorem stirred_vacate (p : Pipe) : p.Stirred p.vacate.effects p.vacate.state :=
  @Stirred.announce _ _ [_] (p.waiting_fill false none) rfl

theorem stirred_place (p : Pipe) (origin : Origin) (bytes : Bytes) :
    p.Stirred (p.place origin bytes).effects (p.place origin bytes).state :=
  @Stirred.announce _ _ [_] (p.waiting_fill true _) rfl

theorem stirred_close (p : Pipe) (half : Half) (reason : Option Reason) :
    p.Stirred (p.close half reason).effects (p.close half reason).state := by
  refine .roused (p.wakes_close half reason) fun other => ?_
  cases half <;> exact waiting_announce _ other

theorem stirred_enter {p : Pipe} {owner : Nat} {bytes : Bytes} {s : Step Pipe (Except ShortWrite Unit)}
    (h : p.enter owner bytes = some s) : p.Stirred s.effects s.state := by
  rcases enter_cases h with rfl | ⟨-, -, rfl⟩
  · exact .refl p
  · exact p.stirred_place _ bytes

theorem stirred_leave {p : Pipe} {s : Step Pipe (Except ShortWrite Nat)} (h : p.leave = some s) :
    p.Stirred s.effects s.state := by
  obtain ⟨-, result, log, rfl, hl⟩ := leave_cases h
  refine p.stirred_vacate.log ?_
  rw [wakes, List.filterMap_eq_nil_iff]
  intro e he
  obtain ⟨count, rfl⟩ := hl e he
  rfl

def parking (p : Pipe) (left : Option (Half × Waker)) : Pipe :=
  left.elim p fun w => p.park w.1 w.2

/-- The waker that is left behind starts to wait last. -/
def Stirs (p : Pipe) (es : List Effect) (q : Pipe) (left : Option (Half × Waker)) : Prop :=
  ∃ r, p.Stirred es r ∧ q = r.parking left

theorem Stirred.stirs {p q : Pipe} {es : List Effect} (h : p.Stirred es q) : p.Stirs es q none :=
  ⟨q, h, rfl⟩

theorem stirs_park (p : Pipe) (half : Half) (waker : Waker) :
    p.Stirs [] (p.park half waker) (some (half, waker)) :=
  ⟨p, .refl p, rfl⟩

end Pipe

def Poll.left {α : Type} (half : Half) (waker : Waker) : Poll α → Option (Half × Waker)
  | pending => some (half, waker)
  | ready _ => none

theorem Poll.left_map {α β : Type} (half : Half) (waker : Waker) (f : α → β) (poll : Poll α) :
    (poll.map f).left half waker = poll.left half waker := by
  cases poll <;> rfl

theorem Pipe.stirs_pollPull (p : Pipe) (room : Nat) (waker : Waker) :
    p.Stirs (p.pollPull room waker).effects (p.pollPull room waker).state
      ((p.pollPull room waker).value.left .read waker) := by
  unfold pollPull
  dsimp only
  split
  · exact (p.stirred_pull room).stirs
  · exact ⟨_, p.stirred_pull room, rfl⟩
  · exact (p.stirred_pull room).stirs

namespace Channel

theorem stirs_pollLook (c : Channel) (room : Nat) (waker : Waker) :
    c.pipe.Stirs (c.pollLook room waker).effects (c.pollLook room waker).state.pipe
      ((c.pollLook room waker).value.left .read waker) := by
  have h := c.pipe.stirs_pollPull room waker
  rwa [← Poll.left_map] at h

theorem stirs_watch (c : Channel) (write : Outstanding) (waker : Waker) :
    c.pipe.Stirs (c.watch write waker).effects (c.watch write waker).state.pipe
      ((c.watch write waker).value.left .write waker) := by
  unfold watch
  split
  · exact ((Pipe.Stirred.refl c.pipe).log rfl).stirs
  · split
    · exact c.pipe.stirred_vacate.stirs
    · exact c.pipe.stirs_park .write waker

theorem stirred_cancel (c : Channel) (write : Outstanding) :
    c.pipe.Stirred (c.cancel write).effects (c.cancel write).state.pipe := by
  unfold cancel
  dsimp only
  split
  · exact @Pipe.Stirred.announce _ _ [_, _] (c.pipe.waiting_fill false none) rfl
  · exact .refl c.pipe

theorem stirs_start (c : Channel) (slice : Slice) (waker : Waker) :
    c.pipe.Stirs (c.start slice waker).effects (c.start slice waker).state.pipe
      ((c.start slice waker).value.left .write waker) := by
  unfold start
  split
  · exact (Pipe.Stirred.refl c.pipe).stirs
  · split
    · exact c.pipe.stirs_park .write waker
    · refine ⟨(c.pipe.placeCopy slice.bytes).state, ?_, rfl⟩
      refine @Pipe.Stirred.announce _ _ [_] (fun half => ?_) rfl
      cases half <;> rfl

theorem stirs_pollWrite (c : Channel) (slice : Slice) (waker : Waker) :
    c.pipe.Stirs (c.pollWrite slice waker).effects (c.pollWrite slice waker).state.pipe
      ((c.pollWrite slice waker).value.left .write waker) := by
  unfold pollWrite
  split
  · exact c.stirs_start slice waker
  · rename_i write _
    split
    · exact c.stirs_watch write waker
    · obtain ⟨r, hr, hs⟩ := (c.cancel write).state.stirs_start slice waker
      exact ⟨r, (c.stirred_cancel write).trans hr, hs⟩

theorem stirs_pollFlush (c : Channel) (waker : Waker) :
    c.pipe.Stirs (c.pollFlush waker).effects (c.pollFlush waker).state.pipe
      ((c.pollFlush waker).value.left .write waker) := by
  unfold pollFlush
  split
  · exact (Pipe.Stirred.refl c.pipe).stirs
  · rename_i write _
    have h := c.stirs_watch write waker
    rwa [← Poll.left_map] at h

theorem stirred_look {c : Channel} {room : Nat} {s : Step Channel Look} (h : c.look room = some s) :
    c.pipe.Stirred s.effects s.state.pipe := by
  rcases look_cases h with ⟨result, -, rfl⟩ | ⟨-, -, rfl⟩
  · exact c.pipe.stirred_pull room
  · exact c.pipe.stirred_pull room

end Channel

def Call.waker? {half : Half} : Call half → Option Waker
  | prompt p => p.waker?
  | _ => none

/-- The waker that a step of a call leaves behind: that of a poll that is told to wait. -/
def Call.left {half : Half} (call : Call half) (answer : Option Answer) : Option (Half × Waker) :=
  if answer = some (.polled .pending) then call.waker?.map (Prod.mk half) else none

theorem Call.left_of_unpolled {half : Half} {call : Call half} (h : call.waker? = none)
    (answer : Option Answer) : call.left answer = none := by
  rw [left, h]
  split <;> rfl

theorem Call.left_of_polled {half : Half} {call : Call half} {waker : Waker} (h : call.waker? = some waker)
    (poll : Poll Reply) : call.left (some (.polled poll)) = poll.left half waker := by
  cases poll <;> simp [left, h, Poll.left]

theorem Prompt.stirs {half : Half} (p : Prompt half) (c : Channel) :
    c.pipe.Stirs (p.advance c).effects (p.advance c).state.pipe
      ((Call.prompt p).left (p.advance c).value.answer?) := by
  cases p with
  | pollRead room waker =>
    have hl : (Call.prompt (.pollRead room waker)).left ((pollRead room waker).advance c).value.answer? =
        (c.pollLook room waker).value.left .read waker := by
      simp only [advance, Step.value_map]
      rcases (c.pollLook room waker).value with _ | (_ | result)
      · exact Call.left_of_polled rfl .pending
      · rfl
      · exact Call.left_of_polled rfl (.ready _)
    rw [hl]
    exact c.stirs_pollLook room waker
  | pollWrite slice waker =>
    have hl : (Call.prompt (.pollWrite slice waker)).left ((pollWrite slice waker).advance c).value.answer? =
        (c.pollWrite slice waker).value.left .write waker :=
      (Call.left_of_polled rfl _).trans (Poll.left_map ..)
    rw [hl]
    exact c.stirs_pollWrite slice waker
  | pollFlush waker =>
    have hl : (Call.prompt (.pollFlush waker)).left ((pollFlush waker).advance c).value.answer? =
        (c.pollFlush waker).value.left .write waker :=
      (Call.left_of_polled rfl _).trans (Poll.left_map ..)
    rw [hl]
    exact c.stirs_pollFlush waker
  | pollClose waker =>
    have hl : (Call.prompt (.pollClose waker)).left ((pollClose waker).advance c).value.answer? =
        (c.pollFlush waker).value.left .write waker := by
      simp only [advance, Step.value_map]
      rcases (c.pollFlush waker).value with _ | flushed
      · exact Call.left_of_polled rfl .pending
      · rfl
    rw [hl]
    exact c.stirs_pollFlush waker
  | tryReceive room =>
    rw [Call.left_of_unpolled (by rfl)]
    exact (c.pipe.stirred_pull room).stirs
  | closeFlushed flushed =>
    rw [Call.left_of_unpolled (by rfl)]
    exact (c.pipe.stirred_close .write none).stirs
  | close reason =>
    rw [Call.left_of_unpolled (by rfl)]
    exact (c.pipe.stirred_close half reason).stirs
  | setNonblocking | isClosed | describe =>
    rw [Call.left_of_unpolled (by rfl)]
    exact (Pipe.Stirred.refl c.pipe).stirs

theorem Call.stirs {half : Half} {owner : Nat} {call : Call half} {c : Channel}
    {s : Step Channel (Progress (Call half))} (h : call.advance owner c = some s) :
    c.pipe.Stirs s.effects s.state.pipe (call.left s.value.answer?) := by
  cases call with
  | prompt p =>
    obtain rfl := Option.some.inj h
    have hp := p.stirs c
    have ha : ((p.advance c).map (Progress.map Call.prompt)).value.answer? =
        (p.advance c).value.answer? := by
      rw [Step.value_map]
      cases (p.advance c).value <;> rfl
    rwa [← ha] at hp
  | receive room =>
    obtain ⟨result, -, rfl⟩ := receive_cases h
    rw [left_of_unpolled (by rfl)]
    exact (c.pipe.stirred_pull room).stirs
  | read room | drain room chunks =>
    obtain ⟨look, hl, rfl⟩ := Option.map_eq_some_iff.mp h
    rw [left_of_unpolled (by rfl)]
    exact (Channel.stirred_look hl).stirs
  | send bytes placed | write bytes placed =>
    rw [left_of_unpolled (by rfl)]
    cases placed with
    | false =>
      obtain ⟨entered, he, rfl⟩ := Option.map_eq_some_iff.mp h
      exact (Pipe.stirred_enter he).stirs
    | true =>
      obtain ⟨left, hl, rfl⟩ := Option.map_eq_some_iff.mp h
      exact (Pipe.stirred_leave hl).stirs
  | flush =>
    obtain rfl := Option.some.inj h
    exact (Pipe.Stirred.refl c.pipe).stirs

def Deed.left (d : Deed) : Option (Half × Waker) :=
  d.call?.bind fun call => call.2.left (d.step.value.map Event.answer)

/-- With this deed a poll that brings the waker is told to wait. -/
def Deed.parks (d : Deed) (w : Waker) : Bool :=
  d.left.any (·.2 = w)

theorem Link.stirs_move {l : Link} {m : Move} {s : Step Link (Option Event)} (h : l.move m = some s) :
    l.channel.pipe.Stirs s.effects s.state.channel.pipe (Deed.mk l m s).left := by
  cases m with
  | spawn t =>
    obtain ⟨-, -, rfl⟩ := spawned_of_move h
    exact (Pipe.Stirred.refl _).stirs
  | turn id =>
    cases hc : l.call? id with
    | some call =>
      obtain ⟨r, hr, he, hst, ha⟩ := called_of_turn h hc
      have hl : (Deed.mk l (.turn id) s).left = call.2.left r.value.answer? := by
        simp only [Deed.left, Deed.call?, hc, Option.bind_some, ha]
      rw [he, hst, hl]
      exact Call.stirs hr
    | none =>
      have hl : (Deed.mk l (.turn id) s).left = none := by
        simp only [Deed.left, Deed.call?, hc, Option.bind_none]
      rw [hl]
      rcases uncalled_of_turn h hc with ⟨he, hst⟩ | ⟨half, he, hst⟩
      · rw [he, hst]
        exact (Pipe.Stirred.refl _).stirs
      · rw [he, hst]
        exact (l.channel.pipe.stirred_close half none).stirs

end Handoff
