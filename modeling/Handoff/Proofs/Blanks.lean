import Handoff.Proofs.Alone
import Handoff.Proofs.Cancelled
import Handoff.Proofs.Meetings
import Handoff.Proofs.Portions
import Handoff.Proofs.Shares

/-!
Empty writes. Each is met by one read at most, whichever kind of read and whatever room it has, and that meeting
is all there is to it.
-/

namespace Handoff

/-- Takes with some room that got nothing. -/
def blanks (ts : List (Nat × Bytes)) : Nat :=
  ts.countP fun t => t.1 ≠ 0 ∧ t.2 = []

def Channel.Look.isSkipped : Look → Bool
  | skipped => true
  | settled _ => false

namespace Call

def receives {half : Half} : Call half → Bool
  | receive _ | prompt (.tryReceive _) => true
  | _ => false

def skips {half : Half} (c : Channel) : Call half → Bool
  | read room | drain room _ => (c.look room).any (·.value.isSkipped)
  | prompt (.pollRead room waker) =>
    match (c.pollLook room waker).value with
    | .ready look => look.isSkipped
    | .pending => false
  | _ => false

end Call

/-- With this deed a `receive` with some room has got nothing. -/
def Deed.receivesNone (d : Deed) : Bool :=
  d.call?.any (fun call => call.2.receives && call.2.room?.any (· ≠ 0)) &&
    d.step.value.map Event.answer = some (.reply (.bytes []))

/-- With this deed a read of the byte stream has passed over an empty write. -/
def Deed.skips (d : Deed) : Bool :=
  d.call?.any fun call => call.2.skips d.found.channel

theorem Pipe.takes_pull {p : Pipe} {room : Nat} {result : Except Reason Bytes}
    (h : (p.pull room).value = Except.map some result) :
    takes (p.pull room).effects = result.toOption.toList.map (Prod.mk room) := by
  rcases p.pull_cases room with ⟨other, hn, he⟩ | ⟨b, -, -, he⟩
  · rw [he] at h ⊢
    cases result with
    | ok bytes => exact absurd h (hn bytes)
    | error reason => rfl
  · rw [he] at h ⊢
    cases result with
    | error reason => cases h
    | ok bytes =>
      obtain rfl : b.front room = bytes := Option.some.inj (Except.ok.inj h)
      exact congrArg (_ :: ·) (takes_of_handed (handed_announce _))

theorem Channel.Look.blanks_ofPull (room : Nat) (result : Except Reason Bytes) :
    blanks (result.toOption.toList.map (Prod.mk room)) = (ofPull room result).isSkipped.toNat := by
  cases result with
  | error => rfl
  | ok bytes =>
    cases bytes with
    | cons => simp [blanks, ofPull, isSkipped, Except.toOption]
    | nil => by_cases hr : room = 0 <;> simp [blanks, ofPull, isSkipped, Except.toOption, hr]

theorem Reply.blanks_ofPull (room : Nat) (result : Except Reason Bytes) :
    blanks (result.toOption.toList.map (Prod.mk room)) =
      (decide (room ≠ 0) && Answer.reply (.ofPull result) = .reply (.bytes [])).toNat := by
  cases result with
  | error => simp [blanks, Reply.ofPull, Except.toOption]
  | ok bytes => by_cases hr : room = 0 <;> cases bytes <;> simp [blanks, Reply.ofPull, Except.toOption, hr]

theorem Channel.blanks_look {c : Channel} {room : Nat} {s : Step Channel Look} (h : c.look room = some s) :
    blanks (takes s.effects) = s.value.isSkipped.toNat := by
  rcases look_cases h with ⟨result, hv, rfl⟩ | ⟨hv, -, rfl⟩
  · rw [effects_lift, Step.effects_map, Pipe.takes_pull hv]
    exact Look.blanks_ofPull room result
  · rw [effects_lift, Step.effects_map, takes_of_handed (Pipe.handed_of_idle hv)]
    rfl

theorem Channel.blanks_pollLook (c : Channel) (room : Nat) (waker : Waker) :
    blanks (takes (c.pollLook room waker).effects) =
      ((Call.prompt (.pollRead room waker)).skips c).toNat := by
  have he : (c.pollLook room waker).effects = (c.pipe.pull room).effects :=
    c.pipe.effects_pollPull room waker
  rw [he]
  cases hg : c.pipe.got? room with
  | none =>
    have hp := @Pipe.pull_of_unreadable c.pipe room (Pipe.readable_of_got?_none hg)
    simp [Call.skips, pollLook, Pipe.pollPull, hp, Poll.map, takes, blanks]
  | some result =>
    have hv := Pipe.value_pull_of_got? hg
    rw [Pipe.takes_pull hv, Look.blanks_ofPull]
    simp only [Call.skips, pollLook_of_pull hv waker, value_lift, Step.value_map]

namespace Call

variable {half : Half} {owner : Nat} {call : Call half} {c : Channel}
  {s : Step Channel (Progress (Call half))}

theorem handed_of_roomless (h : call.advance owner c = some s) (hr : call.room? = none) :
    handed s.effects = [] := by
  rcases rooms_advance h with he | ⟨room, hroom, -⟩
  · rwa [← List.length_eq_zero_iff, ← length_rooms, List.length_eq_zero_iff]
  · cases hr.symm.trans hroom

theorem blanks_advance (h : call.advance owner c = some s) :
    blanks (takes s.effects) =
      ((call.receives && call.room?.any (· ≠ 0)) &&
        s.value.answer? = some (.reply (.bytes []))).toNat + (call.skips c).toNat := by
  -- A `receive` tells of what it took; all other reads pass over it, and their step does not end the call.
  cases call with
  | prompt p =>
    cases p with
    | tryReceive room =>
      obtain rfl := Option.some.inj h
      simp only [Prompt.advance, Step.effects_map, Channel.effects_lift]
      cases hg : c.pipe.got? room with
      | none =>
        have hp := @Pipe.pull_of_unreadable c.pipe room (Pipe.readable_of_got?_none hg)
        simp [hp, receives, room?, skips, Progress.map, Progress.reply, Progress.answer?, takes, blanks]
      | some result =>
        have hv := Pipe.value_pull_of_got? hg
        rw [Pipe.takes_pull hv, Reply.blanks_ofPull]
        cases result <;>
          simp [hv, Except.map, receives, room?, skips, Progress.map, Progress.reply, Progress.answer?]
    | pollRead room waker =>
      obtain rfl := Option.some.inj h
      exact (c.blanks_pollLook room waker).trans (Nat.zero_add _).symm
    | _ => rw [takes_of_handed (handed_of_roomless h rfl)]; rfl
  | receive room =>
    obtain ⟨result, hv, rfl⟩ := receive_cases h
    rw [Channel.effects_lift, Step.effects_map, Pipe.takes_pull hv, Reply.blanks_ofPull]
    simp [receives, room?, skips, Progress.answer?, Progress.reply]
  | read room | drain room chunks =>
    obtain ⟨look, hl, rfl⟩ := Option.map_eq_some_iff.mp h
    rw [Step.effects_map, Channel.blanks_look hl]
    simp [receives, skips, hl]
  | send | write | flush =>
    rw [takes_of_handed (handed_of_roomless h rfl)]
    rfl

end Call

theorem Link.blanks_move {l : Link} {m : Move} {s : Step Link (Option Event)} (h : l.move m = some s) :
    blanks (takes s.effects) =
      (Deed.mk l m s).receivesNone.toNat + (Deed.mk l m s).skips.toNat := by
  cases m with
  | spawn t =>
    obtain ⟨-, -, rfl⟩ := spawned_of_move h
    rfl
  | turn id =>
    cases hc : l.call? id with
    | some call =>
      obtain ⟨r, hr, he, -, ha⟩ := called_of_turn h hc
      rw [he, Call.blanks_advance hr]
      simp [Deed.receivesNone, Deed.skips, Deed.call?, hc, ha]
    | none =>
      have hh : handed s.effects = [] := by
        rcases uncalled_of_turn h hc with ⟨he, -⟩ | ⟨half, he, -⟩
        · rw [he]
          rfl
        · rw [he]
          exact (Channel.Change.close l.channel half none).handed_eq
      rw [takes_of_handed hh]
      simp [blanks, Deed.receivesNone, Deed.skips, Deed.call?, hc]

theorem Run.blanks_eq {l m : Link} {deeds : List Deed} (run : Run l deeds m) :
    blanks (takes (effects deeds)) = deeds.countP Deed.receivesNone + deeds.countP Deed.skips := by
  induction run with
  | start => rfl
  | @next deeds m move s run h ih =>
    have hstep := Link.blanks_move h
    have hblanks : blanks (takes (effects deeds) ++ takes s.effects) =
        blanks (takes (effects deeds)) + blanks (takes s.effects) := List.countP_append
    rw [effects_concat, takes_append, hblanks, ih, hstep, List.countP_append, List.countP_append]
    simp only [List.countP_singleton, Bool.toNat]
    cases (Deed.mk m move s).receivesNone <;> cases (Deed.mk m move s).skips <;> simp <;> omega

/-- What holds of all empty writes of a run and of all takes that got nothing. -/
structure MetOnce (deeds : List Deed) : Prop where
  writes : (meetings (effects deeds)).reverse.map (fun m => (m.origin, m.bytes)) = placed (effects deeds)
  takes : Handoff.takes (effects deeds) = (meetings (effects deeds)).reverse.flatMap Meeting.takes
  matched : ∀ earlier d later, deeds = earlier ++ d :: later → Handoff.takes d.step.effects = [] ∨
    ∃ b room m rest, d.found.channel.pipe.parcel = some b ∧ b.finished = false ∧
      Handoff.takes d.step.effects = [(room, b.front room)] ∧
      meetings (effects earlier) = m :: rest ∧ m.origin = b.origin ∧ m.bytes = b.bytes ∧
      meetings (effects earlier ++ d.step.effects) =
        { m with takes := m.takes ++ [(room, b.front room)] } :: rest
  once : ∀ m ∈ meetings (effects deeds), m.bytes = [] → m.takes = [] ∨ ∃ room, m.takes = [(room, [])]
  blank : ∀ m ∈ meetings (effects deeds), ∀ room, (room, []) ∈ m.takes → room ≠ 0 →
    m.bytes = [] ∧ m.takes = [(room, [])]
  balance : deeds.countP Deed.receivesNone + deeds.countP Deed.skips +
      (meetings (effects deeds)).countP (fun m => m.bytes = [] ∧ ∃ t ∈ m.takes, t.1 = 0) =
    (meetings (effects deeds)).countP fun m => m.bytes = [] ∧ m.takes ≠ []

theorem countP_of_each {ms : List Meeting} {p q : Meeting → Bool}
    (h : ∀ m ∈ ms, blanks m.takes + (p m).toNat = (q m).toNat) :
    blanks (ms.reverse.flatMap Meeting.takes) + ms.countP p = ms.countP q := by
  induction ms with
  | nil => rfl
  | cons m ms ih =>
    obtain ⟨hm, hms⟩ := List.forall_mem_cons.mp h
    have hsum := ih hms
    have hsplit : blanks ((m :: ms).reverse.flatMap Meeting.takes) =
        blanks (ms.reverse.flatMap Meeting.takes) + blanks m.takes := by
      simp [blanks]
    rw [hsplit, List.countP_cons, List.countP_cons]
    cases hp : p m <;> cases hq : q m <;> simp only [hp, hq, Bool.toNat] at hm ⊢ <;> simp at hm ⊢ <;> omega

namespace Run

variable {settings : Settings} {deeds : List Deed} {l : Link}

theorem metOnce (run : Run (.opened settings) deeds l) : MetOnce deeds where
  writes := by
    have h := congrArg (List.map Prod.fst) (delivered_meetings (effects deeds))
    rw [List.map_map, List.map_map] at h
    rw [← offer_ledger, List.map_reverse, List.map_reverse]
    exact congrArg List.reverse h
  takes := run.takes_meetings
  matched earlier d later he := by
    rw [he] at run
    obtain ⟨before, hm, -⟩ := run.split_at
    exact (before.meets hm).imp_left And.left
  once m hm := run.once hm
  blank m hm room ht hr := by
    have hb := run.bytes_of_blank m hm room ht hr
    rcases run.once hm hb with hn | ⟨other, ho⟩
    · simp [hn] at ht
    · rw [ho, List.mem_singleton] at ht
      rw [ho, ht]
      exact ⟨hb, rfl⟩
  balance := by
    rw [← run.blanks_eq, run.takes_meetings]
    apply countP_of_each
    intro m hm
    -- An empty write is met with room or without; no other has been met by a take with room that got nothing.
    by_cases hb : m.bytes = []
    · rcases run.once hm hb with hn | ⟨room, ho⟩
      · simp [hb, hn, blanks]
      · by_cases hr : room = 0 <;> simp [hb, ho, blanks, hr]
    · have hnone : blanks m.takes = 0 := by
        rw [blanks, List.countP_eq_zero]
        rintro ⟨room, got⟩ ht hblank
        obtain ⟨hr, rfl⟩ : room ≠ 0 ∧ got = [] := by simpa using hblank
        exact hb (run.bytes_of_blank m hm room ht hr)
      simp [hb, hnone]

theorem met_of_reckoned (run : Run (.opened settings) deeds l) {pieces : List Bytes}
    {result : Except ShortWrite Nat} (h : Reckoned deeds l.channel.pipe [] pieces result) :
    result = .ok 0 ∧ pieces = [[]] ∨
      l.channel.pipe.closed = true ∧ result = .error ⟨0, l.channel.pipe.reason .write⟩ ∧ pieces = [] := by
  rcases h.whole_or_short with ⟨hne, -, rfl⟩ | ⟨hcl, rfl, hlen⟩
  · obtain ⟨d, hd, hbytes, rfl⟩ := h.listed.resolve_left hne
    have honce := (run.timely d hd).once (run.accounts.received hd) hbytes
    exact .inl ⟨rfl, honce.resolve_left hne⟩
  · obtain ⟨-, rfl⟩ := hlen.resolve_left (Nat.not_lt_zero _)
    exact .inr ⟨hcl, rfl, rfl⟩

theorem given_up_of_empty (run : Run (.opened settings) deeds l) {write : Outstanding}
    (hw : l.channel.outstanding = some write) (hb : write.slice.bytes = []) {id : Nat} {slice : Slice}
    {waker : Waker} (hc : l.call? id = some ⟨.write, .prompt (.pollWrite slice waker)⟩)
    (hn : write.slice ≠ slice) :
    ∃ s newer d older, l.move (.turn id) = some s ∧ ledger (effects deeds) = newer ++ d :: older ∧
      d.Awaited write ∧
      (d.pieces = [] ∧ .logged (.withdrawn 0) ∈ s.effects ∨ d.pieces = [[]]) ∧
      ∀ later m, Run s.state later m → ∃ newer w,
        ledger (effects (deeds ++ ⟨l, .turn id, s⟩ :: later)) = newer ++ w :: older ∧
          w.offer = d.offer ∧ w.pieces = d.pieces := by
  obtain ⟨s, hmove, heffects, -, -⟩ := Link.turn_of_pollWrite hc
  obtain ⟨newer, d, older, hled, hd, -, hcase⟩ := run.place hw
  have hmem : d ∈ ledger (effects deeds) := by simp [hled]
  have hempty : d.bytes = [] := hd.bytes.trans hb
  have hcont {later : List Deed} {m : Link} (next : Run s.state later m) :
      Run (.opened settings) (deeds ++ ⟨l, .turn id, s⟩ :: later) m := run.trans (.cons hmove next)
  refine ⟨s, newer, d, older, hmove, hled, hd, ?_⟩
  rcases (run.timely d hmem).once (run.accounts.received hmem) hempty with hp | hp
  -- Unmet it is still in the pipe, and is taken out; met it has left, and no read can find it again.
  · obtain ⟨-, rfl, b, hparcel, hold⟩ := hcase.resolve_left fun hcomplete => hcomplete.2.2.1 hp
    have hu : l.channel.pipe.unmet write.stamp = true := by
      rw [Pipe.unmet_of_parcel hparcel (hold.origin.symm.trans hd.origin), hold.unmet.mp hp]
      rfl
    obtain ⟨rest, he⟩ := Channel.pollWrite_of_unmet hw hn hu waker
    rw [hb] at he
    refine ⟨.inl ⟨hp, ?_⟩, fun later m next => ?_⟩
    · rw [heffects, he]
      exact List.mem_cons_self
    · rw [hp]
      exact (hcont next).unmet_of_withdrawn hled (heffects.trans he)
  · have hreceived : d.received = d.bytes := by
      rw [Delivery.received, hp, hempty]
      rfl
    exact ⟨.inr hp, fun later m next => (hcont next).complete_for_good hled (by simp [hp]) hreceived⟩

/-- Every empty write is one meeting with one read: one that succeeds has been met just once, and one that
fails or is given up unmet never is. What reads with some room get of nothing comes from empty writes, one each. -/
theorem empty_writes_met_once (run : Run (.opened settings) deeds l) :
    MetOnce deeds ∧
    (∀ id s event call, l.move (.turn id) = some s → s.value = some event →
      event.answer ≠ .polled .pending → l.call? id = some call → call.2.bytes? = some [] →
      ∃ pieces result, Share settings deeds l id call [] pieces ∧ call.2.Yields id l.channel result ∧
        call.2.Tells result event.answer ∧
        (result = .ok 0 ∧ pieces = [[]] ∨
          l.channel.pipe.closed = true ∧ result = .error ⟨0, l.channel.pipe.reason .write⟩ ∧
            pieces = [])) ∧
    (∀ write id slice waker, l.channel.outstanding = some write → write.slice.bytes = [] →
      l.call? id = some ⟨.write, .prompt (.pollWrite slice waker)⟩ → write.slice ≠ slice →
      ∃ s newer d older, l.move (.turn id) = some s ∧ ledger (effects deeds) = newer ++ d :: older ∧
        d.Awaited write ∧
        (d.pieces = [] ∧ .logged (.withdrawn 0) ∈ s.effects ∨ d.pieces = [[]]) ∧
        ∀ later m, Run s.state later m → ∃ newer w,
          ledger (effects (deeds ++ ⟨l, .turn id, s⟩ :: later)) = newer ++ w :: older ∧
            w.offer = d.offer ∧ w.pieces = d.pieces) ∧
    (l.channel.pipe.closed = true → ∀ later m, Run l later m → takes (effects later) = []) := by
  refine ⟨run.metOnce, ?_, ?_, ?_⟩
  · intro id s event call hs hv hp hc hb
    obtain ⟨pieces, result, hshare, hyields, htells, hreck⟩ := run.reckoned hs hv hp hc hb
    exact ⟨pieces, result, hshare, hyields, htells, run.met_of_reckoned hreck⟩
  · intro write id slice waker hw hb hc hn
    exact run.given_up_of_empty hw hb hc hn
  · intro hc later m next
    exact takes_of_handed (next.frozen hc).handed

end Run

/-- The read that meets the empty write without any room is the only one; the next finds nothing. An empty
write that no read has met by the time of the close fails. -/
theorem roomless_read_meets_empty_send :
    (∃ deeds l s event, Run (.opened {}) deeds l ∧ l.move (.turn 1) = some s ∧ s.value = some event ∧
      event.answer = .reply (.count 0) ∧ takes (effects deeds) = [(0, [])] ∧ MetOnce deeds ∧
      Share {} deeds l 1 ⟨.write, .send [] true⟩ [] [[]]) ∧
    ∃ deeds l s event, Run (.opened {}) deeds l ∧ l.move (.turn 1) = some s ∧ s.value = some event ∧
      event.answer = .reply (.shortWrite ⟨0, .closed⟩) ∧ takes (effects deeds) = [] ∧ MetOnce deeds ∧
      Share {} deeds l 1 ⟨.write, .send [] true⟩ [] [] := by
  constructor
  · have run := @run_of_play (.opened {}) _
      [.spawn ⟨1, "writer", .write, .share, 0, [.send [] false]⟩, .turn 1,
        .spawn ⟨2, "reader", .read, .share, 0, [.receive 0, .prompt (.tryReceive 4)]⟩, .turn 2, .turn 2] _ rfl
    obtain ⟨hmet, hends, -, -⟩ := run.empty_writes_met_once
    obtain ⟨pieces, result, hshare, hyields, htells, hcase⟩ := hends 1 _ _ _ rfl rfl (by decide) rfl rfl
    obtain rfl : result = .ok 0 := hyields.unique (.left rfl rfl rfl)
    obtain ⟨-, rfl⟩ | ⟨-, hne, -⟩ := hcase
    · exact ⟨_, _, _, _, run, rfl, rfl, htells.unique (.send _ _ (.whole _)), rfl, hmet, hshare⟩
    · cases hne
  · have run := @run_of_play (.opened {}) _
      [.spawn ⟨1, "writer", .write, .share, 0, [.send [] false]⟩, .turn 1,
        .spawn ⟨2, "reader", .read, .share, 0, [.prompt (.close none)]⟩, .turn 2] _ rfl
    obtain ⟨hmet, hends, -, -⟩ := run.empty_writes_met_once
    obtain ⟨pieces, result, hshare, hyields, htells, hcase⟩ := hends 1 _ _ _ rfl rfl (by decide) rfl rfl
    obtain rfl : result = .error ⟨0, .closed⟩ := hyields.unique (.left rfl rfl rfl)
    obtain ⟨hne, -⟩ | ⟨-, -, rfl⟩ := hcase
    · cases hne
    · exact ⟨_, _, _, _, run, rfl, rfl, htells.unique (.send _ _ (.short _)), rfl, hmet, hshare⟩

end Handoff
