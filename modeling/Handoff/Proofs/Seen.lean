import Handoff.Channel.Basic

/-!
What can be seen of a pipe. Nobody is told a reason before it is closed, and once it is closed nobody
starts to wait, so that a step goes the same way whether or not those who wait have been woken.
-/

namespace Handoff

namespace Effect

def tells : Effect → Bool
  | announced | woke _ => true
  | _ => false

def woken? : Effect → Option Waker
  | woke waker => some waker
  | _ => none

end Effect

def wakes (es : List Effect) : List Waker :=
  es.filterMap Effect.woken?

def untold (es : List Effect) : List Effect :=
  es.filter fun e => !e.tells

@[simp] theorem wakes_append (es fs : List Effect) : wakes (es ++ fs) = wakes es ++ wakes fs :=
  List.filterMap_append

@[simp] theorem untold_append (es fs : List Effect) : untold (es ++ fs) = untold es ++ untold fs :=
  List.filter_append es fs

namespace Pipe

def parked (p : Pipe) : List Waker :=
  p.waitingReaders ++ p.waitingWriters

def seen (p : Pipe) : Pipe :=
  if p.closed then p.announce.state else { p with readReason := none, writeReason := none }

/-- Those whom a close has yet to wake. -/
def owed (p : Pipe) : List Waker :=
  if p.closed then p.parked else []

theorem seen_of_closed {p : Pipe} (h : p.closed = true) : p.seen = p.announce.state :=
  if_pos h

theorem seen_of_open {p : Pipe} (h : p.closed = false) :
    p.seen = { p with readReason := none, writeReason := none } :=
  if_neg (by simp [h])

@[simp] theorem closed_seen (p : Pipe) : p.seen.closed = p.closed := by
  unfold seen
  split <;> rfl

@[simp] theorem occupied_seen (p : Pipe) : p.seen.occupied = p.occupied := by
  unfold seen
  split <;> rfl

@[simp] theorem parcel_seen (p : Pipe) : p.seen.parcel = p.parcel := by
  unfold seen
  split <;> rfl

@[simp] theorem nextStamp_seen (p : Pipe) : p.seen.nextStamp = p.nextStamp := by
  unfold seen
  split <;> rfl

@[simp] theorem announce_seen (p : Pipe) : p.seen.announce.state = p.announce.state.seen := by
  unfold seen
  split <;> simp [announce, *]

theorem seen_fill (p : Pipe) (occupied : Bool) (parcel : Option Parcel) :
    { p with occupied := occupied, parcel := parcel }.seen =
      { p.seen with occupied := occupied, parcel := parcel } := by
  unfold seen
  dsimp only
  split <;> rfl

theorem seen_swap (p : Pipe) (parcel : Option Parcel) :
    { p with parcel := parcel }.seen = { p.seen with parcel := parcel } := by
  unfold seen
  dsimp only
  split <;> rfl

theorem seen_stamp (p : Pipe) (stamp : UInt64) :
    { p with nextStamp := stamp }.seen = { p.seen with nextStamp := stamp } := by
  unfold seen
  dsimp only
  split <;> rfl

theorem seen_park {p : Pipe} (h : p.closed = false) (half : Half) (waker : Waker) :
    (p.park half waker).seen = p.seen.park half waker := by
  rw [seen_of_open (by simp [h]), seen_of_open h]
  cases half with
  | read =>
    by_cases hw : waker ∈ p.waitingReaders
    · simp [park, waiting, hw]
    · simp [park, waiting, hw]
  | write =>
    by_cases hw : waker ∈ p.waitingWriters
    · simp [park, waiting, hw]
    · simp [park, waiting, hw]

theorem seen_shut {p : Pipe} (h : p.closed = true) (half : Half) (reason : Reason) :
    ((p.keepReason half reason).shut half).state.seen =
      ((p.seen.keepReason half reason).shut half).state := by
  rw [seen_of_closed h, seen_of_closed rfl]
  cases half <;> rfl

theorem seen_eq_self {p : Pipe} (ho : p.owed = [])
    (hr : p.closed = false → ∀ half, p.ownReason half = none) : p.seen = p := by
  cases hc : p.closed with
  | true =>
    rw [owed, if_pos hc] at ho
    obtain ⟨hread, hwrite⟩ := List.append_eq_nil_iff.mp ho
    rw [seen_of_closed hc]
    cases p
    simp_all [announce]
  | false =>
    have hread : p.readReason = none := hr hc .read
    have hwrite : p.writeReason = none := hr hc .write
    rw [seen_of_open hc]
    cases p
    simp_all

@[simp] theorem closed_keepReason (p : Pipe) (half : Half) (reason : Reason) :
    (p.keepReason half reason).closed = p.closed := by
  cases half <;> rfl

@[simp] theorem owed_keepReason (p : Pipe) (half : Half) (reason : Reason) :
    (p.keepReason half reason).owed = p.owed := by
  cases half <;> rfl

theorem reason_seen {p : Pipe} (h : p.closed = true) (half : Half) :
    p.seen.reason half = p.reason half := by
  rw [seen_of_closed h]
  cases half <;> rfl

theorem owed_append_parked_seen (p : Pipe) : p.owed ++ p.seen.parked = p.parked := by
  unfold owed seen
  split
  · simp [parked, announce]
  · rfl

theorem parked_seen {p : Pipe} (h : p.closed = true) : p.seen.parked = [] := by
  rw [seen_of_closed h]
  rfl

@[simp] theorem owed_announce (p : Pipe) : p.announce.state.owed = [] := by
  unfold owed
  split <;> rfl

@[simp] theorem wakes_announce (p : Pipe) : wakes p.announce.effects = p.parked := by
  rw [announce, wakes, List.filterMap_cons_none rfl, List.filterMap_map]
  exact List.filterMap_some

@[simp] theorem untold_announce (p : Pipe) : untold p.announce.effects = [] := by
  simp [untold, announce, Effect.tells]

theorem wakes_close (p : Pipe) (half : Half) (reason : Option Reason) :
    wakes (p.close half reason).effects = p.parked := by
  rw [effects_close, wakes_append, wakes_announce]
  split <;> rfl

theorem untold_close (p : Pipe) (half : Half) (reason : Option Reason) :
    untold (p.close half reason).effects = (p.shut half).effects := by
  rw [effects_close, untold_append, untold_announce, List.append_nil, shut]
  split <;> rfl

@[simp] theorem untold_shut (p : Pipe) (half : Half) :
    untold (p.shut half).effects = (p.shut half).effects := by
  unfold shut
  split <;> rfl

@[simp] theorem wakes_shut (p : Pipe) (half : Half) : wakes (p.shut half).effects = [] := by
  unfold shut
  split <;> rfl

theorem effects_shut {p : Pipe} (h : p.closed = true) (half : Half) : (p.shut half).effects = [] :=
  if_pos h

theorem shut_of_closed {p : Pipe} (h : p.closed = true) (half : Half) : (p.shut half).state = p := by
  rw [shut, ← h]

theorem seen_keepReason {p : Pipe} (h : p.closed = false) (half : Half) (reason : Reason) :
    (p.keepReason half reason).seen = p.seen := by
  rw [seen_of_open h, seen_of_open (by simp [h])]
  cases half <;> rfl

theorem close_seen {p : Pipe} (h : p.closed = true) (half : Half) (reason : Option Reason) :
    (p.seen.close half reason).state = (p.keepReason half (reason.getD (defaultReason half))).seen := by
  rw [seen_of_closed h, seen_of_closed (by simp [h])]
  cases half <;> simp [close, shut, keepReason, announce, h]

/-- Nobody sees a reason before the pipe is shut, and then all that have been kept are seen at once. -/
theorem shut_seen {p : Pipe} (h : p.closed = false) {half : Half} {reason : Reason}
    (hr : p.ownReason half = some reason) :
    (p.shut half).state.seen = match p.ownReason half.other with
      | none => (p.seen.close half (some reason)).state
      | some other => ((p.seen.close half (some reason)).state.close half.other (some other)).state := by
  rw [seen_of_open h, seen_of_closed rfl]
  cases half <;> cases ho : p.ownReason (Half.other _) <;>
    simp_all [close, shut, keepReason, announce, ownReason, Half.other]

end Pipe

def Channel.seen (c : Channel) : Channel :=
  { c with pipe := c.pipe.seen }

/-- A step, and the same step on what could be seen. -/
structure Mirrored {α : Type} (c : Channel) (s q : Step Channel α) : Prop where
  value : q.value = s.value
  state : q.state = s.state.seen
  closed : s.state.pipe.closed = c.pipe.closed
  untold : untold q.effects = untold s.effects
  wakes : c.pipe.owed ++ wakes q.effects = wakes s.effects ++ s.state.pipe.owed
  calm : c.pipe.closed = true → Handoff.wakes q.effects = []

namespace Mirrored

variable {α β : Type} {c d : Channel} {s q : Step Channel α}

theorem note (hd : d.pipe = c.pipe) (a : α) {es : List Effect} (he : Handoff.wakes es = []) :
    Mirrored c ⟨a, d, es⟩ ⟨a, d.seen, es⟩ where
  value := rfl
  state := rfl
  closed := congrArg Pipe.closed hd
  untold := rfl
  wakes := by simp [he, hd]
  calm _ := he

theorem quiet (c : Channel) (a : α) : Mirrored c (.quiet a c) (.quiet a c.seen) :=
  note rfl a rfl

theorem map (h : Mirrored c s q) (f : α → β) : Mirrored c (s.map f) (q.map f) where
  value := congrArg f h.value
  state := h.state
  closed := h.closed
  untold := h.untold
  wakes := h.wakes
  calm := h.calm

theorem mapLift {x y : Step Pipe α} (h : Mirrored c (c.lift x) (c.seen.lift y)) (f : α → β) :
    Mirrored c (c.lift (x.map f)) (c.seen.lift (y.map f)) :=
  h.map f

theorem after {t r : Step Channel β} (h : Mirrored c s q) (k : Mirrored s.state t r) :
    Mirrored c (t.after s.effects) (r.after q.effects) where
  value := k.value
  state := k.state
  closed := k.closed.trans h.closed
  untold := by simp [h.untold, k.untold]
  wakes := by
    have hk := k.wakes
    rw [Step.effects_after, wakes_append, ← List.append_assoc, h.wakes, List.append_assoc, hk]
    simp
  calm hc := by simp [h.calm hc, k.calm (h.closed.trans hc)]

theorem log (h : Mirrored c s q) {log : List Effect} (hl : Handoff.wakes log = []) :
    Mirrored c (s.andThen log) (q.andThen log) where
  value := h.value
  state := h.state
  closed := h.closed
  untold := by simp [h.untold]
  wakes := by simpa [hl] using h.wakes
  calm hc := by simp [h.calm hc, hl]

theorem announce {p : Pipe} (hc : p.closed = c.pipe.closed) (hp : p.parked = c.pipe.parked)
    (outstanding : Option Outstanding) {es : List Effect} (he : Handoff.wakes es = []) :
    Mirrored c ({ c with outstanding := outstanding }.lift (p.announce.after es))
      ({ c.seen with outstanding := outstanding }.lift (p.seen.announce.after es)) where
  value := rfl
  state := by simp [Channel.lift, Channel.seen]
  closed := hc
  untold := by simp
  wakes := by
    have ho : c.pipe.owed = p.owed := by rw [Pipe.owed, Pipe.owed, hc, hp]
    simp [he, ho, p.owed_append_parked_seen]
  calm hs := by simp [he, Pipe.parked_seen (hc.trans hs)]

end Mirrored

end Handoff
