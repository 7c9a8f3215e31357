import Handoff.Channel.Basic

/-!
Operations that never wait: each either is ready or leaves a waker behind. A polled write spans
several polls. The first puts a copy of its slice into the pipe; polling with the same slice asks
how that write fares, and polling with another slice cancels it.
-/

namespace Handoff

inductive Poll (α : Type)
  | pending
  | ready (value : α)
  deriving DecidableEq

def Poll.map {α β : Type} (f : α → β) : Poll α → Poll β
  | pending => pending
  | ready value => ready (f value)

namespace Pipe

def carries (p : Pipe) (stamp : UInt64) : Bool :=
  p.parcel.any fun b => b.origin.stamp? = some stamp

def unmet (p : Pipe) (stamp : UInt64) : Bool :=
  p.parcel.any fun b => b.origin.stamp? = some stamp && !b.met

def pollPull (p : Pipe) (room : Nat) (waker : Waker) :
    Step Pipe (Poll (Except Reason Bytes)) :=
  let pulled := p.pull room
  match pulled.value with
  | .ok (some bytes) => pulled.map fun _ => .ready (.ok bytes)
  | .ok none => (pulled.map fun _ => .pending).within (·.park .read waker)
  | .error reason => pulled.map fun _ => .ready (.error reason)

def placeCopy (p : Pipe) (bytes : Bytes) : Step Pipe UInt64 :=
  ({ p with nextStamp := p.nextStamp + 1 }.place (.copied p.nextStamp) bytes).map
    fun _ => p.nextStamp

theorem carries_of_parcel {p : Pipe} {b : Parcel} {stamp : UInt64} (hb : p.parcel = some b)
    (ho : b.origin = .copied stamp) : p.carries stamp = true := by
  simp [carries, hb, ho, Origin.stamp?]

theorem unmet_of_parcel {p : Pipe} {b : Parcel} {stamp : UInt64} (hb : p.parcel = some b)
    (ho : b.origin = .copied stamp) : p.unmet stamp = !b.met := by
  simp [unmet, hb, ho, Origin.stamp?]

theorem unread_pollPull (p : Pipe) (room : Nat) (waker : Waker) :
    (p.pollPull room waker).state.unread = (p.pull room).state.unread := by
  unfold pollPull
  dsimp only
  split <;> simp

end Pipe

namespace Channel

/-- How the write that was left fares. Readers take a copy out as soon as they have all of it, so
one that is gone has been read to its end. -/
def watch (c : Channel) (write : Outstanding) (waker : Waker) :
    Step Channel (Poll (Except ShortWrite Nat)) :=
  if !c.pipe.carries write.stamp then
    let count := write.slice.bytes.length
    (Step.quiet (.ready (.ok count)) { c with outstanding := none }).andThen
      [.logged (.consumed count)]
  else if c.pipe.closed then
    { c with outstanding := none }.lift (c.pipe.vacate.map fun written =>
      .ready (.error ⟨written, c.pipe.reason .write⟩))
  else
    .quiet .pending { c with pipe := c.pipe.park .write waker }

/-- A cancelled write that no read has met is taken back. Otherwise readers will finish it, and
its writer forgets it. -/
def cancel (c : Channel) (write : Outstanding) : Step Channel Unit :=
  let c := { c with outstanding := none }
  if c.pipe.unmet write.stamp then
    (c.lift (c.pipe.vacate.map fun _ => ())).after
      [.logged (.withdrawn write.slice.bytes.length)]
  else .quiet () c

/-- A polled write fails at once in a closed pipe. Elsewhere it enters if it can, and then or
otherwise its waker waits. -/
def start (c : Channel) (slice : Slice) (waker : Waker) :
    Step Channel (Poll (Except ShortWrite Nat)) :=
  if c.pipe.closed then
    .quiet (.ready (.error ⟨0, c.pipe.reason .write⟩)) c
  else if c.pipe.occupied then
    .quiet .pending { c with pipe := c.pipe.park .write waker }
  else
    let placed := c.pipe.placeCopy slice.bytes
    { c with outstanding := some ⟨placed.value, slice⟩ }.lift
      ((placed.map fun _ => Poll.pending).within (·.park .write waker))

def pollWrite (c : Channel) (slice : Slice) (waker : Waker) :
    Step Channel (Poll (Except ShortWrite Nat)) :=
  match c.outstanding with
  | none => c.start slice waker
  | some write =>
    if write.slice = slice then c.watch write waker
    else
      let cancelled := c.cancel write
      (cancelled.state.start slice waker).after cancelled.effects

def pollFlush (c : Channel) (waker : Waker) : Step Channel (Poll (Except ShortWrite Unit)) :=
  match c.outstanding with
  | none => .quiet (.ready (.ok ())) c
  | some write => (c.watch write waker).map (Poll.map (Except.map fun _ => ()))

section

variable {c : Channel} {write : Outstanding} {slice : Slice}

theorem watch_of_gone (h : c.pipe.carries write.stamp = false) (waker : Waker) :
    c.watch write waker = (Step.quiet (.ready (.ok write.slice.bytes.length))
      { c with outstanding := none }).andThen [.logged (.consumed write.slice.bytes.length)] := by
  simp [watch, h]

theorem watch_of_cut (h : c.pipe.carries write.stamp = true) (hc : c.pipe.closed = true) (waker : Waker) :
    c.watch write waker = { c with outstanding := none }.lift (c.pipe.vacate.map fun written =>
      .ready (.error ⟨written, c.pipe.reason .write⟩)) := by
  simp [watch, h, hc]

theorem watch_of_waiting (h : c.pipe.carries write.stamp = true) (hc : c.pipe.closed = false)
    (waker : Waker) :
    c.watch write waker = .quiet .pending { c with pipe := c.pipe.park .write waker } := by
  simp [watch, h, hc]

theorem pollWrite_of_none (h : c.outstanding = none) (slice : Slice) (waker : Waker) :
    c.pollWrite slice waker = c.start slice waker := by
  rw [pollWrite, h]

theorem pollWrite_of_outstanding (h : c.outstanding = some write) (waker : Waker) :
    c.pollWrite write.slice waker = c.watch write waker := by
  simp [pollWrite, h]

theorem pollWrite_of_other (h : c.outstanding = some write) (hn : write.slice ≠ slice) (waker : Waker) :
    c.pollWrite slice waker =
      ((c.cancel write).state.start slice waker).after (c.cancel write).effects := by
  simp [pollWrite, h, hn]

theorem pollFlush_of_none (h : c.outstanding = none) (waker : Waker) :
    c.pollFlush waker = .quiet (.ready (.ok ())) c := by
  rw [pollFlush, h]

theorem pollFlush_of_outstanding (h : c.outstanding = some write) (waker : Waker) :
    c.pollFlush waker = (c.watch write waker).map (Poll.map (Except.map fun _ => ())) := by
  rw [pollFlush, h]

end

theorem unread_watch (c : Channel) (write : Outstanding) (waker : Waker) :
    (c.watch write waker).state.unread ≤ c.unread := by
  unfold watch
  split
  · exact Nat.le_refl _
  · split
    · simp
    · simp [unread]

theorem unread_cancel (c : Channel) (write : Outstanding) :
    (c.cancel write).state.unread ≤ c.unread := by
  unfold cancel
  dsimp only
  split
  · simp
  · exact Nat.le_refl _

theorem unread_start (c : Channel) (slice : Slice) (waker : Waker) :
    (c.start slice waker).state.unread ≤ c.unread + (slice.bytes.length + 1) := by
  unfold start
  split
  · exact Nat.le_add_right _ _
  · split
    · simp [unread]
    · simp [Pipe.placeCopy]

theorem unread_pollWrite (c : Channel) (slice : Slice) (waker : Waker) :
    (c.pollWrite slice waker).state.unread ≤ c.unread + (slice.bytes.length + 1) := by
  unfold pollWrite
  split
  · exact c.unread_start slice waker
  · rename_i write _
    split
    · exact Nat.le_trans (c.unread_watch write waker) (Nat.le_add_right _ _)
    · have h := (c.cancel write).state.unread_start slice waker
      have := c.unread_cancel write
      simp only [Step.state_after]
      omega

theorem unread_pollFlush (c : Channel) (waker : Waker) :
    (c.pollFlush waker).state.unread ≤ c.unread := by
  unfold pollFlush
  split
  · exact Nat.le_refl _
  · exact c.unread_watch _ waker

end Channel

end Handoff
