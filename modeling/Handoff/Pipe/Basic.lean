import Handoff.Pipe.Parcel
import Handoff.Reason.Basic

/-!
A pipe between its two halves. It stores nothing but the one parcel that readers are working on.
Closing it is final, and each half keeps the reason of its own first close.
-/

namespace Handoff

structure Pipe where
  /-- A write has the pipe to itself, whether or not readers are done with its parcel. -/
  occupied : Bool := false
  parcel : Option Parcel := none
  nextStamp : UInt64 := 0
  waitingReaders : List Waker := []
  waitingWriters : List Waker := []
  closed : Bool := false
  readReason : Option Reason := none
  writeReason : Option Reason := none
  deriving DecidableEq

namespace Pipe

def available (p : Pipe) : Option Parcel :=
  p.parcel.filter fun b => !b.finished

def consumed (p : Pipe) : Bool :=
  p.parcel.any Parcel.finished

/-- A blocked read goes on once this holds. -/
def readable (p : Pipe) : Bool :=
  p.closed || p.available.isSome

/-- A blocked write that has put up nothing yet goes on once this holds. -/
def enterable (p : Pipe) : Bool :=
  p.closed || !p.occupied

/-- A blocked write whose parcel is in the pipe goes on once this holds. -/
def leavable (p : Pipe) : Bool :=
  p.consumed || p.closed

def unread (p : Pipe) : Nat :=
  (p.parcel.map Parcel.unread).getD 0

def ownReason (p : Pipe) : Half → Option Reason
  | .read => p.readReason
  | .write => p.writeReason

/-- Each half is told its own reason before the other's. -/
def reason (p : Pipe) (half : Half) : Reason :=
  ((p.ownReason half).or (p.ownReason half.other)).getD .closed

def waiting (p : Pipe) : Half → List Waker
  | .read => p.waitingReaders
  | .write => p.waitingWriters

/-- A waker waits at most once on each half, in the place it first took. -/
def park (p : Pipe) (half : Half) (waker : Waker) : Pipe :=
  if waker ∈ p.waiting half then p
  else match half with
    | .read => { p with waitingReaders := p.waitingReaders ++ [waker] }
    | .write => { p with waitingWriters := p.waitingWriters ++ [waker] }

/-- Every blocked call hears of the change, and every waiting waker is woken and forgotten. -/
def announce (p : Pipe) : Step Pipe Unit where
  value := ()
  state := { p with waitingReaders := [], waitingWriters := [] }
  effects := .announced :: (p.waitingReaders ++ p.waitingWriters).map .woke

def defaultReason : Half → Reason
  | .read => .closed
  | .write => .endOfStream

def keepReason (p : Pipe) (half : Half) (reason : Reason) : Pipe :=
  match half with
  | .read => { p with readReason := p.readReason.or (some reason) }
  | .write => { p with writeReason := p.writeReason.or (some reason) }

def shut (p : Pipe) (half : Half) : Step Pipe Unit where
  value := ()
  state := { p with closed := true }
  effects := if p.closed then [] else [.logged (.closed half)]

/-- A close keeps its reason first, then shuts the pipe, and then announces it. -/
def close (p : Pipe) (half : Half) (reason : Option Reason) : Step Pipe Unit :=
  let closed := (p.keepReason half (reason.getD (defaultReason half))).shut half
  closed.state.announce.after closed.effects

@[simp] theorem occupied_announce (p : Pipe) : p.announce.state.occupied = p.occupied := rfl
@[simp] theorem parcel_announce (p : Pipe) : p.announce.state.parcel = p.parcel := rfl
@[simp] theorem closed_announce (p : Pipe) : p.announce.state.closed = p.closed := rfl

@[simp] theorem waiting_announce (p : Pipe) (half : Half) : p.announce.state.waiting half = [] := by
  cases half <;> rfl

theorem mem_effects_announce {p : Pipe} {e : Effect} :
    e ∈ p.announce.effects ↔ e = .announced ∨ ∃ half, ∃ w ∈ p.waiting half, e = .woke w := by
  simp only [announce, List.mem_cons, List.mem_map, List.mem_append]
  constructor
  · rintro (h | ⟨w, hw | hw, rfl⟩)
    · exact .inl h
    · exact .inr ⟨.read, w, hw, rfl⟩
    · exact .inr ⟨.write, w, hw, rfl⟩
  · rintro (h | ⟨half, w, hw, rfl⟩)
    · exact .inl h
    · refine .inr ⟨w, ?_, rfl⟩
      cases half
      · exact .inl hw
      · exact .inr hw

theorem effects_close (p : Pipe) (half : Half) (reason : Option Reason) :
    (p.close half reason).effects =
      (if p.closed then [] else [.logged (.closed half)]) ++ p.announce.effects := by
  cases half <;> rfl

@[simp] theorem occupied_close (p : Pipe) (half : Half) (reason : Option Reason) :
    (p.close half reason).state.occupied = p.occupied := by
  cases half <;> rfl

@[simp] theorem parcel_close (p : Pipe) (half : Half) (reason : Option Reason) :
    (p.close half reason).state.parcel = p.parcel := by
  cases half <;> rfl

@[simp] theorem closed_close (p : Pipe) (half : Half) (reason : Option Reason) :
    (p.close half reason).state.closed = true := rfl

@[simp] theorem occupied_park (p : Pipe) (half : Half) (waker : Waker) :
    (p.park half waker).occupied = p.occupied := by
  unfold park
  split
  · rfl
  · cases half <;> rfl

@[simp] theorem parcel_park (p : Pipe) (half : Half) (waker : Waker) :
    (p.park half waker).parcel = p.parcel := by
  unfold park
  split
  · rfl
  · cases half <;> rfl

@[simp] theorem closed_park (p : Pipe) (half : Half) (waker : Waker) :
    (p.park half waker).closed = p.closed := by
  unfold park
  split
  · rfl
  · cases half <;> rfl

theorem mem_waiting_park {p : Pipe} {half other : Half} {waker w : Waker} :
    w ∈ (p.park half waker).waiting other ↔ w ∈ p.waiting other ∨ other = half ∧ w = waker := by
  unfold park
  split
  · constructor
    · exact .inl
    · rintro (h | ⟨rfl, rfl⟩)
      · exact h
      · assumption
  · cases half <;> cases other <;> simp [waiting]

@[simp] theorem unread_announce (p : Pipe) : p.announce.state.unread = p.unread := rfl

@[simp] theorem unread_park (p : Pipe) (half : Half) (waker : Waker) :
    (p.park half waker).unread = p.unread := by
  unfold park
  split
  · rfl
  · cases half <;> rfl

@[simp] theorem unread_close (p : Pipe) (half : Half) (reason : Option Reason) :
    (p.close half reason).state.unread = p.unread := by
  cases half <;> rfl

end Pipe

end Handoff
