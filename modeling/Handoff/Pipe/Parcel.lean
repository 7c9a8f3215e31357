import Handoff.Pipe.Effect

/-!
The bytes of one write on their way to the readers. Readers get them front to back, as much at a
time as they have room for; a parcel without bytes is finished once a read has met it.
-/

namespace Handoff

def Origin.stamp? : Origin → Option UInt64
  | lent _ => none
  | copied stamp => some stamp

structure Parcel where
  origin : Origin
  bytes : Bytes
  passed : Nat
  /-- Whether any read has met this parcel, be it one with no room. -/
  met : Bool
  deriving DecidableEq, Repr

namespace Parcel

def fresh (origin : Origin) (bytes : Bytes) : Parcel :=
  ⟨origin, bytes, 0, false⟩

def rest (b : Parcel) : Bytes :=
  b.bytes.drop b.passed

def finished (b : Parcel) : Bool :=
  b.met && b.rest.isEmpty

def front (b : Parcel) (room : Nat) : Bytes :=
  b.rest.take room

def advance (b : Parcel) (room : Nat) : Parcel :=
  { b with passed := b.passed + (b.front room).length, met := true }

/-- A copy is let go as soon as it is finished; lent bytes stay until their writer has seen it. -/
def lapsed (b : Parcel) : Bool :=
  b.finished && b.origin.stamp?.isSome

def unread (b : Parcel) : Nat :=
  b.rest.length + if b.met then 0 else 1

theorem rest_advance (b : Parcel) (room : Nat) : (b.advance room).rest = b.rest.drop room := by
  simp only [advance, rest, front, List.length_take, List.length_drop, List.drop_drop]
  by_cases h : room ≤ b.bytes.length - b.passed
  · rw [Nat.min_eq_left h]
  · rw [List.drop_of_length_le (by omega), List.drop_of_length_le (by omega)]

theorem front_append_rest_advance (b : Parcel) (room : Nat) :
    b.front room ++ (b.advance room).rest = b.rest := by
  rw [rest_advance, front, List.take_append_drop]

theorem unread_fresh (origin : Origin) (bytes : Bytes) :
    (fresh origin bytes).unread = bytes.length + 1 := by
  simp [unread, fresh, rest]

theorem unread_advance (b : Parcel) (room : Nat) :
    (b.advance room).unread + (b.front room).length ≤ b.unread := by
  have h := congrArg List.length (b.front_append_rest_advance room)
  have hm : (b.advance room).unread = (b.advance room).rest.length := by simp [unread, advance]
  rw [List.length_append] at h
  rw [hm, unread]
  omega

theorem unread_advance_lt (b : Parcel) (room : Nat) (hf : b.finished = false)
    (hr : room ≠ 0 ∨ b.front room ≠ []) : (b.advance room).unread < b.unread := by
  have h := b.unread_advance room
  by_cases hb : b.front room = []
  · have he : b.rest = [] := by
      simpa [front, hr.resolve_right (not_not_intro hb)] using hb
    have hm : b.met = false := by simpa [finished, he] using hf
    have hl : (b.advance room).rest = [] := by rw [rest_advance, he, List.drop_nil]
    have ha : (b.advance room).met = true := rfl
    simp [unread, hl, ha, he, hm]
  · have := List.length_pos_iff.mpr hb
    omega

end Parcel

end Handoff
