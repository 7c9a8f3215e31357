import Handoff.Channel.Poll

/-!
The byte-stream interface: reads answer with bytes, writes with a count, and errors with a kind.
-/

namespace Handoff

namespace Stream

/-- The end of the stream is a read of no bytes. Every other reason is a failure. -/
def ofPull : Except Reason Bytes → Except Failure Bytes
  | .ok bytes => .ok bytes
  | .error .endOfStream => .ok []
  | .error reason => .error reason.toFailure

/-- A write that was cut short after some bytes succeeds with their count; its reason shows at the
next write. -/
def ofWrite : Except ShortWrite Nat → Except Failure Nat
  | .ok count => .ok count
  | .error short => if short.written = 0 then .error short.toFailure else .ok short.written

def ofFlush : Except ShortWrite Unit → Except Failure Unit
  | .ok () => .ok ()
  | .error short => .error short.toFailure

end Stream

namespace Channel

/-- Where a read of the byte stream has got to. Bytes pulled by a read with room are never empty,
for an empty write is not the end of the stream. -/
inductive Look
  | skipped
  | settled (result : Except Failure Bytes)

def Look.ofPull (room : Nat) : Except Reason Bytes → Look
  | .ok [] => if room = 0 then .settled (.ok []) else .skipped
  | result => .settled (Stream.ofPull result)

def look (c : Channel) (room : Nat) : Option (Step Channel Look) :=
  let pulled := c.pipe.pull room
  match pulled.value with
  | .ok (some bytes) => some (c.lift (pulled.map fun _ => .ofPull room (.ok bytes)))
  | .ok none =>
    if c.nonblocking then
      some (c.lift (pulled.map fun _ => .settled (.error (.bare .wouldBlock))))
    else none
  | .error reason => some (c.lift (pulled.map fun _ => .ofPull room (.error reason)))

theorem look_cases {c : Channel} {room : Nat} {s : Step Channel Look} (h : c.look room = some s) :
    (∃ result, (c.pipe.pull room).value = Except.map some result ∧
      s = c.lift ((c.pipe.pull room).map fun _ => .ofPull room result)) ∨
    ((c.pipe.pull room).value = .ok none ∧ c.nonblocking = true ∧
      s = c.lift ((c.pipe.pull room).map fun _ => .settled (.error (.bare .wouldBlock)))) := by
  unfold look at h
  dsimp only at h
  split at h
  · rename_i bytes hv
    exact .inl ⟨.ok bytes, hv, (Option.some.inj h).symm⟩
  · rename_i hv
    split at h
    · rename_i hn
      exact .inr ⟨hv, hn, (Option.some.inj h).symm⟩
    · simp at h
  · rename_i reason hv
    exact .inl ⟨.error reason, hv, (Option.some.inj h).symm⟩

def pollLook (c : Channel) (room : Nat) (waker : Waker) : Step Channel (Poll Look) :=
  c.lift ((c.pipe.pollPull room waker).map (Poll.map (Look.ofPull room)))

end Channel

end Handoff
