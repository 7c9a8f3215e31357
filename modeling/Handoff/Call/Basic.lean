import Handoff.Call.Answer

/-!
Calls on the two handles, each as far as it has got. A call is made of steps that each have the
pipe to themselves; between two steps of one call any others may come. A `Prompt` never waits; a
`Call` may have to wait before its next step until the pipe has changed.
-/

namespace Handoff

inductive Prompt : Half → Type
  | tryReceive (room : Nat) : Prompt .read
  | pollRead (room : Nat) (waker : Waker) : Prompt .read
  | setNonblocking (on : Bool) : Prompt .read
  | pollWrite (slice : Slice) (waker : Waker) : Prompt .write
  | pollFlush (waker : Waker) : Prompt .write
  | pollClose (waker : Waker) : Prompt .write
  /-- The second step of a polled close, once its flush is ready. -/
  | closeFlushed (flushed : Except ShortWrite Unit) : Prompt .write
  | close {half : Half} (reason : Option Reason) : Prompt half
  | isClosed {half : Half} : Prompt half
  | describe {half : Half} : Prompt half

inductive Call : Half → Type
  | prompt {half : Half} (prompt : Prompt half) : Call half
  | receive (room : Nat) : Call .read
  | read (room : Nat) : Call .read
  /-- Reads until the end of the stream or a failure; `chunks` has the latest read first. -/
  | drain (room : Nat) (chunks : List Bytes) : Call .read
  | send (bytes : Bytes) (placed : Bool) : Call .write
  | write (bytes : Bytes) (placed : Bool) : Call .write
  | flush : Call .write

inductive Progress (α : Type)
  | onward (rest : α)
  | answered (answer : Answer)

namespace Progress

variable {α β : Type}

def map (f : α → β) : Progress α → Progress β
  | onward rest => onward (f rest)
  | answered answer => answered answer

def reply (reply : Reply) : Progress α :=
  answered (.reply reply)

def polled (poll : Poll Reply) : Progress α :=
  answered (.polled poll)

end Progress

namespace Prompt

def exclusive {half : Half} : Prompt half → Bool
  | pollRead _ _ | setNonblocking _ | pollWrite _ _ | pollFlush _ | pollClose _
  | closeFlushed _ => true
  | tryReceive _ | close _ | isClosed | describe => false

def advance {half : Half} (prompt : Prompt half) (c : Channel) :
    Step Channel (Progress (Prompt half)) :=
  match half, prompt with
  | _, tryReceive room => c.lift <| (c.pipe.pull room).map fun
    | .ok (some bytes) => .reply (.ofPull (.ok bytes))
    | .ok none => .reply .nothing
    | .error reason => .reply (.ofPull (.error reason))
  | _, pollRead room waker => (c.pollLook room waker).map fun
    | .pending => .polled .pending
    | .ready .skipped => .onward (pollRead room waker)
    | .ready (.settled result) => .polled (.ready (.ofRead result))
  | _, setNonblocking on => .quiet (.reply .done) { c with nonblocking := on }
  | _, pollWrite slice waker => (c.pollWrite slice waker).map fun poll =>
    .polled (poll.map fun result => .ofWrite (Stream.ofWrite result))
  | _, pollFlush waker => (c.pollFlush waker).map fun poll =>
    .polled (poll.map fun result => .ofFlush (Stream.ofFlush result))
  | _, pollClose waker => (c.pollFlush waker).map fun
    | .pending => .polled .pending
    | .ready flushed => .onward (closeFlushed flushed)
  | _, closeFlushed flushed => c.lift <| (c.pipe.close .write none).map fun _ =>
    .polled (.ready (.ofFlush (Stream.ofFlush flushed)))
  | half, close reason => c.lift <| (c.pipe.close half reason).map fun _ => .reply .done
  | _, isClosed => .quiet (.reply (.flag c.pipe.closed)) c
  | half, describe => .quiet (.reply (.text (c.outline half).line)) c

end Prompt

namespace Call

/-- The next step of a call made by the given thread: `none` while it has to wait. -/
def advance {half : Half} (owner : Nat) (call : Call half) (c : Channel) :
    Option (Step Channel (Progress (Call half))) :=
  match half, call with
  | _, prompt p => some ((p.advance c).map (Progress.map prompt))
  | _, receive room =>
    let pulled := c.pipe.pull room
    match pulled.value with
    | .ok none => none
    | .ok (some bytes) => some (c.lift (pulled.map fun _ => .reply (.ofPull (.ok bytes))))
    | .error reason => some (c.lift (pulled.map fun _ => .reply (.ofPull (.error reason))))
  | _, read room => (c.look room).map fun s => s.map fun
    | .skipped => .onward (read room)
    | .settled result => .reply (.ofRead result)
  | _, drain room chunks => (c.look room).map fun s => s.map fun
    | .skipped => .onward (drain room chunks)
    | .settled (.ok []) => .reply (.drained chunks.reverse none)
    | .settled (.ok chunk) => .onward (drain room (chunk :: chunks))
    | .settled (.error failure) => .reply (.drained chunks.reverse (some failure))
  | _, send bytes false => (c.pipe.enter owner bytes).map fun s => c.lift <| s.map fun
    | .ok () => .onward (send bytes true)
    | .error short => .reply (.ofSend (.error short))
  | _, send _ true => c.pipe.leave.map fun s => c.lift <| s.map fun result =>
    .reply (.ofSend result)
  | _, write bytes false => (c.pipe.enter owner bytes).map fun s => c.lift <| s.map fun
    | .ok () => .onward (write bytes true)
    | .error short => .reply (.ofWrite (Stream.ofWrite (.error short)))
  | _, write _ true => c.pipe.leave.map fun s => c.lift <| s.map fun result =>
    .reply (.ofWrite (Stream.ofWrite result))
  | _, flush => some (.quiet (.reply .done) c)

theorem receive_cases {owner room : Nat} {c : Channel} {s : Step Channel (Progress (Call .read))}
    (h : (receive room).advance owner c = some s) :
    ∃ result, (c.pipe.pull room).value = Except.map some result ∧
      s = c.lift ((c.pipe.pull room).map fun _ => .reply (.ofPull result)) := by
  simp only [advance] at h
  split at h
  · simp at h
  · rename_i bytes hv
    exact ⟨.ok bytes, hv, (Option.some.inj h).symm⟩
  · rename_i reason hv
    exact ⟨.error reason, hv, (Option.some.inj h).symm⟩

end Call

end Handoff
