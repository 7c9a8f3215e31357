import Handoff.Pipe.Transfer
import Handoff.Text.Outline

/-!
A pipe together with what its two handles know: whether the reader refuses to wait, and which
polled write its writer has left in the pipe.
-/

namespace Handoff

/-- A part of a named buffer. The name and the offset are its address, even where it is empty. -/
structure Slice where
  buffer : String
  offset : Nat
  bytes : Bytes
  deriving DecidableEq, Repr

/-- A polled write that its writer has put into the pipe and not yet seen the end of. -/
structure Outstanding where
  stamp : UInt64
  slice : Slice
  deriving DecidableEq, Repr

structure Channel where
  pipe : Pipe := {}
  nonblocking : Bool := false
  outstanding : Option Outstanding := none
  deriving DecidableEq

namespace Channel

def unread (c : Channel) : Nat :=
  c.pipe.unread

def lift {α : Type} (c : Channel) (s : Step Pipe α) : Step Channel α :=
  s.within fun p => { c with pipe := p }

@[simp] theorem value_lift {α : Type} (c : Channel) (s : Step Pipe α) :
    (c.lift s).value = s.value := rfl

@[simp] theorem pipe_lift {α : Type} (c : Channel) (s : Step Pipe α) :
    (c.lift s).state.pipe = s.state := rfl

@[simp] theorem effects_lift {α : Type} (c : Channel) (s : Step Pipe α) :
    (c.lift s).effects = s.effects := rfl

@[simp] theorem unread_lift {α : Type} (c : Channel) (s : Step Pipe α) :
    (c.lift s).state.unread = s.state.unread := rfl

def outline (c : Channel) : Half → Text.Outline
  | .read => .record "PipeReader" [("nonblocking", toString c.nonblocking)] "closed"
      (.word (toString c.pipe.closed))
  | .write => .record "PipeWriter" [] "closed" (.word (toString c.pipe.closed))

end Channel

end Handoff
