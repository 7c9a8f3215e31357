import Handoff.Session.Schedule
import Handoff.Settings

/-!
What is done with a session from outside, and what it reports.
-/

namespace Handoff

inductive Command
  | call {half : Half} (prompt : Prompt half)
  /-- A polled write of a part of a named buffer, to its end if no length is given. -/
  | pollWrite (buffer : String) (offset : Nat) (length : Option Nat) (waker : Waker)
  | drop (half : Half)
  | spawn (half : Half) (name : String) (mode : Mode) (calls : List (Call half))
  | setBuffer (name : String) (bytes : Bytes)

inductive Response
  | answer (answer : Answer)
  | skipped (refusal : Refusal)
  deriving DecidableEq

structure Report where
  response : Option Response
  events : List Event
  log : List Entry
  wakes : List String
  active : List String

namespace Session

def start (settings : Settings) (channels : Nat) (buffers : List (String × Bytes)) : Session where
  links := List.replicate channels { channel := settings.opened }
  buffers := buffers

def buffer? (s : Session) (name : String) : Option Bytes :=
  s.buffers.lookup name

def slice? (s : Session) (name : String) (offset : Nat) (length : Option Nat) : Option Slice :=
  (s.buffer? name).map fun bytes =>
    let rest := bytes.drop offset
    ⟨name, offset, rest.take (length.getD rest.length)⟩

def setBuffer (s : Session) (name : String) (bytes : Bytes) : Session :=
  { s with buffers := s.buffers.map fun (key, old) =>
      (key, if key = name then bytes.take old.length ++ old.drop bytes.length else old) }

def performOn (s : Session) (link : Nat) (l : Link) {half : Half} (prompt : Prompt half) :
    Response × Session :=
  match l.refusal? half prompt.exclusive with
  | some refusal => (.skipped refusal, s)
  | none =>
    let step := l.perform prompt
    (.answer step.value, s.accept link step)

/-- A command on one of the links: `none` if there is no such link or buffer. -/
def execute (s : Session) (link : Nat) (command : Command) : Option (Response × Session) := do
  let l ← s.links[link]?
  match command with
  | .call prompt => return s.performOn link l prompt
  | .pollWrite buffer offset length waker =>
    let slice ← s.slice? buffer offset length
    return s.performOn link l (.pollWrite slice waker)
  | .drop half =>
    match l.refusal? half true with
    | some refusal => return (.skipped refusal, s)
    | none => return (.answer (.reply .done), s.accept link (l.dropHandle half))
  | .spawn half name mode calls =>
    match l.refusal? half (mode ≠ .share) with
    | some refusal => return (.skipped refusal, s)
    | none =>
      let task : Task := ⟨s.spawned, name, half, mode, 0, calls⟩
      return (.answer (.reply .done),
        { s with links := s.links.set link (l.spawn task), spawned := s.spawned + 1 })
  | .setBuffer name bytes =>
    let _ ← s.buffer? name
    return (.answer (.reply .done), s.setBuffer name bytes)

def report (s : Session) (response : Option Response) : Report × Session :=
  let notes := s.notes.reverse
  ({ response
     events := notes.filterMap fun | .event e => some e | _ => none
     log := notes.filterMap fun | .logged e => some e | _ => none
     wakes := notes.filterMap fun | .woke name => some name | _ => none
     active := s.roster.map fun (_, t) => t.name },
   { s with notes := [] })

/-- A command and its report. Unless it is held, the tasks have their turns in between. -/
def step (s : Session) (link : Nat) (command : Command) (held : Bool) :
    Option (Report × Session) :=
  (s.execute link command).map fun (response, s) =>
    (if held then s else s.settle).report (some response)

def closeHandle (s : Session) (link : Nat) (half : Half) : Session :=
  match s.links[link]? with
  | none => s
  | some l => (s.performOn link l (Prompt.close none : Prompt half)).2

def finish (s : Session) : Report :=
  let closed := (List.range s.links.length).foldl
    (fun s link => ((s.closeHandle link .write).closeHandle link .read).settle) s.settle
  (closed.report none).1

end Session

end Handoff
