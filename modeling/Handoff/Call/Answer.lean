import Handoff.Channel.Stream

/-!
What callers are told.
-/

namespace Handoff

inductive Reply
  | done
  | nothing
  | flag (value : Bool)
  | text (value : String)
  | count (value : Nat)
  | bytes (value : Bytes)
  | refused (reason : Reason)
  | shortWrite (short : ShortWrite)
  | failed (failure : Failure)
  /-- The reads of a whole stream in their order, and what the last read failed with, if not with
  the end of the stream. -/
  | drained (chunks : List Bytes) (failure : Option Failure)
  deriving DecidableEq

inductive Answer
  | reply (reply : Reply)
  | polled (poll : Poll Reply)
  deriving DecidableEq

namespace Reply

def ofPull : Except Reason Bytes → Reply
  | .ok got => .bytes got
  | .error reason => .refused reason

def ofSend : Except ShortWrite Nat → Reply
  | .ok all => .count all
  | .error short => .shortWrite short

def ofRead : Except Failure Bytes → Reply
  | .ok got => .bytes got
  | .error failure => .failed failure

def ofWrite : Except Failure Nat → Reply
  | .ok all => .count all
  | .error failure => .failed failure

def ofFlush : Except Failure Unit → Reply
  | .ok () => .done
  | .error failure => .failed failure

end Reply

end Handoff
