import Handoff.Reason.Basic

/-!
The one-line texts of reasons and failures. A wrapper has no text of its own: whatever is carried
speaks for it, and only a short write adds its count.
-/

namespace Handoff

def FailureKind.message : FailureKind → String
  | notFound => "entity not found"
  | permissionDenied => "permission denied"
  | connectionRefused => "connection refused"
  | connectionReset => "connection reset"
  | connectionAborted => "connection aborted"
  | notConnected => "not connected"
  | addressInUse => "address in use"
  | addressNotAvailable => "address not available"
  | brokenPipe => "broken pipe"
  | alreadyExists => "entity already exists"
  | wouldBlock => "operation would block"
  | invalidInput => "invalid input parameter"
  | invalidData => "invalid data"
  | timedOut => "timed out"
  | writeZero => "write zero"
  | interrupted => "operation interrupted"
  | unsupported => "unsupported"
  | unexpectedEnd => "unexpected end of file"
  | outOfMemory => "out of memory"
  | other => "other error"

mutual

def Reason.message : Reason → String
  | .closed => "read/write on closed pipe"
  | .endOfStream => "end of stream"
  | .custom cause => cause.message

def Cause.message : Cause → String
  | .text message => message
  | .failure failure => failure.message
  | .reason reason => reason.message
  | .shortWrite short => short.message

def Failure.message : Failure → String
  | .bare kind => kind.message
  | .carrying _ cause => cause.message

def ShortWrite.message : ShortWrite → String
  | ⟨written, reason⟩ => reason.message ++ " after writing " ++ toString written ++ " bytes"

end

@[simp] theorem Reason.message_toFailure (reason : Reason) :
    reason.toFailure.message = reason.message := by
  simp [Reason.toFailure, Failure.message, Cause.message]

@[simp] theorem Failure.message_toReason (failure : Failure) :
    failure.toReason.message = failure.message := by
  simp [Failure.toReason, Reason.message, Cause.message]

end Handoff
