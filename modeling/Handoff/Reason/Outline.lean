import Handoff.Reason.Basic
import Handoff.Text.Outline

/-!
The structural texts of reasons and failures, from which their whole nesting can be read.
-/

namespace Handoff

open Text

def FailureKind.name : FailureKind → String
  | notFound => "NotFound"
  | permissionDenied => "PermissionDenied"
  | connectionRefused => "ConnectionRefused"
  | connectionReset => "ConnectionReset"
  | connectionAborted => "ConnectionAborted"
  | notConnected => "NotConnected"
  | addressInUse => "AddrInUse"
  | addressNotAvailable => "AddrNotAvailable"
  | brokenPipe => "BrokenPipe"
  | alreadyExists => "AlreadyExists"
  | wouldBlock => "WouldBlock"
  | invalidInput => "InvalidInput"
  | invalidData => "InvalidData"
  | timedOut => "TimedOut"
  | writeZero => "WriteZero"
  | interrupted => "Interrupted"
  | unsupported => "Unsupported"
  | unexpectedEnd => "UnexpectedEof"
  | outOfMemory => "OutOfMemory"
  | other => "Other"

def FailureKind.all : List FailureKind :=
  [notFound, permissionDenied, connectionRefused, connectionReset, connectionAborted, notConnected,
    addressInUse, addressNotAvailable, brokenPipe, alreadyExists, wouldBlock, invalidInput,
    invalidData, timedOut, writeZero, interrupted, unsupported, unexpectedEnd, outOfMemory, other]

def FailureKind.ofName? (name : String) : Option FailureKind :=
  all.find? (·.name = name)

theorem FailureKind.ofName?_name (kind : FailureKind) : ofName? kind.name = some kind := by
  cases kind <;> decide

mutual

def Reason.outline : Reason → Outline
  | .closed => .word "Closed"
  | .endOfStream => .word "EndOfStream"
  | .custom cause => .tuple "Custom" cause.outline

def Cause.outline : Cause → Outline
  | .text message => .quote message
  | .failure failure => failure.outline
  | .reason reason => reason.outline
  | .shortWrite short => short.outline

def Failure.outline : Failure → Outline
  | .bare kind => .tuple "Kind" (.word kind.name)
  | .carrying kind cause => .record "Custom" [("kind", kind.name)] "error" cause.outline

def ShortWrite.outline : ShortWrite → Outline
  | ⟨written, reason⟩ => .record "WriteError" [("written", toString written)] "error" reason.outline

end

end Handoff
