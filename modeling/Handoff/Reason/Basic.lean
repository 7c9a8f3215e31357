/-!
Why operations on a pipe stop. A `Reason` is what a closer leaves behind and what the callers of
either half are told; a `Failure` is the same thing for callers of the byte-stream interface, who
look at its kind first. Both may carry any `Cause`, so they nest to any depth.
-/

namespace Handoff

/-- Kinds that only hosts, files, disks and processes know (an unreachable host, a full disk, a deadlock)
are left out, and so are failures known by no more than a number of the operating system. A pipe makes
none of them and would hand them on like those below. -/
inductive FailureKind
  | notFound | permissionDenied | connectionRefused | connectionReset | connectionAborted
  | notConnected | addressInUse | addressNotAvailable | brokenPipe | alreadyExists
  | wouldBlock | invalidInput | invalidData | timedOut | writeZero
  | interrupted | unsupported | unexpectedEnd | outOfMemory | other
  deriving DecidableEq, Repr

mutual

inductive Reason
  | closed
  | endOfStream
  | custom (cause : Cause)
  deriving DecidableEq

inductive Cause
  | text (message : String)
  | failure (failure : Failure)
  | reason (reason : Reason)
  | shortWrite (short : ShortWrite)
  deriving DecidableEq

inductive Failure
  | bare (kind : FailureKind)
  | carrying (kind : FailureKind) (cause : Cause)
  deriving DecidableEq

/-- A write that stopped after readers had received its first `written` bytes. -/
structure ShortWrite where
  written : Nat
  reason : Reason
  deriving DecidableEq

end

namespace Failure

def kind : Failure → FailureKind
  | bare kind => kind
  | carrying kind _ => kind

def holdsReason : Failure → Bool
  | carrying _ (.reason _) => true
  | _ => false

def toReason (failure : Failure) : Reason :=
  .custom (.failure failure)

end Failure

namespace Reason

def isEndOfStream : Reason → Bool
  | endOfStream => true
  | _ => false

/-- The kind looks one level deep: only a failure held directly passes its kind on. -/
def kind : Reason → FailureKind
  | closed => .brokenPipe
  | endOfStream => .unexpectedEnd
  | custom (.failure failure) => failure.kind
  | custom _ => .other

def toFailure (reason : Reason) : Failure :=
  .carrying reason.kind (.reason reason)

@[simp] theorem kind_toFailure (reason : Reason) : reason.toFailure.kind = reason.kind := rfl

@[simp] theorem kind_toReason (failure : Failure) : failure.toReason.kind = failure.kind := rfl

end Reason

def ShortWrite.toFailure (short : ShortWrite) : Failure :=
  short.reason.toFailure

mutual

/-- What lies beneath a cause: a short write stopped for a reason, and a failure shows what lies
beneath the cause it carries. -/
def Cause.beneath? : Cause → Option Reason
  | .shortWrite short => some short.reason
  | .failure failure => failure.beneath?
  | _ => none

def Failure.beneath? : Failure → Option Reason
  | .carrying _ cause => cause.beneath?
  | .bare _ => none

end

end Handoff
