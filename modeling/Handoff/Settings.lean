import Handoff.Channel.Basic

/-!
Settings from which channels are opened.
-/

namespace Handoff

structure Settings where
  nonblocking : Bool := false
  deriving DecidableEq, Repr

namespace Settings

def withNonblocking (settings : Settings) (on : Bool) : Settings :=
  { settings with nonblocking := on }

def opened (settings : Settings) : Channel :=
  { nonblocking := settings.nonblocking }

def outline (settings : Settings) : Text.Outline :=
  .record "PipeBuilder" [] "flags" (.word (if settings.nonblocking then "1" else "0"))

end Settings

end Handoff
