import Handoff.Reason.Message
import Handoff.Reason.Outline
import Handoff.Session.Command
import Handoff.Proofs.Stream
import Handoff.Proofs.Frozen
import Handoff.Proofs.Blocked
import Handoff.Proofs.Pending
import Handoff.Proofs.Sessions
import Handoff.Proofs.Replay
import Handoff.Proofs.Looks
import Handoff.Proofs.Duet
import Handoff.Proofs.Rest
import Handoff.Proofs.Blame
import Handoff.Proofs.RoundTrip
import Handoff.Proofs.Driven
import Handoff.Proofs.Stamps
import Handoff.Proofs.Places
import Handoff.Proofs.Reported
import Handoff.Proofs.Cancelled
import Handoff.Proofs.Forsaken
import Handoff.Proofs.Heard
import Handoff.Proofs.Alone
import Handoff.Proofs.Blanks
import Handoff.Proofs.Woken
import Handoff.Proofs.Nesting
import Handoff.Proofs.Occupied
import Handoff.Proofs.Relay
