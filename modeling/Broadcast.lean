import Broadcast.Main
import Broadcast.Session.Hand
import Broadcast.Text.Utf8
import Broadcast.Proofs.Group.Settle
import Broadcast.Proofs.State.Runs
import Broadcast.Proofs.State.WellFormed
import Broadcast.Proofs.Device.Calls
import Broadcast.Proofs.Device.Send
import Broadcast.Proofs.Device.Wire
import Broadcast.Proofs.Files.Replace
import Broadcast.Proofs.Settings.Sharing
import Broadcast.Proofs.State.CustomMode
import Broadcast.Proofs.Session.Orders
import Broadcast.Proofs.Files.Again
import Broadcast.Proofs.Settings.RoundTrip
import Broadcast.Proofs.Settings.Patch
import Broadcast.Proofs.State.Independence
import Broadcast.Proofs.Settings.FailedWrites
import Broadcast.Proofs.Session.Agreement
import Broadcast.Proofs.Session.Injection
import Broadcast.Proofs.Header.Names
import Broadcast.Proofs.Session.Rebuilds
import Broadcast.Proofs.State.Refusals
import Broadcast.Proofs.Files.Growing
import Broadcast.Proofs.Session.Restart
import Broadcast.Proofs.Header.Declarations
import Broadcast.Proofs.Settings.Meaning
import Broadcast.Proofs.State.Resizing
import Broadcast.Proofs.State.NormalForms
import Broadcast.Proofs.State.Commuting
import Broadcast.Proofs.Session.ChosenHeader
import Broadcast.Proofs.Header.Candidates
import Broadcast.Proofs.Session.Journal
import Broadcast.Proofs.Startup
