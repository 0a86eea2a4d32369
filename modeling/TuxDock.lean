import TuxDock.Http.Truncation
import TuxDock.Http.Sound
import TuxDock.Http.Declared
import TuxDock.Http.Monotone
import TuxDock.Reaper.Translation
import TuxDock.Reaper.Execvp
import TuxDock.Reaper.Forward
import TuxDock.Reaper.Reaping
import TuxDock.Reaper.Outcome
import TuxDock.Process.Capture
import TuxDock.History.Runs
import TuxDock.History.Atomic
import TuxDock.App.Refresh
import TuxDock.App.Modal
import TuxDock.App.Announce
import TuxDock.App.Finish
import TuxDock.App.Converge
import TuxDock.App.Detour
import TuxDock.App.Wizard
import TuxDock.App.Output
import TuxDock.App.Create
import TuxDock.App.Offer
import TuxDock.App.Traps
import TuxDock.App.Record
import TuxDock.App.Reported
import TuxDock.App.Closing
import TuxDock.Docker.Poller
import TuxDock.Docker.Retry
import TuxDock.Docker.Images
import TuxDock.Docker.Containers
import TuxDock.Process.Child
import TuxDock.Http.Wire
import TuxDock.Http.Sockets
import TuxDock.Docker.Requests
import TuxDock.App.Commands
