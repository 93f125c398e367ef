import Os2024.FileSystem.Crash
import Os2024.FileSystem.Guards
import Os2024.FileSystem.Links
import Os2024.Library.ExclusiveTargets
import Os2024.Library.Runs
import Os2024.Memory.Paging
import Os2024.Memory.Frames
import Os2024.Process.Accounting
import Os2024.Process.Answers
import Os2024.Process.Contexts
import Os2024.Process.Preemption
import Os2024.Process.RoundRobin
import Os2024.Shell.Lookup
import Os2024.FileSystem.Moving
import Os2024.Shell.Commands
import Os2024.Shell.Image
import Os2024.Shell.Moves
import Os2024.Library.Preorder
import Os2024.Shell.GuardedSessions
import Os2024.Shell.Searching
import Os2024.FileSystem.Commuting
import Os2024.FileSystem.Inserter
import Os2024.FileSystem.Listing
import Os2024.FileSystem.Reboots
import Os2024.FileSystem.Undo
import Os2024.FileSystem.Walks
import Os2024.FileSystem.Outcomes
import Os2024.Process.Release
import Os2024.Shell.Copies
import Os2024.Clock.Readings
import Os2024.FileSystem.Confinement
import Os2024.Library.LoopUpdates
import Os2024.Memory.Allocation
import Os2024.Process.Unmapping
import Os2024.Shell.MainLoop
import Os2024.Shell.Tokenizer
import Os2024.Terminal.Delivery
import Os2024.Terminal.Scrolling
import Os2024.Library.CutRuns
import Os2024.Disk.PowerLoss
import Os2024.Process.PrivateMemory
import Os2024.Interrupts.Requests
