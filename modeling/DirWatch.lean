import DirWatch.Comparison
import DirWatch.Entry.Edit
import DirWatch.Glob
import DirWatch.Json
import DirWatch.Session.Create
import DirWatch.Arguments
import DirWatch.Command
import DirWatch.Proofs.Entry.Walk
import DirWatch.Proofs.Path
import DirWatch.Proofs.Comparison.Recursion
import DirWatch.Proofs.Comparison.Classification
import DirWatch.Proofs.Comparison.Kept
import DirWatch.Proofs.Comparison.Order
import DirWatch.Proofs.Comparison.Replay
import DirWatch.Proofs.Comparison.Convergence
import DirWatch.Proofs.Session.Effects
import DirWatch.Proofs.Table.Links
import DirWatch.Proofs.Session.Runs
import DirWatch.Proofs.Session.Registrations
import DirWatch.Proofs.Session.Closing
import DirWatch.Proofs.Capture.Soundness
import DirWatch.Proofs.Disk.Names
import DirWatch.Proofs.Table.Baselines
import DirWatch.Proofs.Session.Polls
import DirWatch.Proofs.Session.Replay
import DirWatch.Proofs.Session.Outlines
import DirWatch.Proofs.Session.Stages
import DirWatch.Proofs.Session.Moves
import DirWatch.Proofs.Session.Exclusion
import DirWatch.Proofs.Session.FanOut
import DirWatch.Proofs.Session.Calls
import DirWatch.Proofs.Session.Swaps
import DirWatch.Proofs.Capture.Determinism
import DirWatch.Proofs.Session.Retries
import DirWatch.Proofs.Session.Jobs
import DirWatch.Proofs.Session.Pace
import DirWatch.Proofs.Session.Ticks
import DirWatch.Proofs.Session.Loops
import DirWatch.Proofs.Session.Stacks
import DirWatch.Proofs.Session.Submissions
import DirWatch.Proofs.Disk.Descent
import DirWatch.Proofs.Capture.Presence
import DirWatch.Proofs.Session.Captures
import DirWatch.Proofs.Session.Joining
import DirWatch.Proofs.Capture.Termination
import DirWatch.Proofs.Session.Uninterrupted
import DirWatch.Proofs.Session.Isolation
import DirWatch.Proofs.Comparison.ByPath
import DirWatch.Proofs.Comparison.Sorting
import DirWatch.Proofs.Comparison.Silence
import DirWatch.Proofs.Capture.Recursion
import DirWatch.Proofs.Session.Snapshots
import DirWatch.Proofs.Capture.Pruning
import DirWatch.Proofs.Session.Pruning
import DirWatch.Proofs.Session.Lifecycle
import DirWatch.Proofs.Session.Stops
import DirWatch.Proofs.Capture.Changing
import DirWatch.Proofs.Session.Threads
import DirWatch.Proofs.Session.Requests
import DirWatch.Proofs.Table.Revocations
import DirWatch.Proofs.Capture.Success
import DirWatch.Proofs.Disk.Bounds
import DirWatch.Proofs.Resolution.Links
import DirWatch.Proofs.Resolution.Termination
import DirWatch.Proofs.Disk.Following
import DirWatch.Proofs.Resolution.Places
import DirWatch.Proofs.Session.Atomicity
import DirWatch.Proofs.Session.Completion
import DirWatch.Proofs.Session.Findings
import DirWatch.Proofs.Session.Roots
import DirWatch.Proofs.Session.Aliases
import DirWatch.Proofs.Table.Cancellations
import DirWatch.Proofs.Session.Cancellations
import DirWatch.Proofs.Log.Files
import DirWatch.Proofs.Log.Destinations
import DirWatch.Proofs.Glob.Classes
import DirWatch.Proofs.Glob.Language
import DirWatch.Proofs.Settings.Patterns
import DirWatch.Proofs.Snapshot.Lookup
import DirWatch.Proofs.Comparison.Stack
