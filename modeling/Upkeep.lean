import Upkeep.Archive
import Upkeep.Dependency.Assets
import Upkeep.Main
import Upkeep.Release.Sample
import Upkeep.Proofs.Patch.Laws
import Upkeep.Proofs.Json.Grammar
import Upkeep.Proofs.Json.Layout
import Upkeep.Proofs.Json.Site
import Upkeep.Proofs.Manifest.Section
import Upkeep.Proofs.Manifest.Match
import Upkeep.Proofs.Manifest.Edit
import Upkeep.Proofs.Manifest.InStep
import Upkeep.Proofs.Checksum.Cache
import Upkeep.Proofs.Manifest.Regular
import Upkeep.Proofs.Engine
import Upkeep.Proofs.Update.Order
import Upkeep.Proofs.Update.Outcome
import Upkeep.Proofs.Update.Run
import Upkeep.Proofs.Manifest.Anchored
import Upkeep.Proofs.Manifest.Rendered
import Upkeep.Proofs.Manifest.Resolution
import Upkeep.Proofs.Update.Report
import Upkeep.Proofs.Update.Repeat
import Upkeep.Proofs.Update.Requests
import Upkeep.Proofs.Record
import Upkeep.Proofs.Update.Gates
import Upkeep.Proofs.Update.Success
import Upkeep.Proofs.Files.AtomicWrite
import Upkeep.Proofs.Files.AllOrNothing
import Upkeep.Proofs.Update.Saved
import Upkeep.Proofs.Once.Progress
import Upkeep.Proofs.Checksum.Concurrent
import Upkeep.Proofs.Checksum.Exchanges
import Upkeep.Proofs.Once.Lead
import Upkeep.Proofs.Checksum.Answers
import Upkeep.Proofs.Checksum.Transparent
import Upkeep.Proofs.Checksum.Hex
import Upkeep.Proofs.Served
import Upkeep.Proofs.Release.Concurrent
import Upkeep.Proofs.Update.Assets
import Upkeep.Proofs.Replay
import Upkeep.Proofs.Update.Answers
import Upkeep.Proofs.Update.Halves
import Upkeep.Proofs.Update.Sought
import Upkeep.Proofs.Update.Outage
import Upkeep.Proofs.Update.Retry
import Upkeep.Proofs.Text.Cuts
import Upkeep.Proofs.Manifest.Unresolved
import Upkeep.Proofs.Manifest.Frame
import Upkeep.Proofs.Update.Candidates
import Upkeep.Proofs.Checksum.Listing
import Upkeep.Proofs.Release.Notes
import Upkeep.Proofs.Update.Template
import Upkeep.Proofs.Release.Pattern
import Upkeep.Proofs.Checksum.Sidecar
import Upkeep.Proofs.Update.Tracked
import Upkeep.Proofs.Version.Forms
import Upkeep.Proofs.Version.Highest
import Upkeep.Proofs.Dependency.Entries
import Upkeep.Proofs.Dependency.Assets
