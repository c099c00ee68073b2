import ClassRecovery.Session.Observation
import ClassRecovery.Session.Script
import ClassRecovery.Proofs.ClassFile.Grammar
import ClassRecovery.Proofs.ClassFile.Pool
import ClassRecovery.Proofs.Collector.FirstHit
import ClassRecovery.Proofs.Instrument.Callback
import ClassRecovery.Proofs.Instrument.Retransform
import ClassRecovery.Proofs.Collector.Wiring
import ClassRecovery.Proofs.Collector.Capture
import ClassRecovery.Proofs.Collector.Exactness
import ClassRecovery.Collector.Threads
import ClassRecovery.Proofs.Capture.Locks
import ClassRecovery.Proofs.Threads.Invariant
import ClassRecovery.Proofs.Threads.Steps
import ClassRecovery.Proofs.Threads.Delivery
import ClassRecovery.Proofs.Threads.Answers
import ClassRecovery.Proofs.Threads.Alone
import ClassRecovery.Proofs.Discovery.Closure
import ClassRecovery.Proofs.Loader.Definition
import ClassRecovery.Proofs.Jvm.Classes
import ClassRecovery.Proofs.Instrument.Without
import ClassRecovery.Proofs.Instrument.Isolation
import ClassRecovery.Proofs.Instrument.Nesting
import ClassRecovery.Proofs.Instrument.Installation
import ClassRecovery.Interleaving
import ClassRecovery.Instrument.Threads
import ClassRecovery.Agent.Threads
import ClassRecovery.Proofs.Interleaving
import ClassRecovery.Proofs.Loader.Reading
import ClassRecovery.Proofs.Agent.Frame
import ClassRecovery.Proofs.Instrument.Acquisition
import ClassRecovery.Proofs.Agent.Attachment
import ClassRecovery.Proofs.Agent.Alone
import ClassRecovery.Proofs.Agent.Once
import ClassRecovery.Proofs.Files.Pieces
import ClassRecovery.Proofs.Files.Below
import ClassRecovery.Proofs.Files.Approach
import ClassRecovery.Proofs.Files.Written
import ClassRecovery.Proofs.Archive.Packing
import ClassRecovery.Proofs.Archive.ReadBack
import ClassRecovery.Proofs.Archive.Plain
import ClassRecovery.Proofs.Loader.Package
import ClassRecovery.Proofs.Loader.Serving
import ClassRecovery.Proofs.Loader.Twins
import ClassRecovery.Proofs.ClassFile.Enumeration
import ClassRecovery.Proofs.ClassFile.Extent
import ClassRecovery.Proofs.Files.Absence
import ClassRecovery.Proofs.Loader.Absence
import ClassRecovery.Proofs.Jvm.Answers
import ClassRecovery.Proofs.Jvm.Numbering
import ClassRecovery.Proofs.Jvm.Meeting
import ClassRecovery.Proofs.Loader.Provenance
import ClassRecovery.Proofs.Loader.Identity
import ClassRecovery.Proofs.ClassFile.Count
import ClassRecovery.Proofs.Instrument.LastAnswer
import ClassRecovery.Proofs.Agent.Folding
import ClassRecovery.Proofs.Files.Without
import ClassRecovery.Proofs.Files.Located
import ClassRecovery.Proofs.Files.Permissions
import ClassRecovery.Proofs.Collector.Sweeping
import ClassRecovery.Proofs.Collector.DumpTree
import ClassRecovery.Proofs.Instrument.Pipeline
import ClassRecovery.Proofs.Collector.Capability
import ClassRecovery.Proofs.Collector.Draining
import ClassRecovery.Instrument.Sharing
import ClassRecovery.Proofs.Instrument.Registering
import ClassRecovery.Proofs.Instrument.Placement
import ClassRecovery.Proofs.Instrument.Sharing
import ClassRecovery.Proofs.Instrument.Mirror
import ClassRecovery.Proofs.Instrument.Requests
import ClassRecovery.Proofs.Text.Utf8
import ClassRecovery.Proofs.Text.Decimal
import ClassRecovery.Proofs.Text.Lines
import ClassRecovery.Proofs.Attach.Reply
import ClassRecovery.Proofs.Attach.Request
import ClassRecovery.Proofs.Files.Made
import ClassRecovery.Proofs.Files.Content
import ClassRecovery.Proofs.Agent.Artifact
import ClassRecovery.Proofs.Agent.Building
import ClassRecovery.Proofs.Agent.Lifecycle
import ClassRecovery.Proofs.Loader.Delegation
import ClassRecovery.Proofs.Loader.Members
import ClassRecovery.Proofs.Discovery.Looking
import ClassRecovery.Proofs.Discovery.Inside
import ClassRecovery.Proofs.Discovery.Probing
import ClassRecovery.Proofs.SourceText.Order
import ClassRecovery.Proofs.Text.Separated
import ClassRecovery.Proofs.Files.Parents
import ClassRecovery.Proofs.Options.Keys
import ClassRecovery.Proofs.Options.Items
import ClassRecovery.Proofs.Options.Artifact
import ClassRecovery.Instrument.Client
import ClassRecovery.Jvm.Threads
import ClassRecovery.Proofs.Ensures
import ClassRecovery.Proofs.Jvm.References
import ClassRecovery.Proofs.Jvm.Ledger
import ClassRecovery.Proofs.Jvm.Checking
import ClassRecovery.Proofs.Jvm.Resources
import ClassRecovery.Proofs.Jvm.Holdings
import ClassRecovery.Proofs.Jvm.Releases
import ClassRecovery.Proofs.Jvm.Operations
import ClassRecovery.Proofs.Instrument.Balance
import ClassRecovery.Proofs.Instrument.Client
import ClassRecovery.Proofs.Jvm.Threads
import ClassRecovery.Proofs.Jvm.Throwing
import ClassRecovery.Proofs.Jvm.Reading
import ClassRecovery.Proofs.Loader.Containment
import ClassRecovery.Proofs.Slot
import ClassRecovery.Proofs.Capture.Threads
import ClassRecovery.Capture.Exclusion
import ClassRecovery.Proofs.Capture.Exclusion
import ClassRecovery.Proofs.Instrument.Agreement
import ClassRecovery.Proofs.Instrument.Marks
