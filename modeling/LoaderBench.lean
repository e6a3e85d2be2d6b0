import LoaderBench.Fixture.Build
import LoaderBench.Loader.Shelf
import LoaderBench.Log.Validation
import LoaderBench.Main
import LoaderBench.Proofs.Host.SideChannel
import LoaderBench.Proofs.Host.Transcript
import LoaderBench.Proofs.Loader.Ownership
import LoaderBench.Proofs.Log.Capacity
import LoaderBench.Proofs.Log.Reading
import LoaderBench.Proofs.Staging.BuildDirectory
import LoaderBench.Proofs.Staging.FailStop
import LoaderBench.Proofs.Staging.Integrity
import LoaderBench.Proofs.Staging.Leftovers
import LoaderBench.Proofs.Loader.Failure
import LoaderBench.Proofs.Loader.Accounting
import LoaderBench.Proofs.Json.Members
import LoaderBench.Proofs.Log.Schema
import LoaderBench.Proofs.Log.Rewriting
import LoaderBench.Proofs.Log.Tearing
import LoaderBench.Proofs.Host.Diagnostic
import LoaderBench.Proofs.Host.Statuses
import LoaderBench.Proofs.Platform.Environment
import LoaderBench.Proofs.Staging.TestRun
import LoaderBench.Proofs.Staging.TestDirectories
import LoaderBench.Proofs.Staging.IndexFile
import LoaderBench.Proofs.Fixture.Building
import LoaderBench.Proofs.Log.Sharing
import LoaderBench.Proofs.Fixture.Variants
import LoaderBench.Proofs.Log.Truncation
import LoaderBench.Proofs.Time.Order
import LoaderBench.Proofs.Artifact.Truncation
import LoaderBench.Proofs.Staging.Summary
import LoaderBench.Proofs.Digest.Standard
import LoaderBench.Proofs.Staging.Additions
import LoaderBench.Proofs.Artifact.Presentation
import LoaderBench.Proofs.Host.Verdict
import LoaderBench.Proofs.Log.Numbering
import LoaderBench.Proofs.Staging.Handover
import LoaderBench.Proofs.Staging.Names
import LoaderBench.Proofs.Host.Settings
