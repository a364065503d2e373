import Assay.Main
import Assay.Registry.Store
import Assay.Sample.Color
import Assay.Proofs.Spec.PostOrder
import Assay.Proofs.Run.Ruling
import Assay.Proofs.Value.KeySet
import Assay.Proofs.Comparison.Approx
import Assay.Proofs.Number.Nearest
import Assay.Proofs.Number.Shortest
import Assay.Proofs.Number.Reading
import Assay.Proofs.Json.Numeral
import Assay.Proofs.Json.Text
import Assay.Proofs.Json.Tree
import Assay.Proofs.Comparison.Strict
import Assay.Proofs.Value.Writable
import Assay.Proofs.Run.Completion
import Assay.Proofs.Comparison.Distance
import Assay.Proofs.Spec.Belonging
import Assay.Proofs.Spec.Refusal
import Assay.Proofs.Spec.Reading
import Assay.Proofs.Run.Course
import Assay.Proofs.Value.RoundTrip
import Assay.Proofs.Report.History
import Assay.Proofs.Registry.Laws
import Assay.Proofs.Plugin.Loading
import Assay.Proofs.Registry.Callable
import Assay.Proofs.Plugin.Remains
import Assay.Proofs.Spec.Obstacle
import Assay.Proofs.Spec.Outcome
import Assay.Proofs.Spec.Schema
import Assay.Proofs.Spec.Sound
import Assay.Proofs.Report.Form
import Assay.Proofs.Report.Completion
import Assay.Proofs.Report.Accepted
import Assay.Proofs.Report.Finished
import Assay.Proofs.Report.Session
import Assay.Proofs.Report.Selection
import Assay.Proofs.Cli.Exit
import Assay.Proofs.Value.Canonical
import Assay.Proofs.Comparison.Equivalence
import Assay.Proofs.Comparison.Family
import Assay.Proofs.Comparison.Spelling
import Assay.Proofs.Report.Counts
import Assay.Proofs.Comparison.Loosening
import Assay.Proofs.Comparison.Failure
import Assay.Proofs.Comparison.Normal
import Assay.Proofs.Run.Special
import Assay.Proofs.Report.Entries
import Assay.Proofs.Registry.Layering
import Assay.Proofs.Registry.Namespace
import Assay.Proofs.Sample.Color
import Assay.Spec.Build
import Assay.Proofs.Comparison.Conversion
import Assay.Proofs.Spec.Rebuilding
