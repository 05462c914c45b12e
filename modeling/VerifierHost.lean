import VerifierHost.Host.Trace
import VerifierHost.Json.Spelled
import VerifierHost.Main
import VerifierHost.Process.Capture
import VerifierHost.Proofs.Run.Chronicle
import VerifierHost.Proofs.Run.Tracking
import VerifierHost.Proofs.Run.Forgetting
import VerifierHost.Proofs.Run.Decorations
import VerifierHost.Proofs.Run.Completion
import VerifierHost.Proofs.Run.Showing
import VerifierHost.Proofs.Run.Agreement
import VerifierHost.Proofs.Server.Overtaking
import VerifierHost.Proofs.Process.Waking
import VerifierHost.Proofs.Process.Decoding
import VerifierHost.Proofs.Session.Aside
import VerifierHost.Proofs.Session.Sound
import VerifierHost.Proofs.Session.Course
import VerifierHost.Proofs.Waiting.Named
import VerifierHost.Proofs.Waiting.News
import VerifierHost.Proofs.Waiting.Updates
import VerifierHost.Proofs.Session.Waiters
import VerifierHost.Proofs.Session.Runners
import VerifierHost.Proofs.Session.Shape
import VerifierHost.Proofs.Session.Steps
import VerifierHost.Proofs.Session.Superseded
import VerifierHost.Proofs.Session.Forsaken
import VerifierHost.Proofs.Session.Moves
import VerifierHost.Proofs.Server.Custody
import VerifierHost.Proofs.Server.Hearsay
import VerifierHost.Proofs.Run.Annotations
import VerifierHost.Proofs.Session.Delivery
import VerifierHost.Proofs.Run.Unusable
import VerifierHost.Proofs.Session.StatusLine
import VerifierHost.Proofs.Session.IssueOrder
import VerifierHost.Proofs.Server.Attempts
import VerifierHost.Proofs.Server.Stages
import VerifierHost.Proofs.Server.Concurrent
import VerifierHost.Proofs.Diagnostic.Flattening
import VerifierHost.Proofs.Diagnostic.OffMap
import VerifierHost.Proofs.Annotation.Changed
import VerifierHost.Proofs.Session.Refreshes
import VerifierHost.Proofs.Session.Verifiers
import VerifierHost.Proofs.Session.Disposal
import VerifierHost.Proofs.Diagnostic.Merging
import VerifierHost.Proofs.Source.Innermost
import VerifierHost.Proofs.Run.Classification
import VerifierHost.Proofs.Run.Hiding
import VerifierHost.Proofs.Location.RoundTrip
import VerifierHost.Proofs.Findings.Erasure
