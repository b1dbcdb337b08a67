import LiveIngest.Http.Routing
import LiveIngest.Main
import LiveIngest.Traffic.Timeline
import LiveIngest.Proofs.Directory
import LiveIngest.Proofs.Handles
import LiveIngest.Proofs.Names
import LiveIngest.Proofs.Reading
import LiveIngest.Proofs.Dispatching
import LiveIngest.Proofs.Coherence
import LiveIngest.Proofs.Failing
import LiveIngest.Proofs.Linearizing
import LiveIngest.Proofs.Segments
import LiveIngest.Proofs.Agreement
import LiveIngest.Proofs.AppendOnly
import LiveIngest.Proofs.Answering
import LiveIngest.Proofs.Sequencing
import LiveIngest.Proofs.Exclusion
import LiveIngest.Proofs.Collecting
import LiveIngest.Proofs.Streaming
import LiveIngest.Proofs.Delimiters
import LiveIngest.Proofs.LockEntries
import LiveIngest.Proofs.Hastening
import LiveIngest.Proofs.Rates
import LiveIngest.Proofs.Truncation
import LiveIngest.Proofs.Lengths
import LiveIngest.Proofs.MediaTypes
import LiveIngest.Proofs.Boundaries
import LiveIngest.Proofs.Remains
import LiveIngest.Proofs.Splitting
import LiveIngest.Proofs.Hints
import LiveIngest.Proofs.Labels
import LiveIngest.Proofs.Progress
import LiveIngest.Proofs.Timelines
