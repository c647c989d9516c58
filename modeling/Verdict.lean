import Verdict.Admission.BadNews
import Verdict.Admission.LadderEvidence
import Verdict.BoundedRecovery.Promises
import Verdict.BoundedRecovery.TokenQuota
import Verdict.Claims.Runs
import Verdict.Compaction.Preservation
import Verdict.Context.Hydrated
import Verdict.Context.Safety
import Verdict.Contracts.Layers
import Verdict.Decision.Verification
import Verdict.Eligibility.Sharing
import Verdict.EventLog.Recovery
import Verdict.Evidence.Disk
import Verdict.HealthCache.Available
import Verdict.HealthCache.Backoff
import Verdict.HealthCache.Reload
import Verdict.HealthCache.Zeroed
import Verdict.Memory.Delivery
import Verdict.Outcome.Recording
import Verdict.Passport.Exact
import Verdict.Patch.Boundary
import Verdict.Patch.Cleaning
import Verdict.Patch.ExactDiff
import Verdict.Patch.SearchReplace
import Verdict.Plane.Export
import Verdict.Planner.Stored
import Verdict.Policy.FailClosed
import Verdict.Prime.Forward
import Verdict.Prime.Writers
import Verdict.Proof.Agreement
import Verdict.Receipt.StaleReview
import Verdict.ReceiptStore.Retention
import Verdict.Recovery.Blame
import Verdict.Review.Attempt
import Verdict.Runtime.Inflight
import Verdict.Runtime.Reopening
import Verdict.Salvage.Lossless
import Verdict.Session.Careful
import Verdict.Stream.Closing
import Verdict.Strength.History
import Verdict.Supervisor.Agreement
import Verdict.Supervisor.Generations
import Verdict.Supervisor.OperationScope
import Verdict.Supervisor.StoryFootprint
import Verdict.Worktrees.Matching
