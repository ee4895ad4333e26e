import PhasedWorkload.Main
import PhasedWorkload.Proofs.Barrier.Lockstep
import PhasedWorkload.Proofs.Limiter.Exactness
import PhasedWorkload.Proofs.Performer.Deadline
import PhasedWorkload.Proofs.Performer.PhaseEnd
import PhasedWorkload.Proofs.Plan.RoundTrip
import PhasedWorkload.Proofs.Quantity.Counting
import PhasedWorkload.Proofs.Run.Attendance
import PhasedWorkload.Proofs.Run.Rounds
import PhasedWorkload.Proofs.Stage.Acceptance
import PhasedWorkload.Proofs.Stage.Bounding
import PhasedWorkload.Proofs.Stage.Leftovers
import PhasedWorkload.Proofs.Telemetry.Ledger
import PhasedWorkload.Proofs.Telemetry.Pairs
import PhasedWorkload.Telemetry.Envelope
