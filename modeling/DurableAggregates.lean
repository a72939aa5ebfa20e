import DurableAggregates.Cluster.Script
import DurableAggregates.Config.Document
import DurableAggregates.Metrics.Exposition
import DurableAggregates.Schedule.Scheduler
import DurableAggregates.Proofs.Acknowledgement
import DurableAggregates.Proofs.Arrivals
import DurableAggregates.Proofs.Budget.Escalation
import DurableAggregates.Proofs.Budget.Redelivery
import DurableAggregates.Proofs.DeadLetters
import DurableAggregates.Proofs.FailedOperations
import DurableAggregates.Proofs.LateConfirmation
import DurableAggregates.Proofs.PassSafety
import DurableAggregates.Proofs.Execution.Adequacy
import DurableAggregates.Proofs.Confirmation
import DurableAggregates.Proofs.MapRefinement
import DurableAggregates.Proofs.Snapshot.Canonical
import DurableAggregates.Proofs.KeyIndependence
import DurableAggregates.Proofs.Health
import DurableAggregates.Proofs.ScheduledPasses
import DurableAggregates.Proofs.Retries
import DurableAggregates.Proofs.Accounts
import DurableAggregates.Proofs.AfterStop
import DurableAggregates.Proofs.Shutdown.Bystanders
import DurableAggregates.Proofs.Shutdown.Waits
import DurableAggregates.Proofs.CompletedIds
import DurableAggregates.Proofs.Snapshot.Policy
import DurableAggregates.Proofs.Snapshot.Restoring
import DurableAggregates.Proofs.Shutdown.Callers
import DurableAggregates.Proofs.Shutdown.Draining
import DurableAggregates.Proofs.StopVerdict
import DurableAggregates.Proofs.Durations
import DurableAggregates.Proofs.Exhaustion
import DurableAggregates.Proofs.OutdatedAnswers
