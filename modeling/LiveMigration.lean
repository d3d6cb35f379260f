import LiveMigration.Api.Serve
import LiveMigration.Hosts.Calls
import LiveMigration.Main
import LiveMigration.Rehearsal.Basic
import LiveMigration.Proofs.Forwarding.Isolation
import LiveMigration.Proofs.Controller.History
import LiveMigration.Proofs.Migration.Order
import LiveMigration.Proofs.Migration.Cleanup
import LiveMigration.Proofs.Controller.Handover
import LiveMigration.Proofs.Migration.Frame
import LiveMigration.Proofs.Controller.Actions
import LiveMigration.Proofs.Controller.Leases
import LiveMigration.Proofs.Migration.Commitment
import LiveMigration.Proofs.Migration.Failure
import LiveMigration.Proofs.Controller.Cancel
import LiveMigration.Proofs.Migration.Outcome
import LiveMigration.Proofs.Controller.Writes
import LiveMigration.Proofs.Migration.Copies
import LiveMigration.Proofs.Hosts.Footprint
import LiveMigration.Proofs.Controller.Redirection
import LiveMigration.Proofs.Forwarding.Report
import LiveMigration.Proofs.Forwarding.Service
import LiveMigration.Proofs.Forwarding.Patch
import LiveMigration.Proofs.Controller.Service
import LiveMigration.Proofs.Controller.Standing
import LiveMigration.Proofs.Controller.Interleaving
import LiveMigration.Proofs.Controller.Replacement
import LiveMigration.Proofs.Forwarding.Teardown
import LiveMigration.Proofs.Controller.Teardown
import LiveMigration.Proofs.Controller.Revocation
import LiveMigration.Proofs.Controller.Refusal
import LiveMigration.Proofs.Hosts.Reach
import LiveMigration.Proofs.Controller.Placement
import LiveMigration.Proofs.Controller.Lifecycle
import LiveMigration.Proofs.Migration.Diagnosis
import LiveMigration.Proofs.Migration.Phases
import LiveMigration.Proofs.Migration.Clock
import LiveMigration.Proofs.Migration.Timeline
import LiveMigration.Proofs.Controller.Timeline
import LiveMigration.Proofs.Hosts.Archives
import LiveMigration.Proofs.Forwarding.Selection
import LiveMigration.Proofs.Forwarding.Spread
import LiveMigration.Proofs.Fleet.Provision
import LiveMigration.Proofs.Json.RoundTrip
import LiveMigration.Proofs.Forwarding.Relocation
import LiveMigration.Proofs.Migration.Drain
import LiveMigration.Proofs.Shell.AndOr
import LiveMigration.Proofs.Hosts.SendQueue
import LiveMigration.Proofs.Hosts.Delivery
import LiveMigration.Proofs.Job.Sample
import LiveMigration.Proofs.Telemetry.Flag
import LiveMigration.Proofs.Net.Mac
