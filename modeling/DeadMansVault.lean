import DeadMansVault.Guarantees.Cranking
import DeadMansVault.Guarantees.StaleChecks
import DeadMansVault.Guarantees.Watermarks
import DeadMansVault.Guarantees.LocalState
import DeadMansVault.Estate.Obstruction
import DeadMansVault.Guarantees.Assignments
import DeadMansVault.Guarantees.Claims
import DeadMansVault.Guarantees.Decoding
import DeadMansVault.Guarantees.Dust
import DeadMansVault.Guarantees.Effects
import DeadMansVault.Guarantees.Escalation
import DeadMansVault.Guarantees.Freeze
import DeadMansVault.Guarantees.Freshness
import DeadMansVault.Guarantees.OwnerWindow
import DeadMansVault.Guarantees.Messages
import DeadMansVault.Guarantees.Nonces
import DeadMansVault.Guarantees.PlanOrder
import DeadMansVault.Guarantees.Readiness
import DeadMansVault.Guarantees.Recipients
import DeadMansVault.Guarantees.Registrations
import DeadMansVault.Guarantees.Reminders
import DeadMansVault.Guarantees.Reopening
import DeadMansVault.Guarantees.Revisions
import DeadMansVault.Guarantees.Sanctions
import DeadMansVault.Guarantees.Saturation
import DeadMansVault.Guarantees.Settlement
import DeadMansVault.Guarantees.Tokens
import DeadMansVault.Guarantees.Upgrade
import DeadMansVault.Guarantees.AppFinality
import DeadMansVault.Guarantees.Completion
import DeadMansVault.Guarantees.WriteLimits
import DeadMansVault.Notify.Admission
import DeadMansVault.Notify.Cycles
import DeadMansVault.Notify.Pass
import DeadMansVault.Notify.Poller
import DeadMansVault.Notify.Routes
import DeadMansVault.Notify.Sightings
import DeadMansVault.Notify.Stages
import DeadMansVault.Notify.Transactions
import DeadMansVault.Notify.Turns
import DeadMansVault.Notify.WriteRateLimiter
import DeadMansVault.Library.Script
import DeadMansVault.Program.Layout
import DeadMansVault.Program.Progress
import DeadMansVault.Device.Escalation
import DeadMansVault.Guarantees.Latch
import DeadMansVault.Crank.Traversal
import DeadMansVault.Crank.Journal
import DeadMansVault.Estate.Marks
import DeadMansVault.Automation.Completeness
import DeadMansVault.Guarantees.Passes
import DeadMansVault.Guarantees.Griefing
import DeadMansVault.Guarantees.Finalizing
import DeadMansVault.Guarantees.WindUp
import DeadMansVault.Guarantees.TokenSolvency
import DeadMansVault.Guarantees.Rent
import DeadMansVault.Guarantees.Keeper
import DeadMansVault.Guarantees.Starvation
import DeadMansVault.Guarantees.Exit
