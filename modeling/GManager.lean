import GManager.AccountRuns
import GManager.Accounts
import GManager.ActivationGuard
import GManager.Announcements
import GManager.Attempts
import GManager.AuditChanges
import GManager.AuditDiff
import GManager.Availability
import GManager.AvailabilitySearch
import GManager.Backups
import GManager.BookingAgreement
import GManager.BookingPlans
import GManager.BookingPolicy
import GManager.Bookings
import GManager.Bounds
import GManager.BrowserTabs
import GManager.BusinessDays
import GManager.BusinessTime
import GManager.Bystanders
import GManager.Calendar
import GManager.CanonicalRequests
import GManager.Cart
import GManager.CartRuns
import GManager.Civil
import GManager.ClientCommands
import GManager.ClientEntitlement
import GManager.ClientGuard
import GManager.ClientJobs
import GManager.ClientRequests
import GManager.ClientRuntime
import GManager.ClientSettles
import GManager.ClientState
import GManager.ClientSteps
import GManager.ClientSystem
import GManager.ClientUpdates
import GManager.CodeUnits
import GManager.Columns
import GManager.CommandLog
import GManager.DayTimeline
import GManager.Db
import GManager.Decimal
import GManager.Delimited
import GManager.DocumentSafety
import GManager.DocumentScans
import GManager.DocumentStore
import GManager.Documents
import GManager.Effects
import GManager.Enforcement
import GManager.Exclusivity
import GManager.ExtraTicks
import GManager.FirstFit
import GManager.FixedWindows
import GManager.Frames
import GManager.Growth
import GManager.Idempotency
import GManager.IdempotencyRuns
import GManager.IdentityLifecycle
import GManager.JobCancellation
import GManager.JobEvents
import GManager.JobLeases
import GManager.JobOverlaps
import GManager.JobRunner
import GManager.JobTimeouts
import GManager.Jobs
import GManager.Journal
import GManager.LateHeartbeats
import GManager.Ledger
import GManager.Limits
import GManager.LocalHours
import GManager.LockConfirmation
import GManager.Logins
import GManager.Machine
import GManager.MachineIdentities
import GManager.MachineTrust
import GManager.Metering
import GManager.MigrationChain
import GManager.Nanoseconds
import GManager.NotificationStream
import GManager.Occupancy
import GManager.Occurrences
import GManager.OpeningHours
import GManager.OptimisticLocks
import GManager.OrderRuns
import GManager.Orders
import GManager.Outbox
import GManager.OutboxDelivery
import GManager.PartialRuns
import GManager.Passes
import GManager.Periods
import GManager.PolicyJournal
import GManager.PolicyLayers
import GManager.PolicyTransactions
import GManager.Process
import GManager.RateLimits
import GManager.Reconciliation
import GManager.Recurrence
import GManager.RecurrenceRuns
import GManager.RedactedMembers
import GManager.Redaction
import GManager.RefreshTokens
import GManager.Replacement
import GManager.ReportOutcomes
import GManager.ReportSchedules
import GManager.Reports
import GManager.Requests
import GManager.Reservations
import GManager.Resources
import GManager.Revocation
import GManager.RotationChain
import GManager.RoundedEnds
import GManager.Rows
import GManager.ScheduleRuns
import GManager.Sessions
import GManager.Settlement
import GManager.SignedLeases
import GManager.SlidingWindows
import GManager.Span
import GManager.SseStream
import GManager.Succeeds
import GManager.Table
import GManager.TextBlocks
import GManager.TimeMigrations
import GManager.TimeOff
import GManager.TimeService
import GManager.TopUps
import GManager.TransactionRuns
import GManager.Transactions
import GManager.TrustedClock
import GManager.Turns
import GManager.Txn
import GManager.Utf8
import GManager.Vacancies
import GManager.Waitlist
import GManager.WaitlistMatcher
import GManager.WaitlistOffers
import GManager.WaitlistRuns
import GManager.WaitlistSafety
import GManager.WaitlistStates
import GManager.WeeklyAxis
import GManager.WeeklyLayout
import GManager.WeeklyPositions
import GManager.Window
import GManager.Within
import GManager.WorkdayGaps
import GManager.WorkingHours
import GManager.Works
import GManager.ZonedDates
