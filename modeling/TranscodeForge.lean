import TranscodeForge.Text.Json
import TranscodeForge.Worker.Drift
import TranscodeForge.Worker.SwapCarries
import TranscodeForge.Worker.Owners
import TranscodeForge.Worker.TwoOwners
import TranscodeForge.Worker.Mutex
import TranscodeForge.Worker.Release
import TranscodeForge.Worker.Sidecars
import TranscodeForge.Worker.Settled
import TranscodeForge.Worker.Watchdog
import TranscodeForge.Worker.LockReading
import TranscodeForge.Worker.SidecarNames
import TranscodeForge.Vmaf.QualitySearch
import TranscodeForge.Vmaf.Gate
import TranscodeForge.Outbox.Order
import TranscodeForge.Outbox.Parked
import TranscodeForge.Outbox.Reading
import TranscodeForge.Scratch.Spared
import TranscodeForge.Scratch.Accounting
import TranscodeForge.Derivative.Dedup
import TranscodeForge.Agent.Once
import TranscodeForge.Agent.Draining
import TranscodeForge.Agent.PathMap
import TranscodeForge.Database.Sqlite
import TranscodeForge.Database.Session
import TranscodeForge.Database.Placeholders
import TranscodeForge.Migrations.Schema
import TranscodeForge.Migrations.Runner
import TranscodeForge.Migrations.CrashSafe
import TranscodeForge.Migrations.Runs
import TranscodeForge.Scheduler.Retry
import TranscodeForge.Scheduler.LiveJobs
import TranscodeForge.Scheduler.InStep
import TranscodeForge.Scheduler.Claims
import TranscodeForge.Scheduler.NoDangling
import TranscodeForge.Scheduler.Queueing
import TranscodeForge.Scheduler.Residue
import TranscodeForge.Scheduler.Timestamps
import TranscodeForge.Scheduler.Registration
import TranscodeForge.Scheduler.LongGauge
import TranscodeForge.Settings.Coherence
import TranscodeForge.Scanner.Inventory
import TranscodeForge.Scanner.Scans
import TranscodeForge.Scanner.Isolation
import TranscodeForge.Scanner.Rescans
import TranscodeForge.Scanner.Gone
import TranscodeForge.Scanner.Completion
import TranscodeForge.Scanner.Settling
import TranscodeForge.Login.ReturnPath
import TranscodeForge.Login.Throttle
import TranscodeForge.OAuth.Document
import TranscodeForge.OAuth.SingleUse
import TranscodeForge.OAuth.Consent
import TranscodeForge.OAuth.RateLimiter
import TranscodeForge.OAuth.Redirects
import TranscodeForge.OAuth.Grants
import TranscodeForge.OAuth.Authority
