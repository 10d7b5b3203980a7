import LayaWatch.Drain
import LayaWatch.Order
import LayaWatch.Backpressure
import LayaWatch.DropCounter
import LayaWatch.SecondChance
import LayaWatch.Shutdown
import LayaWatch.Prefetch
import LayaWatch.Flush
import LayaWatch.Accounting
import LayaWatch.Survival
import LayaWatch.RetentionCounts
import LayaWatch.RetentionSafety
import LayaWatch.Rebuild
import LayaWatch.Owners
import LayaWatch.Pagination
import LayaWatch.StreamDelivery
import LayaWatch.Middleware
import LayaWatch.Attribution
import LayaWatch.Isolation
import LayaWatch.Atomicity
import LayaWatch.SessionLifecycle
import LayaWatch.PasswordChange
import LayaWatch.KeySoundness
import LayaWatch.LoginLimit
import LayaWatch.Sampling
import LayaWatch.Startup
import LayaWatch.Gates
import LayaWatch.Sink
import LayaWatch.Cursor
import LayaWatch.Reads
import LayaWatch.UserChanges
import LayaWatch.SingleFlight
import LayaWatch.SpanTree
import LayaWatch.Distribution
import LayaWatch.Charts
import LayaWatch.RetentionPass
import LayaWatch.Redact
import LayaWatch.RateLaw
import LayaWatch.BucketMap
import LayaWatch.LoginWait
import LayaWatch.LimitEdits
import LayaWatch.LegacyImport
import LayaWatch.RotationGrace
import LayaWatch.BrowserGate
import LayaWatch.LastSeen
import LayaWatch.Capture
import LayaWatch.UsagePanel
import LayaWatch.Negotiation
import LayaWatch.KeyRedaction
import LayaWatch.SettingsReadBack
import LayaWatch.ScoreValues
import LayaWatch.TagEdits
import LayaWatch.DigitRuns
import LayaWatch.Transparency
import LayaWatch.PayloadEvents
import LayaWatch.Truncation
import LayaWatch.Percentiles
import LayaWatch.Router
import LayaWatch.BodyReading
import LayaWatch.EventFrames
import LayaWatch.Static
import LayaWatch.Migrations
import LayaWatch.SharedHandles
import LayaWatch.LiveClient
import LayaWatch.AuditTrail
import LayaWatch.Setup
import LayaWatch.Pipeline
import LayaWatch.Forwards
import LayaWatch.Pepper
import LayaWatch.JsonReadBack
import LayaWatch.LogExport
import LayaWatch.Playground
