import Lineage.Table
import Lineage.Path
import Lineage.Binary64
import Lineage.Closure
import Lineage.Json
import Lineage.Json.Printer
import Lineage.Json.Reader
import Lineage.Text.Blank
import Lineage.Text.CaseTable
import Lineage.Text.Lower
import Lineage.Error
import Lineage.Node
import Lineage.Page
import Lineage.Store.Call
import Lineage.Store.Contents
import Lineage.Time
import Lineage.Time.Calendar
import Lineage.Time.Stamp
import Lineage.Uuid
import Lineage.Wire
import Lineage.Wire.Node
import Lineage.Wire.Page
import Lineage.IdSource
import Lineage.LogFormat
import Lineage.Registry
import Lineage.Settings
import Lineage.Abort
import Lineage.Access
import Lineage.Job
import Lineage.Job.Executor
import Lineage.Wire.Job
import Lineage.Cache
import Lineage.Hierarchy
import Lineage.Hierarchy.Archive
import Lineage.Hierarchy.Lookup
import Lineage.Sql.Pattern
import Lineage.Sql.Reply
import Lineage.Sql.Store
import Lineage.Report
import Lineage.Report.Failure
import Lineage.Report.Summary
import Lineage.Request
import Lineage.Request.Call
import Lineage.Proofs.Access
import Lineage.Proofs.Coherence
import Lineage.Proofs.Grace
import Lineage.Proofs.Activity
import Lineage.Proofs.Atomicity
import Lineage.Proofs.Numeral
import Lineage.Proofs.Releases
import Lineage.Proofs.Usability
import Lineage.Proofs.Retention
import Lineage.Proofs.Attempts
import Lineage.Proofs.Routing
import Lineage.Proofs.Records
import Lineage.Proofs.Registered
import Lineage.Proofs.Usage
import Lineage.Proofs.Recovery
import Lineage.Proofs.Custody
import Lineage.Proofs.Listings
import Lineage.Proofs.Script
import Lineage.Proofs.Rejections
import Lineage.Proofs.RoundTrip
import Lineage.Proofs.Linking
import Lineage.Proofs.Recomputation
import Lineage.Proofs.Queries
import Lineage.Proofs.Slices
import Lineage.Proofs.Backoff
import Lineage.Proofs.Draining
import Lineage.Proofs.Pieces
import Lineage.Proofs.Dispatch
import Lineage.Proofs.Connection
import Lineage.Proofs.Uniqueness
import Lineage.Proofs.Pattern
import Lineage.Proofs.Snowflake
import Lineage.Proofs.Keys
import Lineage.Proofs.Invalidation
import Lineage.Proofs.Ownership
import Lineage.Proofs.Limits
import Lineage.Proofs.Outlines
import Lineage.Proofs.Depths
import Lineage.Proofs.Instant
