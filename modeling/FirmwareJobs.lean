import FirmwareJobs.Api.Messages
import FirmwareJobs.Capture.Cleaning
import FirmwareJobs.Capture.Escape
import FirmwareJobs.Capture.Lines
import FirmwareJobs.Client.Arguments
import FirmwareJobs.Client.Follow
import FirmwareJobs.Client.Operation
import FirmwareJobs.Client.Reply
import FirmwareJobs.Client.Session
import FirmwareJobs.Client.Status
import FirmwareJobs.Engine.Basic
import FirmwareJobs.Engine.Error
import FirmwareJobs.Engine.Service
import FirmwareJobs.Engine.Store
import FirmwareJobs.Files.Fault
import FirmwareJobs.Files.Tree
import FirmwareJobs.Http.EventStream
import FirmwareJobs.Http.MediaType
import FirmwareJobs.Http.Problem
import FirmwareJobs.Http.Response
import FirmwareJobs.Http.Route
import FirmwareJobs.Http.Serving
import FirmwareJobs.Http.Target
import FirmwareJobs.Job.Action
import FirmwareJobs.Job.Live
import FirmwareJobs.Job.Record
import FirmwareJobs.Job.Request
import FirmwareJobs.Job.State
import FirmwareJobs.Json.Format
import FirmwareJobs.Json.Number
import FirmwareJobs.Json.Object
import FirmwareJobs.Json.Skip
import FirmwareJobs.Json.Token
import FirmwareJobs.Log.File
import FirmwareJobs.Log.Window
import FirmwareJobs.Machine.Channel
import FirmwareJobs.Machine.Host
import FirmwareJobs.Machine.Launch
import FirmwareJobs.Machine.Program
import FirmwareJobs.Machine.Schedule
import FirmwareJobs.Machine.Standard
import FirmwareJobs.Main
import FirmwareJobs.Observe.Limits
import FirmwareJobs.Observe.Tail
import FirmwareJobs.Path
import FirmwareJobs.Proofs.Job.Listening
import FirmwareJobs.Proofs.Job.Mailbox
import FirmwareJobs.Proofs.Job.Observers
import FirmwareJobs.Proofs.Job.Operation
import FirmwareJobs.Proofs.Job.Orderly
import FirmwareJobs.Proofs.Job.Stream
import FirmwareJobs.Proofs.Job.Worker
import FirmwareJobs.Proofs.Log.Retention
import FirmwareJobs.Server.Startup
import FirmwareJobs.Settings.Address
import FirmwareJobs.Settings.Engine
import FirmwareJobs.Settings.Server
import FirmwareJobs.Settings.VariableFile
import FirmwareJobs.Shell.Arithmetic
import FirmwareJobs.Shell.Builtin
import FirmwareJobs.Shell.Command
import FirmwareJobs.Shell.Condition
import FirmwareJobs.Shell.Expansion
import FirmwareJobs.Shell.Parameters
import FirmwareJobs.Shell.Pathnames
import FirmwareJobs.Shell.Pattern
import FirmwareJobs.Shell.Printed
import FirmwareJobs.Shell.Reader
import FirmwareJobs.Shell.Running
import FirmwareJobs.Shell.State
import FirmwareJobs.Shell.Step
import FirmwareJobs.Text.Blank
import FirmwareJobs.Text.ByteText
import FirmwareJobs.Text.CommandLine
import FirmwareJobs.Text.Decimal
import FirmwareJobs.Text.LowerCase
import FirmwareJobs.Text.Quoted
import FirmwareJobs.Text.Real
import FirmwareJobs.Text.Unprintable
import FirmwareJobs.Text.Utf8
import FirmwareJobs.Time.Instant
import FirmwareJobs.Time.Printer
import FirmwareJobs.Time.Reader
import FirmwareJobs.Toolchain.Completion
import FirmwareJobs.Toolchain.Pipeline
import FirmwareJobs.Toolchain.Run
import FirmwareJobs.Toolchain.Steps
import FirmwareJobs.Toolchain.Supervision
import FirmwareJobs.Toolchain.Workbench
import FirmwareJobs.Url.Basic
import FirmwareJobs.Url.Host
import FirmwareJobs.Url.Percent
import FirmwareJobs.Url.Punycode
import FirmwareJobs.Proofs.Job.Lifecycle
import FirmwareJobs.Proofs.Job.Core
import FirmwareJobs.Proofs.Job.Waiting
import FirmwareJobs.Proofs.Observe.Tail
import FirmwareJobs.Proofs.Client.Dialogue
import FirmwareJobs.Proofs.Client.Following
import FirmwareJobs.Proofs.Files.Entries
import FirmwareJobs.Proofs.Text.Utf8
import FirmwareJobs.Proofs.Time.Reading
import FirmwareJobs.Proofs.Json.Strings
import FirmwareJobs.Proofs.Json.Faithful
import FirmwareJobs.Proofs.Json.Whole
import FirmwareJobs.Proofs.Json.Members
import FirmwareJobs.Proofs.Engine.Table
import FirmwareJobs.Proofs.Engine.RecordFile
import FirmwareJobs.Proofs.Engine.Opening
import FirmwareJobs.Proofs.Files.Locating
import FirmwareJobs.Proofs.Job.Validation
import FirmwareJobs.Proofs.Engine.Directory
import FirmwareJobs.Proofs.Engine.Shift
import FirmwareJobs.Proofs.Engine.Order
import FirmwareJobs.Proofs.Engine.Upkeep
import FirmwareJobs.Proofs.Engine.Listing
import FirmwareJobs.Proofs.Engine.Restoring
import FirmwareJobs.Proofs.Engine.Fifo
import FirmwareJobs.Proofs.Engine.Archive
import FirmwareJobs.Proofs.Engine.Stopping
import FirmwareJobs.Proofs.Engine.Lives
import FirmwareJobs.Proofs.Json.Lists
import FirmwareJobs.Proofs.Json.Lawful
import FirmwareJobs.Proofs.Api.RoundTrip
import FirmwareJobs.Proofs.Job.Audience
import FirmwareJobs.Proofs.Job.Noninterference
import FirmwareJobs.Proofs.Observe.Polling
import FirmwareJobs.Proofs.Observe.Agreement
import FirmwareJobs.Proofs.Json.OneLine
import FirmwareJobs.Proofs.Http.Parsing
import FirmwareJobs.Proofs.Http.Streaming
import FirmwareJobs.Proofs.Capture.Captured
import FirmwareJobs.Proofs.Capture.Splitting
import FirmwareJobs.Proofs.Log.Offsets
import FirmwareJobs.Proofs.Log.Reading
import FirmwareJobs.Proofs.Files.Appending
import FirmwareJobs.Proofs.Toolchain.Scribe
import FirmwareJobs.Proofs.Engine.Logs
import FirmwareJobs.Proofs.Toolchain.Transcript
import FirmwareJobs.Proofs.Toolchain.Account
import FirmwareJobs.Proofs.Observe.Waking
import FirmwareJobs.Proofs.Toolchain.Session
import FirmwareJobs.Proofs.Toolchain.Supervised
import FirmwareJobs.Proofs.Toolchain.Listening
import FirmwareJobs.Proofs.Toolchain.Command
import FirmwareJobs.Proofs.Capture.Cutting
import FirmwareJobs.Proofs.Client.Resuming
import FirmwareJobs.Proofs.Json.Grammar
import FirmwareJobs.Proofs.Json.Skipping
import FirmwareJobs.Proofs.Json.Arrangement
import FirmwareJobs.Proofs.Engine.Saving
import FirmwareJobs.Proofs.Engine.Loading
import FirmwareJobs.Proofs.Log.LastLines
import FirmwareJobs.Proofs.Toolchain.Options
import FirmwareJobs.Proofs.Url.Plain
import FirmwareJobs.Proofs.Http.Asking
import FirmwareJobs.Proofs.Http.TailCall
import FirmwareJobs.Proofs.Engine.Beside
import FirmwareJobs.Proofs.Engine.Submitting
