import ReedCode.Lib.FinMap
import ReedCode.Lib.Lru
import ReedCode.Lib.Runs
import ReedCode.Lib.Slices
import ReedCode.Lib.Framing
import ReedCode.Value
import ReedCode.GroupBoundary.Protocol
import ReedCode.GroupBoundary.Index
import ReedCode.GroupBoundary.Ledger
import ReedCode.GroupBoundary.Residency
import ReedCode.GroupBoundary.Lookup
import ReedCode.GroupBoundary.Manifest
import ReedCode.GroupReuse.Index
import ReedCode.GroupReuse.Incidents
import ReedCode.GroupReuse.FailClosed
import ReedCode.WireCapture.Reassemble
import ReedCode.WireCapture.Directions
import ReedCode.WireCapture.Segmentation
import ReedCode.WireCapture.Frames
import ReedCode.WireCapture.RoundTrip
import ReedCode.WireCapture.Decode
import ReedCode.WireCapture.Exchange
import ReedCode.WireCapture.Acceptance
import ReedCode.WireCapture.CompleteCapture
import ReedCode.SpeculativePrefill.Accumulator
import ReedCode.SpeculativePrefill.Fragments
import ReedCode.SpeculativePrefill.ToolTurn
import ReedCode.Lib.Text
import ReedCode.SpeculativePrefill.Template
import ReedCode.SpeculativePrefill.ToolPrefix
import ReedCode.Headroom.Workload
import ReedCode.Headroom.Simulation
import ReedCode.Headroom.CacheSound
import ReedCode.Headroom.Invariant
import ReedCode.Headroom.Handlers
import ReedCode.Headroom.Integrity
import ReedCode.Headroom.Steps
import ReedCode.Headroom.Clock
import ReedCode.Lib.StepIntegral
import ReedCode.Headroom.Accounting
import ReedCode.Headroom.Life
import ReedCode.Headroom.Lives
import ReedCode.Headroom.Outcomes
import ReedCode.Headroom.Discipline
import ReedCode.Lib.Noninterference
import ReedCode.GroupBoundary.Namespaces
import ReedCode.CarrierFeed.Replica
import ReedCode.CarrierFeed.Resync
import ReedCode.CarrierFeed.Replay
import ReedCode.HarborAgent.Backend
import ReedCode.HarborAgent.Loop
import ReedCode.HarborAgent.Changes
import ReedCode.HarborAgent.History
import ReedCode.HarborAgent.Report
import ReedCode.HarborAgent.Books
import ReedCode.HarborAgent.Cleanup
import ReedCode.HarborAgent.Agreement
import ReedCode.GroupBoundary.Representation
import ReedCode.GroupReuse.Cursors
import ReedCode.GroupReuse.Endpoints
import ReedCode.PyValue
import ReedCode.KvCollector.Ledger
import ReedCode.KvCollector.Exact
import ReedCode.ParityReport.Evidence
import ReedCode.ParityReport.Report
import ReedCode.ParityReport.Conserve
import ReedCode.NextTurn.Predict
import ReedCode.NextTurn.Rolling
import ReedCode.NextTurn.RollingSafe
import ReedCode.Lib.Lines
import ReedCode.CaptureWorker.Writer
import ReedCode.CaptureWorker.Validate
import ReedCode.CaptureWorker.Accounting
import ReedCode.CaptureWorker.Complete
import ReedCode.CaptureWorker.Lossless
import ReedCode.Lib.CommonPrefix
import ReedCode.PreparationCredit.Index
import ReedCode.PreparationCredit.Analyze
import ReedCode.PreparationCredit.Ceiling
import ReedCode.PreparationCredit.Sound
import ReedCode.FileTools.Paths
import ReedCode.FileTools.Script
import ReedCode.FileTools.Safe
import ReedCode.MetricsIdentity.Sidecar
import ReedCode.MetricsIdentity.Client
import ReedCode.MetricsIdentity.Agreement
import ReedCode.Lib.Streaming
import ReedCode.ThinkingStudy.Sse
import ReedCode.ServerMetrics.Parse
import ReedCode.ServerMetrics.Exposition
import ReedCode.ServerMetrics.Inverse
import ReedCode.ThinkingStudy.SseDecode
import ReedCode.NextTurn.Session
import ReedCode.NextTurn.SessionHistory
import ReedCode.Lib.ContextVar
import ReedCode.CaptureWorker.Generate
import ReedCode.CaptureWorker.Exchange
import ReedCode.CaptureWorker.Transparent
import ReedCode.GroupReuse.Correction
import ReedCode.GroupReuse.Refresh
import ReedCode.Lib.Assembly
import ReedCode.ChatDelta
import ReedCode.ChatStream.Stream
import ReedCode.ChatStream.Assembled
import ReedCode.ChatStream.Rearranged
import ReedCode.ChatStream.Exact
import ReedCode.NextTurn.Stream
import ReedCode.NextTurn.StreamChecks
import ReedCode.NextTurn.StreamSpec
import ReedCode.ThinkingStudy.Message
import ReedCode.ThinkingStudy.MessageRun
import ReedCode.ThinkingStudy.MessageSpec
import ReedCode.ThinkingStudy.Reasoning
import ReedCode.Lib.Digits
import ReedCode.ExperimentPlan.Plan
import ReedCode.ExperimentPlan.Entries
import ReedCode.ExperimentPlan.Balanced
import ReedCode.Lib.Grouping
import ReedCode.Reporting.Paired
import ReedCode.Reporting.Conserve
import ReedCode.Reporting.Order
import ReedCode.Lib.Interning
import ReedCode.KvReport.Blocks
import ReedCode.KvReport.Ancestry
import ReedCode.KvReport.Partition
import ReedCode.ServerMetrics.Window
import ReedCode.ServerMetrics.Delta
import ReedCode.Reporting.ServerPhases
import ReedCode.DynamoMetrics.Epoch
import ReedCode.DynamoMetrics.Quiet
import ReedCode.Lib.Windows
import ReedCode.Lib.Saturation
import ReedCode.PreparationCredit.Overlap
import ReedCode.MetricsIdentity.Loops
import ReedCode.ServerMetrics.Resample
import ReedCode.Lib.HashChain
import ReedCode.PrefixAudit.ServerPrompt
import ReedCode.PrefixAudit.Exact
import ReedCode.PyInt
import ReedCode.Lib.ChunkedCoding
import ReedCode.CaptureProxy.Body
import ReedCode.CaptureProxy.Exact
import ReedCode.ParityReport.SseRoundTrip
import ReedCode.ParityReport.FinalUsage
import ReedCode.ParityReport.UsageExact
import ReedCode.PyStr
import ReedCode.Lib.PathText
import ReedCode.ToolCalls.Execute
import ReedCode.ToolCalls.Paths
import ReedCode.ToolCalls.Answered
import ReedCode.Headroom.Work
import ReedCode.Headroom.Termination
import ReedCode.Headroom.Lockstep
import ReedCode.Headroom.Clairvoyance
import ReedCode.Lib.Processes
import ReedCode.SpeculativePrefill.Lifecycle
import ReedCode.SpeculativePrefill.Warmup
import ReedCode.Replay.Workload
import ReedCode.Replay.Tape
import ReedCode.Replay.Capture
import ReedCode.Replay.Epoch
import ReedCode.Replay.Rows
import ReedCode.Replay.Faithful
import ReedCode.Replay.EpochReport
import ReedCode.CaptureProxy.Server
import ReedCode.CaptureProxy.Recorded
import ReedCode.CaptureProxy.Session
