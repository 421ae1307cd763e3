import KernelFusion.Device.Body
import KernelFusion.Device.Code
import KernelFusion.Device.Dynamic
import KernelFusion.Device.Emit
import KernelFusion.Device.Events
import KernelFusion.Device.Handshake
import KernelFusion.Device.Prefetch
import KernelFusion.Device.Recorder
import KernelFusion.Device.Source
import KernelFusion.Device.Sync
import KernelFusion.Device.Variants
import KernelFusion.Device.Workspace
import KernelFusion.Device.Writer
import KernelFusion.Error
import KernelFusion.Generator
import KernelFusion.Graph.Connect
import KernelFusion.Graph.Edge
import KernelFusion.Graph.EventPlan
import KernelFusion.Graph.Operator
import KernelFusion.Graph.Store
import KernelFusion.Json.Decode
import KernelFusion.Json.Numeral
import KernelFusion.Json.Printer
import KernelFusion.Json.Reader
import KernelFusion.Json.Token
import KernelFusion.Json.Value
import KernelFusion.Launch.Basic
import KernelFusion.Launch.Defines
import KernelFusion.Launch.MixRecord
import KernelFusion.Launch.Shape
import KernelFusion.Launch.Slot
import KernelFusion.Launch.Table
import KernelFusion.Logging
import KernelFusion.Logging.Filter
import KernelFusion.Machine.Bytes
import KernelFusion.Machine.Domain
import KernelFusion.Machine.KernelType
import KernelFusion.Machine.LockState
import KernelFusion.Machine.Overflow
import KernelFusion.Machine.PackedCount
import KernelFusion.Profiling.Record
import KernelFusion.Profiling.Ring
import KernelFusion.Proofs.Areas
import KernelFusion.Proofs.AssignmentText
import KernelFusion.Proofs.BlockBalance
import KernelFusion.Proofs.BranchText
import KernelFusion.Proofs.ChannelCalls
import KernelFusion.Proofs.ChannelWalk
import KernelFusion.Proofs.ClearingRun
import KernelFusion.Proofs.CodePieces
import KernelFusion.Proofs.Connect
import KernelFusion.Proofs.Connected
import KernelFusion.Proofs.Declared
import KernelFusion.Proofs.DeviceRun
import KernelFusion.Proofs.Disclosure
import KernelFusion.Proofs.Dispatch
import KernelFusion.Proofs.DynamicClasses
import KernelFusion.Proofs.DynamicState
import KernelFusion.Proofs.EmittedCode
import KernelFusion.Proofs.EventCheck
import KernelFusion.Proofs.EventPlan
import KernelFusion.Proofs.FeedSize
import KernelFusion.Proofs.Fence
import KernelFusion.Proofs.Frontier
import KernelFusion.Proofs.FullBarriers
import KernelFusion.Proofs.Interleaving
import KernelFusion.Proofs.JsonText
import KernelFusion.Proofs.KeySearch
import KernelFusion.Proofs.Launch
import KernelFusion.Proofs.LaunchSize
import KernelFusion.Proofs.Layout
import KernelFusion.Proofs.LeastLaunch
import KernelFusion.Proofs.LineText
import KernelFusion.Proofs.LoadAhead
import KernelFusion.Proofs.Mentions
import KernelFusion.Proofs.MixForm
import KernelFusion.Proofs.Neutral
import KernelFusion.Proofs.OptionOrder
import KernelFusion.Proofs.Options
import KernelFusion.Proofs.Order
import KernelFusion.Proofs.OuterEvents
import KernelFusion.Proofs.OwnBarriers
import KernelFusion.Proofs.Ownership
import KernelFusion.Proofs.PackedCount
import KernelFusion.Proofs.PieceText
import KernelFusion.Proofs.PlainCode
import KernelFusion.Proofs.PlainText
import KernelFusion.Proofs.ProfilingRecord
import KernelFusion.Proofs.ProfilingRegions
import KernelFusion.Proofs.ProfilingRing
import KernelFusion.Proofs.ProperNames
import KernelFusion.Proofs.Reduction
import KernelFusion.Proofs.RoundTrip
import KernelFusion.Proofs.RoutingText
import KernelFusion.Proofs.Rules
import KernelFusion.Proofs.Shown
import KernelFusion.Proofs.SingleStream
import KernelFusion.Proofs.SingleStreamCheck
import KernelFusion.Proofs.SingleStreamEvents
import KernelFusion.Proofs.SingleStreamOrder
import KernelFusion.Proofs.Store
import KernelFusion.Proofs.StoreCalls
import KernelFusion.Proofs.StreamMatching
import KernelFusion.Proofs.Table
import KernelFusion.Proofs.Tiling
import KernelFusion.Proofs.Tuning
import KernelFusion.Proofs.TwoStream
import KernelFusion.Proofs.TwoStreamCheck
import KernelFusion.Proofs.TwoStreamEvents
import KernelFusion.Proofs.TwoStreamOrder
import KernelFusion.Proofs.TwoStreamProgress
import KernelFusion.Proofs.UnitSupply
import KernelFusion.Proofs.Untuned
import KernelFusion.Proofs.VariantRun
import KernelFusion.Proofs.WellSynchronized
import KernelFusion.Proofs.WorkspaceAreas
import KernelFusion.Request.Check
import KernelFusion.Request.Descriptor
import KernelFusion.Request.Options
import KernelFusion.Request.Wire
import KernelFusion.Schedule.Channels
import KernelFusion.Schedule.Check
import KernelFusion.Schedule.Flag
import KernelFusion.Schedule.Ownership
import KernelFusion.Schedule.Rules
import KernelFusion.Schedule.SingleStream
import KernelFusion.Schedule.Step
import KernelFusion.Schedule.StreamCheck
import KernelFusion.Schedule.TwoStream
import KernelFusion.Stages
import KernelFusion.Text.Alphanumeric
import KernelFusion.Text.Blank
import KernelFusion.Text.Fields
import KernelFusion.Text.Word
