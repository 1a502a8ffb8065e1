import Redline.Adapter.Emissions
import Redline.Adapter.Loop
import Redline.Adapter.Routing
import Redline.Adapter.Streams
import Redline.Adapter.Wiring
import Redline.Bench.Driver
import Redline.Bench.Gate
import Redline.Bench.Metrics
import Redline.Bench.Rounded
import Redline.Bench.Summary
import Redline.Bench.Tokens
import Redline.Bench.Trial
import Redline.Bench.Workload
import Redline.Client.Decoded
import Redline.Client.Generate
import Redline.Client.Pump
import Redline.Core.AllocatorClient
import Redline.Core.BlockAllocator
import Redline.Core.Budget
import Redline.Core.Capture
import Redline.Core.Config
import Redline.Core.ConfigText
import Redline.Core.Engine
import Redline.Core.Executor
import Redline.Core.Scheduler
import Redline.Core.Types
import Redline.Device.Alone
import Redline.Device.Forward
import Redline.Device.Isolation
import Redline.Device.Layered
import Redline.Device.Layers
import Redline.Device.Padding
import Redline.Device.Pool
import Redline.Device.Refine
import Redline.Device.Run
import Redline.Engine.Accounting
import Redline.Engine.Ceiling
import Redline.Engine.Checks
import Redline.Engine.Emission
import Redline.Engine.Enqueued
import Redline.Engine.Fill
import Redline.Engine.Forced
import Redline.Engine.Fresh
import Redline.Engine.GraphCapture
import Redline.Engine.Growth
import Redline.Engine.InFlight
import Redline.Engine.Launch
import Redline.Engine.Lockstep
import Redline.Engine.Notice
import Redline.Engine.Preflight
import Redline.Engine.Reports
import Redline.Engine.Retry
import Redline.Engine.Run
import Redline.Engine.Slabs
import Redline.Engine.Undisturbed
import Redline.Gemm.Alignment
import Redline.Gemm.Calls
import Redline.Gemm.Config
import Redline.Gemm.Confined
import Redline.Gemm.PlanCache
import Redline.Gemm.Probe
import Redline.Kernels.Argmax
import Redline.Kernels.Attention
import Redline.Kernels.Causal
import Redline.Kernels.DecodeOracle
import Redline.Kernels.DecodePhases
import Redline.Kernels.DecodeRun
import Redline.Kernels.Gather
import Redline.Kernels.Half
import Redline.Kernels.PagedAttention
import Redline.Kernels.RmsNorm
import Redline.Kernels.Rope
import Redline.Kernels.Scatter
import Redline.Kernels.SiluMul
import Redline.Lib.AsyncCopy
import Redline.Lib.BinaryFloat
import Redline.Lib.BlockReduce
import Redline.Lib.Contract
import Redline.Lib.Decoding
import Redline.Lib.Extended
import Redline.Lib.Extent
import Redline.Lib.FirstDiff
import Redline.Lib.Gemm
import Redline.Lib.GridStride
import Redline.Lib.HalfEven
import Redline.Lib.InOrder
import Redline.Lib.Indexed
import Redline.Lib.Json
import Redline.Lib.Launch
import Redline.Lib.Ledger
import Redline.Lib.OnlineSoftmax
import Redline.Lib.OrderedMap
import Redline.Lib.Paged
import Redline.Lib.Percentile
import Redline.Lib.Prog
import Redline.Lib.PyJson
import Redline.Lib.PyText
import Redline.Lib.Script
import Redline.Lib.Shuffle
import Redline.Lib.Slab
import Redline.Lib.Softmax
import Redline.Lib.Staging
import Redline.Lib.Stores
import Redline.Lib.Threads
import Redline.Lib.Throw
import Redline.Lib.Tournament
import Redline.Lib.TwoPass
import Redline.Lib.WordMix
import Redline.Lib.Wrap
import Redline.Loader.Accept
import Redline.Loader.Chunked
import Redline.Loader.Convert
import Redline.Loader.Faults
import Redline.Loader.Index
import Redline.Loader.Layout
import Redline.Loader.Load
import Redline.Loader.Open
import Redline.Loader.Parse
import Redline.Loader.Rounding
import Redline.Loader.Safetensors
import Redline.Loader.Upload
import Redline.Loader.Uploader
import Redline.Loader.Weights
import Redline.Report.Accepts
import Redline.Report.Audit
import Redline.Report.Backed
import Redline.Report.Exact
import Redline.Report.Gaps
import Redline.Report.Recompute
import Redline.Report.Render
import Redline.Report.Renders
import Redline.Report.Sections
import Redline.Report.Splice
import Redline.Report.Written
import Redline.Sched.Admission
import Redline.Sched.Blocks
import Redline.Sched.Complete
import Redline.Sched.Conservation
import Redline.Sched.Decode
import Redline.Sched.Drain
import Redline.Sched.Ensure
import Redline.Sched.Fcfs
import Redline.Sched.Inv
import Redline.Sched.Plan
import Redline.Sched.Request
import Redline.Sched.Retry
import Redline.Sched.Run
import Redline.Sched.Stall
