import LumioNativeCore.Library.Run
import LumioNativeCore.Library.Attempt
import LumioNativeCore.Kernel.Handle.Capability
import LumioNativeCore.Kernel.Context.Close
import LumioNativeCore.Kernel.Context.System
import LumioNativeCore.Kernel.Context.Admission
import LumioNativeCore.Codec.Checksum
import LumioNativeCore.Codec.Resource
import LumioNativeCore.Diagnostics.Resource
import LumioNativeCore.Job.Leases
import LumioNativeCore.Hfsm.Activation
import LumioNativeCore.Hfsm.Encoding
import LumioNativeCore.Hfsm.Fence
import LumioNativeCore.Hfsm.Batching
import LumioNativeCore.Hfsm.Brackets
import LumioNativeCore.Hfsm.Totality
import LumioNativeCore.Hfsm.Reordering
import LumioNativeCore.Hfsm.Bounds
import LumioNativeCore.Hfsm.Acceptance
import LumioNativeCore.Timer.Cancellation
import LumioNativeCore.Timer.Due
import LumioNativeCore.Timer.Bookkeeping
import LumioNativeCore.Timer.Splitting
import LumioNativeCore.Timer.Program
import LumioNativeCore.Spatial.Shutdown
import LumioNativeCore.Job.Completion
import LumioNativeCore.Job.Representation
import LumioNativeCore.Kernel.Memory.NativeBuffers
import LumioNativeCore.Spatial.RStar
import LumioNativeCore.Kernel.Memory.Ledger
import LumioNativeCore.Job.StateCell
import LumioNativeCore.Timer.Preflight
import LumioNativeCore.Job.Pool
import LumioNativeCore.Process
import LumioNativeCore.Platform.Clock
import LumioNativeCore.Kernel.Handle.Registry
import LumioNativeCore.Spatial.Linearization
import LumioNativeCore.Hfsm.Fleet
import LumioNativeCore.Hfsm.Leasing
import LumioNativeCore.Job.Polling
import LumioNativeCore.Timer.Journal
import LumioNativeCore.Platform.Interleaving
import LumioNativeCore.Kernel.Memory.CallScratch
import LumioNativeCore.Kernel.Capability.StaticSet
import LumioNativeCore.Kernel.Capability.Runtime
