import MxApi.Mcapi.RingWrap
import MxApi.Mcapi.RequestSafety
import MxApi.Lib.Run
import MxApi.Mcapi.FifoSafety
import MxApi.Mcapi.StateSafety
import MxApi.Mcapi.CheckReceiveSafety
import MxApi.Mrapi.AtomicsRefinement
import MxApi.Mcapi.Endpoint
import MxApi.Mcapi.ChannelFlags
import MxApi.Mcapi.RequestLifeCycle
import MxApi.Mcapi.ChannelHandles
import MxApi.Mcapi.ChannelLifeCycle
import MxApi.Mcapi.RegistrationSafety
import MxApi.Mcapi.RegistrationConcurrent
import MxApi.Mcapi.FinalizeSafety
import MxApi.Mrapi.BarrierReader
import MxApi.Mrapi.ExchangeSync
import MxApi.Mrapi.Exchange
import MxApi.Mrapi.SpinLock
import MxApi.Mrapi.ForwardSafety
import MxApi.Mrapi.LockTableSafety
import MxApi.Mrapi.RwLock
import MxApi.Mrapi.RecursiveMutex
import MxApi.Mrapi.LockMultipleSafety
import MxApi.Mrapi.LockHandles
import MxApi.Mrapi.RemoteMemoryLife
import MxApi.Mrapi.NodeIdentity
import MxApi.Mrapi.PanicSafety
import MxApi.Mrapi.MappingSafety
import MxApi.Mrapi.ReferenceSafety
import MxApi.Sysvr4.SemRef
import MxApi.Sysvr4.SharedMem
import MxApi.Sysvr4.SemSetSafety
import MxApi.MrapiRs.Registration
import MxApi.Mcapi.RequestListsSafety
import MxApi.Mcapi.BaselineQueueSafety
import MxApi.Mcapi.TransportsAgree
import MxApi.Mcapi.StateFailure
import MxApi.Mcapi.BlockingRequests
import MxApi.Mcapi.Cancel
import MxApi.Mcapi.CheckState
import MxApi.Mcapi.InvalidEndpoints
import MxApi.Mcapi.Availability
import MxApi.Mcapi.PacketDiscipline
import MxApi.Mcapi.WaitAny
import MxApi.Mcapi.Attributes
import MxApi.Mtapi.Registry
import MxApi.Mtapi.WaitSafety
import MxApi.Mcapi.TopologyTuples
import MxApi.Mcapi.TopologyTermination
import MxApi.Mcapi.TopologyCollect
import MxApi.Mrapi.TransferRoundTrip
import MxApi.Mrapi.RequestCallsSafety
import MxApi.Mrapi.ResourceFilter
import MxApi.Mrapi.LockDelete
import MxApi.Lib.Crc
import MxApi.Common.Crc32
import MxApi.CommonRs.Crc32
import MxApi.Mcapi.QueueStatus
import MxApi.MrapiRs.Forward
import MxApi.Mrapi.Callbacks
import MxApi.Mrapi.CallbacksSafety
import MxApi.Sysvr4.SysSem
import MxApi.Sysvr4.SysSemSafety
import MxApi.Lib.Buffer
import MxApi.Mtapi.Remote
import MxApi.Mtapi.RemoteRoundTrip
import MxApi.Lib.References
import MxApi.Mcapi.BufferPoolSafety
import MxApi.Sysvr4.SysSemaphoreSafety
import MxApi.Mrapi.Waits
