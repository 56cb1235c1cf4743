import Lininoio.StateFault
import Lininoio.CircularLinks
import Lininoio.DeltaQueue
import Lininoio.Timeval
import Lininoio.TimeoutQueue
import Lininoio.TimeoutDelays
import Lininoio.TimeoutRuns
import Lininoio.Packets
import Lininoio.NodeLists
import Lininoio.NodeRings
import Lininoio.Daemon
import Lininoio.Remoteproc
import Lininoio.Ether
import Lininoio.MainLoop
import Lininoio.Effects
import Lininoio.RemoteprocEffects
import Lininoio.SetupTrace
import Lininoio.SetupLoop
import Lininoio.ChannelLoop
import Lininoio.Association
import Lininoio.Requests
import Lininoio.ChannelTable
import Lininoio.SetupAndReply
import Lininoio.AliveTimeouts
import Lininoio.MainLoopSteps
import Lininoio.KeepAlive
import Lininoio.ListsSound
import Lininoio.DataDelivery
import Lininoio.NodeIdentity
import Lininoio.RequestFormat
import Lininoio.AssociationReply
import Lininoio.EventLoop
import Lininoio.EventSteps
import Lininoio.ReceivedFrames
import Lininoio.TimelyExpiry
import Lininoio.CoreReferences
import Lininoio.BackendBinding
import Lininoio.FirmwarePaths
import Lininoio.ProcessorNames
import Lininoio.Disconnects
import Lininoio.Mcuio
import Lininoio.HandlerStates
import Lininoio.Isolation
import Lininoio.FrameContents
import Lininoio.Blocks
import Lininoio.FirmwareImage
import Lininoio.ChannelGroups
import Lininoio.BackendMatch
import Lininoio.McuioDevices
import Lininoio.McuioLifecycle
import Lininoio.InboundCargo
import Lininoio.Console
import Lininoio.FirmwareCopies
import Lininoio.SetupUnwinding
import Lininoio.FdEvents
import Lininoio.FdEventLists
import Lininoio.FdEventRounds
import Lininoio.Plugins
import Lininoio.PluginSearch
import Lininoio.SharedMemory
import Lininoio.CircularBuffers
import Lininoio.FreeChains
import Lininoio.Exchange
import Lininoio.MetalIo
import Lininoio.Virtqueue
import Lininoio.VirtqueueParties
import Lininoio.VirtqueueRings
import Lininoio.VirtqueueFree
import Lininoio.VirtqueueDriver
import Lininoio.VirtqueueEnqueue
import Lininoio.VirtqueueCollect
import Lininoio.VirtqueueNotify
import Lininoio.VirtqueueDevice
import Lininoio.VirtqueueSetup
import Lininoio.VirtqueueRuns
import Lininoio.VirtqueueSingle
import Lininoio.VringLayout
import Lininoio.ProtoHandlers
import Lininoio.PluginLists
