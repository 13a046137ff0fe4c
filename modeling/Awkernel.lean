import Awkernel.Kernel.WakeDecision
import Awkernel.Kernel.Placement
import Awkernel.Kernel.Exhaustion
import Awkernel.Kernel.Candidates
import Awkernel.Kernel.Deadlines
import Awkernel.PubSub.Expiry
import Awkernel.PubSub.LateJoin
import Awkernel.Dag.Rejection
import Awkernel.Channel.Parked
import Awkernel.Channel.BoundedFifo
import Awkernel.Timer.Service
import Awkernel.PubSub.Consistency
import Awkernel.Service.Rendezvous
import Awkernel.Sync.BarrierRounds
import Awkernel.SessionTypes.Fidelity
import Awkernel.Action.Feedback
import Awkernel.Dag.Release
import Awkernel.Kernel.SleepProtocol
import Awkernel.Net.Interrupt
import Awkernel.Net.Poll
import Awkernel.Timer.Futures
import Awkernel.Net.Multicast
import Awkernel.Net.TcpSockets
import Awkernel.Heap.Guards
import Awkernel.Net.Service
import Awkernel.Kernel.Counter
import Awkernel.Nvme.Completion
import Awkernel.Vtd.Invalidation
import Awkernel.Xhci.Ring
import Awkernel.Virtio.Rings
import Awkernel.Net.Headers
import Awkernel.File.Memfs
import Awkernel.Paging.Frames
import Awkernel.Perf
import Awkernel.Heap.Layout
import Awkernel.Net.Checksum
