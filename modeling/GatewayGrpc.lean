import GatewayGrpc.Backend.Startup
import GatewayGrpc.Backend.StreamEcho
import GatewayGrpc.Gateway.Accounting
import GatewayGrpc.Gateway.Answers
import GatewayGrpc.Gateway.Handlers
import GatewayGrpc.Gateway.Http
import GatewayGrpc.Gateway.Liveness
import GatewayGrpc.Gateway.RoundRobin
import GatewayGrpc.Library.Buckets
import GatewayGrpc.Library.Cyclic
import GatewayGrpc.Library.Fallible
import GatewayGrpc.Library.Format
import GatewayGrpc.Library.Linearizability
import GatewayGrpc.Library.Lists
import GatewayGrpc.Library.LittleEndian
import GatewayGrpc.Library.Potential
import GatewayGrpc.Library.ReleaseAcquire
import GatewayGrpc.Library.Rotation
import GatewayGrpc.Library.Run
import GatewayGrpc.Library.Simulation
import GatewayGrpc.Library.Utf8
import GatewayGrpc.Metrics.Histogram
import GatewayGrpc.Metrics.Mean
import GatewayGrpc.Metrics.Percentile
import GatewayGrpc.Metrics.Recording
import GatewayGrpc.Metrics.Traffic
import GatewayGrpc.Proto.Json
import GatewayGrpc.Proto.Messages
import GatewayGrpc.SharedMemory.Accesses
import GatewayGrpc.SharedMemory.Arithmetic
import GatewayGrpc.SharedMemory.Attach
import GatewayGrpc.SharedMemory.Create
import GatewayGrpc.SharedMemory.EventFd
import GatewayGrpc.SharedMemory.Fifo
import GatewayGrpc.SharedMemory.Frames
import GatewayGrpc.SharedMemory.Interleaving
import GatewayGrpc.SharedMemory.Linearization
import GatewayGrpc.SharedMemory.Progress
import GatewayGrpc.SharedMemory.RaceFreedom
import GatewayGrpc.SharedMemory.Ring
import GatewayGrpc.SharedMemory.Threads
import GatewayGrpc.SharedMemory.WeakMemory
import GatewayGrpc.Transport.Backpressure
import GatewayGrpc.Transport.Call
import GatewayGrpc.Transport.Channel
import GatewayGrpc.Transport.Correlation
import GatewayGrpc.Transport.Counting
import GatewayGrpc.Transport.Eventfd
import GatewayGrpc.Transport.Exchange
import GatewayGrpc.Transport.ExchangeInvariant
import GatewayGrpc.Transport.Lag
import GatewayGrpc.Transport.Mapped
import GatewayGrpc.Transport.Pairing
import GatewayGrpc.Transport.PendingTable
import GatewayGrpc.Transport.Polling
import GatewayGrpc.Transport.Quiescence
import GatewayGrpc.Transport.Saturation
import GatewayGrpc.Transport.Settled
import GatewayGrpc.Transport.Signals
import GatewayGrpc.Transport.Stranding
import GatewayGrpc.Transport.Termination
import GatewayGrpc.Transport.Uds
import GatewayGrpc.Transport.Wakeups
import GatewayGrpc.Transport.Wire
