import ContextStore.Rdma.Lockstep
import ContextStore.Cluster.Generation
import ContextStore.Cluster.Footprint
import ContextStore.Cluster.Expiry
import ContextStore.Cluster.GcQueue
import ContextStore.Protocol.CalmRead
import ContextStore.Cluster.Handles
import ContextStore.Connector.Promise
import ContextStore.Connector.Admission
import ContextStore.Connector.SpecCopy
import ContextStore.Backend.HostTransparent
import ContextStore.Backend.HostCounter
import ContextStore.Backend.BreakerRecovery
import ContextStore.Backend.BreakerIsolation
import ContextStore.Backend.LaneTorn
import ContextStore.Connector.Lanes
import ContextStore.Backend.KvbmMap
import ContextStore.Backend.CachedFresh
import ContextStore.Cluster.Ordinal
import ContextStore.Backend.Sharded
import ContextStore.Rdma.Scatter
import ContextStore.Rdma.Integrity
import ContextStore.Cluster.L1Budget
import ContextStore.Protocol.StreamCut
import ContextStore.KeyString
import ContextStore.Protocol.WholeRead
import ContextStore.Cluster.Descriptor
import ContextStore.Rdma.Ffi
import ContextStore.Rdma.StripePut
import ContextStore.Connector.Tracking
import ContextStore.Backend.RdmaRegions
import ContextStore.Connector.IndexChoice
import ContextStore.NoOpCodec
import ContextStore.Nixl
