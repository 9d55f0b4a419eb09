import Aurora.Kernel.PipeEof
import Aurora.Kernel.SeccompBpf
import Aurora.Kernel.SeccompFork
import Aurora.Kernel.RbtreeOrder
import Aurora.Kernel.BuddyBoot
import Aurora.Kernel.JournalRuns
import Aurora.Kernel.TcpStream
import Aurora.Kernel.TcpOptions
import Aurora.Kernel.Fat32Chains
import Aurora.Kernel.Ext2Stack
import Aurora.Kernel.VfsTree
import Aurora.Kernel.SlabRuns
import Aurora.Kernel.SignalMask
import Aurora.Kernel.PageCounts
import Aurora.Kernel.PageEager
import Aurora.Kernel.MmapArea
import Aurora.Kernel.Virtq
import Aurora.Kernel.UnixLifetime
import Aurora.Kernel.Capability
import Aurora.Kernel.XhciRing
import Aurora.Kernel.RunQueueLocks
import Aurora.Kernel.Dhcp
import Aurora.User.HeapRuns
import Aurora.User.Loader
import Aurora.Kernel.TcpHandshake
import Aurora.Kernel.EcPoint
import Aurora.Kernel.NeighbourCache
import Aurora.Kernel.ModuleHash
import Aurora.Kernel.NvmePrp
import Aurora.Kernel.ModuleImage
