import Seele.BlockDevice.Failures
import Seele.FileLocks.Deadlock
import Seele.Memory.Growth
import Seele.Memory.Break
import Seele.Memory.AttachCounts
import Seele.Memory.Conservation
import Seele.PageCache.Copies
import Seele.Pipe.Stream
import Seele.Ipc.Messages
import Seele.Ipc.Semaphores
import Seele.Futex.Mirror
import Seele.Futex.PiExclusion
import Seele.Filesystem.Posix
import Seele.Tmpfs.Listing
import Seele.Vfs.Stack
import Seele.Access.Search
import Seele.Signalling.HandlerStack
import Seele.Signalling.Conservation
import Seele.Scheduling.BlockProtocol
import Seele.Scheduling.Stops
import Seele.Scheduling.Dispatch
import Seele.Scheduling.ExitEffects
import Seele.Processes.PidFds
import Seele.Sockets.ControlMessages
import Seele.Sockets.Names
import Seele.Ext4.LookupCache
import Seele.Object.EventFd
import Seele.Object.MemFd
