import Menios.Block.Durable
import Menios.Block.Range
import Menios.Block.Sharing
import Menios.Mosh.Path
import Menios.Vfs.Stream
import Menios.Fat32.Layout
import Menios.Fat32.Holes
import Menios.Fat32.Timestamp
import Menios.Proc.Preemption
import Menios.Proc.Wakeups
import Menios.Proc.Waitpid
import Menios.Proc.Clock
import Menios.User.Faults
import Menios.Signal.Privilege
import Menios.Ipc.PipeAtomic
import Menios.Ipc.ShmIds
import Menios.File.Exit
import Menios.Tmpfs.Unlink
import Menios.User.Elf
import Menios.User.Fork
import Menios.Libc.Stdio
import Menios.Libc.Malloc
import Menios.Libc.MemoryCopy
import Menios.Libc.Sort
import Menios.Libc.StringLength
import Menios.Libc.Strtol
import Menios.Mosh.Expand
import Menios.Mosh.Sequence
