import K1K.Mm.FrameRuns
import K1K.Notify.Invariant
import K1K.Ipc.Delivery
import K1K.Arch.Shootdown
import K1K.Syscall.Ports
import K1K.Syscall.WriteRights
import K1K.Authority.Revocation
import K1K.Authority.Receipt
import K1K.Sched.Stealing
import K1K.Arch.Deferred
import K1K.Arch.Acknowledge
import K1K.Arch.Locks
import K1K.Arch.Vectors
import K1K.Allocator.Contents
import K1K.Allocator.Fit
import K1K.Allocator.Gaps
import K1K.Allocator.Peak
import K1K.Allocator.Growth
import K1K.Allocator.Announce
import K1K.Service.Completions
import K1K.Service.Returned
import K1K.Net.Send
import K1K.Net.Virtio
import K1K.Net.Frames
import K1K.Supervisor.Restarts
import K1K.Supervisor.Backoff
import K1K.Spawn.Atomic
import K1K.Manifest.Authority
import K1K.Disk.Client
import K1K.Arch.Clock
import K1K.Arch.Rebinding
import K1K.Disk.Entries
import K1K.Disk.Names
import K1K.Libc.Strtol
import K1K.Libc.Sort
import K1K.Net.Acknowledge
import K1K.Net.Question
import K1K.Service.Keyboard
