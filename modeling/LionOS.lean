import LionOS.Library.Run
import LionOS.Memory
import LionOS.Physical
import LionOS.Paging
import LionOS.Processes.State
import LionOS.Processes.Lifecycle
import LionOS.Processes.Schedule
import LionOS.Processes.Effects
import LionOS.Processes.Calls
import LionOS.Processes.Termination
import LionOS.Processes.WaitReports
import LionOS.Processes.Blocking
import LionOS.Files.Names
import LionOS.Heap
import LionOS.Files.DiskFs
import LionOS.Files.Vfs
import LionOS.Files.WriteRead
import LionOS.Calls.Dispatch
import LionOS.Calls.Interrupt
import LionOS.Calls.Trace
import LionOS.Calls.Completion
import LionOS.Calls.Restart
import LionOS.Spaces.Frames
import LionOS.Channels.Stream
import LionOS.Channels.Handles
import LionOS.Channels.Delivery
import LionOS.Channels.Order
import LionOS.Channels.Wakeups
import LionOS.Files.Transfers
import LionOS.Files.Layout
import LionOS.Files.Contents
import LionOS.Files.Persistence
import LionOS.Files.Crash
import LionOS.Files.Mount
import LionOS.Files.Failures
import LionOS.Files.Reboot
import LionOS.Spaces.Entries
import LionOS.Spaces.Tables
import LionOS.Spaces.Updates
import LionOS.Calls.Stores
import LionOS.Calls.Silence
import LionOS.Calls.Copyouts
import LionOS.Calls.Protection
import LionOS.Sharing.Loading
import LionOS.Processes.Groups
import LionOS.Library.Chain
import LionOS.Processes.Counters
import LionOS.Processes.Identifiers
import LionOS.Frames.Boot
import LionOS.Processes.Authority
import LionOS.Frames.Allocation
import LionOS.Frames.References
import LionOS.Processes.Joins
import LionOS.Processes.Registers
import LionOS.Calls.Confinement
import LionOS.Calls.Capabilities
import LionOS.Spaces.Kernel
import LionOS.Spaces.Arranged
import LionOS.Spaces.Lifetime
import LionOS.Spaces.Refinement
import LionOS.Processes.Estates
import LionOS.Sharing.Images
import LionOS.Sharing.Stacks
import LionOS.Sharing.Threads
import LionOS.Sharing.Meaning
import LionOS.Frames.Loans
import LionOS.Sharing.Bounds
import LionOS.Spaces.Accounts
import LionOS.Sharing.Rollback
import LionOS.Spaces.Marks
import LionOS.Sharing.Fork
import LionOS.Sharing.Lifecycle
import LionOS.Processes.Rendezvous
import LionOS.Processes.Orphans
import LionOS.Channels.Leftovers
import LionOS.Processes.Quantum
import LionOS.Library.Laps
import LionOS.Usb.EventRing
import LionOS.Usb.Trb
import LionOS.Usb.Rings
import LionOS.Usb.Reports
import LionOS.Usb.Control
import LionOS.Library.OnesSum
import LionOS.Net.Frames
import LionOS.Net.Checksums
import LionOS.Net.Receive
import LionOS.Library.Walk
import LionOS.Frames.MemoryMap
import LionOS.Boot.Acpi
import LionOS.Boot.Walkers
import LionOS.Boot.Robust
import LionOS.Boot.Tables
import LionOS.Boot.Cpus
import LionOS.Files.Elsewhere
import LionOS.Files.Appends
import LionOS.Library.Attempts
import LionOS.Net.Tcp
import LionOS.Net.Wire
import LionOS.Net.Http
import LionOS.Library.Scan
import LionOS.Net.Parsers
import LionOS.Files.Paths
import LionOS.Files.Pieces
import LionOS.Frames.HeapBlocks
import LionOS.Files.Opens
import LionOS.Files.Tables
import LionOS.Files.KernelLog
import LionOS.Files.Rotation
import LionOS.Library.Shares
import LionOS.Spaces.Resolving
import LionOS.Calls.Ranges
import LionOS.Diag.Ring
import LionOS.Library.Locks
import LionOS.Diag.Locks
import LionOS.Diag.Panic
import LionOS.Library.Choice
import LionOS.Processes.Selection
import LionOS.Calls.Listing
import LionOS.Net.Addresses
import LionOS.Net.Handshake
import LionOS.Library.Raster
import LionOS.Video.Display
import LionOS.Video.Blit
import LionOS.Video.Blend
import LionOS.Video.Clip
import LionOS.Library.Writes
import LionOS.Video.Cursor
import LionOS.Video.Init
import LionOS.Usb.Hid
import LionOS.Keys.Driver
import LionOS.Keys.Scancodes
import LionOS.Keys.Reports
import LionOS.Library.Layers
import LionOS.Files.Visible
import LionOS.Programs.Malloc
import LionOS.Programs.Calls
import LionOS.Programs.Grep
import LionOS.Programs.Copy
import LionOS.Desktop.Page
import LionOS.Desktop.Wrap
import LionOS.Desktop.Notepad
import LionOS.Desktop.Windows
import LionOS.Desktop.Clicks
import LionOS.Desktop.Viewing
import LionOS.Library.Simulation
import LionOS.Library.Table
import LionOS.Files.Ports
import LionOS.Programs.Environment
import LionOS.Video.Wallpaper
import LionOS.Video.Present
import LionOS.Desktop.Redraw
import LionOS.Boot.Smp
import LionOS.Programs.Numbers
import LionOS.Video.Console
import LionOS.Keys.Mouse
import LionOS.Processes.Spinlock
import LionOS.Channels.Events
import LionOS.Keys.Ports
import LionOS.Programs.Cat
