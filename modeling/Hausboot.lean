import Hausboot.Lib.Bytes
import Hausboot.Lib.Store
import Hausboot.Lib.Tiling
import Hausboot.Lib.LastHit
import Hausboot.Lib.Runs
import Hausboot.Lib.Chain
import Hausboot.Lib.Prog
import Hausboot.Types
import Hausboot.Bios.CHSPacked
import Hausboot.Heap.Model
import Hausboot.Heap.Blocks
import Hausboot.Heap.Refine
import Hausboot.Heap.Runs
import Hausboot.Heap.Safety
import Hausboot.Heap.BestFit
import Hausboot.Heap.Frame
import Hausboot.Heap.Room
import Hausboot.Fat.Super
import Hausboot.Fat.Name
import Hausboot.Fat.Grammar
import Hausboot.Fat.Dirent
import Hausboot.FatFs.Model
import Hausboot.FatFs.Read
import Hausboot.Stage2.MultiBoot
import Hausboot.Stage2.Model
import Hausboot.Stage2.Load
import Hausboot.Stage2.LoadExact
import Hausboot.Stage2.Started
import Hausboot.Stage2.Balance
import Hausboot.Stage2.Allocations
import Hausboot.Stage2.Script
import Hausboot.Stage2.Search
import Hausboot.Stage2.Candidates
import Hausboot.Stage2.Trusted
import Hausboot.FatEdit.Model
import Hausboot.Fat.Volume
import Hausboot.Fat.Records
import Hausboot.Fat.Tree
import Hausboot.FatEdit.View
import Hausboot.FatEdit.Writer
import Hausboot.FatEdit.Names
import Hausboot.FatEdit.Reader
import Hausboot.FatEdit.Scan
import Hausboot.Fat.Grow
import Hausboot.FatEdit.Lookup
import Hausboot.FatEdit.Commands
import Hausboot.Lib.Query
import Hausboot.FatFs.Requests
import Hausboot.Fat.Geometry
import Hausboot.FatFs.Coherence
import Hausboot.FatEdit.Addressing
import Hausboot.FatFs.Partition
import Hausboot.Agree.Chains
import Hausboot.FatFs.Search
import Hausboot.FatFs.Rounds
import Hausboot.FatFs.Ranges
import Hausboot.FatFs.Stale
import Hausboot.FatFs.Paths
import Hausboot.Agree.Image
import Hausboot.FatEdit.ScanInverse
import Hausboot.Agree.Directory
import Hausboot.Agree.Listed
import Hausboot.Lib.WordSum
import Hausboot.Lib.X86
import Hausboot.Install.Header
import Hausboot.Install.Checksum
import Hausboot.Install.Model
import Hausboot.Install.ReadAll
import Hausboot.Install.Runs
import Hausboot.Install.Outcome
import Hausboot.Install.Vbr
import Hausboot.Bios.Disk
import Hausboot.Bios.Sectors
import Hausboot.Kernel.VideoMemory
import Hausboot.Kernel.Console
import Hausboot.Mmap.Model
import Hausboot.Mmap.Walk
import Hausboot.Mmap.Counts
import Hausboot.Mmap.LoaderName
import Hausboot.Kernel.Main
import Hausboot.Mmap.UnalignedInt
import Hausboot.Fat.Fresh
import Hausboot.FatEdit.Sessions
import Hausboot.FatEdit.Disk
import Hausboot.FatEdit.RoundTrip
import Hausboot.Fat.Unique
import Hausboot.FatEdit.ShortNames
import Hausboot.Fat.Snug
import Hausboot.FatEdit.Growth
import Hausboot.Fat.Plain
import Hausboot.Agree.Paths
import Hausboot.FatEdit.Parent
import Hausboot.Agree.Device
import Hausboot.Agree.Packed
import Hausboot.Fat.Keeps
import Hausboot.FatEdit.Abort
import Hausboot.FatEdit.FreeClusters
import Hausboot.FatEdit.Reopen
import Hausboot.FatEdit.Streams
import Hausboot.FatEdit.Trail
import Hausboot.FatEdit.Bounds
import Hausboot.Pm86.Call
import Hausboot.Lib.Moves
import Hausboot.Pm86.Copy
import Hausboot.Lib.Decimal
import Hausboot.Device.TextScreen
import Hausboot.Cxxabi.Atexit
import Hausboot.Lib.Ledger
import Hausboot.Types.UniquePtr
import Hausboot.Lib.DirTree
import Hausboot.FatEdit.Spec
import Hausboot.Lib.Relate
import Hausboot.FatEdit.Shows
import Hausboot.FatEdit.Refine
import Hausboot.FatEdit.Silent
import Hausboot.FatEdit.Transcript
import Hausboot.FatEdit.Outcome
import Hausboot.Agree.Tree
import Hausboot.Agree.Installed
import Hausboot.FatFs.Confined
import Hausboot.Bios.Tracks
import Hausboot.Mbr.Model
import Hausboot.Mbr.Handover
import Hausboot.Agree.Boot
import Hausboot.FatFs.Spec
import Hausboot.Stage2.Spec
import Hausboot.Stage2.Readable
import Hausboot.Agree.Loader
import Hausboot.Pm86.A20
import Hausboot.Stage2.A20
