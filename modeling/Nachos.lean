import Nachos.Lib.Decimal
import Nachos.Lib.Run
import Nachos.Network.Types
import Nachos.Network.Text
import Nachos.Network.Itoa
import Nachos.Network.Globals
import Nachos.Network.Handlers
import Nachos.Network.Create
import Nachos.Network.Process
import Nachos.Lib.Mutex
import Nachos.Network.MutualExclusion
import Nachos.Network.ConditionVariables
import Nachos.Network.Forwarding
import Nachos.Network.Tables
import Nachos.Lib.HoldBack
import Nachos.Threads.NetworkThread
import Nachos.Threads.TotalOrder
import Nachos.Threads.Registration
import Nachos.Mail.Acceptance
import Nachos.Mail.Resend
import Nachos.Mail.Retransmission
import Nachos.Mail.Framing
import Nachos.Network.LockInvariant
import Nachos.Network.Request
import Nachos.Threads.AtMostOnce
import Nachos.Threads.Membership
import Nachos.Network.Election
import Nachos.Network.Creations
import Nachos.Network.Kinds
import Nachos.Lib.Placement
import Nachos.Threads.Kernel
import Nachos.Threads.Placed
import Nachos.Threads.KernelLocks
import Nachos.Threads.KernelConditions
import Nachos.Threads.Interleaving
import Nachos.Threads.InterleavingLocks
import Nachos.Restaurant.Routines
import Nachos.Restaurant.Exit
import Nachos.Restaurant.Ordering
import Nachos.Restaurant.Meeting
import Nachos.Restaurant.Sessions
import Nachos.Restaurant.Orders
import Nachos.Threads.InterleavingSteps
import Nachos.Restaurant.Types
import Nachos.Restaurant.LineToEnter
import Nachos.Restaurant.Tables
import Nachos.Network.Grants
import Nachos.Network.Syscalls
import Nachos.Network.AcrossServers
import Nachos.Network.ServerMessages
import Nachos.Network.Wire
import Nachos.Network.Ids
import Nachos.Network.Illegal
import Nachos.Restaurant.Bagging
import Nachos.Restaurant.LockOrder
import Nachos.Restaurant.Food
import Nachos.Restaurant.Announcements
import Nachos.Lib.Relocation
import Nachos.Restaurant.Rewriting
import Nachos.Restaurant.SameRoutines
import Nachos.Threads.QueueStep
import Nachos.Threads.GroupInfo
import Nachos.Threads.Broadcast
import Nachos.Userprog.BitMap
import Nachos.Userprog.SynchManager
import Nachos.Userprog.Entries
import Nachos.Userprog.Indices
import Nachos.Threads.InterleavingOwners
import Nachos.Userprog.TableLocks
import Nachos.Threads.SynchList
import Nachos.Userprog.AddrSpace
import Nachos.Userprog.Paging
import Nachos.Userprog.PagingSteps
import Nachos.Userprog.Frames
import Nachos.Userprog.Translations
import Nachos.Userprog.WildAddress
import Nachos.Userprog.Swap
import Nachos.Userprog.FirstTouch
import Nachos.Userprog.UserMemory
import Nachos.Userprog.Coherence
import Nachos.Userprog.ProcessTable
import Nachos.Lib.Agenda
import Nachos.Machine.Interrupt
import Nachos.Network.Printing
import Nachos.Userprog.FileTable
import Nachos.FileSys.OpenFile
import Nachos.Lib.R2000
import Nachos.Processor.Mult
import Nachos.Processor.OneInstruction
import Nachos.Processor.Reference
import Nachos.Userprog.CopyInOut
import Nachos.Userprog.LinearTables
import Nachos.Userprog.ThreadStacks
import Nachos.FileSys.FileSystem
import Nachos.FileSys.Sectors
import Nachos.Network.Fields
import Nachos.Userprog.BitMapWords
import Nachos.Lib.Chain
import Nachos.Threads.LinkedList
import Nachos.Lib.AtomicObject
import Nachos.Threads.SynchDevice
import Nachos.FileSys.SynchDisk
import Nachos.Threads.HandOver
import Nachos.Userprog.SynchConsole
import Nachos.Bin.Coff2noff
import Nachos.Bin.Image
