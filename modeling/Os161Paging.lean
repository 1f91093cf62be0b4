import Os161Paging.Prog
import Os161Paging.Views
import Os161Paging.Tenancy
import Os161Paging.Transitions
import Os161Paging.References
import Os161Paging.Circular
import Os161Paging.Bytes
import Os161Paging.State
import Os161Paging.Primitives
import Os161Paging.Swap
import Os161Paging.Coremap
import Os161Paging.Addrspace
import Os161Paging.Runs
import Os161Paging.Frames
import Os161Paging.Tlb
import Os161Paging.FirstFit
import Os161Paging.Footprint
import Os161Paging.Blocks
import Os161Paging.Faults
import Os161Paging.Balance
import Os161Paging.FailedCopies
import Os161Paging.Startup
import Os161Paging.Lookup
import Os161Paging.Teardown
import Os161Paging.Construction
import Os161Paging.LoadElf
import Os161Paging.Argv
import Os161Paging.SwapSpace
import Os161Paging.Victims
import Os161Paging.Meters
import Os161Paging.Statistics
import Os161Paging.Demand
import Os161Paging.FailedReads
import Os161Paging.Ownership
import Os161Paging.Moves
import Os161Paging.Actions
import Os161Paging.Pages
import Os161Paging.Words
import Os161Paging.Idle
import Os161Paging.Service
import Os161Paging.Translations
import Os161Paging.KernelPages
import Os161Paging.Setup
import Os161Paging.Calls
import Os161Paging.Holdings
import Os161Paging.ReverseMap
import Os161Paging.Lifetimes
import Os161Paging.Processes
import Os161Paging.Transparency
import Os161Paging.Coherence
import Os161Paging.Contention
import Os161Paging.Copying
import Os161Paging.Copies
import Os161Paging.Synch
import Os161Paging.LockSafety
import Os161Paging.Pids
import Os161Paging.Files
import Os161Paging.Transfers
import Os161Paging.ExitWait
import Os161Paging.ExitProtocol
import Os161Paging.Shelves
import Os161Paging.Following
import Os161Paging.Threads
import Os161Paging.Residence
import Os161Paging.ThreadActions
import Os161Paging.RunQueues
import Os161Paging.Relocation
import Os161Paging.Switching
import Os161Paging.Membership
import Os161Paging.ThreadCalls
import Os161Paging.Migration
import Os161Paging.ForkExit
import Os161Paging.Multiprocessor
import Os161Paging.Scheduler
import Os161Paging.Queueing
import Os161Paging.Fifo
import Os161Paging.LoadBalance
import Os161Paging.Residency
import Os161Paging.Menu
import Os161Paging.Launch
