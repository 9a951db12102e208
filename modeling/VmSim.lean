import VmSim.Lib.Computation
import VmSim.Lib.Invariant
import VmSim.Address
import VmSim.PageTable.Trie
import VmSim.PhysicalMemory
import VmSim.FrameCalls
import VmSim.Cow
import VmSim.Lib.LruCache
import VmSim.Lib.Recency
import VmSim.Lib.BoundedMap
import VmSim.Lib.Scan
import VmSim.Lib.Numerals
import VmSim.Lib.Strtoull
import VmSim.Lib.Strtol
import VmSim.Lib.CommandLine
import VmSim.Lib.Congruential
import VmSim.Lib.Csv
import VmSim.Lib.Paging
import VmSim.Lib.Conservative
import VmSim.Lib.SecondChance
import VmSim.Lib.Scattered
import VmSim.Lib.ShiftRegister
import VmSim.Tlb
import VmSim.TlbOrder
import VmSim.Swap
import VmSim.SwapMap
import VmSim.Replacement.Fifo
import VmSim.Replacement.Policy
import VmSim.Replacement.Victim
import VmSim.Replacement.LruOrder
import VmSim.Replacement.AgingHistory
import VmSim.Replacement.Calls
import VmSim.Replacement.FifoArray
import VmSim.VirtualMemory.Basic
import VmSim.VirtualMemory.System
import VmSim.Lib.RefGraph
import VmSim.PageTable.Invariant
import VmSim.PageTable.Sharing
import VmSim.PageTable.Release
import VmSim.PageTable.Mapping
import VmSim.PageTable.Unmapping
import VmSim.Lib.Transition
import VmSim.PageTable.Tables
import VmSim.Lib.Descent
import VmSim.PageTable.Shape
import VmSim.PageTable.Prefixes
import VmSim.PageTable.Processes
import VmSim.PageTable.Live
import VmSim.PageTable.References
import VmSim.PageTable.Views
import VmSim.PageTable.Allocation
import VmSim.PageTable.FailedMap
import VmSim.VirtualMemory.Pager
import VmSim.VirtualMemory.Consistency
import VmSim.VirtualMemory.Translations
import VmSim.VirtualMemory.Preservation
import VmSim.VirtualMemory.Correspondence
import VmSim.VirtualMemory.Faults
import VmSim.VirtualMemory.CopyOnWrite
import VmSim.VirtualMemory.Accesses
import VmSim.VirtualMemory.Lifecycle
import VmSim.VirtualMemory.Simulation
import VmSim.VirtualMemory.Saturation
import VmSim.VirtualMemory.Effects
import VmSim.VirtualMemory.Coherence
import VmSim.VirtualMemory.Handles
import VmSim.VirtualMemory.ForkFailure
import VmSim.VirtualMemory.Safety
import VmSim.VirtualMemory.OwnedTables
import VmSim.VirtualMemory.Observation
import VmSim.VirtualMemory.Views
import VmSim.VirtualMemory.Memory
import VmSim.VirtualMemory.Provenance
import VmSim.VirtualMemory.Slots
import VmSim.VirtualMemory.Exclusion
import VmSim.VirtualMemory.Refusals
import VmSim.VirtualMemory.ReadFailure
import VmSim.VirtualMemory.Stored
import VmSim.VirtualMemory.Lockstep
import VmSim.VirtualMemory.ForkFree
import VmSim.VirtualMemory.ForkFreeRuns
import VmSim.VirtualMemory.Metrics
import VmSim.VirtualMemory.Recency
import VmSim.VirtualMemory.Touches
import VmSim.VirtualMemory.AgingRuns
import VmSim.VirtualMemory.Footprint
import VmSim.VirtualMemory.Roomy
import VmSim.VirtualMemory.RoomyRuns
import VmSim.VirtualMemory.TranslationCache
import VmSim.VirtualMemory.PageFrames
import VmSim.VirtualMemory.ReferenceString
import VmSim.VirtualMemory.FifoPages
import VmSim.VirtualMemory.ClockPages
import VmSim.VirtualMemory.Validate
import VmSim.CsvExport
import VmSim.SizeOptions
import VmSim.OptionSizes
import VmSim.Cli
import VmSim.Trace.Options
import VmSim.Trace.Reader
import VmSim.Trace.Format
import VmSim.Trace.Ignored
import VmSim.Trace.Generator
import VmSim.Trace.Random
import VmSim.Trace.Replay
import VmSim.Contract.Components
import VmSim.Contract.FrameAllocator
import VmSim.Contract.Replacement
import VmSim.Contract.PageTableShape
import VmSim.Contract.ReferenceCounts
import VmSim.Contract.FailedMap
import VmSim.Contract.TraceRoundTrip
import VmSim.Contract.TraceFormat
import VmSim.Contract.CsvExport
import VmSim.Contract.TraceComments
import VmSim.Contract.TraceRandom
import VmSim.Contract.TraceReplay
import VmSim.Contract.SizeOptions
import VmSim.Contract.Consistency
import VmSim.Contract.TlbTransparency
import VmSim.Contract.TlbInclusion
import VmSim.Contract.CopyOnWrite
import VmSim.Contract.ForkSnapshot
import VmSim.Contract.Isolation
import VmSim.Contract.PageIdentity
import VmSim.Contract.ProcessRelease
import VmSim.Contract.NoLeak
import VmSim.Contract.FailedAccess
import VmSim.Contract.SwapIn
import VmSim.Contract.ForkFailure
import VmSim.Contract.ForkFree
import VmSim.Contract.Metrics
import VmSim.Contract.Aging
import VmSim.Contract.LruStack
import VmSim.Contract.FlatMemory
import VmSim.VirtualMemory.SwapRoom
import VmSim.VirtualMemory.Tally
import VmSim.Contract.LeastSwap
import VmSim.Contract.Counters
import VmSim.Contract.DemandPaging
import VmSim.Contract.Policies
import VmSim.Contract.Validate
import VmSim.Contract.CommandLine
import VmSim.Contract.PageTableMemory
import VmSim.Contract.Safety
import VmSim.Trace.ReplayRuns
import VmSim.Simulator
import VmSim.SimulatorRuns
import VmSim.Trace.Generated
import VmSim.Contract.Simulator
import VmSim.Contract.Scripts
import VmSim.Contract.Pipeline
import VmSim.VirtualMemory.ClockPages
import VmSim.VirtualMemory.Validate
