import ParRP.Lib.Digraph
import ParRP.Analyzer.ParseDag
import ParRP.Analyzer.ConnectedComponents
import ParRP.Analyzer.Wcrt
import ParRP.Lib.Except
import ParRP.Lib.Slots
import ParRP.Policy.Par
import ParRP.Ruby.CacheMemory
import ParRP.Ruby.Msg
import ParRP.Ruby.L2Cache
import ParRP.Ruby.L2Partition
import ParRP.Ruby.L1Cache
import ParRP.Ruby.System
import ParRP.Ruby.Partition
import ParRP.Ruby.Writeback
import ParRP.Ruby.Coherence
import ParRP.Omptr.Recorder
import ParRP.Lib.OrdMap
import ParRP.Ruby.MemProbe
import ParRP.Analyzer.MemStats
import ParRP.Ruby.Victim
import ParRP.Policy.Instantiate
import ParRP.Lib.Scanf
import ParRP.Sim.SyscallEmul
import ParRP.Lib.RoundRobin
import ParRP.Ruby.PerfectSwitch
import ParRP.Lib.Priority
import ParRP.Ruby.MessageBuffer
import ParRP.Ruby.RespBus
import ParRP.Analyzer.Weights
import ParRP.Lib.Run
import ParRP.Ruby.BufferState
import ParRP.Ruby.BufferRuns
import ParRP.Ruby.TBETable
