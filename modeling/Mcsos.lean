import Mcsos.WordProofs
import Mcsos.LoopProofs
import Mcsos.LinkedProofs
import Mcsos.MovesProofs
import Mcsos.RunQueueProofs
import Mcsos.ReadLogProofs
import Mcsos.MachineProofs
import Mcsos.PmmModel
import Mcsos.PmmFrameProofs
import Mcsos.PmmRangeProofs
import Mcsos.PmmInvariantProofs
import Mcsos.PmmFrameSetProofs
import Mcsos.PmmHistoryProofs
import Mcsos.PmmBootMapProofs
import Mcsos.ByteMemoryProofs
import Mcsos.MemoryModel
import Mcsos.MemoryProofs
import Mcsos.VmmModel
import Mcsos.VmmTableProofs
import Mcsos.VmmTreeProofs
import Mcsos.VmmRefinementProofs
import Mcsos.VmmRightsProofs
import Mcsos.KernelVmmModel
import Mcsos.FrameOwnershipProofs
import Mcsos.SpliceProofs
import Mcsos.VfsStringProofs
import Mcsos.VfsBoundsProofs
import Mcsos.SyscallModel
import Mcsos.SyscallConfinementProofs
import Mcsos.VfsModel
import Mcsos.VfsTreeProofs
import Mcsos.VfsInvariantProofs
import Mcsos.VfsContentsProofs
import Mcsos.VfsStaleProofs
import Mcsos.KmemModel
import Mcsos.TilingProofs
import Mcsos.KmemHeaderProofs
import Mcsos.KmemListProofs
import Mcsos.KmemAllocProofs
import Mcsos.KmemFreeProofs
import Mcsos.KmemInitProofs
import Mcsos.KmemRunModel
import Mcsos.KmemWrapProofs
import Mcsos.KmemRunProofs
import Mcsos.KmemInvariantProofs
import Mcsos.KmemCoalesceProofs
import Mcsos.KmemClientProofs
import Mcsos.SchedModel
import Mcsos.SchedQueueProofs
import Mcsos.SchedRefinementProofs
import Mcsos.SchedInvariantProofs
import Mcsos.SchedEnqueueProofs
import Mcsos.SchedTurnsProofs
import Mcsos.ElfModel
import Mcsos.ElfFormatProofs
import Mcsos.ElfPlanProofs
import Mcsos.DeadlockProofs
import Mcsos.MutexProofs
import Mcsos.SpinlockProofs
import Mcsos.SyncModel
import Mcsos.LockdepProofs
import Mcsos.ContextModel
import Mcsos.ContextProofs
import Mcsos.SyscallFailureProofs
import Mcsos.VfsAppendProofs
import Mcsos.VfsDescriptorProofs
import Mcsos.PmmBootOrderProofs
import Mcsos.PmmReserveProofs
import Mcsos.SyscallArgumentProofs
import Mcsos.VfsCreateProofs
import Mcsos.VfsReadsProofs
import Mcsos.VfsWriteProofs
import Mcsos.VmmWalkProofs
import Mcsos.ElfRejectProofs
import Mcsos.KmemArenaProofs
import Mcsos.KmemCheckedFreeProofs
import Mcsos.KmemCheckerProofs
import Mcsos.KmemStatsProofs
import Mcsos.LockdepHistoryProofs
import Mcsos.SchedCheckerProofs
import Mcsos.UserRangeProofs
import Mcsos.VmmRoundTripProofs
import Mcsos.StackProofs
import Mcsos.PicModel
import Mcsos.LogModel
import Mcsos.TrapModel
import Mcsos.IdtProofs
import Mcsos.TrapProofs
import Mcsos.PicProofs
import Mcsos.PicLinesProofs
import Mcsos.SyscallEntryModel
import Mcsos.SyscallEntryProofs
import Mcsos.KernelModel
import Mcsos.SyscallVfsProofs
import Mcsos.SchedTagProofs
import Mcsos.KernelVfsProofs
import Mcsos.SchedAccountProofs
import Mcsos.KernelContentsProofs
import Mcsos.KernelStreamProofs
import Mcsos.LogProofs
import Mcsos.SerialProofs
import Mcsos.ReportProofs
import Mcsos.VmmFootprintProofs
import Mcsos.KmemFootprintProofs
import Mcsos.FrameConfineProofs
import Mcsos.BootModel
import Mcsos.BootMemoryProofs
import Mcsos.BootHeapProofs
import Mcsos.BootThreadsProofs
import Mcsos.BootFileProofs
import Mcsos.BootProofs
