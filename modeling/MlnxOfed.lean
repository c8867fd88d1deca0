import MlnxOfed.Steering.SendRingFlow
import MlnxOfed.FsCore.MissChain
import MlnxOfed.FsCore.TreeRefs
import MlnxOfed.FsCore.AddFlowUnique
import MlnxOfed.Steering.MatcherChain
import MlnxOfed.Steering.BuddyComplete
import MlnxOfed.FlowCounters.FcPool
import MlnxOfed.FlowCounters.FcStats
import MlnxOfed.Ethernet.PageCache
import MlnxOfed.Ethernet.CqeRuns
import MlnxOfed.Ethernet.FlowMeter
import MlnxOfed.Infiniband.Packer
import MlnxOfed.Command.MailboxHistory
import MlnxOfed.PageAlloc.PageAccounting
import MlnxOfed.Command.CmdConservation
import MlnxOfed.Mad.WaitOrder
import MlnxOfed.Mlxfw.Mfa2Exact
import MlnxOfed.Mlxfw.Mfa2Loops
import MlnxOfed.Mlxfw.ComponentExtract
import MlnxOfed.Smi.Journeys
import MlnxOfed.Cm.EventRuns
import MlnxOfed.Uverbs.Lifecycle
import MlnxOfed.Qp.FailedPost
import MlnxOfed.Qp.ReadWqe
import MlnxOfed.SharedReceive.FreeList
import MlnxOfed.Gsi.GsiOrder
import MlnxOfed.FsCore.AddFailure
import MlnxOfed.FsCore.ExistingFte
import MlnxOfed.Mapping.MappingRuns
import MlnxOfed.Cq.ResizeRuns
import MlnxOfed.Cq.CleanCq
import MlnxOfed.Mr.MrCacheSettles
import MlnxOfed.PeerMem.PeerRuns
import MlnxOfed.Chains.ChainsRuns
import MlnxOfed.FlowCounters.FcBulkQuery
import MlnxOfed.Steering.ModifyRoom
import MlnxOfed.Steering.StartTable
import MlnxOfed.FsCore.PrioLevels
import MlnxOfed.FsCore.AutoGroupRuns
import MlnxOfed.Steering.ActionChains
import MlnxOfed.Steering.MissList
import MlnxOfed.Steering.TableWrites
import MlnxOfed.Steering.ArgPools
import MlnxOfed.Rl.RlTable
import MlnxOfed.Clock.TimeStamps
import MlnxOfed.DeviceMemory.SwIcm
import MlnxOfed.Mlxfw.FlashComponent
import MlnxOfed.Odp.MapPages
