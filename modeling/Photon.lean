import Photon.TreeKinds
import Photon.TreeEffects
import Photon.ManagerMirror
import Photon.DictionaryRuns
import Photon.HostCache
import Photon.StrategyLeaf
import Photon.RandomSelect
import Photon.LeafPlacement
import Photon.TicketRuns
import Photon.DiskPlacementPossible
import Photon.VimCache
import Photon.VmCreation
import Photon.RootHealth
import Photon.LeafHealth
import Photon.ClientPoolWakeup
import Photon.TaskCommandLife
import Photon.TaskSteps
import Photon.LockCleaner
import Photon.AggregatorLive
import Photon.HostToHostTruth
import Photon.CopyStateComplete
import Photon.CopyStateTrigger
import Photon.ChildAggregator
import Photon.TaskScheduler
import Photon.DhcpServerTable
import Photon.SecurityGroupsPush
import Photon.ServiceNodeLife
import Photon.ZoneCleaner
import Photon.BlockingDict
import Photon.TaskRunnerStarts
import Photon.ServerSets
import Photon.NfcFile
import Photon.DeferredLast
import Photon.ClusterGarbage
import Photon.HostMode
import Photon.Reservation
import Photon.ContainerLayout
import Photon.ImageSweeper
import Photon.AdapterNames
import Photon.DiskAttachment
import Photon.ReplicaList
