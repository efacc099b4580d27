import VkCocoon.Lib.GoMap
import VkCocoon.Lib.Pool
import VkCocoon.Lib.Proc
import VkCocoon.Lib.Span
import VkCocoon.Lib.Crc
import VkCocoon.Lib.SingleFlight
import VkCocoon.Types
import VkCocoon.Tables
import VkCocoon.Ops
import VkCocoon.Startup
import VkCocoon.Adopt
import VkCocoon.Imports
import VkCocoon.Intent
import VkCocoon.Superseded
import VkCocoon.Orphans
import VkCocoon.Fence
import VkCocoon.PodLock
import VkCocoon.World
import VkCocoon.ForkLineage
import VkCocoon.Hibernate
import VkCocoon.GuestKept
import VkCocoon.Watcher
import VkCocoon.HibernateGuard
import VkCocoon.Recheck
import VkCocoon.Publish
import VkCocoon.Converge
import VkCocoon.StatusFirst
import VkCocoon.SetupTail
import VkCocoon.Bringup
import VkCocoon.TailScope
import VkCocoon.ReadyAddress
import VkCocoon.PeerSlices
import VkCocoon.PeerTransfer
import VkCocoon.WakeSource
import VkCocoon.WakeChoice
import VkCocoon.Create
import VkCocoon.Node
import VkCocoon.Eviction
import VkCocoon.Unmanaged
import VkCocoon.Probes
import VkCocoon.VNCPorts
import VkCocoon.Reclaim
import VkCocoon.BusyCreates
import VkCocoon.StaleCreates
import VkCocoon.BusyWait
import VkCocoon.Restart
import VkCocoon.Rollback
import VkCocoon.Teardown
import VkCocoon.PeerPlan
import VkCocoon.PeerScan
import VkCocoon.PeerFetch
import VkCocoon.PeerRestore
import VkCocoon.LeaseCache
import VkCocoon.SnapshotAnswers
import VkCocoon.FreshBoot
import VkCocoon.NameIndex
import VkCocoon.Lib.Group
import VkCocoon.Background
import VkCocoon.Retries
import VkCocoon.Lib.Scan
import VkCocoon.Sac
import VkCocoon.SnapshotSave
import VkCocoon.ForkSaves
import VkCocoon.PodCalls
import VkCocoon.PodCalls.Indexes
import VkCocoon.PodCalls.Owed
import VkCocoon.PodCalls.Requests
import VkCocoon.PodCalls.Evidence
