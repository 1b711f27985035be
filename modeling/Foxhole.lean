import Foxhole.Lib.Check
import Foxhole.Lib.Trace
import Foxhole.Rpc
import Foxhole.StateInvariant
import Foxhole.BackupModel
import Foxhole.Listeners
import Foxhole.Revocation
import Foxhole.BackupService
import Foxhole.RestoreAtomic
import Foxhole.EngineCommit
import Foxhole.Fencing
import Foxhole.Lib.Chains
import Foxhole.Maintenance
import Foxhole.MaintenanceExclusion
import Foxhole.RestoreProgress
import Foxhole.Routing
import Foxhole.RoutingRefinement
import Foxhole.StateWrites
import Foxhole.StopSticks
import Foxhole.ClientExport
import Foxhole.ErrorAtomicity
import Foxhole.OptimisticRevision
import Foxhole.FailClosed
import Foxhole.InboundAcl
import Foxhole.LeaseMarks
import Foxhole.PinPolicy
import Foxhole.ProvisionRetry
import Foxhole.SessionCalls
import Foxhole.SessionFence
import Foxhole.RamUpload
import Foxhole.UploadIntegrity
import Foxhole.RamSwitch
import Foxhole.SwitchRollback
import Foxhole.AutoStorage
import Foxhole.BankLinks
import Foxhole.BootHandOver
import Foxhole.InstallClosure
import Foxhole.PinThrottle
import Foxhole.PolicyCompiles
import Foxhole.Repairing
import Foxhole.AddressLaws
import Foxhole.BackupExport
import Foxhole.ClientProfile
import Foxhole.DnsAnswer
import Foxhole.EngineStatus
import Foxhole.FreshBackup
import Foxhole.Lib.Thinning
import Foxhole.Retention
import Foxhole.EngineRecovery
import Foxhole.HistoryExact
import Foxhole.HistoryFast
import Foxhole.HistoryIndex
import Foxhole.Lib.Best
import Foxhole.PublicAddress
import Foxhole.ReleaseChoice
import Foxhole.SitePattern
import Foxhole.Uplink
import Foxhole.FirewallSet
import Foxhole.PackageAudit
import Foxhole.PackageLayout
import Foxhole.HistoryPreview
import Foxhole.HistoryFile
import Foxhole.HistoryRecord
import Foxhole.HistorySampler
import Foxhole.Lib.Threads
import Foxhole.PrivateStore
import Foxhole.StoreAtomic
import Foxhole.BundleBuild
import Foxhole.BundleExtract
import Foxhole.BundleDescriptor
import Foxhole.BundleRound
