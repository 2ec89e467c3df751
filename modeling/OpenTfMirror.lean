import OpenTfMirror.TaskProgram
import OpenTfMirror.TaskLogic
import OpenTfMirror.KeyedLocks
import OpenTfMirror.AddressBlocks
import OpenTfMirror.PublicAddresses
import OpenTfMirror.Outbound
import OpenTfMirror.FileNames
import OpenTfMirror.Provider
import OpenTfMirror.FileStore
import OpenTfMirror.Metadata
import OpenTfMirror.LockSections
import OpenTfMirror.LockLifetimes
import OpenTfMirror.Storage
import OpenTfMirror.StorageMachine
import OpenTfMirror.StorageInvariant
import OpenTfMirror.StorageSteps
import OpenTfMirror.StorageProofs
import OpenTfMirror.StorageTasks
import OpenTfMirror.StorageProgress
import OpenTfMirror.ArchiveStore
import OpenTfMirror.ArchiveLookup
import OpenTfMirror.IndexDiscovery
import OpenTfMirror.MetadataMachine
import OpenTfMirror.MetadataInvariant
import OpenTfMirror.MetadataSteps
import OpenTfMirror.MetadataFiles
import OpenTfMirror.MetadataExec
import OpenTfMirror.MetadataProofs
import OpenTfMirror.ArchivePaths
import OpenTfMirror.MetadataPaths
import OpenTfMirror.RateLimit
import OpenTfMirror.CertificateValidity
import OpenTfMirror.Gregorian
import OpenTfMirror.ArchiveNames
import OpenTfMirror.ComparedLists
import OpenTfMirror.VersionOrder
import OpenTfMirror.HttpApi
import OpenTfMirror.TlsReload
import OpenTfMirror.TlsProofs
import OpenTfMirror.Discovery
import OpenTfMirror.DiscoveryProofs
import OpenTfMirror.VersionMerge
import OpenTfMirror.MetadataLoaders
import OpenTfMirror.MetadataTasks
import OpenTfMirror.MetadataRuns
import OpenTfMirror.MetadataRestart
import OpenTfMirror.MetadataMisses
import OpenTfMirror.AdvertisedHashes
import OpenTfMirror.TaskHistory
import OpenTfMirror.RetryTimers
import OpenTfMirror.FailureMaps
import OpenTfMirror.FetchHistory
import OpenTfMirror.FetchSpacing
import OpenTfMirror.TaskTraces
import OpenTfMirror.RefreshTraces
import OpenTfMirror.EntryAge
import OpenTfMirror.TaskEndings
import OpenTfMirror.TempFiles
import OpenTfMirror.ArchiveTemps
import OpenTfMirror.DiscoveryRefusals
import OpenTfMirror.CertificateTimes
import OpenTfMirror.CertificateFaults
import OpenTfMirror.CertificateEncoding
import OpenTfMirror.StaleFiles
import OpenTfMirror.TaskLogs
import OpenTfMirror.IndexRenewal
import OpenTfMirror.SyncRuns
import OpenTfMirror.MonotonicReads
import OpenTfMirror.RefusalCauses
import OpenTfMirror.ConnectionServer
import OpenTfMirror.ConnectionSteps
import OpenTfMirror.ConnectionOrder
import OpenTfMirror.ConnectionTimes
