import MonoBucket.Lib.OrderedMap
import MonoBucket.Lib.PrefixOrder
import MonoBucket.Lib.Trace
import MonoBucket.Storage.Bytes
import MonoBucket.Storage.Codec
import MonoBucket.Storage.Records
import MonoBucket.Storage.RecordCodec
import MonoBucket.Storage.Keyspace
import MonoBucket.Storage.Rows
import MonoBucket.Storage.MetadataStore
import MonoBucket.Storage.Quota
import MonoBucket.S3.HeaderNumber
import MonoBucket.Storage.Admission
import MonoBucket.Storage.Allocation
import MonoBucket.Lib.Checked
import MonoBucket.S3.Cors
import MonoBucket.S3.BucketPolicy
import MonoBucket.Storage.StorageEngine
import MonoBucket.Server.PolicyReconcile
import MonoBucket.Storage.BucketRows
import MonoBucket.Server.Visibility
import MonoBucket.Storage.Written
import MonoBucket.Server.ReadBack
import MonoBucket.Lib.RollUp
import MonoBucket.Storage.Listing
import MonoBucket.Storage.Pagination
import MonoBucket.S3.Uri
import MonoBucket.S3.SigV4
import MonoBucket.S3.Body
import MonoBucket.Cache.MemoryCache
import MonoBucket.Core.Identity
import MonoBucket.S3.BucketCache
import MonoBucket.Storage.EngineWrites
import MonoBucket.Server.FrontDoors
import MonoBucket.Server.CacheCoherence
import MonoBucket.Server.KeyRules
import MonoBucket.Storage.UploadListing
import MonoBucket.Storage.BucketView
import MonoBucket.Server.BucketIsolation
import MonoBucket.Storage.IdentityRows
import MonoBucket.Server.ConsoleSession
import MonoBucket.Server.ConsoleApi
import MonoBucket.Server.ConsoleMoves
import MonoBucket.Server.LastAdministrator
import MonoBucket.Server.Revocation
import MonoBucket.Server.SessionAuthority
import MonoBucket.Server.KeyOwnership
import MonoBucket.S3.ObjectCache
import MonoBucket.Server.ReadAfterWrite
import MonoBucket.Lib.Custody
import MonoBucket.Storage.BlobRows
import MonoBucket.Storage.StoreCalls
import MonoBucket.Storage.StoreCommits
import MonoBucket.Storage.BlobCustody
import MonoBucket.Storage.BucketSettings
import MonoBucket.Storage.Recount
import MonoBucket.Storage.EngineCalls
import MonoBucket.Storage.EngineMoves
import MonoBucket.Storage.Reclamation
import MonoBucket.Storage.Payloads
import MonoBucket.Storage.ObjectReads
import MonoBucket.Storage.OrphanLog
import MonoBucket.Storage.Checkpoint
import MonoBucket.Storage.CrashRecovery
import MonoBucket.Lib.Writing
import MonoBucket.Server.IdentityMigration
import MonoBucket.S3.Request
import MonoBucket.S3.Presign
import MonoBucket.Server.PresignRoute
import MonoBucket.Core.IoExecutor
import MonoBucket.Core.ExecutorDrain
import MonoBucket.Storage.AuditLog
import MonoBucket.Cache.FallbackBreaker
import MonoBucket.Cache.FallbackTiers
import MonoBucket.Lib.Sweeping
import MonoBucket.Storage.SweepRuns
import MonoBucket.Storage.QuotaChange
import MonoBucket.Lib.Throwing
import MonoBucket.Storage.FailedWrites
import MonoBucket.Storage.FailedCalls
import MonoBucket.Storage.Fsck
import MonoBucket.Storage.FsckExact
import MonoBucket.S3.ByteRange
import MonoBucket.Server.LoginThrottle
import MonoBucket.Storage.UploadLimit
import MonoBucket.S3.Framing
import MonoBucket.S3.TamperEvidence
import MonoBucket.S3.PolicyGrammar
import MonoBucket.Storage.UploadMarkers
import MonoBucket.Server.UploadKeys
import MonoBucket.S3.Xml
import MonoBucket.S3.XmlRoundTrip
import MonoBucket.Server.DeleteObjects
import MonoBucket.S3.ResponseHeaders
import MonoBucket.Server.ObjectAnswers
import MonoBucket.Server.HeaderRuns
import MonoBucket.S3.AmzDate
import MonoBucket.S3.Ipv4Names
import MonoBucket.Storage.Varints
import MonoBucket.Storage.Layouts
import MonoBucket.Cache.Accounting
import MonoBucket.Lib.LinkedList
import MonoBucket.Cache.LinkedShard
import MonoBucket.Cache.LinkedCache
import MonoBucket.Cache.ExpiringMap
import MonoBucket.Cache.OwnVictim
import MonoBucket.Storage.ChecksumComputer
import MonoBucket.S3.Checksum
import MonoBucket.Server.UploadChecksums
import MonoBucket.Lib.Cursor
import MonoBucket.S3.XmlPositions
import MonoBucket.S3.XmlTrees
import MonoBucket.S3.XmlBounds
import MonoBucket.S3.CorsDocument
import MonoBucket.S3.CorsRoundTrip
import MonoBucket.S3.CanonicalQuery
import MonoBucket.S3.ChecksumRoundTrip
import MonoBucket.Storage.RowKeys
import MonoBucket.Storage.BitwiseCrc
import MonoBucket.Lib.Paging
import MonoBucket.S3.XmlDocuments
import MonoBucket.Server.ListObjects
import MonoBucket.Server.ListingClient
import MonoBucket.Lib.PowerLoss
import MonoBucket.Storage.BlobFileSteps
import MonoBucket.Storage.BlobIntegrity
import MonoBucket.Storage.BlobTree
import MonoBucket.Storage.BlobDurability
import MonoBucket.Server.BucketHandlers
import MonoBucket.Server.MultipartHandlers
import MonoBucket.Server.Router
import MonoBucket.Server.Mediation
import MonoBucket.Server.Outsiders
