import MerkleVault.Audit.Writer
import MerkleVault.Audit.Verifier
import MerkleVault.Audit.Chain
import MerkleVault.Audit.Integrity
import MerkleVault.Audit.Ranges
import MerkleVault.Audit.Baseline
import MerkleVault.Audit.Overflow
import MerkleVault.Identity
import MerkleVault.Lib.Program
import MerkleVault.Lib.SortedMap
import MerkleVault.Lib.Gate
import MerkleVault.Secrets.Aggregate
import MerkleVault.Sqlite.Tables
import MerkleVault.App.Context
import MerkleVault.App.Lifecycle
import MerkleVault.App.AuditDurability
import MerkleVault.App.IdentitySections
import MerkleVault.App.SecretCommands
import MerkleVault.App.AuditCoverage
import MerkleVault.App.Reveal
import MerkleVault.Sqlite.Versions
import MerkleVault.Sqlite.Reload
import MerkleVault.Sqlite.Retention
import MerkleVault.App.ConcurrentVersions
import MerkleVault.App.Host
import MerkleVault.App.BackupPayload
import MerkleVault.App.BackupCommands
import MerkleVault.App.Restore
import MerkleVault.App.MergeRestore
import MerkleVault.App.RestorePlans
import MerkleVault.App.RestoreOnce
import MerkleVault.App.StalePlans
import MerkleVault.App.RestorePreview
import MerkleVault.App.BackupScheduler
import MerkleVault.App.BackupKeys
import MerkleVault.App.Rebaseline
import MerkleVault.App.ChainVerification
import MerkleVault.App.RestoredVersions
import MerkleVault.App.InitVault
import MerkleVault.App.KeyMaterial
import MerkleVault.App.Recovery
import MerkleVault.App.UnsealRoutes
import MerkleVault.App.RecoveryOutcome
import MerkleVault.App.UnsealedKeyed
import MerkleVault.App.KeychainPairing
import MerkleVault.Oob.Rendezvous
import MerkleVault.App.UseCommands
import MerkleVault.App.UseTokens
import MerkleVault.Socket.Gate
import MerkleVault.Lib.Glob
import MerkleVault.Lib.Serde
import MerkleVault.Socket.Globs
import MerkleVault.Socket.Handlers
import MerkleVault.Socket.Proxy
import MerkleVault.Socket.Actions
import MerkleVault.Socket.Steps
import MerkleVault.Socket.Stock
import MerkleVault.Socket.KeyConsistency
import MerkleVault.Socket.Unhindered
import MerkleVault.Socket.RoundTrip
import MerkleVault.Socket.ConsumerIsolation
import MerkleVault.Socket.MacDomains
import MerkleVault.Sqlite.AuditRows
import MerkleVault.Keystore.FileKeystore
import MerkleVault.Keystore.PortCalls
import MerkleVault.Secrets.History
import MerkleVault.Secrets.Handles
import MerkleVault.Secrets.Serialized
import MerkleVault.Sqlite.Migration
import MerkleVault.Lib.Blocks
import MerkleVault.Services.Egress
import MerkleVault.Lib.Base64
import MerkleVault.Lib.Formats
import MerkleVault.Socket.RevealTransport
import MerkleVault.Lib.FixedWidth
import MerkleVault.Lib.Calendar
import MerkleVault.Lib.FormUrlencoded
import MerkleVault.Sqlite.TimestampText
import MerkleVault.Sqlite.AuditQueries
import MerkleVault.Sqlite.TimestampReader
import MerkleVault.Sqlite.SecretColumns
import MerkleVault.Sqlite.FtsQuery
import MerkleVault.Sqlite.SecretList
import MerkleVault.Socket.AuditQueries
import MerkleVault.App.Attestation
import MerkleVault.App.Tempfiles
import MerkleVault.App.TempfileRuns
import MerkleVault.App.KeyAgreement
import MerkleVault.Socket.Devices
import MerkleVault.Socket.DeviceReveals
import MerkleVault.Policy.Rego
import MerkleVault.Policy.Evaluator
import MerkleVault.Policy.Agreement
import MerkleVault.Policy.Reveals
import MerkleVault.Policy.Seal
