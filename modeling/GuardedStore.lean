import GuardedStore.Access.Admission
import GuardedStore.Access.Gate
import GuardedStore.Access.Service
import GuardedStore.Bytes
import GuardedStore.CommandLine
import GuardedStore.Config.Basic
import GuardedStore.Config.Entry
import GuardedStore.Config.FaultInjection
import GuardedStore.Config.Policy
import GuardedStore.Config.Storage
import GuardedStore.Decimal.Digits
import GuardedStore.Decimal.Shortest
import GuardedStore.Digest.Crc32c
import GuardedStore.Digest.Derivation
import GuardedStore.Digest.Sha256
import GuardedStore.Disk
import GuardedStore.Error.Basic
import GuardedStore.Error.Fault
import GuardedStore.Json.Basic
import GuardedStore.Json.Limits
import GuardedStore.Json.Numeral
import GuardedStore.Json.Reader
import GuardedStore.Json.Record
import GuardedStore.Json.Writer
import GuardedStore.Key.Basic
import GuardedStore.Key.Pattern
import GuardedStore.Log.Change
import GuardedStore.Log.CommitLog
import GuardedStore.Log.Frame
import GuardedStore.Log.Replay
import GuardedStore.Main
import GuardedStore.Metrics
import GuardedStore.OrderedEntries
import GuardedStore.Packed.Head
import GuardedStore.Proofs.AdmittedBatches
import GuardedStore.Proofs.AllOrNothing
import GuardedStore.Proofs.Attempts
import GuardedStore.Proofs.BatchChange
import GuardedStore.Proofs.ByteDamage
import GuardedStore.Proofs.ByteSpans
import GuardedStore.Proofs.CommitOrder
import GuardedStore.Proofs.CommittedContents
import GuardedStore.Proofs.CompactionLimit
import GuardedStore.Proofs.Confidentiality
import GuardedStore.Proofs.ConfiguredPolicy
import GuardedStore.Proofs.DiskFiles
import GuardedStore.Proofs.DiskPaths
import GuardedStore.Proofs.Durability
import GuardedStore.Proofs.FrameScan
import GuardedStore.Proofs.GrantedChanges
import GuardedStore.Proofs.Interleaving
import GuardedStore.Proofs.Jobs
import GuardedStore.Proofs.LogDamage
import GuardedStore.Proofs.LogFile
import GuardedStore.Proofs.LogRecovery
import GuardedStore.Proofs.Opening
import GuardedStore.Proofs.PackedChange
import GuardedStore.Proofs.Performing
import GuardedStore.Proofs.Serializability
import GuardedStore.Proofs.Sessions
import GuardedStore.Proofs.SortedMaps
import GuardedStore.Proofs.StoreContents
import GuardedStore.Proofs.TableContents
import GuardedStore.Proofs.WriteAhead
import GuardedStore.Security.Credential
import GuardedStore.Security.Policy
import GuardedStore.Security.Role
import GuardedStore.SortedMap
import GuardedStore.Store.Basic
import GuardedStore.Store.Batch
import GuardedStore.Store.Kind
import GuardedStore.Store.Tabular
import GuardedStore.Store.Versioned
import GuardedStore.Table.Address
import GuardedStore.Table.Bootstrap
import GuardedStore.Table.Connection
import GuardedStore.Table.Image
import GuardedStore.Table.Saved
import GuardedStore.Text.Blank
import GuardedStore.Text.Hex
import GuardedStore.Text.Natural
import GuardedStore.Wire.Message
import GuardedStore.Wire.Response
import GuardedStore.Proofs.AcceptedLogs
import GuardedStore.Proofs.CutLogs
import GuardedStore.Proofs.JsonText
import GuardedStore.Proofs.NamedValues
import GuardedStore.Proofs.PlainStores
import GuardedStore.Proofs.UpdateOrder
import GuardedStore.Proofs.WireMessages
import GuardedStore.Proofs.ValidConfigurations
import GuardedStore.Proofs.AdmissionErrors
import GuardedStore.Proofs.CountedCalls
import GuardedStore.Proofs.Conflicts
import GuardedStore.Proofs.ClosingBarrier
import GuardedStore.Proofs.SingleKeys
import GuardedStore.Proofs.Copies
import GuardedStore.Proofs.CanonicalKeys
import GuardedStore.Proofs.FrameSequences
import GuardedStore.Proofs.BoundedDamage
import GuardedStore.Proofs.ConfigurationReport
import GuardedStore.Proofs.KeyPatterns
import GuardedStore.Proofs.RecordShapes
import GuardedStore.Proofs.MessageShapes
import GuardedStore.Proofs.SequenceNumbers
import GuardedStore.Proofs.PolicyGrowth
import GuardedStore.Proofs.WrittenNumerals
import GuardedStore.Proofs.ConfigurationText
import GuardedStore.Proofs.TableOpening
import GuardedStore.Proofs.Accounting
