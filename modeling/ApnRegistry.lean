import ApnRegistry.Main
import ApnRegistry.Codec.Predicate
import ApnRegistry.Codec.Request
import ApnRegistry.Rehearsal
import ApnRegistry.ShardLocks
import ApnRegistry.Proofs.Rows
import ApnRegistry.Proofs.Table
import ApnRegistry.Proofs.Batch
import ApnRegistry.Proofs.Keys
import ApnRegistry.Proofs.Moves
import ApnRegistry.Proofs.Ascending
import ApnRegistry.Proofs.InMemory
import ApnRegistry.Proofs.Overlay
import ApnRegistry.Proofs.Insertion
import ApnRegistry.Proofs.BulkInsert
import ApnRegistry.Proofs.Revision
import ApnRegistry.Proofs.Deletion
import ApnRegistry.Proofs.DeletionOutcome
import ApnRegistry.Proofs.LegacyCodes
import ApnRegistry.Proofs.Modernize
import ApnRegistry.Proofs.Refresh
import ApnRegistry.Proofs.Migration
import ApnRegistry.Proofs.Restore
import ApnRegistry.Proofs.Confinement
import ApnRegistry.Proofs.Owners
import ApnRegistry.Proofs.Preferred
import ApnRegistry.Proofs.Separation
import ApnRegistry.Proofs.Integrity
import ApnRegistry.Proofs.Settling
import ApnRegistry.Proofs.UpdateOutcome
import ApnRegistry.Proofs.PolicyUpdate
import ApnRegistry.Proofs.Journal
import ApnRegistry.Proofs.Restoration
import ApnRegistry.Proofs.RestoreTwice
import ApnRegistry.Proofs.QueryOutcome
import ApnRegistry.Proofs.Intent
import ApnRegistry.Proofs.AllOrNothing
import ApnRegistry.Proofs.Discreet
import ApnRegistry.Proofs.Silence
import ApnRegistry.Proofs.Correspondence
import ApnRegistry.Proofs.Filtered
import ApnRegistry.Proofs.Halfway
import ApnRegistry.Proofs.WritePermission
import ApnRegistry.Proofs.Delivery
import ApnRegistry.Proofs.Reliable
import ApnRegistry.Proofs.PassedOver
import ApnRegistry.Proofs.Subscriptions
import ApnRegistry.Proofs.Seeds
import ApnRegistry.Proofs.SeedOrder
import ApnRegistry.Proofs.Ledger
import ApnRegistry.Proofs.Pointers
import ApnRegistry.Proofs.FirstCome
import ApnRegistry.Proofs.ServiceTypes
import ApnRegistry.Proofs.ArrivalOrder
import ApnRegistry.Proofs.IndependentInserts
import ApnRegistry.Proofs.VirtualOperators
import ApnRegistry.Proofs.Views
import ApnRegistry.Proofs.Retries
import ApnRegistry.Proofs.Quoted
import ApnRegistry.Proofs.JsonText
import ApnRegistry.Proofs.Codecs
import ApnRegistry.Proofs.Documents
import ApnRegistry.Proofs.Spellings
import ApnRegistry.Proofs.Unions
import ApnRegistry.Proofs.Expressions
import ApnRegistry.Proofs.TableCalls
import ApnRegistry.Proofs.OneByOne
import ApnRegistry.Proofs.Resolutions
import ApnRegistry.Proofs.Scans
import ApnRegistry.Proofs.Extents
import ApnRegistry.Proofs.LockedShards
