import SnapshotStore.Binary64.Order
import SnapshotStore.Binary64.Positional
import SnapshotStore.Binary64.Shortest
import SnapshotStore.Catalog.Conflict
import SnapshotStore.Catalog.LogObject
import SnapshotStore.Catalog.Uid
import SnapshotStore.Config.Basic
import SnapshotStore.Config.Document
import SnapshotStore.Decimal
import SnapshotStore.Document.Basic
import SnapshotStore.Document.Token
import SnapshotStore.Engine.Basic
import SnapshotStore.Engine.Commit
import SnapshotStore.Error
import SnapshotStore.Index.Basic
import SnapshotStore.Index.Cursor
import SnapshotStore.Index.Key
import SnapshotStore.Index.Level
import SnapshotStore.Index.Policy
import SnapshotStore.Log.Basic
import SnapshotStore.Log.Bytes
import SnapshotStore.Log.Decoding
import SnapshotStore.Log.Encoding
import SnapshotStore.Log.Medium
import SnapshotStore.Log.Reader
import SnapshotStore.Proofs.Alike.Building
import SnapshotStore.Proofs.Alike.Index
import SnapshotStore.Proofs.Alike.Install
import SnapshotStore.Proofs.Alike.Renaming
import SnapshotStore.Proofs.Alike.Results
import SnapshotStore.Proofs.Alike.Snapshot
import SnapshotStore.Proofs.Alike.SortedMap
import SnapshotStore.Proofs.Binary64.Error
import SnapshotStore.Proofs.Binary64.Operations
import SnapshotStore.Proofs.Binary64.Packing
import SnapshotStore.Proofs.Binary64.Patterns
import SnapshotStore.Proofs.Binary64.Rounding
import SnapshotStore.Proofs.Catalog.Links
import SnapshotStore.Proofs.Engine.Arising
import SnapshotStore.Proofs.Engine.Commit
import SnapshotStore.Proofs.Engine.FirstCommitter
import SnapshotStore.Proofs.Engine.History
import SnapshotStore.Proofs.Engine.IndexReads
import SnapshotStore.Proofs.Engine.Lifecycle
import SnapshotStore.Proofs.Engine.OwnView
import SnapshotStore.Proofs.Engine.Placement
import SnapshotStore.Proofs.Engine.References
import SnapshotStore.Proofs.Engine.Relocation
import SnapshotStore.Proofs.Engine.Reopening
import SnapshotStore.Proofs.Engine.Session
import SnapshotStore.Proofs.Engine.TornTail
import SnapshotStore.Proofs.Index.Change
import SnapshotStore.Proofs.Index.Composite
import SnapshotStore.Proofs.Index.Key
import SnapshotStore.Proofs.Index.Level
import SnapshotStore.Proofs.Index.Pairs
import SnapshotStore.Proofs.Log.Contents
import SnapshotStore.Proofs.Log.Extent
import SnapshotStore.Proofs.Log.Integer
import SnapshotStore.Proofs.Log.Lengths
import SnapshotStore.Proofs.Log.Reading
import SnapshotStore.Proofs.Log.Requests
import SnapshotStore.Proofs.Log.RoundTrip
import SnapshotStore.Proofs.Log.Tiling
import SnapshotStore.Proofs.Log.Torn
import SnapshotStore.Proofs.Order
import SnapshotStore.Proofs.Snapshot.Building
import SnapshotStore.Proofs.Snapshot.Cases
import SnapshotStore.Proofs.Snapshot.Catalogue
import SnapshotStore.Proofs.Snapshot.Indexed
import SnapshotStore.Proofs.Snapshot.Installed
import SnapshotStore.Proofs.Snapshot.Kept
import SnapshotStore.Proofs.Snapshot.Lookup
import SnapshotStore.Proofs.Snapshot.Matching
import SnapshotStore.Proofs.Snapshot.Position
import SnapshotStore.Proofs.Snapshot.Referential
import SnapshotStore.Proofs.Snapshot.Rekey
import SnapshotStore.Proofs.Snapshot.Replay
import SnapshotStore.Proofs.SortedMap.Balance
import SnapshotStore.Proofs.SortedMap.Entries
import SnapshotStore.Proofs.SortedMap.Filled
import SnapshotStore.Proofs.SortedMap.Height
import SnapshotStore.Proofs.SortedMap.Insertion
import SnapshotStore.Proofs.SortedMap.Laws
import SnapshotStore.Proofs.SortedMap.Lookup
import SnapshotStore.Proofs.SortedMap.Ordered
import SnapshotStore.Proofs.SortedMap.Removal
import SnapshotStore.Proofs.SortedMap.Search
import SnapshotStore.Proofs.Success
import SnapshotStore.Proofs.Value.Exact
import SnapshotStore.Proofs.Value.Order
import SnapshotStore.Proofs.Value.Quotient
import SnapshotStore.Proofs.Value.Scaled
import SnapshotStore.Proofs.Value.Total
import SnapshotStore.Snapshot.Basic
import SnapshotStore.Snapshot.Install
import SnapshotStore.Snapshot.Replay
import SnapshotStore.SortedMap.Basic
import SnapshotStore.SortedMap.Bucket
import SnapshotStore.SortedMap.Check
import SnapshotStore.SortedMap.Cursor
import SnapshotStore.SortedMap.Search
import SnapshotStore.Text.Blank
import SnapshotStore.Text.Printable
import SnapshotStore.Text.Quoted
import SnapshotStore.Transaction
import SnapshotStore.Value.Basic
import SnapshotStore.Value.Text
import SnapshotStore.Proofs.SortedMap.Proper
import SnapshotStore.Proofs.SortedMap.Checked
import SnapshotStore.Proofs.SortedMap.Refinement
import SnapshotStore.Proofs.Catalog.Names
import SnapshotStore.Proofs.Snapshot.Coherent
import SnapshotStore.Proofs.Snapshot.Fields
import SnapshotStore.Proofs.Snapshot.Frame
import SnapshotStore.Proofs.Snapshot.Written
import SnapshotStore.Proofs.Engine.FieldLists
import SnapshotStore.Proofs.Engine.Installs
import SnapshotStore.Proofs.Engine.Integrity
import SnapshotStore.Proofs.Engine.Equivalence
import SnapshotStore.Proofs.Engine.Failure
import SnapshotStore.Proofs.Engine.Interrupted
import SnapshotStore.Proofs.Snapshot.Versions
import SnapshotStore.Proofs.Engine.RecordedReads
import SnapshotStore.Proofs.Log.Listing
import SnapshotStore.Proofs.Index.Walk
import SnapshotStore.Proofs.Index.Flat
import SnapshotStore.Proofs.Index.Refinement
import SnapshotStore.Proofs.Snapshot.Identifiers
import SnapshotStore.Proofs.Snapshot.Provenance
import SnapshotStore.Proofs.Engine.Offsets
import SnapshotStore.Proofs.Engine.Recovery
import SnapshotStore.Proofs.Index.Acceptance
import SnapshotStore.Proofs.Snapshot.KeyOrder
import SnapshotStore.Proofs.Snapshot.Acceptance
import SnapshotStore.Proofs.Engine.RowChanges
import SnapshotStore.Proofs.SortedMap.Values
import SnapshotStore.Proofs.Snapshot.Rows
import SnapshotStore.Proofs.Snapshot.WithoutRows
import SnapshotStore.Proofs.Snapshot.Mirrored
import SnapshotStore.Proofs.Engine.Places
import SnapshotStore.Proofs.Engine.CommitOrder
import SnapshotStore.Proofs.Snapshot.Unnamed
import SnapshotStore.Proofs.Snapshot.Unrelated
import SnapshotStore.Proofs.Engine.Aside
import SnapshotStore.Proofs.Engine.UnrelatedTables
import SnapshotStore.Proofs.SortedMap.Place
import SnapshotStore.Proofs.SortedMap.Merge
import SnapshotStore.Proofs.SortedMap.Ordinal
import SnapshotStore.Proofs.SortedMap.Union
import SnapshotStore.Proofs.Index.Place
import SnapshotStore.Proofs.Index.Ranging
import SnapshotStore.Proofs.Index.Groups
import SnapshotStore.Proofs.Log.Ensures
import SnapshotStore.Proofs.Log.Splitting
