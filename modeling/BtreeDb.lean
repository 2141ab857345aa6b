import BtreeDb.Lib.BinarySearch
import BtreeDb.Lib.PagedLeaf
import BtreeDb.Node.Loaded
import BtreeDb.Node.Removal
import BtreeDb.Pager.Transparency
import BtreeDb.Table.Insert
import BtreeDb.Pager.FullFile
import BtreeDb.Table.Halves
import BtreeDb.Table.Lookup
import BtreeDb.Pager.Addressing
import BtreeDb.Node.Runs
import BtreeDb.Index.Tree
import BtreeDb.Tree.WalkRecords
import BtreeDb.Tree.Rebalance
import BtreeDb.Tree.Crumbs
import BtreeDb.Tree.Beside
import BtreeDb.Tree.LeafWalk
import BtreeDb.Table.Opening
import BtreeDb.Index.MergeFrees
import BtreeDb.Table.Upsert
import BtreeDb.Table.Scan
import BtreeDb.Tree.FailedUpdate
import BtreeDb.Node.RoundTrip
import BtreeDb.Node.Limit
import BtreeDb.Index.Turns
import BtreeDb.Node.Slotted
import BtreeDb.Index.Split
import BtreeDb.Index.SchemaResult
import BtreeDb.Pager.Faults
import BtreeDb.Table.Merge
import BtreeDb.Index.Slots
import BtreeDb.Index.Selection
import BtreeDb.Table.SplitOrder
import BtreeDb.Sql.Sentences
import BtreeDb.Sql.Arrays
import BtreeDb.Sql.Interpret
import BtreeDb.Table.KeyOrder
import BtreeDb.Table.Deletion
import BtreeDb.Tree.LeafChange
import BtreeDb.Table.UniformInserts
import BtreeDb.Table.Delete
import BtreeDb.Lib.Sweep
import BtreeDb.Node.Stacked
import BtreeDb.Table.DeleteScan
import BtreeDb.Table.Commands
import BtreeDb.Table.Several
import BtreeDb.Sql.StatementRuns
import BtreeDb.Sql.SequenceRuns
