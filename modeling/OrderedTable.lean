import OrderedTable.Allocation.Script
import OrderedTable.Deque
import OrderedTable.Entry.Record
import OrderedTable.Hash
import OrderedTable.Links.Pooled
import OrderedTable.Proofs.Arena.Issued
import OrderedTable.Proofs.Buckets.Sizing
import OrderedTable.Proofs.Deque.Refinement
import OrderedTable.Proofs.Deque.Row
import OrderedTable.Proofs.Hash.OneAtATime
import OrderedTable.Proofs.Hash.Times33
import OrderedTable.Proofs.Iteration
import OrderedTable.Proofs.Ledger.Equivariance
import OrderedTable.Proofs.Ledger.Renaming
import OrderedTable.Proofs.Ledger.Requests
import OrderedTable.Proofs.Ledger.Shelves
import OrderedTable.Proofs.Ledger.Twins
import OrderedTable.Proofs.Links.Alike
import OrderedTable.Proofs.Links.Chains
import OrderedTable.Proofs.Links.Cursor
import OrderedTable.Proofs.Links.Pooled
import OrderedTable.Proofs.Links.Rules
import OrderedTable.Proofs.Links.Sharing
import OrderedTable.Proofs.Links.Threading
import OrderedTable.Proofs.Table.Bucketwise
import OrderedTable.Proofs.Table.Budget
import OrderedTable.Proofs.Table.Clearing
import OrderedTable.Proofs.Table.Faultless
import OrderedTable.Proofs.Table.Invariants
import OrderedTable.Proofs.Table.KeyStorage
import OrderedTable.Proofs.Table.LinkedAlike
import OrderedTable.Proofs.Table.Occupancy
import OrderedTable.Proofs.Table.Paired
import OrderedTable.Proofs.Table.PrefixFree
import OrderedTable.Proofs.Table.Rejection
import OrderedTable.Proofs.Table.Release
import OrderedTable.Proofs.Table.Renamed
import OrderedTable.Proofs.Table.Replace
import OrderedTable.Proofs.Table.Retention
import OrderedTable.Proofs.Table.Stability
import OrderedTable.Proofs.Table.Turns
import OrderedTable.Proofs.Table.Twins
import OrderedTable.Proofs.Table.Undo
import OrderedTable.Table.Call
