import OrderedTable.Occupancy
import OrderedTable.Store.Basic

/-!
# Operations on all entries

`Store.retain` and `Store.clear` visit every entry and let go of some or all of them while they
walk: the next node is looked up before the current one is given up. `Store.occupancy` counts
without changing anything.
-/

namespace OrderedTable

variable {V A : Type} [Arena A (Node V)]

namespace Store

/-- What a sweep of `Store.retain` comes to. -/
structure Retained (V : Type) (A : Type := SlotArena (Node V)) where
  /-- The entries that the predicate was asked about, from first to last. -/
  seen : List (Entry V)
  /-- The entries that it did not keep. -/
  departed : List (Departure V A)
  store : Store V A

/-- Sweeps the list from `start` on, if it has at most `fuel` nodes left. The predicate is told the
entries that were seen before and the one that it has to decide about. -/
def retainFrom (keep : List (Entry V) → Entry V → Bool) (fuel : Nat) (start : Option NodeId)
    (r : Retained V A) : Except Fault (Retained V A) :=
  match fuel, start with
  | _, none => pure r
  | 0, some _ => throw .endlessWalk
  | fuel + 1, some id => do
    let next ← r.store.order.next? r.store.nodes id
    let entry ← r.store.entryAt id
    let seen := r.seen ++ [entry]
    if keep r.seen entry then retainFrom keep fuel next { r with seen }
    else
      match ← r.store.detach? id with
      | some d =>
        retainFrom keep fuel next { seen, departed := r.departed ++ [d], store := d.rest }
      | none => retainFrom keep fuel next { r with seen }

/-- Asks `keep` about every entry, the oldest first, and lets go of those that it does not keep. -/
def retain (s : Store V A) (keep : List (Entry V) → Entry V → Bool) : Except Fault (Retained V A) :=
  retainFrom keep (NodeStore.capacity s.nodes) s.firstId? { seen := [], departed := [], store := s }

/-- Takes a node that is off its chain off the list and out of the arena. -/
def letGo (buckets : Buckets NodeId) (nodes : A)
    (acc : CircularList NodeId × List (Departure V A)) (id : NodeId) :
    Except Fault (A × CircularList NodeId × List (Departure V A)) := do
  let (order, nodes) ← acc.1.erase nodes id
  match Arena.remove? nodes id with
  | some (node, nodes) =>
    let rest : Store V A := { buckets, nodes, order }
    pure (nodes, order, acc.2 ++ [{ id, entry := node.entry, rest }])
  | none => pure (nodes, order, acc.2)

/-- Lets go of every entry, bucket by bucket and in each from the newest to the oldest. The buckets
themselves stay. -/
def clear (s : Store V A) : Except Fault (List (Departure V A) × Store V A) := do
  let (buckets, nodes, order, departed) ← s.buckets.clear letGo s.nodes (s.order, [])
  ensure (order.isEmpty = true) .leftover
  ensure (Arena.size nodes = 0) .leftover
  pure (departed, { buckets, nodes, order })

/-- Counts the listed buckets on top of what has been counted. -/
def countBuckets (s : Store V A) : List Nat → Occupancy → Except Fault Occupancy
  | [], o => pure o
  | bucket :: rest, o => do
    if ← s.buckets.isEmptyAt bucket then s.countBuckets rest o
    else
      let chain ← s.buckets.chain s.nodes bucket
      let others ← decrement chain.length
      s.countBuckets rest (o.addChain others)

/-- How the entries are spread over the buckets. -/
def occupancy (s : Store V A) : Except Fault Occupancy := do
  let o ← s.countBuckets (List.range s.bucketCount) { buckets := s.bucketCount }
  ensure (o.entries = s.size) .miscount
  pure o

/-- The entries in a hundred that share their bucket with an earlier one, rounded down; zero when
there are no entries. -/
def collisionPercent (s : Store V A) : Except Fault Nat :=
  if s.isEmpty then pure 0
  else do
    let o ← s.occupancy
    pure (o.collisions * 100 / s.size)

end Store

end OrderedTable
