import OrderedTable.Text.Outline

/-!
# Occupancy

An `Occupancy` tells how entries are spread over buckets. An entry collides if its bucket already
holds another, so a bucket of `n + 1` entries counts `n` collisions.
-/

namespace OrderedTable

/-- How entries are spread over buckets. -/
structure Occupancy where
  buckets : Nat := 0
  /-- The buckets that hold an entry. -/
  occupied : Nat := 0
  entries : Nat := 0
  /-- The entries that share a bucket with an earlier one. -/
  collisions : Nat := 0
  /-- The number of entries in the fullest bucket. -/
  longestChain : Nat := 0
  deriving DecidableEq

namespace Occupancy

/-- The collisions in a hundred entries, rounded down; zero when there are no entries. -/
def percent (o : Occupancy) : Nat :=
  if o.entries = 0 then 0 else o.collisions * 100 / o.entries

/-- The entries for each bucket; zero when there are no buckets. Both counts are rounded to the
nearest double before the division. -/
def loadFactor (o : Occupancy) : Float :=
  if o.buckets = 0 then 0 else Float.ofNat o.entries / Float.ofNat o.buckets

def outline (o : Occupancy) : Outline :=
  .record "CollisionStats" [("buckets", .nat o.buckets), ("occupied", .nat o.occupied),
    ("entries", .nat o.entries), ("collisions", .nat o.collisions),
    ("longest_chain", .nat o.longestChain)] false

/-- Counts one more bucket that holds `n + 1` entries. -/
def addChain (o : Occupancy) (n : Nat) : Occupancy :=
  { o with
    occupied := o.occupied + 1
    entries := o.entries + (n + 1)
    collisions := o.collisions + n
    longestChain := max o.longestChain (n + 1) }

end Occupancy

end OrderedTable
