import OrderedTable.Buckets
import OrderedTable.Links.CircularList

/-!
# Chains and lists through one pool

Several chains, or several circular lists, that share the nodes of a pool. All nodes are on none at
first.
-/

namespace OrderedTable

namespace Pool

/-- Nodes that are on no chain. -/
def unchained (nodes : Nat) : Pool (ChainLink Nat) := Array.replicate nodes {}

/-- Nodes that are on no list. -/
def detached (nodes : Nat) : Pool (CircularLink Nat) :=
  Array.ofFn fun i : Fin nodes => .detached i.val

end Pool

/-! ## Chains -/

/-- Buckets whose chains run through one pool. -/
structure PooledChains where
  heads : Heads Nat
  pool : Pool (ChainLink Nat)

namespace PooledChains

def ofSizes (buckets nodes : Nat) : PooledChains :=
  { heads := Heads.empty buckets, pool := Pool.unchained nodes }

def push (p : PooledChains) (bucket id : Nat) : Except Fault PooledChains := do
  let (heads, pool) ← p.heads.push p.pool bucket id
  pure { heads, pool }

def erase (p : PooledChains) (id : Nat) : Except Fault PooledChains := do
  let (heads, pool) ← p.heads.erase p.pool id
  pure { heads, pool }

def isChained (p : PooledChains) (id : Nat) : Except Fault Bool := do
  let link : ChainLink Nat ← follow p.pool id
  pure link.isChained

def isEmptyAt (p : PooledChains) (bucket : Nat) : Except Fault Bool := p.heads.isEmptyAt bucket

def first? (p : PooledChains) (bucket : Nat) : Except Fault (Option Nat) := p.heads.first? bucket

def next? (p : PooledChains) (id : Nat) : Except Fault (Option Nat) := Chain.next? p.pool id

def chains (p : PooledChains) : Except Fault (List (List Nat)) :=
  (List.range p.heads.count).mapM (p.heads.chain p.pool)

end PooledChains

/-! ## Buckets -/

/-- A hash table's buckets over a pool. -/
structure PooledBuckets where
  buckets : Buckets Nat
  pool : Pool (ChainLink Nat)

namespace PooledBuckets

/-- Makes 2^`bits` empty buckets over so many nodes, if the gate and the heap let it. -/
def create {σ : Type} (bits : UInt32) (nodes : Nat) (gate : Gate σ) (heap : Heap) (s : σ) :
    Except AllocError PooledBuckets × σ :=
  match Buckets.create Pool.placeSize bits gate heap s with
  | (.error cause, s) => (.error cause, s)
  | (.ok buckets, s) => (.ok { buckets, pool := Pool.unchained nodes }, s)

/-- Puts a node that is on no chain in front of the bucket of its hash. -/
def insert (p : PooledBuckets) (id : Nat) (hash : UInt64) : Except Fault PooledBuckets := do
  let (buckets, pool) ← p.buckets.insert p.pool id hash
  pure { buckets, pool }

def erase (p : PooledBuckets) (id : Nat) : Except Fault PooledBuckets := do
  let (buckets, pool) ← p.buckets.erase p.pool id
  pure { buckets, pool }

/-- The nodes whose hash may be `hash`, from front to back. -/
def candidates (p : PooledBuckets) (hash : UInt64) : Except Fault (List Nat) :=
  p.buckets.candidates p.pool hash

/-- Adds a node that has come off its chain to a list, and leaves it in the pool. -/
def note (_ : Buckets Nat) (pool : Pool (ChainLink Nat)) (ids : List Nat) (id : Nat) :
    Except Fault (Pool (ChainLink Nat) × List Nat) := pure (pool, ids ++ [id])

/-- Empties all buckets; the nodes come in the order in which they were taken off. -/
def clear (p : PooledBuckets) : Except Fault (List Nat × PooledBuckets) := do
  let (buckets, pool, ids) ← p.buckets.clear note p.pool []
  pure (ids, { buckets, pool })

/-- The buckets that are not empty, each with its chain from front to back. -/
def chains (p : PooledBuckets) : Except Fault (List (Nat × List Nat)) := do
  let all ← (List.range p.buckets.count).mapM fun bucket => do
    let chain ← p.buckets.chain p.pool bucket
    pure (bucket, chain)
  pure (all.filter fun (_, chain) => !chain.isEmpty)

end PooledBuckets

/-! ## Circular lists -/

/-- Circular lists through one pool. -/
structure PooledLists where
  lists : Array (CircularList Nat)
  pool : Pool (CircularLink Nat)

namespace PooledLists

def ofSizes (lists nodes : Nat) : PooledLists :=
  { lists := Array.replicate lists {}, pool := Pool.detached nodes }

def listAt (p : PooledLists) (list : Nat) : Except Fault (CircularList Nat) :=
  match p.lists[list]? with
  | some l => .ok l
  | none => .error .noHead

def pushFront (p : PooledLists) (list id : Nat) : Except Fault PooledLists := do
  let l ← p.listAt list
  let (l, pool) ← l.pushFront p.pool id
  pure { lists := p.lists.setIfInBounds list l, pool }

def pushBack (p : PooledLists) (list id : Nat) : Except Fault PooledLists := do
  let l ← p.listAt list
  let (l, pool) ← l.pushBack p.pool id
  pure { lists := p.lists.setIfInBounds list l, pool }

def erase (p : PooledLists) (list id : Nat) : Except Fault PooledLists := do
  let l ← p.listAt list
  let (l, pool) ← l.erase p.pool id
  pure { lists := p.lists.setIfInBounds list l, pool }

def isEmpty (p : PooledLists) (list : Nat) : Except Fault Bool := do
  let l ← p.listAt list
  pure l.isEmpty

def first? (p : PooledLists) (list : Nat) : Except Fault (Option Nat) := do
  let l ← p.listAt list
  pure l.first?

def last? (p : PooledLists) (list : Nat) : Except Fault (Option Nat) := do
  let l ← p.listAt list
  l.last? p.pool

def next? (p : PooledLists) (list id : Nat) : Except Fault (Option Nat) := do
  let l ← p.listAt list
  l.next? p.pool id

def iterate (p : PooledLists) (list : Nat) (sides : List Side) :
    Except Fault (List (Option Nat)) := do
  let l ← p.listAt list
  l.iterate p.pool sides

def sequences (p : PooledLists) : Except Fault (List (List Nat)) :=
  p.lists.toList.mapM (·.walk p.pool)

end PooledLists

end OrderedTable
