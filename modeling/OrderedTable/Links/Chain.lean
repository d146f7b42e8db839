import OrderedTable.Links.Basic

/-!
# Chains

A chain hangs from a bucket's head and runs through the `next` links of its nodes. Every node on a
chain also remembers its holder, the `Slot` that names it: the head of the bucket or the link of the
node before. So a node can be taken off without being told which chain it is on, and without a walk.

`Heads` are the heads of all buckets. `Heads.push` puts a node in front of a chain, `Heads.erase`
takes one off, and `Heads.chain` lists a chain from front to back.
-/

namespace OrderedTable

/-- A place that names a node on a chain. -/
inductive Slot (ι : Type)
  /-- The head of a bucket. -/
  | head (bucket : Nat)
  /-- The link of the node before. -/
  | after (node : ι)
  deriving DecidableEq

/-- The link of a node to the chain that it is on. A node on no chain has neither part. -/
structure ChainLink (ι : Type) where
  /-- The next node of the chain. -/
  next : Option ι := none
  /-- The place that names this node. -/
  holder : Option (Slot ι) := none
  deriving DecidableEq

def ChainLink.isChained {ι : Type} (link : ChainLink ι) : Bool := link.holder.isSome

/-- The first node of every bucket. -/
@[ext]
structure Heads (ι : Type) where
  first : Array (Option ι)

namespace Heads

variable {σ ι : Type}

def empty (count : Nat) : Heads ι := ⟨Array.replicate count none⟩

def count (heads : Heads ι) : Nat := heads.first.size

def first? (heads : Heads ι) (bucket : Nat) : Except Fault (Option ι) :=
  match heads.first[bucket]? with
  | some first => .ok first
  | none => .error .noHead

def setFirst (heads : Heads ι) (bucket : Nat) (first : Option ι) : Except Fault (Heads ι) :=
  if bucket < heads.count then .ok ⟨heads.first.setIfInBounds bucket first⟩
  else .error .noHead

def isEmptyAt (heads : Heads ι) (bucket : Nat) : Except Fault Bool := do
  let first ← heads.first? bucket
  pure first.isNone

variable [LinkStore σ ι (ChainLink ι)]

/-- Puts a node that is on no chain in front of the chain of a bucket. -/
def push (heads : Heads ι) (nodes : σ) (bucket : Nat) (id : ι) : Except Fault (Heads ι × σ) := do
  let link : ChainLink ι ← follow nodes id
  ensure (¬ link.isChained) .alreadyChained
  let first ← heads.first? bucket
  let nodes ← relink? nodes first fun link : ChainLink ι => { link with holder := some (.after id) }
  let nodes ← relink nodes id fun _ : ChainLink ι => { next := first, holder := some (.head bucket) }
  let heads ← heads.setFirst bucket (some id)
  pure (heads, nodes)

/-- Makes a slot name another node, or none. -/
def fill (heads : Heads ι) (nodes : σ) (slot : Slot ι) (id : Option ι) :
    Except Fault (Heads ι × σ) :=
  match slot with
  | .head bucket => do
    let heads ← heads.setFirst bucket id
    pure (heads, nodes)
  | .after node => do
    let nodes ← relink nodes node fun link : ChainLink ι => { link with next := id }
    pure (heads, nodes)

/-- Takes a node off the chain that it is on; a node on no chain is left alone. The slot that named
the node names the next one instead. -/
def erase (heads : Heads ι) (nodes : σ) (id : ι) : Except Fault (Heads ι × σ) := do
  let link : ChainLink ι ← follow nodes id
  match link.holder with
  | none => pure (heads, nodes)
  | some slot =>
    let nodes ← relink nodes id fun _ : ChainLink ι => {}
    let (heads, nodes) ← heads.fill nodes slot link.next
    let nodes ← relink? nodes link.next fun link : ChainLink ι => { link with holder := some slot }
    pure (heads, nodes)

end Heads

namespace Chain

variable {σ ι : Type} [LinkStore σ ι (ChainLink ι)]

def next? (nodes : σ) (id : ι) : Except Fault (Option ι) := do
  let link : ChainLink ι ← follow nodes id
  pure link.next

/-- The nodes from `start` to the end of its chain, if those are at most `fuel`. -/
def walk (nodes : σ) (fuel : Nat) (start : Option ι) : Except Fault (List ι) :=
  match fuel, start with
  | _, none => pure []
  | 0, some _ => throw .endlessWalk
  | fuel + 1, some id => do
    let next ← next? nodes id
    let rest ← walk nodes fuel next
    pure (id :: rest)

end Chain

def Heads.chain {σ ι : Type} [NodeStore σ] [LinkStore σ ι (ChainLink ι)] (heads : Heads ι)
    (nodes : σ) (bucket : Nat) : Except Fault (List ι) := do
  let first ← heads.first? bucket
  Chain.walk nodes (NodeStore.capacity nodes) first

end OrderedTable
