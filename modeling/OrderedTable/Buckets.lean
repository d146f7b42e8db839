import OrderedTable.Allocation.Basic
import OrderedTable.Links.Chain

/-!
# Buckets

`Buckets` are the heads of 2^bits chains. The caller brings the hash of a node; its last `bits` bits
say which bucket the node belongs to. `Buckets.create` asks for the memory first, and reports the
first thing that stands in the way.
-/

namespace OrderedTable

/-- The heads of 2^`bits` chains. -/
@[ext]
structure Buckets (ι : Type) where
  heads : Heads ι
  bits : UInt32

namespace Buckets

/-- A number of elements or of bytes, if it fits in a word of 64 bits. -/
def word? (n : Nat) : Option Nat := if n < UInt64.size then some n else none

/-- The number of buckets, if it fits in a word. -/
def count? (bits : UInt32) : Option Nat := if bits.toNat < 64 then some (1 <<< bits.toNat) else none

variable {σ ι α : Type}

/-- Makes 2^`bits` empty buckets whose heads take `headSize` bytes each: asks for the table, computes
the size of the heads, asks for the heads and takes them from the heap. The first step that fails
gives the error. -/
def create (headSize : Nat) (bits : UInt32) (gate : Gate σ) (heap : Heap) (s : σ) :
    Except AllocError (Buckets ι) × σ :=
  match gate .table s with
  | (.error cause, s) => (.error cause, s)
  | (.ok (), s) =>
    match count? bits with
    | none => (.error .capacityOverflow, s)
    | some count =>
      match word? (count * headSize) with
      | none => (.error .capacityOverflow, s)
      | some bytes =>
        match gate (.buckets bytes) s with
        | (.error cause, s) => (.error cause, s)
        | (.ok (), s) =>
          match heap.reserve bytes with
          | .error cause => (.error cause, s)
          | .ok () => (.ok ⟨Heads.empty count, bits⟩, s)

def count (buckets : Buckets ι) : Nat := buckets.heads.count

/-- The bucket of a hash: the bits that the hash has in common with the largest bucket number. -/
def bucketOf (buckets : Buckets ι) (hash : UInt64) : Except Fault Nat := do
  let last ← decrement buckets.count
  pure (hash.toNat &&& last)

def isEmptyAt (buckets : Buckets ι) (bucket : Nat) : Except Fault Bool :=
  buckets.heads.isEmptyAt bucket

variable [LinkStore σ ι (ChainLink ι)]

/-- Puts a node that is on no chain in front of the chain that its hash belongs to. -/
def insert (buckets : Buckets ι) (nodes : σ) (id : ι) (hash : UInt64) :
    Except Fault (Buckets ι × σ) := do
  let bucket ← buckets.bucketOf hash
  let (heads, nodes) ← buckets.heads.push nodes bucket id
  pure ({ buckets with heads }, nodes)

/-- Takes a node off the chain that it is on, if any. -/
def erase (buckets : Buckets ι) (nodes : σ) (id : ι) : Except Fault (Buckets ι × σ) := do
  let (heads, nodes) ← buckets.heads.erase nodes id
  pure ({ buckets with heads }, nodes)

/-- Takes the nodes from `start` on off their chain, if those are at most `fuel`, and hands each to
`release`, which may free it: the node after it has been looked up before. -/
def clearFrom (release : Buckets ι → σ → α → ι → Except Fault (σ × α)) (fuel : Nat)
    (start : Option ι) (buckets : Buckets ι) (nodes : σ) (acc : α) :
    Except Fault (Buckets ι × σ × α) :=
  match fuel, start with
  | _, none => pure (buckets, nodes, acc)
  | 0, some _ => throw .endlessWalk
  | fuel + 1, some id => do
    let next ← Chain.next? nodes id
    let (buckets, nodes) ← buckets.erase nodes id
    let (nodes, acc) ← release buckets nodes acc id
    clearFrom release fuel next buckets nodes acc

variable [NodeStore σ]

/-- The nodes of a bucket, the one put there last in front. -/
def chain (buckets : Buckets ι) (nodes : σ) (bucket : Nat) : Except Fault (List ι) :=
  buckets.heads.chain nodes bucket

/-- The nodes whose hash may be `hash`, the one put there last in front. -/
def candidates (buckets : Buckets ι) (nodes : σ) (hash : UInt64) : Except Fault (List ι) := do
  let bucket ← buckets.bucketOf hash
  buckets.chain nodes bucket

/-- Empties the listed buckets in turn, each from front to back. -/
def clearEach (release : Buckets ι → σ → α → ι → Except Fault (σ × α)) :
    List Nat → Buckets ι → σ → α → Except Fault (Buckets ι × σ × α)
  | [], buckets, nodes, acc => pure (buckets, nodes, acc)
  | bucket :: rest, buckets, nodes, acc => do
    let first ← buckets.heads.first? bucket
    let (buckets, nodes, acc) ←
      clearFrom release (NodeStore.capacity nodes) first buckets nodes acc
    clearEach release rest buckets nodes acc

/-- Empties all buckets by ascending number, each from front to back, and hands every node to
`release` once it is off its chain. -/
def clear (release : Buckets ι → σ → α → ι → Except Fault (σ × α)) (buckets : Buckets ι)
    (nodes : σ) (acc : α) : Except Fault (Buckets ι × σ × α) :=
  clearEach release (List.range buckets.count) buckets nodes acc

end Buckets

end OrderedTable
