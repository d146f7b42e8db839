import OrderedTable.Arena.Slots
import OrderedTable.Buckets
import OrderedTable.Entry.Basic
import OrderedTable.Links.Arena
import OrderedTable.Links.CircularList

/-!
# The store of a table

A `Store` holds every entry in one node of an arena. The node is on one chain, that of its bucket,
and on one circular list, in the order of insertion. Both pairs of links are brought up to date
before an operation returns, and an entry is handed out only when its node has left both and the
arena: a `Departure` is such an entry with the store that it has left.

This module has the nodes, the two ways in and out (`Store.attach`, `Store.detach?`) and the
lookups; `Store/Sweep` has the operations that visit many entries.
-/

namespace OrderedTable

/-- An entry with its links to the chain and to the list that it is on. -/
@[ext]
structure Node (V : Type) where
  chain : ChainLink NodeId := {}
  place : CircularLink NodeId
  entry : Entry V

section

variable {V A : Type} [Arena A (Node V)]

instance : LinkStore A NodeId (ChainLink NodeId) :=
  Arena.linkStore Node.chain fun node chain => { node with chain }

instance : LinkStore A NodeId (CircularLink NodeId) :=
  Arena.linkStore Node.place fun node place => { node with place }

variable [LawfulArena A (Node V)]

instance : LawfulLinkStore A NodeId (ChainLink NodeId) :=
  Arena.lawful_linkStore _ _ fun _ _ => rfl

instance : LawfulLinkStore A NodeId (CircularLink NodeId) :=
  Arena.lawful_linkStore _ _ fun _ _ => rfl

end

/-- Entries in buckets and in order of insertion, with the nodes in an arena of type `A`. -/
structure Store (V : Type) (A : Type := SlotArena (Node V)) where
  buckets : Buckets NodeId
  nodes : A
  /-- The list of all nodes, the oldest first. -/
  order : CircularList NodeId := {}

/-- An entry that has left a store. -/
structure Departure (V : Type) (A : Type := SlotArena (Node V)) where
  id : NodeId
  entry : Entry V
  /-- The store once the entry has left it. -/
  rest : Store V A

/-- Whether there was something to remove. -/
inductive Removal
  | removed
  | notFound
  deriving DecidableEq

namespace Store

variable {V A : Type} [Arena A (Node V)]

def size (s : Store V A) : Nat := Arena.size s.nodes

def isEmpty (s : Store V A) : Bool := s.size = 0

def bucketCount (s : Store V A) : Nat := s.buckets.count

/-- The entry behind an id, unless it has left. -/
def get? (s : Store V A) (id : NodeId) : Option (Entry V) := (Arena.get? s.nodes id).map Node.entry

def contains (s : Store V A) (id : NodeId) : Bool := Arena.contains s.nodes id

/-- The entry of a node that is known to be live. -/
def entryAt (s : Store V A) (id : NodeId) : Except Fault (Entry V) :=
  match s.get? id with
  | some entry => .ok entry
  | none => .error .deadNode

def firstId? (s : Store V A) : Option NodeId := s.order.first?

def lastId? (s : Store V A) : Except Fault (Option NodeId) := s.order.last? s.nodes

def ids (s : Store V A) : Except Fault (List NodeId) := s.order.walk s.nodes

def entries (s : Store V A) : Except Fault (List (Entry V)) := do
  let ids ← s.ids
  ids.mapM s.entryAt

/-- Reads entries from both ends, on the given sides in turn. -/
def iterate (s : Store V A) (sides : List Side) : Except Fault (List (Option (Entry V))) := do
  let ids ← s.order.iterate s.nodes sides
  ids.mapM fun id => id.mapM s.entryAt

/-- Puts an entry into the bucket of its hash, in front, and at the end of the list. -/
def attach (s : Store V A) (hash : UInt64) (entry : Entry V) :
    Except Fault (NodeId × Store V A) := do
  let (id, nodes) := Arena.insertWith s.nodes fun id => { place := CircularLink.detached id, entry }
  let (buckets, nodes) ← s.buckets.insert nodes id hash
  let (order, nodes) ← s.order.pushBack nodes id
  pure (id, { buckets, nodes, order })

/-- Takes the entry behind `id` off its chain, off the list and out of the arena. -/
def detach? (s : Store V A) (id : NodeId) : Except Fault (Option (Departure V A)) :=
  if s.contains id then do
    let (buckets, nodes) ← s.buckets.erase s.nodes id
    let (order, nodes) ← s.order.erase nodes id
    match Arena.remove? nodes id with
    | some (node, nodes) =>
      pure (some { id, entry := node.entry, rest := { buckets, nodes, order } })
    | none => pure none
  else pure none

/-- The first of the ids whose entry answers to the probe. -/
def firstMatch? (s : Store V A) (probe : Key) : List NodeId → Except Fault (Option NodeId)
  | [] => pure none
  | id :: rest => do
    let entry ← s.entryAt id
    if entry.answersTo probe then pure (some id) else s.firstMatch? probe rest

/-- The newest entry in the bucket of `hash` that answers to the probe. -/
def find? (s : Store V A) (hash : UInt64) (probe : Key) : Except Fault (Option NodeId) := do
  let ids ← s.buckets.candidates s.nodes hash
  s.firstMatch? probe ids

end Store

end OrderedTable
