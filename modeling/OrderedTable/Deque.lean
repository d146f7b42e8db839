import OrderedTable.Arena.Slots
import OrderedTable.Links.Arena
import OrderedTable.Links.CircularList
import OrderedTable.Notice
import OrderedTable.Text.Outline

/-!
# Deques

A `Deque` is a circular list of values that grows and shrinks at both ends. With a bound, a push
onto a full deque first evicts the head, whichever end the new value goes to.
-/

namespace OrderedTable

/-- A value with its link to its neighbours. -/
structure Deque.Node (α : Type) where
  place : CircularLink NodeId
  value : α

/-- Values from head to tail, with the nodes in an arena of type `A`. -/
structure Deque (α : Type) (A : Type := SlotArena (Deque.Node α)) where
  list : CircularList NodeId := {}
  nodes : A
  /-- The number of values that there is room for; zero stands for no bound. -/
  maxItems : Nat

namespace Deque

variable {α A : Type} [Arena A (Node α)]

instance : LinkStore A NodeId (CircularLink NodeId) :=
  Arena.linkStore Node.place fun node place => { node with place }

instance [LawfulArena A (Node α)] : LawfulLinkStore A NodeId (CircularLink NodeId) :=
  Arena.lawful_linkStore _ _ fun _ _ => rfl

/-- What a push comes to. -/
structure Push (α : Type) (A : Type := SlotArena (Deque.Node α)) where
  /-- The head that had to make room. -/
  evicted : Option α := none
  notices : List Notice := []
  deque : Deque α A

def empty (maxItems : Nat) : Deque α A := { nodes := Arena.empty, maxItems }

def size (d : Deque α A) : Nat := Arena.size d.nodes

def isEmpty (d : Deque α A) : Bool := d.list.isEmpty

def isFull (d : Deque α A) : Bool := d.maxItems ≠ 0 && d.maxItems ≤ d.size

/-- The value of a node that is known to be live. -/
def valueAt (d : Deque α A) (id : NodeId) : Except Fault α :=
  match Arena.get? d.nodes id with
  | some node => .ok node.value
  | none => .error .deadNode

def head? (d : Deque α A) : Except Fault (Option α) := d.list.first?.mapM d.valueAt

def tail? (d : Deque α A) : Except Fault (Option α) := do
  let id ← d.list.last? d.nodes
  id.mapM d.valueAt

def toList (d : Deque α A) : Except Fault (List α) := do
  let ids ← d.list.walk d.nodes
  ids.mapM d.valueAt

def iterate (d : Deque α A) (sides : List Side) : Except Fault (List (Option α)) := do
  let ids ← d.list.iterate d.nodes sides
  ids.mapM fun id => id.mapM d.valueAt

/-- Takes a node off the list and out of the arena. -/
def take (d : Deque α A) (id : NodeId) : Except Fault (Option α × Deque α A) := do
  let (list, nodes) ← d.list.erase d.nodes id
  match Arena.remove? nodes id with
  | some (node, nodes) => pure (some node.value, { d with list, nodes })
  | none => pure (none, { d with list, nodes })

def take? (d : Deque α A) : Option NodeId → Except Fault (Option α × Deque α A)
  | some id => d.take id
  | none => pure (none, d)

def popHead (d : Deque α A) : Except Fault (Option α × Deque α A) := d.take? d.list.first?

def popTail (d : Deque α A) : Except Fault (Option α × Deque α A) := do
  let id ← d.list.last? d.nodes
  d.take? id

/-- Evicts the head of a full deque. -/
def makeRoom (d : Deque α A) : Except Fault (Push α A) :=
  if d.isFull then
    match d.list.first? with
    | some id => do
      let (evicted, deque) ← d.take id
      pure { evicted, notices := [.evicting d.maxItems], deque }
    | none => pure { deque := d }
  else pure { deque := d }

/-- Puts a value on at one end, after making room for it. -/
def push (side : Side) (d : Deque α A) (value : α) : Except Fault (Push α A) := do
  let room ← d.makeRoom
  let d := room.deque
  let (id, nodes) := Arena.insertWith d.nodes fun id => { place := CircularLink.detached id, value }
  let (list, nodes) ← d.list.push nodes id side
  pure { room with deque := { d with list, nodes } }

def pushHead (d : Deque α A) (value : α) : Except Fault (Push α A) := d.push .front value

def pushTail (d : Deque α A) (value : α) : Except Fault (Push α A) := d.push .back value

/-- Removes values at the head until there is none, if there are at most `fuel`. -/
def clearWithin (d : Deque α A) (fuel : Nat) : Except Fault (List α × Deque α A) := do
  match ← d.popHead with
  | (none, d) => pure ([], d)
  | (some value, d) =>
    match fuel with
    | 0 => throw .endlessWalk
    | fuel + 1 =>
      let (values, d) ← d.clearWithin fuel
      pure (value :: values, d)

def clear (d : Deque α A) : Except Fault (List α × Deque α A) := d.clearWithin d.size

def outline (item : α → Outline) (d : Deque α A) : Except Fault Outline := do
  let values ← d.toList
  pure (.list (values.map item))

end Deque

end OrderedTable
