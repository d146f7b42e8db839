import OrderedTable.Links.Basic

/-!
# Circular lists

A circular list remembers its first node only. Every node links to the ones before and after it,
the last to the first and the first back to the last. A node on no list links to itself, and so does
the only node of a list.

A `Cursor` reads a list from both ends until the ends have met.
-/

namespace OrderedTable

/-- The link of a node to its neighbours on a list. -/
structure CircularLink (ι : Type) where
  prev : ι
  next : ι
  deriving DecidableEq

/-- The link of a node on no list. -/
def CircularLink.detached {ι : Type} (own : ι) : CircularLink ι := ⟨own, own⟩

inductive Side
  | front
  | back
  deriving DecidableEq

/-- A list, known by its first node. -/
@[ext]
structure CircularList (ι : Type) where
  first? : Option ι := none
  deriving DecidableEq

namespace CircularList

variable {σ ι : Type}

def isEmpty (list : CircularList ι) : Bool := list.first?.isNone

variable [LinkStore σ ι (CircularLink ι)]

/-- The last node: the one before the first. -/
def last? (list : CircularList ι) (nodes : σ) : Except Fault (Option ι) :=
  match list.first? with
  | none => pure none
  | some first => do
    let link : CircularLink ι ← follow nodes first
    pure (some link.prev)

/-- Puts a node that is on no list between the last node and the first. -/
def close (list : CircularList ι) (nodes : σ) (id : ι) : Except Fault σ :=
  match list.first? with
  | none => relink nodes id fun _ => CircularLink.detached id
  | some first => do
    let link : CircularLink ι ← follow nodes first
    let nodes ← relink nodes id fun _ => (⟨link.prev, first⟩ : CircularLink ι)
    let nodes ← relink nodes link.prev fun last : CircularLink ι => { last with next := id }
    relink nodes first fun link : CircularLink ι => { link with prev := id }

/-- Puts a node that is on no list at the back. -/
def pushBack (list : CircularList ι) (nodes : σ) (id : ι) : Except Fault (CircularList ι × σ) := do
  let nodes ← list.close nodes id
  pure (⟨some (list.first?.getD id)⟩, nodes)

/-- Puts a node that is on no list at the front: behind the last, with the list starting there. -/
def pushFront (list : CircularList ι) (nodes : σ) (id : ι) : Except Fault (CircularList ι × σ) := do
  let nodes ← list.close nodes id
  pure (⟨some id⟩, nodes)

/-- Puts a node that is on no list at one end. -/
def push (list : CircularList ι) (nodes : σ) (id : ι) :
    Side → Except Fault (CircularList ι × σ)
  | .front => list.pushFront nodes id
  | .back => list.pushBack nodes id

variable [DecidableEq ι]

/-- The node after `id`, unless that is the first again. -/
def next? (list : CircularList ι) (nodes : σ) (id : ι) : Except Fault (Option ι) := do
  let link : CircularLink ι ← follow nodes id
  pure (if list.first? = some link.next then none else some link.next)

/-- Takes a node off the list and links it to itself. -/
def erase (list : CircularList ι) (nodes : σ) (id : ι) : Except Fault (CircularList ι × σ) := do
  let link : CircularLink ι ← follow nodes id
  if link.next = id then
    ensure (list.first? = some id) .notFirst
    let nodes ← relink nodes id fun _ => CircularLink.detached id
    pure (⟨none⟩, nodes)
  else
    let nodes ← relink nodes link.prev fun prev : CircularLink ι => { prev with next := link.next }
    let nodes ← relink nodes link.next fun next : CircularLink ι => { next with prev := link.prev }
    let nodes ← relink nodes id fun _ => CircularLink.detached id
    pure (⟨if list.first? = some id then some link.next else list.first?⟩, nodes)

end CircularList

/-! ## Cursors -/

/-- What is left to read of a list: everything from `front` to `back`. -/
structure Cursor (ι : Type) where
  front : Option ι
  back : Option ι
  deriving DecidableEq

namespace Cursor

variable {σ ι : Type}

/-- The node that is read next on a side. -/
def at? (cursor : Cursor ι) : Side → Option ι
  | .front => cursor.front
  | .back => cursor.back

/-- The cursor past the node that `link` belongs to, which was read on the given side. -/
def advance (cursor : Cursor ι) (link : CircularLink ι) : Side → Cursor ι
  | .front => { cursor with front := some link.next }
  | .back => { cursor with back := some link.prev }

variable [LinkStore σ ι (CircularLink ι)] [DecidableEq ι]

/-- Reads one node on a side. Nothing is left after the node that both ends have come to. -/
def step (cursor : Cursor ι) (nodes : σ) (side : Side) :
    Except Fault (Option ι × Cursor ι) :=
  match cursor.at? side with
  | none => pure (none, cursor)
  | some id =>
    if cursor.front = cursor.back then pure (some id, ⟨none, none⟩)
    else do
      let link : CircularLink ι ← follow nodes id
      pure (some id, cursor.advance link side)

def run (cursor : Cursor ι) (nodes : σ) : List Side → Except Fault (List (Option ι))
  | [] => pure []
  | side :: sides => do
    let (id, cursor) ← cursor.step nodes side
    let rest ← cursor.run nodes sides
    pure (id :: rest)

/-- Reads all that is left from the front, if that is at most `fuel` nodes. -/
def drain (cursor : Cursor ι) (nodes : σ) (fuel : Nat) : Except Fault (List ι) :=
  match fuel, cursor.front with
  | _, none => pure []
  | 0, some _ => throw .endlessWalk
  | fuel + 1, some id => do
    let (_, cursor) ← cursor.step nodes .front
    let rest ← cursor.drain nodes fuel
    pure (id :: rest)

end Cursor

namespace CircularList

variable {σ ι : Type} [LinkStore σ ι (CircularLink ι)]

def cursor (list : CircularList ι) (nodes : σ) : Except Fault (Cursor ι) := do
  let last ← list.last? nodes
  pure ⟨list.first?, last⟩

variable [DecidableEq ι]

/-- Reads the list on the given sides in turn. -/
def iterate (list : CircularList ι) (nodes : σ) (sides : List Side) :
    Except Fault (List (Option ι)) := do
  let cursor ← list.cursor nodes
  cursor.run nodes sides

def walk [NodeStore σ] (list : CircularList ι) (nodes : σ) : Except Fault (List ι) := do
  let cursor ← list.cursor nodes
  cursor.drain nodes (NodeStore.capacity nodes)

end CircularList

end OrderedTable
