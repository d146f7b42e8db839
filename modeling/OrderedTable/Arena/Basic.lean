/-!
# Arenas

An arena keeps values and issues a `NodeId` for each. How it keeps them is left open: the class
`Arena` has the operations that are used of it, and in a `LawfulArena` an id names the one value that
it was issued for. Once that value is removed, the id resolves to nothing for good.

`Arena.get?` is the view of an arena that everything else goes through.
-/

namespace OrderedTable

/-- The name of one value of an arena: where it is kept, and which use of that place it is. -/
structure NodeId where
  slot : Nat
  /-- How often the place had been emptied when the id was issued. -/
  version : Nat
  deriving DecidableEq

/-- The bytes of memory that a place for an id, or for none, takes: half a word for the slot and half
a word for the version, with a version that no id has for none. -/
def NodeId.placeSize : Nat := 8

/-- A type of arenas that keep values of type `α`. -/
class Arena (A : Type) (α : outParam Type) where
  empty : A
  /-- The value that an id was issued for, unless it has been removed. -/
  get? : A → NodeId → Option α
  /-- The number of values. -/
  size : A → Nat
  /-- Applies a function to the value behind an id, if there is one. -/
  modify : A → NodeId → (α → α) → A
  /-- Puts in the value that is made with the id issued for it. -/
  insertWith : A → (NodeId → α) → NodeId × A
  /-- Takes out the value behind an id, if there is one. -/
  remove? : A → NodeId → Option (α × A)

namespace Arena

variable {A α : Type} [Arena A α]

def contains (a : A) (id : NodeId) : Bool := (get? a id).isSome

/-- By some operations, `a` becomes the other arena. -/
inductive Becomes (a : A) : A → Prop
  | refl : Becomes a a
  | modify {b : A} (h : Becomes a b) (id : NodeId) (f : α → α) : Becomes a (Arena.modify b id f)
  | insertWith {b : A} (h : Becomes a b) (make : NodeId → α) :
    Becomes a (Arena.insertWith b make).2
  | remove {b c : A} {id : NodeId} {x : α} (h : Becomes a b)
    (hremove : Arena.remove? b id = some (x, c)) : Becomes a c

end Arena

open Arena in
/-- An arena whose ids name one value each: none is issued twice. -/
class LawfulArena (A : Type) (α : outParam Type) [Arena A α] : Prop where
  get?_empty (id : NodeId) : get? (empty : A) id = none
  size_empty : size (empty : A) = 0
  get?_modify_self (a : A) (id : NodeId) (f : α → α) :
    get? (modify a id f) id = (get? a id).map f
  get?_modify_ne (a : A) {id other : NodeId} (f : α → α) (h : other ≠ id) :
    get? (modify a id f) other = get? a other
  size_modify (a : A) (id : NodeId) (f : α → α) : size (modify a id f) = size a
  /-- The id that is issued has not resolved to anything. -/
  get?_insertWith_fst (a : A) (make : NodeId → α) : get? a (insertWith a make).1 = none
  get?_insertWith_self (a : A) (make : NodeId → α) :
    get? (insertWith a make).2 (insertWith a make).1 = some (make (insertWith a make).1)
  get?_insertWith_ne (a : A) (make : NodeId → α) {other : NodeId}
    (h : other ≠ (insertWith a make).1) : get? (insertWith a make).2 other = get? a other
  size_insertWith (a : A) (make : NodeId → α) : size (insertWith a make).2 = size a + 1
  /-- However an arena goes on, the next id is another one. -/
  insertWith_ne {a b : A} {make : NodeId → α} (h : Becomes (insertWith a make).2 b)
    (make' : NodeId → α) : (insertWith b make').1 ≠ (insertWith a make).1
  remove?_eq_none {a : A} {id : NodeId} (h : get? a id = none) : remove? a id = none
  exists_remove? {a : A} {id : NodeId} {x : α} (h : get? a id = some x) :
    ∃ b, remove? a id = some (x, b) ∧ get? b id = none ∧
      (∀ other, other ≠ id → get? b other = get? a other) ∧ size b + 1 = size a
  /-- Every id that resolves counts. -/
  length_le_size {a : A} {ids : List NodeId} (h : ids.Nodup)
    (live : ∀ id ∈ ids, (get? a id).isSome = true) : ids.length ≤ size a

end OrderedTable
