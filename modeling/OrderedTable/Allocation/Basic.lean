/-!
# Permission to allocate

Before the container takes memory it asks a `Gate`. A gate keeps a state of its own, of any type
`σ`, and grants a request or says why not. What the gate grants is then taken from the `Heap`,
which may still be unable to provide it: only the bucket array is large enough for that to matter.
-/

namespace OrderedTable

/-- The five places of the container that allocate. -/
inductive Site
  | container
  | table
  | buckets
  | entry
  | key
  deriving DecidableEq

/-- What is asked for: the place and, where it depends on the input, the number of bytes. -/
inductive Request
  | container
  | table
  | buckets (bytes : Nat)
  | entry
  | key (bytes : Nat)
  deriving DecidableEq

def Request.site : Request → Site
  | .container => .container
  | .table => .table
  | .buckets _ => .buckets
  | .entry => .entry
  | .key _ => .key

/-- Why the heap does not provide what was granted. -/
inductive Shortage
  /-- More bytes than any one object may have. -/
  | tooLarge
  /-- More bytes than there are. -/
  | unsatisfied
  deriving DecidableEq

/-- Why memory could not be had. -/
inductive AllocError
  /-- The gate said no. -/
  | refused (site : Site)
  /-- The number of bytes does not fit in a word. -/
  | capacityOverflow
  /-- The gate said yes and the heap had no room. -/
  | exhausted (shortage : Shortage)
  deriving DecidableEq

/-- Decides whether a request may proceed, and moves on to its next state. -/
abbrev Gate (σ : Type) := Request → σ → Except AllocError Unit × σ

def Gate.always {σ : Type} : Gate σ := fun _ s => (.ok (), s)

/-- The memory behind the gate: `holds bytes` says whether that many bytes can be had at once. -/
structure Heap where
  holds : Nat → Bool

namespace Heap

/-- One less than half of the address space: no object is larger. -/
def maxObjectSize : Nat := UInt64.size / 2 - 1

/-- The heap of a process whose addresses have 47 bits. -/
def ofProcess : Heap := ⟨fun bytes => bytes ≤ 1 <<< 47⟩

/-- Whether so many bytes can be had, or why not. -/
def reserve (heap : Heap) (bytes : Nat) : Except AllocError Unit :=
  if maxObjectSize < bytes then .error (.exhausted .tooLarge)
  else if heap.holds bytes then .ok ()
  else .error (.exhausted .unsatisfied)

end Heap

end OrderedTable
