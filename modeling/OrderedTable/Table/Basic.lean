import OrderedTable.Entry.Populate
import OrderedTable.Notice
import OrderedTable.Store.Sweep

/-!
# Tables

A `Table` is a store together with the `Policy` that it was built with: the hash of a key, the gate
that is asked before memory is taken and the strategy that makes entries. Gate and strategy share a
state, the table's `env`.

Every operation gives an `Outcome`: its answer, the entries that it has released and the table from
then on. A released entry has left the store before.
-/

namespace OrderedTable

/-- What a table is built with. -/
structure Policy (σ V : Type) where
  hash : Key → UInt64
  gate : Gate σ
  populate : Populate σ V

/-- Entries under keys, found by key and read in order of insertion. -/
structure Table (σ V : Type) (A : Type := SlotArena (Node V)) where
  policy : Policy σ V
  store : Store V A
  /-- The state of the gate and of the populate strategy. -/
  env : σ

/-- What an operation comes to. -/
structure Outcome (σ V α : Type) (A : Type := SlotArena (Node V)) where
  answer : α
  released : List (Departure V A) := []
  table : Table σ V A

/-- What building a table comes to. -/
structure Opening (σ V : Type) (A : Type := SlotArena (Node V)) where
  result : Except AllocError (Table σ V A)
  /-- The state of the gate afterwards. -/
  env : σ
  notices : List Notice := []

/-- What taking a table down comes to. -/
structure Teardown (V : Type) (A : Type := SlotArena (Node V)) where
  released : List (Departure V A)
  notice : Notice

variable {σ V A : Type} [Arena A (Node V)]

namespace Table

/-! ## Building -/

/-- Builds an empty table of 2^`bits` buckets: asks for the container, then makes the buckets. -/
def build (bits : UInt32) (policy : Policy σ V) (heap : Heap) (env : σ)
    (A : Type := SlotArena (Node V)) [Arena A (Node V)] : Opening σ V A :=
  match policy.gate .container env with
  | (.error cause, env) => { result := .error cause, env }
  | (.ok (), env) =>
    match Buckets.create NodeId.placeSize bits policy.gate heap env with
    | (.error cause, env) => { result := .error cause, env }
    | (.ok buckets, env) =>
      { result := .ok { policy, store := { buckets, nodes := Arena.empty }, env }
        env
        notices := [.created buckets.count buckets.bits.toNat] }

/-! ## Reading -/

def size (t : Table σ V A) : Nat := t.store.size

def isEmpty (t : Table σ V A) : Bool := t.store.isEmpty

/-- The number that the number of buckets is two to the power of. -/
def bits (t : Table σ V A) : UInt32 := t.store.buckets.bits

def bucketCount (t : Table σ V A) : Nat := t.store.bucketCount

/-- The id of the newest entry in the key's bucket whose own key starts with `key`. -/
def find? (t : Table σ V A) (key : Key) : Except Fault (Option NodeId) :=
  t.store.find? (t.policy.hash key) key

def getByKey? (t : Table σ V A) (key : Key) : Except Fault (Option (Entry V)) := do
  let id ← t.find? key
  pure (id.bind t.store.get?)

def containsKey (t : Table σ V A) (key : Key) : Except Fault Bool := do
  let id ← t.find? key
  pure id.isSome

def first? (t : Table σ V A) : Option (Entry V) := t.store.firstId?.bind t.store.get?

def last? (t : Table σ V A) : Except Fault (Option (Entry V)) := do
  let id ← t.store.lastId?
  pure (id.bind t.store.get?)

/-- The table in one outline: its size and its entries, the oldest first. -/
def outline (data : V → Outline) (t : Table σ V A) : Except Fault Outline := do
  let entries ← t.store.entries
  pure (.record "AssocArray" [("bits", .nat t.bits.toNat), ("len", .nat t.size),
    ("entries", .list (entries.map (Entry.outline data)))] false)

/-! ## Inserting -/

/-- Inserts an entry at the end. A key that is too long is turned away before the gate is asked for
the entry, and the strategy is called only when the gate has granted it.

That the strategy has made the entry for `key` is a debug assertion, which a build may leave out: it
then stores the entry all the same, in the bucket of `key`. Here the check is always made, so what is
said of a strategy that makes other entries is said of builds that have the assertion. -/
def insert (t : Table σ V A) (data : V) (key : Key) :
    Except Fault (Outcome σ V (Except (Rejected V) NodeId) A) :=
  if maxKeyLength < key.length then
    pure { answer := .error ⟨.keyTooLong key.length, data⟩, table := t }
  else
    match t.policy.gate .entry t.env with
    | (.error cause, env) =>
      pure { answer := .error ⟨.alloc cause, data⟩, table := { t with env } }
    | (.ok (), env) =>
      match t.policy.populate t.policy.gate data key env with
      | (.error rejected, env) => pure { answer := .error rejected, table := { t with env } }
      | (.ok entry, env) => do
        ensure (entry.key = key) .foreignKey
        let (id, store) ← t.store.attach (t.policy.hash key) entry
        pure { answer := .ok id, table := { t with store, env } }

def insertDefault [Inhabited V] (t : Table σ V A) (key : Key) :
    Except Fault (Outcome σ V (Except (Rejected V) NodeId) A) :=
  t.insert default key

/-! ## Removing -/

/-- Removes and releases the entry behind `id`. -/
def eraseId (t : Table σ V A) (id : NodeId) : Except Fault (Outcome σ V Removal A) := do
  match ← t.store.detach? id with
  | some d => pure { answer := .removed, released := [d], table := { t with store := d.rest } }
  | none => pure { answer := .notFound, table := t }

def eraseId? (t : Table σ V A) : Option NodeId → Except Fault (Outcome σ V Removal A)
  | some id => t.eraseId id
  | none => pure { answer := .notFound, table := t }

/-- Removes and releases the entry that `find?` finds. -/
def erase (t : Table σ V A) (key : Key) : Except Fault (Outcome σ V Removal A) := do
  let id ← t.find? key
  t.eraseId? id

def eraseFirst (t : Table σ V A) : Except Fault (Outcome σ V Removal A) :=
  t.eraseId? t.store.firstId?

def eraseLast (t : Table σ V A) : Except Fault (Outcome σ V Removal A) := do
  let id ← t.store.lastId?
  t.eraseId? id

/-- Removes the entry that `find?` finds, then inserts at the end, even when nothing was found. A
key that is too long is turned away before anything is removed. -/
def replace (t : Table σ V A) (data : V) (key : Key) :
    Except Fault (Outcome σ V (Except (Rejected V) NodeId) A) :=
  if maxKeyLength < key.length then
    pure { answer := .error ⟨.keyTooLong key.length, data⟩, table := t }
  else do
    let erased ← t.erase key
    let inserted ← erased.table.insert data key
    pure { inserted with released := erased.released ++ inserted.released }

/-- Keeps the entries that `keep` accepts and releases the others, the oldest first. The answer is
the list of entries that `keep` was asked about. -/
def retain (t : Table σ V A) (keep : List (Entry V) → Entry V → Bool) :
    Except Fault (Outcome σ V (List (Entry V)) A) := do
  let r ← t.store.retain keep
  pure { answer := r.seen, released := r.departed, table := { t with store := r.store } }

def clear (t : Table σ V A) : Except Fault (Outcome σ V Unit A) := do
  let (released, store) ← t.store.clear
  pure { answer := (), released, table := { t with store } }

/-- Releases every entry and reports how many there were. -/
def destroy (t : Table σ V A) : Except Fault (Teardown V A) := do
  let cleared ← t.clear
  pure { released := cleared.released, notice := .destroyed t.size t.bucketCount }

end Table

end OrderedTable
