import OrderedTable.Table.Basic

/-!
# Calls

A `Call` is one operation on a table with its arguments, and an `Answer` what it says. With them a
whole history is a list: `Table.run` makes the calls of a list one after the other.
-/

namespace OrderedTable

/-- An operation on a table. -/
inductive Call (V : Type)
  | insert (data : V) (key : Key)
  | insertDefault (key : Key)
  | replace (data : V) (key : Key)
  | erase (key : Key)
  | eraseId (id : NodeId)
  | eraseFirst
  | eraseLast
  | retain (keep : List (Entry V) → Entry V → Bool)
  | clear
  | find (key : Key)
  | getByKey (key : Key)
  | containsKey (key : Key)
  | get (id : NodeId)
  | contains (id : NodeId)
  | firstId
  | lastId
  | first
  | last
  | iterate (sides : List Side)
  | entries
  | size
  | isEmpty
  | occupancy
  | collisionPercent

/-- What an operation says. -/
inductive Answer (V : Type)
  /-- The id of the new entry, or why there is none. -/
  | inserted (result : Except (Rejected V) NodeId)
  | removal (result : Removal)
  /-- The entries that a predicate was asked about. -/
  | seen (entries : List (Entry V))
  | done
  | id (id : Option NodeId)
  | entry (entry : Option (Entry V))
  | truth (value : Bool)
  /-- What was read from both ends. -/
  | read (entries : List (Option (Entry V)))
  | entries (entries : List (Entry V))
  | count (n : Nat)
  | occupancy (o : Occupancy)

/-- What a history of calls comes to. -/
structure History (σ V : Type) (A : Type := SlotArena (Node V)) where
  answers : List (Answer V) := []
  released : List (Departure V A) := []
  table : Table σ V A

variable {σ V A α β : Type}

def Outcome.map (f : α → β) (o : Outcome σ V α A) : Outcome σ V β A :=
  { answer := f o.answer, released := o.released, table := o.table }

namespace Table

variable [Arena A (Node V)]

def say (t : Table σ V A) (answer : Answer V) : Except Fault (Outcome σ V (Answer V) A) :=
  pure { answer, table := t }

def call [Inhabited V] (t : Table σ V A) : Call V → Except Fault (Outcome σ V (Answer V) A)
  | .insert data key => (·.map .inserted) <$> t.insert data key
  | .insertDefault key => (·.map .inserted) <$> t.insertDefault key
  | .replace data key => (·.map .inserted) <$> t.replace data key
  | .erase key => (·.map .removal) <$> t.erase key
  | .eraseId id => (·.map .removal) <$> t.eraseId id
  | .eraseFirst => (·.map .removal) <$> t.eraseFirst
  | .eraseLast => (·.map .removal) <$> t.eraseLast
  | .retain keep => (·.map .seen) <$> t.retain keep
  | .clear => (·.map fun _ => .done) <$> t.clear
  | .find key => do t.say (.id (← t.find? key))
  | .getByKey key => do t.say (.entry (← t.getByKey? key))
  | .containsKey key => do t.say (.truth (← t.containsKey key))
  | .get id => t.say (.entry (t.store.get? id))
  | .contains id => t.say (.truth (t.store.contains id))
  | .firstId => t.say (.id t.store.firstId?)
  | .lastId => do t.say (.id (← t.store.lastId?))
  | .first => t.say (.entry t.first?)
  | .last => do t.say (.entry (← t.last?))
  | .iterate sides => do t.say (.read (← t.store.iterate sides))
  | .entries => do t.say (.entries (← t.store.entries))
  | .size => t.say (.count t.size)
  | .isEmpty => t.say (.truth t.isEmpty)
  | .occupancy => do t.say (.occupancy (← t.store.occupancy))
  | .collisionPercent => do t.say (.count (← t.store.collisionPercent))

/-- Makes the calls one after the other. -/
def run [Inhabited V] (t : Table σ V A) : List (Call V) → Except Fault (History σ V A)
  | [] => pure { table := t }
  | c :: calls => do
    let o ← t.call c
    let h ← o.table.run calls
    pure { h with answers := o.answer :: h.answers, released := o.released ++ h.released }

end Table

end OrderedTable
