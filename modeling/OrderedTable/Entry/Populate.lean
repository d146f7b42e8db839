import OrderedTable.Allocation.Basic
import OrderedTable.Entry.Basic

/-!
# Populate strategies

A `Populate` strategy makes the entry for an insertion out of the caller's data and key. It may
change the data, ask the gate for memory, keep a state of its own and turn the data away; what it
may not do is store another key than the caller's.
-/

namespace OrderedTable

/-- Makes an entry of data and key, with the gate at hand and a state `σ` that it shares with the
gate. -/
abbrev Populate (σ V : Type) := Gate σ → V → Key → σ → Except (Rejected V) (Entry V) × σ

namespace Populate

variable {σ V : Type}

/-- Asks the gate for a key buffer and copies the key into it. -/
def copyKey : Populate σ V := fun gate data key s =>
  match gate (.key key.length) s with
  | (.error cause, s) => (.error ⟨.alloc cause, data⟩, s)
  | (.ok (), s) => (Entry.owned key data, s)

/-- Stores `change data` under a key of its own, without asking the gate. -/
def ownedWith (change : V → V) : Populate σ V := fun _ data key s =>
  (Entry.owned key (change data), s)

/-- Puts the key into the data, from which `project` reads it back. -/
def embeddedIn (hold : V → Key → V) (project : V → Key) : Populate σ V := fun _ data key s =>
  (Entry.embedded (hold data key) project, s)

/-- Turns away the data that `accept` does not accept. -/
def onlyIf (accept : V → Bool) : Populate σ V := fun _ data key s =>
  if accept data then (Entry.owned key data, s) else (.error ⟨.populate, data⟩, s)

/-- Turns away the data of every `n`-th call; `count` counts the calls in the state. -/
def allButEvery (n : Nat) (count : σ → Nat × σ) : Populate σ V := fun _ data key s =>
  let (calls, s) := count s
  if calls % n = 0 then (.error ⟨.populate, data⟩, s) else (Entry.owned key data, s)

end Populate

end OrderedTable
