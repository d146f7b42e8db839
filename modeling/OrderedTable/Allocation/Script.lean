import OrderedTable.Allocation.Basic

/-!
# Scripted gates

A `Script` says in advance which requests a gate refuses: all of some places, keys above a size, or
everything once a budget is used up. `Rehearsal.gate` plays a script and keeps the list of what it
was asked for.
-/

namespace OrderedTable

/-- What a gate refuses. -/
structure Script where
  /-- The places that are told of an overflow. -/
  overflow : List Site := []
  refuse : List Site := []
  /-- The longest key that is granted a buffer. -/
  keyMax : Option Nat := none
  /-- How many more requests are granted. -/
  budget : Option Nat := none

namespace Script

/-- Whether the script turns the request away by its place or its size. -/
def refuses (script : Script) (request : Request) : Bool :=
  script.refuse.contains request.site ||
    match request, script.keyMax with
    | .key bytes, some max => max < bytes
    | _, _ => false

/-- The script that grants `n` requests and refuses all later ones. -/
def ofBudget (n : Nat) : Script := { budget := some n }

/-- The answer to a request, and the script from then on: an overflow comes before a refusal, and
only what is granted counts against the budget. -/
def answer (script : Script) (request : Request) : Except AllocError Unit × Script :=
  if script.overflow.contains request.site then (.error .capacityOverflow, script)
  else if script.refuses request then (.error (.refused request.site), script)
  else
    match script.budget with
    | none => (.ok (), script)
    | some 0 => (.error (.refused request.site), script)
    | some (n + 1) => (.ok (), { script with budget := some n })

end Script

/-- A script in play: what it was asked for, from first to last, and how many entries were made
under it. -/
structure Rehearsal where
  script : Script := {}
  asked : List Request := []
  entriesMade : Nat := 0

namespace Rehearsal

/-- Answers by the script and notes the request, granted or not. -/
def gate : Gate Rehearsal := fun request r =>
  let (answer, script) := r.script.answer request
  (answer, { r with script, asked := r.asked ++ [request] })

def follow (r : Rehearsal) (script : Script) : Rehearsal := { r with script }

def forget (r : Rehearsal) : Rehearsal := { r with asked := [] }

/-- Counts one more entry, and tells the count. -/
def countEntry (r : Rehearsal) : Nat × Rehearsal :=
  (r.entriesMade + 1, { r with entriesMade := r.entriesMade + 1 })

end Rehearsal

end OrderedTable
