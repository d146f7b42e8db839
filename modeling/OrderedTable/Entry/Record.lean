import OrderedTable.Entry.Populate

/-!
# Records

A `Record` is a number that can hold the key it is stored under, and so serves as data for every
strategy.
-/

namespace OrderedTable

/-- A number, and the key kept beside it. -/
structure Record where
  number : Int64
  /-- The key that an embedding strategy has put here. -/
  held : Key := []

namespace Record

instance : Inhabited Record := ⟨{ number := 0 }⟩

def outline (r : Record) : Outline := .int r.number.toInt

def hold (r : Record) (key : Key) : Record := { r with held := key }

def double (r : Record) : Record := { r with number := r.number + r.number }

def isNonneg (r : Record) : Bool := 0 ≤ r.number

end Record

namespace Populate

variable {σ : Type}

/-- Keeps the key inside the record. -/
def insideRecord : Populate σ Record := embeddedIn Record.hold Record.held

def doubling : Populate σ Record := ownedWith Record.double

def nonneg : Populate σ Record := onlyIf Record.isNonneg

end Populate

end OrderedTable
