import OrderedTable.Allocation.Basic
import OrderedTable.Key
import OrderedTable.Text.Outline

/-!
# Errors

An `Error` says why an array could not be built or an entry not be stored, and `Rejected` hands the
data of a failed insertion back beside it. Each has a message for the user and an outline for the
programmer.
-/

namespace OrderedTable

/-- Why an array could not be built or an entry not be stored. -/
inductive Error
  /-- Memory could not be had. -/
  | alloc (cause : AllocError)
  /-- The key has more than `maxKeyLength` bytes. -/
  | keyTooLong (length : Nat)
  /-- The populate strategy turned the data away. -/
  | populate
  deriving DecidableEq

/-- A failed insertion: the reason, and the data that was to be stored. -/
structure Rejected (V : Type) where
  error : Error
  data : V

/-! ## Messages -/

def Site.message : Site → String
  | .container => "container"
  | .table => "table"
  | .buckets => "bucket array"
  | .entry => "entry"
  | .key => "key buffer"

def Shortage.message : Shortage → String
  | .tooLarge =>
    "memory allocation failed because the computed capacity exceeded the collection's maximum"
  | .unsatisfied => "memory allocation failed because the memory allocator returned an error"

def AllocError.message : AllocError → String
  | .refused site => "allocation refused for " ++ site.message
  | .capacityOverflow => "capacity overflow"
  | .exhausted shortage => "out of memory: " ++ shortage.message

def Error.message : Error → String
  | .alloc cause => "AssocArrayError: " ++ cause.message
  | .keyTooLong length => s!"AssocArrayError: key of {length} bytes exceeds {maxKeyLength}"
  | .populate => "AssocArrayError: populate strategy failed"

/-- The failure behind an error, where there is one. -/
def Error.cause? : Error → Option AllocError
  | .alloc cause => some cause
  | _ => none

/-- A rejection is told by its error. -/
def Rejected.message {V : Type} (r : Rejected V) : String := r.error.message

/-! ## Outlines -/

def Site.outline : Site → Outline
  | .container => .word "Container"
  | .table => .word "Table"
  | .buckets => .word "Buckets"
  | .entry => .word "Entry"
  | .key => .word "Key"

def Shortage.outline : Shortage → Outline
  | .tooLarge => .word "CapacityOverflow"
  | .unsatisfied => .word "AllocError"

def AllocError.outline : AllocError → Outline
  | .refused site => .call "Refused" [site.outline]
  | .capacityOverflow => .word "CapacityOverflow"
  | .exhausted shortage => .call "Exhausted" [shortage.outline]

def Error.outline : Error → Outline
  | .alloc cause => .call "Alloc" [cause.outline]
  | .keyTooLong length => .call "KeyTooLong" [.nat length]
  | .populate => .word "Populate"

/-- A rejection shows its error and hides the data. -/
def Rejected.outline {V : Type} (r : Rejected V) : Outline :=
  .record "Rejected" [("error", r.error.outline)] true

end OrderedTable
