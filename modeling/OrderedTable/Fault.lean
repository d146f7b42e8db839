/-!
# Faults

A `Fault` names a step that a well-formed table never takes: reading a node that is not live,
indexing past the last bucket, walking longer than the store is large. An operation reports the
fault instead of going on with a made-up value, so that "no operation faults" is a statement about
the operation itself.
-/

namespace OrderedTable

/-- The steps that a well-formed table never takes, one constructor for each cause. From
`alreadyChained` on, what reports the fault is a debug assertion: a build may leave these checks
out, and then goes on where one of them would have failed. -/
inductive Fault
  /-- A link or an id names a node that is not live. -/
  | deadNode
  /-- The number of a bucket or of a list is not below how many there are. -/
  | noHead
  /-- One is subtracted from a count that is zero. -/
  | underflow
  /-- A walk has visited as many nodes as the store can hold and is not at its end. -/
  | endlessWalk
  /-- A node is put on a chain while it is on one. -/
  | alreadyChained
  /-- A node linked to itself is taken off a list that it is not the first of. -/
  | notFirst
  /-- An entry made for one key holds another. This is the one assertion that the caller can make
  fail, by a strategy that makes such entries: a build without it goes on with the entry. -/
  | foreignKey
  /-- Clearing a table has left nodes behind. -/
  | leftover
  /-- The chains together do not hold as many nodes as the table has entries. -/
  | miscount
  deriving DecidableEq

/-- Passes when `p` holds and reports `fault` when it does not. -/
def ensure (p : Prop) [Decidable p] (fault : Fault) : Except Fault Unit :=
  if p then .ok () else .error fault

def decrement : Nat → Except Fault Nat
  | 0 => .error .underflow
  | n + 1 => .ok n

@[simp] theorem ensure_of_pos {p : Prop} [Decidable p] {fault : Fault} (h : p) :
    ensure p fault = .ok () := if_pos h

@[simp] theorem ensure_of_neg {p : Prop} [Decidable p] {fault : Fault} (h : ¬ p) :
    ensure p fault = .error fault := if_neg h

end OrderedTable
