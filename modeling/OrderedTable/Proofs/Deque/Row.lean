import Mathlib.Algebra.Order.Group.Multiset
import Mathlib.Tactic.Abel
import OrderedTable.Deque
import OrderedTable.Proofs.Links.Cursor

/-!
# Bounded rows

`Deque.Call` and `Deque.Answer` make a list out of what is done to a deque and what it says, and
`Deque.run` is the whole history. `Row.call` says the same of a plain sequence with a bound: this is
how a deque is meant to behave. A row never grows beyond its bound (`Row.run_length_le`), and no value
is lost or doubled in it (`Row.run_balance`).
-/

namespace OrderedTable

namespace Deque

/-- An operation on a deque. -/
inductive Call (α : Type)
  | push (side : Side) (value : α)
  | pop (side : Side)
  | clear
  /-- The value at an end is looked at. -/
  | peek (side : Side)
  | size
  | isEmpty
  /-- Values are read at one end or the other in turn. -/
  | iterate (sides : List Side)
  | toList
  deriving DecidableEq

/-- What an operation says. -/
inductive Answer (α : Type)
  /-- The head that had to make room for a value, if any. -/
  | evicted (value : Option α)
  | popped (value : Option α)
  /-- The values that have been dropped, from head to tail. -/
  | cleared (values : List α)
  | peeked (value : Option α)
  | count (n : Nat)
  | truth (value : Bool)
  | read (values : List (Option α))
  | listed (values : List α)
  deriving DecidableEq

/-- What an operation comes to. -/
structure Outcome (α A : Type) where
  answer : Answer α
  notices : List Notice := []
  deque : Deque α A

/-- What a history of calls comes to: the answers, each with what has been reported meanwhile, and
the deque in the end. -/
structure History (α A : Type) where
  turns : List (Answer α × List Notice) := []
  deque : Deque α A

variable {α A : Type} [Arena A (Node α)]

def Push.outcome (p : Push α A) : Outcome α A :=
  { answer := .evicted p.evicted, notices := p.notices, deque := p.deque }

def say (d : Deque α A) (answer : Answer α) : Except Fault (Outcome α A) :=
  pure { answer, deque := d }

def call (d : Deque α A) : Call α → Except Fault (Outcome α A)
  | .push .front value => Push.outcome <$> d.pushHead value
  | .push .back value => Push.outcome <$> d.pushTail value
  | .pop .front => do
    let (value, d) ← d.popHead
    d.say (.popped value)
  | .pop .back => do
    let (value, d) ← d.popTail
    d.say (.popped value)
  | .clear => do
    let (values, d) ← d.clear
    d.say (.cleared values)
  | .peek .front => do d.say (.peeked (← d.head?))
  | .peek .back => do d.say (.peeked (← d.tail?))
  | .size => d.say (.count d.size)
  | .isEmpty => d.say (.truth d.isEmpty)
  | .iterate sides => do d.say (.read (← d.iterate sides))
  | .toList => do d.say (.listed (← d.toList))

/-- Makes the calls one after the other. -/
def run (d : Deque α A) : List (Call α) → Except Fault (History α A)
  | [] => pure { deque := d }
  | c :: calls => do
    let o ← d.call c
    let h ← o.deque.run calls
    pure { h with turns := (o.answer, o.notices) :: h.turns }

/-! ## What goes in and what comes out -/

def Call.pushed : Call α → List α
  | .push _ value => [value]
  | _ => []

namespace Answer

def evictedValues : Answer α → List α
  | .evicted value => value.toList
  | _ => []

def poppedValues : Answer α → List α
  | .popped value => value.toList
  | _ => []

def clearedValues : Answer α → List α
  | .cleared values => values
  | _ => []

/-- What is to be reported along with an answer: one eviction if a value has been evicted. -/
def notices (maxItems : Nat) : Answer α → List Notice
  | .evicted (some _) => [.evicting maxItems]
  | _ => []

end Answer

end Deque

/-! ## Rows -/

namespace Row

open Deque (Call Answer)

variable {α : Type}

/-- What a plain sequence of values says to a call, and what becomes of it. There is room for
`maxItems` values if that is not zero: a value that there is no room for first drives out the head,
whichever end it goes to. -/
def call (maxItems : Nat) (xs : List α) : Call α → Answer α × List α
  | .push side value =>
    if 0 < maxItems ∧ maxItems ≤ xs.length then (.evicted xs.head?, side.insert value xs.tail)
    else (.evicted none, side.insert value xs)
  | .pop .front => (.popped xs.head?, xs.tail)
  | .pop .back => (.popped xs.getLast?, xs.dropLast)
  | .clear => (.cleared xs, [])
  | .peek .front => (.peeked xs.head?, xs)
  | .peek .back => (.peeked xs.getLast?, xs)
  | .size => (.count xs.length, xs)
  | .isEmpty => (.truth xs.isEmpty, xs)
  | .iterate sides => (.read (readEnds xs sides), xs)
  | .toList => (.listed xs, xs)

/-- What it says to the calls one after the other, and what becomes of it. -/
def run (maxItems : Nat) (xs : List α) : List (Call α) → List (Answer α) × List α
  | [] => ([], xs)
  | c :: calls =>
    let said := call maxItems xs c
    let later := run maxItems said.2 calls
    (said.1 :: later.1, later.2)

variable {maxItems : Nat} {xs : List α}

theorem call_length_le (c : Call α) (hpos : 0 < maxItems) (h : xs.length ≤ maxItems) :
    (call maxItems xs c).2.length ≤ maxItems := by
  cases c with
  | push side value =>
    rw [call]
    split
    · rw [Side.length_insert, List.length_tail]
      omega
    · rw [Side.length_insert]
      omega
  | pop side =>
    cases side with
    | front => exact Nat.le_trans xs.tail_sublist.length_le h
    | back => exact Nat.le_trans xs.dropLast_sublist.length_le h
  | clear => exact Nat.zero_le _
  | peek side => cases side <;> exact h
  | size | isEmpty | iterate _ | toList => exact h

theorem run_length_le (calls : List (Call α)) (hpos : 0 < maxItems) (h : xs.length ≤ maxItems) :
    (run maxItems xs calls).2.length ≤ maxItems := by
  induction calls generalizing xs with
  | nil => exact h
  | cons c calls ih => exact ih (call_length_le c hpos h)

/-- What is put in and what was there comes out, or is there afterwards. -/
theorem call_balance (maxItems : Nat) (xs : List α) (c : Call α) : (c.pushed : Multiset α) + xs =
    (call maxItems xs c).1.poppedValues + (call maxItems xs c).1.evictedValues +
      (call maxItems xs c).1.clearedValues + (call maxItems xs c).2 := by
  simp only [Multiset.coe_add, Multiset.coe_eq_coe]
  cases c with
  | push side value =>
    rw [call]
    split
    · rename_i hfull
      obtain ⟨x, xs, rfl⟩ := List.exists_cons_of_length_pos (Nat.lt_of_lt_of_le hfull.1 hfull.2)
      exact (List.Perm.swap x value xs).trans ((Side.insert_perm value xs side).symm.cons x)
    · exact (Side.insert_perm value xs side).symm
  | pop side =>
    cases side with
    | front => cases xs <;> exact .refl _
    | back =>
      rcases List.eq_nil_or_concat xs with rfl | ⟨xs, x, rfl⟩
      · exact .refl _
      · rw [List.concat_eq_append, call, List.getLast?_concat, List.dropLast_concat]
        exact List.perm_append_singleton x xs
  | clear => simp [call, Call.pushed, Answer.poppedValues, Answer.evictedValues,
      Answer.clearedValues]
  | peek side => cases side <;> exact .refl _
  | size | isEmpty | iterate _ | toList => exact .refl _

theorem run_balance (calls : List (Call α)) :
    (calls.flatMap Call.pushed : Multiset α) + xs =
      (run maxItems xs calls).1.flatMap Answer.poppedValues +
        (run maxItems xs calls).1.flatMap Answer.evictedValues +
        (run maxItems xs calls).1.flatMap Answer.clearedValues + (run maxItems xs calls).2 := by
  induction calls generalizing xs with
  | nil => simp [run]
  | cons c calls ih =>
    have hcall := call_balance maxItems xs c
    have hrest := @ih (call maxItems xs c).2
    simp only [run, List.flatMap_cons, ← Multiset.coe_add]
    rw [add_right_comm, hcall, add_right_comm, add_assoc, hrest]
    abel

end Row

end OrderedTable
