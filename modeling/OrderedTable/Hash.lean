/-!
# Hashing byte strings

A `ByteHasher` folds a step over the bytes that it is fed and reads a 64-bit number off its state at
any time. The two hashers here keep 32-bit signed states and wrap around; `times33` takes a byte as
signed and `oneAtATime` as unsigned.
-/

namespace OrderedTable

/-- A hash function that takes its bytes one after the other. -/
structure ByteHasher (τ : Type) where
  start : τ
  absorb : τ → UInt8 → τ
  finish : τ → UInt64

namespace ByteHasher

def write {τ : Type} (h : ByteHasher τ) (state : τ) (bytes : List UInt8) : τ :=
  bytes.foldl h.absorb state

def hashKey {τ : Type} (h : ByteHasher τ) (key : List UInt8) : UInt64 :=
  h.finish (h.write h.start key)

/-- The states from `state` on, the next one after each chunk. -/
def states {τ : Type} (h : ByteHasher τ) (state : τ) : List (List UInt8) → List τ
  | [] => [state]
  | chunk :: chunks => state :: h.states (h.write state chunk) chunks

/-- The hashes after none, one, two and so on of the chunks. -/
def trace {τ : Type} (h : ByteHasher τ) (chunks : List (List UInt8)) : List UInt64 :=
  (h.states h.start chunks).map h.finish

/-- Two chunks in turn are as good as one. -/
theorem write_append {τ : Type} (h : ByteHasher τ) (state : τ) (a b : List UInt8) :
    h.write state (a ++ b) = h.write (h.write state a) b := by
  simp [write]

end ByteHasher

/-- The 32 bits of a state as a number that is not negative. -/
def finishSigned (h : Int32) : UInt64 := h.toUInt32.toUInt64

/-- Each byte, read as signed, is added to 33 times the state. -/
def times33 : ByteHasher Int32 where
  start := 5381
  absorb h b := (h <<< 5) + h + b.toInt8.toInt32
  finish := finishSigned

/-- Each byte is added unsigned and stirred in by shifts. The right shift of a negative state brings
in ones. -/
def oneAtATime : ByteHasher Int32 where
  start := 0
  absorb h b :=
    let h := h + b.toUInt32.toInt32
    let h := h + (h <<< 10)
    h ^^^ (h >>> 6)
  finish h :=
    let h := h + (h <<< 3)
    let h := h ^^^ (h >>> 11)
    finishSigned (h + (h <<< 15))

/-- The hash that `pairs` lists for a key, and `other` for a key that is not listed. -/
def listedHash (pairs : List (List UInt8 × UInt64)) (other : UInt64) (key : List UInt8) : UInt64 :=
  (pairs.lookup key).getD other

end OrderedTable
