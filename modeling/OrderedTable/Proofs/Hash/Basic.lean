import Mathlib.Data.Int.ModEq
import Mathlib.Data.List.Infix
import OrderedTable.Hash

/-!
# Chunks and words

A hash depends on the bytes that have been written, and not on the chunks that they came in
(`ByteHasher.trace_eq`). Two hashers whose states keep step byte by byte give the same hashes
(`ByteHasher.KeepsStep.hashKey_eq`).

The states here are words of 32 bits that are added and shifted as signed numbers. What comes out in
the end is the bits, read as a number that is not negative: the lemmas on `Int32` say what becomes of
that number (`toNat_add_shiftLeft`), and that it is the signed one modulo 2^32 (`toNat_modEq_toInt`).
-/

namespace OrderedTable

/-! ## Chunks -/

namespace ByteHasher

variable {τ τ' : Type}

theorem states_eq (h : ByteHasher τ) (state : τ) (chunks : List (List UInt8)) :
    h.states state chunks = chunks.inits.map fun written => h.write state written.flatten := by
  induction chunks generalizing state with
  | nil => rfl
  | cons chunk chunks ih =>
    rw [states, ih, List.inits_cons, List.map_cons, List.map_map]
    simp only [Function.comp_def, List.flatten_cons, write_append]
    rfl

/-- A hash that is read on the way is that of the bytes so far, written at once. -/
theorem trace_eq (h : ByteHasher τ) (chunks : List (List UInt8)) :
    h.trace chunks = chunks.inits.map fun written => h.hashKey written.flatten := by
  rw [trace, states_eq, List.map_map]
  rfl

/-- The states are related at the start and remain so with every byte, and related states give the
same hash. -/
structure KeepsStep (R : τ → τ' → Prop) (h : ByteHasher τ) (h' : ByteHasher τ') : Prop where
  start : R h.start h'.start
  absorb : ∀ s s' b, R s s' → R (h.absorb s b) (h'.absorb s' b)
  finish : ∀ s s', R s s' → h.finish s = h'.finish s'

namespace KeepsStep

variable {R : τ → τ' → Prop} {h : ByteHasher τ} {h' : ByteHasher τ'}

theorem write (hstep : KeepsStep R h h') {s : τ} {s' : τ'} (hs : R s s') (bytes : List UInt8) :
    R (h.write s bytes) (h'.write s' bytes) := by
  induction bytes generalizing s s' with
  | nil => exact hs
  | cons b bytes ih => exact ih (hstep.absorb s s' b hs)

theorem hashKey_eq (hstep : KeepsStep R h h') (key : List UInt8) : h.hashKey key = h'.hashKey key :=
  hstep.finish _ _ (hstep.write hstep.start key)

end KeepsStep

end ByteHasher

/-! ## Words -/

theorem toNat_finishSigned (h : Int32) : (finishSigned h).toNat = h.toUInt32.toNat :=
  UInt32.toNat_toUInt64 _

/-- A literal below 32 is taken as it is, where it says how far to shift. -/
theorem toNat_smod_ofNat {k : Nat} (hk : k < 32) :
    ((Int32.ofNat k).toBitVec.smod 32).toNat = k := by
  decide +revert

theorem toNat_add (a b : Int32) :
    (a + b).toUInt32.toNat = (a.toUInt32.toNat + b.toUInt32.toNat) % 2 ^ 32 := by
  rw [Int32.toUInt32_add, UInt32.toNat_add]

theorem toNat_shiftLeft (h : Int32) {k : Nat} (hk : k < 32) :
    (h <<< Int32.ofNat k).toUInt32.toNat = 2 ^ k * h.toUInt32.toNat % 2 ^ 32 := by
  rw [← UInt32.toNat_toBitVec, Int32.toBitVec_toUInt32, Int32.toBitVec_shiftLeft,
    BitVec.shiftLeft_eq', toNat_smod_ofNat hk, BitVec.toNat_shiftLeft, Nat.shiftLeft_eq,
    Nat.mul_comm]
  rfl

theorem toNat_add_shiftLeft (h : Int32) {k : Nat} (hk : k < 32) :
    (h + (h <<< Int32.ofNat k)).toUInt32.toNat = (2 ^ k + 1) * h.toUInt32.toNat % 2 ^ 32 := by
  rw [toNat_add, toNat_shiftLeft h hk, Nat.add_mod_mod, Nat.add_mul, Nat.one_mul, Nat.add_comm]

theorem toNat_modEq_toInt (h : Int32) : (h.toUInt32.toNat : Int) ≡ h.toInt [ZMOD 2 ^ 32] := by
  rw [← Int32.toInt_toBitVec, BitVec.toInt_eq_toNat_bmod]
  exact (Int.bmod_emod (x := h.toBitVec.toNat) (m := 2 ^ 32)).symm

theorem toInt_add_modEq (a b : Int32) : (a + b).toInt ≡ a.toInt + b.toInt [ZMOD 2 ^ 32] := by
  rw [Int32.toInt_add]
  exact Int.bmod_emod (m := 2 ^ 32)

theorem toInt_shiftLeft_modEq (h : Int32) {k : Nat} (hk : k < 32) :
    (h <<< Int32.ofNat k).toInt ≡ 2 ^ k * h.toInt [ZMOD 2 ^ 32] := by
  calc (h <<< Int32.ofNat k).toInt
    _ ≡ (2 ^ k * h.toUInt32.toNat % 2 ^ 32 : Nat) [ZMOD 2 ^ 32] := by
      rw [← toNat_shiftLeft h hk]
      exact (toNat_modEq_toInt _).symm
    _ ≡ 2 ^ k * h.toUInt32.toNat [ZMOD 2 ^ 32] := by
      push_cast
      exact Int.mod_modEq _ _
    _ ≡ 2 ^ k * h.toInt [ZMOD 2 ^ 32] := (toNat_modEq_toInt h).mul_left _

end OrderedTable
