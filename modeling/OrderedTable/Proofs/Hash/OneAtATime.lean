import OrderedTable.Proofs.Hash.Basic

/-!
# One at a time

The state is shifted to the right as a signed number, and so the sign bit of a negative one is
brought in all along. Mixed with itself that way, a number comes to the same as its complement: it is
folded at 2^31. So the hash can be told in numbers that are never negative (`OneAtATime.onNat`), and
no sign bit outlasts a step. Where nothing reaches 2^31, nothing is folded. See
`OneAtATime.actsOnNat`.
-/

namespace OrderedTable

namespace OneAtATime

/-! ## Unsigned numbers -/

/-- Of a number and its complement in 32 bits, the one that is below 2^31. -/
def fold (h : Nat) : Nat := min h (2 ^ 32 - 1 - h)

/-- `m h` mixed with its own bits from the `k`-th on. -/
def mix (m : Nat → Nat) (k h : Nat) : Nat := m h ^^^ (m h >>> k)

/-- What is mixed for a byte. -/
def taken (h : Nat) (b : UInt8) : Nat := 1025 * ((h + b.toNat) % 2 ^ 32) % 2 ^ 32

/-- What is mixed at the end. -/
def closed (h : Nat) : Nat := 9 * h % 2 ^ 32

/-- The hash on numbers below 2^32, where `m h` stands for what `h` is mixed as. With `m` the
identity, this is the classical hash on unsigned words. -/
def onNat (m : Nat → Nat) : ByteHasher Nat where
  start := 0
  absorb h b := mix m 6 (taken h b)
  finish h := .ofNat (32769 * mix m 11 (closed h) % 2 ^ 32)

/-- All numbers that are mixed on the way from the state `h` to the hash. -/
def mixed (m : Nat → Nat) (h : Nat) : List UInt8 → List Nat
  | [] => [closed h]
  | b :: bytes => taken h b :: mixed m ((onNat m).absorb h b) bytes

theorem fold_of_lt {h : Nat} (hlt : h < 2 ^ 31) : fold h = h := by
  rw [fold]
  omega

theorem mix_fold_lt {h : Nat} (k : Nat) (hlt : h < 2 ^ 32) : mix fold k h < 2 ^ 31 := by
  have hfold : fold h < 2 ^ 31 := by
    rw [fold]
    omega
  exact Nat.xor_lt_two_pow hfold ((Nat.shiftRight_le _ _).trans_lt hfold)

/-- Where `m` and `m'` agree, hashes agree whose numbers do not reach further. -/
theorem finish_write_congr {m m' : Nat → Nat} (hm : ∀ x < 2 ^ 31, m x = m' x) {h : Nat}
    {bytes : List UInt8} (hlt : ∀ x ∈ mixed m h bytes, x < 2 ^ 31) :
    (onNat m).finish ((onNat m).write h bytes) = (onNat m').finish ((onNat m').write h bytes) ∧
      mixed m h bytes = mixed m' h bytes := by
  have hmix : ∀ k x, x < 2 ^ 31 → mix m k x = mix m' k x := fun k x hx => by
    rw [mix, mix, hm x hx]
  induction bytes generalizing h with
  | nil =>
    have hclosed := hmix 11 (closed h) (hlt _ List.mem_cons_self)
    simp [ByteHasher.write, onNat, mixed, hclosed]
  | cons b bytes ih =>
    have htaken := hmix 6 (taken h b) (hlt _ List.mem_cons_self)
    have habsorb : (onNat m).absorb h b = (onNat m').absorb h b := htaken
    obtain ⟨hfinish, hmixed⟩ := ih fun x hx => hlt x (List.mem_cons_of_mem _ hx)
    rw [habsorb] at hfinish hmixed
    refine ⟨?_, ?_⟩
    · simpa only [ByteHasher.write, List.foldl_cons, habsorb] using hfinish
    · rw [mixed, mixed, habsorb, hmixed]

/-! ## Signed words -/

theorem toNat_xor_sshiftRight (x : BitVec 32) (k : Nat) :
    (x ^^^ x.sshiftRight k).toNat = mix fold k x.toNat := by
  have hlt := x.isLt
  cases hsign : x.msb with
  | false =>
    have hfold : fold x.toNat = x.toNat := by
      have := BitVec.msb_eq_false_iff_two_mul_lt.1 hsign
      exact fold_of_lt (by omega)
    rw [BitVec.sshiftRight_eq_of_msb_false hsign, BitVec.toNat_xor, BitVec.toNat_ushiftRight, mix,
      hfold]
  | true =>
    have hfold : fold x.toNat = (~~~x).toNat := by
      have := BitVec.msb_eq_true_iff_two_mul_ge.1 hsign
      rw [fold, BitVec.toNat_not]
      omega
    -- The bits that are shifted are complemented before and after.
    have hxor : x ^^^ ~~~(~~~x >>> k) = ~~~x ^^^ (~~~x >>> k) := by
      rw [← BitVec.not_xor_right, BitVec.not_xor_left]
    rw [BitVec.sshiftRight_eq_of_msb_true hsign, hxor, BitVec.toNat_xor, BitVec.toNat_ushiftRight,
      mix, hfold]

theorem toNat_xor_shiftRight (h : Int32) {k : Nat} (hk : k < 32) :
    (h ^^^ (h >>> Int32.ofNat k)).toUInt32.toNat = mix fold k h.toUInt32.toNat := by
  rw [← UInt32.toNat_toBitVec, Int32.toBitVec_toUInt32, Int32.toBitVec_xor,
    Int32.toBitVec_shiftRight, BitVec.sshiftRight', toNat_smod_ofNat hk, toNat_xor_sshiftRight]
  rfl

theorem toNat_absorb (h : Int32) (b : UInt8) :
    (oneAtATime.absorb h b).toUInt32.toNat = (onNat fold).absorb h.toUInt32.toNat b := by
  have hadd : (h + b.toUInt32.toInt32).toUInt32.toNat = (h.toUInt32.toNat + b.toNat) % 2 ^ 32 := by
    rw [toNat_add]
    rfl
  let x := h + b.toUInt32.toInt32
  calc ((x + (x <<< 10)) ^^^ ((x + (x <<< 10)) >>> 6)).toUInt32.toNat
    _ = mix fold 6 (x + (x <<< 10)).toUInt32.toNat := toNat_xor_shiftRight _ (k := 6) (by decide)
    _ = mix fold 6 ((2 ^ 10 + 1) * x.toUInt32.toNat % 2 ^ 32) :=
      congrArg _ (toNat_add_shiftLeft x (k := 10) (by decide))
    _ = mix fold 6 (taken h.toUInt32.toNat b) := by
      rw [hadd]
      rfl

theorem finish_eq (h : Int32) : oneAtATime.finish h = (onNat fold).finish h.toUInt32.toNat := by
  let x := h + (h <<< 3)
  let y := x ^^^ (x >>> 11)
  have hx : x.toUInt32.toNat = closed h.toUInt32.toNat :=
    toNat_add_shiftLeft h (k := 3) (by decide)
  have hy : y.toUInt32.toNat = mix fold 11 (closed h.toUInt32.toNat) :=
    hx ▸ toNat_xor_shiftRight x (k := 11) (by decide)
  have hfinish : (finishSigned (y + (y <<< 15))).toNat =
      32769 * mix fold 11 (closed h.toUInt32.toNat) % 2 ^ 32 := by
    rw [toNat_finishSigned, ← hy]
    exact toNat_add_shiftLeft y (k := 15) (by decide)
  change finishSigned (y + (y <<< 15)) = .ofNat _
  rw [← hfinish, UInt64.ofNat_toNat]

/-- The bits of the state are the number, and the sign bit is not set. -/
theorem keepsStep : ByteHasher.KeepsStep (fun (h : Int32) (n : Nat) => h.toUInt32.toNat = n ∧
    n < 2 ^ 31) oneAtATime (onNat fold) where
  start := ⟨rfl, by decide⟩
  absorb h n b := by
    rintro ⟨rfl, -⟩
    exact ⟨toNat_absorb h b, mix_fold_lt 6 (Nat.mod_lt _ (by decide))⟩
  finish h n := by
    rintro ⟨rfl, -⟩
    exact finish_eq h

theorem toInt_write (bytes : List UInt8) :
    (oneAtATime.write oneAtATime.start bytes).toInt = (onNat fold).write 0 bytes ∧
      (onNat fold).write 0 bytes < 2 ^ 31 := by
  obtain ⟨hbits, hlt⟩ : (oneAtATime.write oneAtATime.start bytes).toBitVec.toNat =
      (onNat fold).write 0 bytes ∧ (onNat fold).write 0 bytes < 2 ^ 31 :=
    keepsStep.write keepsStep.start bytes
  have hsigned : 2 * (oneAtATime.write oneAtATime.start bytes).toBitVec.toNat < 2 ^ 32 := by omega
  refine ⟨?_, hlt⟩
  rw [← Int32.toInt_toBitVec, BitVec.toInt_eq_toNat_of_lt hsigned, hbits]

/-! ## Every input -/

/-- What the hash comes to when the bytes are written in these chunks. -/
structure ActsOnNat (chunks : List (List UInt8)) : Prop where
  /-- Whenever the hash is read, it is that of the bytes so far, written at once. -/
  trace : oneAtATime.trace chunks =
    chunks.inits.map fun written => oneAtATime.hashKey written.flatten
  /-- That is the hash on numbers that are folded. -/
  trace_onNat : oneAtATime.trace chunks =
    chunks.inits.map fun written => (onNat fold).hashKey written.flatten
  /-- The states are the numbers, and the sign bit is not set after any chunk. -/
  states : (oneAtATime.states oneAtATime.start chunks).map Int32.toInt =
    chunks.inits.map fun written => ((onNat fold).write 0 written.flatten : Int)
  states_bounds : ∀ h ∈ oneAtATime.states oneAtATime.start chunks, 0 ≤ h.toInt ∧ h.toInt < 2 ^ 31
  /-- Nothing that is mixed reaches 2^31 with folding if nothing does without, and the hash is the
  classical one then. -/
  mixed_iff : (∀ x ∈ mixed fold 0 chunks.flatten, x < 2 ^ 31) ↔
    ∀ x ∈ mixed id 0 chunks.flatten, x < 2 ^ 31
  classical : (∀ x ∈ mixed fold 0 chunks.flatten, x < 2 ^ 31) →
    oneAtATime.hashKey chunks.flatten = (onNat id).hashKey chunks.flatten

/-- The hash on signed words is one on unsigned numbers, however the bytes come in chunks. -/
theorem actsOnNat (chunks : List (List UInt8)) : ActsOnNat chunks where
  trace := oneAtATime.trace_eq chunks
  trace_onNat := by
    rw [ByteHasher.trace_eq]
    exact List.map_congr_left fun written _ => keepsStep.hashKey_eq written.flatten
  states := by
    rw [ByteHasher.states_eq, List.map_map]
    exact List.map_congr_left fun written _ => (toInt_write written.flatten).1
  states_bounds h hmem := by
    rw [ByteHasher.states_eq] at hmem
    obtain ⟨written, -, rfl⟩ := List.mem_map.1 hmem
    obtain ⟨hnat, hlt⟩ := toInt_write written.flatten
    rw [hnat]
    omega
  mixed_iff := by
    have hid : ∀ x < 2 ^ 31, fold x = id x := fun x hx => fold_of_lt hx
    have hfold : ∀ x < 2 ^ 31, id x = fold x := fun x hx => (fold_of_lt hx).symm
    constructor
    · intro hlt
      rwa [← (finish_write_congr hid hlt).2]
    · intro hlt
      rwa [← (finish_write_congr hfold hlt).2]
  classical hlt := by
    have hid : ∀ x < 2 ^ 31, fold x = id x := fun x hx => fold_of_lt hx
    exact (keepsStep.hashKey_eq chunks.flatten).trans (finish_write_congr hid hlt).1

/-- The bytes of `abc`, in two chunks: no number on the way reaches 2^31. -/
theorem actsOnNat_abc :
    (∀ x ∈ mixed fold 0 [97, 98, 99], x < 2 ^ 31) ∧
      oneAtATime.hashKey [97, 98, 99] = (onNat id).hashKey [97, 98, 99] := by
  have hlt : ∀ x ∈ mixed fold 0 [97, 98, 99], x < 2 ^ 31 := by decide
  exact ⟨hlt, (actsOnNat [[97], [98, 99]]).classical hlt⟩

/-- Those of `hello` come to numbers that do, and to another hash than the classical one. -/
example : (mixed fold 0 [104, 101, 108, 108, 111]).any (2 ^ 31 ≤ ·) = true ∧
    oneAtATime.hashKey [104, 101, 108, 108, 111] ≠ (onNat id).hashKey [104, 101, 108, 108, 111] := by
  decide

end OneAtATime

end OrderedTable
