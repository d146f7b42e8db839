import Mathlib.Algebra.BigOperators.Fin
import Mathlib.RingTheory.Coprime.Lemmas
import Mathlib.Tactic.Ring
import OrderedTable.Arena.Basic
import OrderedTable.Proofs.Hash.Basic
import OrderedTable.Proofs.Links.Chains

/-!
# Times 33

The hash is a polynomial in 33 whose coefficients are the bytes, modulo 2^32
(`Times33.trace_polynomial`). A byte that comes before or after others is multiplied by a power of 33,
and 33 is invertible modulo every power of two. So what two keys of one length have in common at their
ends does not matter for whether they share a bucket (`Times33.bucketOf_context`).
-/

namespace OrderedTable

namespace Times33

/-! ## The polynomial -/

/-- A byte as a number from -128 to 127. -/
def signed (b : UInt8) : Int := (b.toNat : Int).bmod (2 ^ 8)

/-- The bytes as coefficients of powers of 33, the last one of the power zero. -/
def weigh (bytes : List UInt8) : Int :=
  ∑ i : Fin bytes.length, signed bytes[i] * 33 ^ (bytes.length - 1 - i)

/-- The start 5381 stands before the bytes. -/
def polynomial (bytes : List UInt8) : Int := 5381 * 33 ^ bytes.length + weigh bytes

theorem weigh_cons (b : UInt8) (bytes : List UInt8) :
    weigh (b :: bytes) = signed b * 33 ^ bytes.length + weigh bytes := by
  simp only [weigh, List.length_cons]
  rw [Fin.sum_univ_succ]
  simp [Nat.sub_sub, Nat.add_comm 1]

theorem weigh_append (a b : List UInt8) :
    weigh (a ++ b) = weigh a * 33 ^ b.length + weigh b := by
  induction a with
  | nil => simp [weigh]
  | cons c a ih =>
    rw [List.cons_append, weigh_cons, weigh_cons, ih, List.length_append, pow_add]
    ring

/-! ## The hash -/

theorem toInt_toInt8 (b : UInt8) : b.toInt8.toInt32.toInt = signed b := by
  rw [Int8.toInt_toInt32, ← Int8.toInt_toBitVec, BitVec.toInt_eq_toNat_bmod]
  rfl

theorem toInt_absorb_modEq (h : Int32) (b : UInt8) :
    (times33.absorb h b).toInt ≡ 33 * h.toInt + signed b [ZMOD 2 ^ 32] := by
  calc ((h <<< 5) + h + b.toInt8.toInt32).toInt
    _ ≡ ((h <<< 5) + h).toInt + signed b [ZMOD 2 ^ 32] := toInt_toInt8 b ▸ toInt_add_modEq _ _
    _ ≡ (h <<< 5).toInt + h.toInt + signed b [ZMOD 2 ^ 32] := (toInt_add_modEq _ _).add_right _
    _ ≡ 2 ^ 5 * h.toInt + h.toInt + signed b [ZMOD 2 ^ 32] :=
      ((toInt_shiftLeft_modEq h (k := 5) (by decide)).add_right _).add_right _
    _ = 33 * h.toInt + signed b := by ring

theorem toInt_write_modEq (h : Int32) (bytes : List UInt8) :
    (times33.write h bytes).toInt ≡ h.toInt * 33 ^ bytes.length + weigh bytes [ZMOD 2 ^ 32] := by
  induction bytes generalizing h with
  | nil => simp [ByteHasher.write, weigh]
  | cons b bytes ih =>
    calc (times33.write h (b :: bytes)).toInt
      _ ≡ (times33.absorb h b).toInt * 33 ^ bytes.length + weigh bytes [ZMOD 2 ^ 32] :=
        ih (times33.absorb h b)
      _ ≡ (33 * h.toInt + signed b) * 33 ^ bytes.length + weigh bytes [ZMOD 2 ^ 32] :=
        ((toInt_absorb_modEq h b).mul_right _).add_right _
      _ = h.toInt * 33 ^ (b :: bytes).length + weigh (b :: bytes) := by
        rw [weigh_cons, List.length_cons]
        ring

theorem toNat_hashKey (key : List UInt8) : (times33.hashKey key).toNat =
    (times33.write times33.start key).toUInt32.toNat := toNat_finishSigned _

theorem hashKey_lt (key : List UInt8) : (times33.hashKey key).toNat < 2 ^ 32 :=
  toNat_hashKey key ▸ UInt32.toNat_lt _

theorem hashKey_modEq (key : List UInt8) :
    ((times33.hashKey key).toNat : Int) ≡ polynomial key [ZMOD 2 ^ 32] := by
  rw [toNat_hashKey]
  exact (toNat_modEq_toInt _).trans (toInt_write_modEq _ key)

theorem hashKey_eq (key : List UInt8) :
    ((times33.hashKey key).toNat : Int) = polynomial key % 2 ^ 32 := by
  have hlt := hashKey_lt key
  rw [← (hashKey_modEq key).eq, Int.emod_eq_of_lt (by omega) (by omega)]

/-- Whenever the hash is read, it is the polynomial of the bytes so far modulo 2^32, and the hash of
the same bytes written at once. -/
theorem trace_polynomial (chunks : List (List UInt8)) :
    (times33.trace chunks).map (fun hash => (hash.toNat : Int)) =
        chunks.inits.map (fun written => polynomial written.flatten % 2 ^ 32) ∧
      times33.trace chunks = (chunks.inits.map fun written => times33.hashKey written.flatten) ∧
      ∀ hash ∈ times33.trace chunks, hash.toNat < 2 ^ 32 := by
  have htrace := times33.trace_eq chunks
  refine ⟨?_, htrace, fun hash hmem => ?_⟩
  · rw [htrace, List.map_map]
    exact List.map_congr_left fun written _ => hashKey_eq written.flatten
  · rw [htrace] at hmem
    obtain ⟨written, -, rfl⟩ := List.mem_map.1 hmem
    exact hashKey_lt written.flatten

/-! ## Buckets -/

/-- Keys share a bucket when their polynomials differ by a multiple of the number of buckets. There
are no more than 2^32 different hashes, so further buckets do not matter. -/
theorem hashKey_mod_eq_iff (bits : Nat) (p q : List UInt8) :
    (times33.hashKey p).toNat % 2 ^ bits = (times33.hashKey q).toNat % 2 ^ bits ↔
      (2 : Int) ^ min bits 32 ∣ polynomial p - polynomial q := by
  have hmin : ∀ key, (times33.hashKey key).toNat % 2 ^ bits =
      (times33.hashKey key).toNat % 2 ^ min bits 32 := by
    intro key
    rcases Nat.le_total bits 32 with hle | hle
    · rw [min_eq_left hle]
    · have hlt := hashKey_lt key
      rw [min_eq_right hle, Nat.mod_eq_of_lt hlt,
        Nat.mod_eq_of_lt (hlt.trans_le (Nat.pow_le_pow_right (by decide) hle))]
  have hdvd : (2 : Int) ^ min bits 32 ∣ 2 ^ 32 := pow_dvd_pow 2 (min_le_right bits 32)
  have hp := (hashKey_modEq p).of_dvd hdvd
  have hq := (hashKey_modEq q).of_dvd hdvd
  rw [hmin p, hmin q, ← dvd_neg, neg_sub, ← Int.modEq_iff_dvd, ← Nat.ModEq, ← Int.natCast_modEq_iff]
  push_cast
  exact ⟨fun h => hp.symm.trans (h.trans hq), fun h => hp.trans (h.trans hq.symm)⟩

theorem polynomial_context {p q : List UInt8} (hlen : p.length = q.length) (u v : List UInt8) :
    polynomial (u ++ p ++ v) - polynomial (u ++ q ++ v) =
      (polynomial p - polynomial q) * 33 ^ v.length := by
  simp only [polynomial, weigh_append, List.length_append, hlen]
  ring

theorem isCoprime_pow (m n : Nat) : IsCoprime ((2 : Int) ^ m) (33 ^ n) :=
  IsCoprime.pow ⟨-16, 1, by norm_num⟩

/-- What two keys of one length have in common before and after does not matter for whether they
share a bucket. -/
theorem bucketOf_context {ι : Type} {buckets : Buckets ι} {bits : Nat}
    (hcount : buckets.count = 2 ^ bits) {p q : List UInt8} (hlen : p.length = q.length)
    (u v : List UInt8) :
    buckets.bucketOf (times33.hashKey (u ++ p ++ v)) =
        buckets.bucketOf (times33.hashKey (u ++ q ++ v)) ↔
      buckets.bucketOf (times33.hashKey p) = buckets.bucketOf (times33.hashKey q) := by
  simp only [Buckets.bucketOf_eq hcount, Except.ok.injEq, hashKey_mod_eq_iff,
    polynomial_context hlen u v]
  exact ⟨(isCoprime_pow _ _).dvd_of_dvd_mul_right, fun h => h.mul_right _⟩

/-- Eight buckets, and two keys whose bytes differ by eight. -/
theorem bucketOf_context_eight :
    let buckets : Buckets NodeId := ⟨Heads.empty (2 ^ 3), 3⟩
    let p : List UInt8 := [97]
    let q : List UInt8 := [105]
    let u : List UInt8 := [255, 0]
    let v : List UInt8 := [128, 33, 7]
    buckets.count = 2 ^ 3 ∧ p.length = q.length ∧
      (buckets.bucketOf (times33.hashKey (u ++ p ++ v)) =
          buckets.bucketOf (times33.hashKey (u ++ q ++ v)) ↔
        buckets.bucketOf (times33.hashKey p) = buckets.bucketOf (times33.hashKey q)) := by
  intro buckets p q u v
  have hcount : buckets.count = 2 ^ 3 := rfl
  have hlen : p.length = q.length := rfl
  exact ⟨hcount, hlen, bucketOf_context hcount hlen u v⟩

end Times33

end OrderedTable
