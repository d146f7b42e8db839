import OrderedTable.Proofs.Ledger.Requests

/-!
# How many buckets fit

The number of the buckets and the bytes of their heads both have to fit in a word of 64 bits. As a
head takes at least one byte, the bytes alone decide (`Buckets.word?_bind_count?`): 2^`bits` heads
of 8 bytes fit exactly when `bits` is below 61. More are turned away before the gate is asked for
them, whatever gate and heap would say.

The making of buckets stops at the first stage that fails, and buckets that are made have a place
for every hash (`Buckets.IsNew`). See `Buckets.create_makesInStages`.
-/

namespace OrderedTable

variable {σ ι : Type}

/-! ## Sizes -/

theorem NodeId.two_pow_mul_placeSize (n : Nat) : 2 ^ n * placeSize = 2 ^ (n + 3) :=
  (Nat.pow_add 2 n 3).symm

/-- For how many bits the heads fit in a word. -/
theorem NodeId.two_pow_mul_placeSize_lt_iff {n : Nat} :
    2 ^ n * placeSize < UInt64.size ↔ n < 61 := by
  have hsize : UInt64.size = 2 ^ 64 := rfl
  rw [two_pow_mul_placeSize, hsize, Nat.pow_lt_pow_iff_right (by decide)]
  omega

/-- One less than 2^`n` masks all but the last `n` bits of a word. -/
theorem toNat_and_mask {n : Nat} (hn : n < 64) (word : UInt64) :
    (word &&& (.ofNat (2 ^ n) - 1)).toNat = word.toNat % 2 ^ n := by
  have hpow : 2 ^ n < 2 ^ 64 := Nat.pow_lt_pow_right (by decide) hn
  have hone : (1 : UInt64) ≤ .ofNat (2 ^ n) := by
    rw [UInt64.le_iff_toNat_le, UInt64.toNat_ofNat_of_lt' hpow]
    exact Nat.two_pow_pos _
  rw [UInt64.toNat_and, UInt64.toNat_sub_of_le _ _ hone, UInt64.toNat_ofNat_of_lt' hpow,
    UInt64.toNat_one, Nat.and_two_pow_sub_one_eq_mod]

namespace Heap

variable {heap : Heap} {bytes : Nat} {cause : AllocError}

theorem reserve_eq_error_iff : heap.reserve bytes = .error cause ↔
    maxObjectSize < bytes ∧ cause = .exhausted .tooLarge ∨
      bytes ≤ maxObjectSize ∧ heap.holds bytes = false ∧ cause = .exhausted .unsatisfied := by
  unfold reserve
  split
  next hlarge =>
    simp only [hlarge, Nat.not_le_of_lt hlarge, true_and, false_and, or_false, Except.error.injEq]
    exact eq_comm
  next hsmall =>
    cases heap.holds bytes with
    | false =>
      simp only [hsmall, Nat.le_of_not_lt hsmall, true_and, false_and, false_or, Except.error.injEq,
        Bool.false_eq_true, if_false]
      exact eq_comm
    | true => simp [hsmall]

/-- The largest number of heads that fits in a word is too large for any heap; below it the heap
decides. -/
theorem reserve_heads_eq_error_iff {n : Nat} (hn : n < 61) :
    heap.reserve (2 ^ n * NodeId.placeSize) = .error cause ↔
      n = 60 ∧ cause = .exhausted .tooLarge ∨
        n < 60 ∧ heap.holds (2 ^ n * NodeId.placeSize) = false ∧
          cause = .exhausted .unsatisfied := by
  have hmax : maxObjectSize + 1 = 2 ^ 63 := rfl
  have hlarge : maxObjectSize < 2 ^ n * NodeId.placeSize ↔ n = 60 := by
    rw [← Nat.succ_le_iff, Nat.succ_eq_add_one, hmax, NodeId.two_pow_mul_placeSize,
      Nat.pow_le_pow_iff_right (by decide)]
    omega
  have hsmall : 2 ^ n * NodeId.placeSize ≤ maxObjectSize ↔ n < 60 := by
    rw [← Nat.not_lt, hlarge]
    omega
  rw [reserve_eq_error_iff, hlarge, hsmall]

end Heap

/-! ## Making buckets -/

namespace Buckets

variable {headSize : Nat} {bits : UInt32} {gate : Gate σ} {heap : Heap} {s s₁ s₂ : σ}

/-- To look first whether the number of buckets fits, and then whether their bytes do, is to look
whether the bytes do. -/
theorem word?_bind_count? (hpos : 0 < headSize) (bits : UInt32) :
    (count? bits).bind (fun count => word? (count * headSize)) =
      word? (2 ^ bits.toNat * headSize) := by
  by_cases hbits : bits.toNat < 64
  · rw [count?, if_pos hbits, Nat.one_shiftLeft, Option.bind_some]
  · have hpow : UInt64.size ≤ 2 ^ bits.toNat * headSize :=
      calc 2 ^ 64
        _ ≤ 2 ^ bits.toNat := Nat.pow_le_pow_right (by decide) (Nat.le_of_not_lt hbits)
        _ ≤ 2 ^ bits.toNat * headSize := Nat.le_mul_of_pos_right _ hpos
    rw [count?, if_neg hbits, word?, if_neg (Nat.not_lt_of_le hpow)]
    rfl

theorem create_of_refused {cause : AllocError} (htable : gate .table s = (.error cause, s₁)) :
    create (ι := ι) headSize bits gate heap s = (.error cause, s₁) := by
  rw [create, htable]

/-- More heads than fit in a word are not asked for. -/
theorem create_of_overflow (hpos : 0 < headSize) (htable : gate .table s = (.ok (), s₁))
    (hsize : UInt64.size ≤ 2 ^ bits.toNat * headSize) :
    create (ι := ι) headSize bits gate heap s = (.error .capacityOverflow, s₁) := by
  have hword := word?_bind_count? hpos bits
  rw [word?, if_neg (Nat.not_lt_of_le hsize)] at hword
  rw [create, htable]
  dsimp only
  cases hcount : count? bits with
  | none => rfl
  | some count =>
    rw [hcount, Option.bind_some] at hword
    dsimp only
    rw [hword]

/-- Heads that fit in a word are asked for and then taken. -/
theorem create_of_fits (hpos : 0 < headSize) (htable : gate .table s = (.ok (), s₁))
    (hsize : 2 ^ bits.toNat * headSize < UInt64.size) {answer : Except AllocError Unit}
    (hheads : gate (.buckets (2 ^ bits.toNat * headSize)) s₁ = (answer, s₂)) :
    create (ι := ι) headSize bits gate heap s =
      (answer >>= fun _ => heap.reserve (2 ^ bits.toNat * headSize) >>= fun _ =>
        pure ⟨Heads.empty (2 ^ bits.toNat), bits⟩, s₂) := by
  have hbits : bits.toNat < 64 := by
    have hpow : 2 ^ bits.toNat < 2 ^ 64 := (Nat.le_mul_of_pos_right _ hpos).trans_lt hsize
    exact (Nat.pow_lt_pow_iff_right (by decide)).1 hpow
  rw [create, htable]
  simp only [count?, if_pos hbits, Nat.one_shiftLeft, word?, if_pos hsize, hheads]
  cases answer with
  | error cause => rfl
  | ok => cases heap.reserve (2 ^ bits.toNat * headSize) <;> rfl

/-- There are 2^`bits` buckets, all empty, and each hash has one of them. -/
structure IsNew (buckets : Buckets ι) (bits : UInt32) : Prop where
  bits_eq : buckets.bits = bits
  count_eq : buckets.count = 2 ^ bits.toNat
  isEmptyAt_eq : ∀ b < buckets.count, buckets.isEmptyAt b = .ok true
  bucketOf_eq : ∀ hash, buckets.bucketOf hash = .ok (hash.toNat % 2 ^ bits.toNat)
  bucketOf_lt : ∀ hash b, buckets.bucketOf hash = .ok b → b < buckets.count
  bucketOf_zero : bits = 0 → ∀ hash, buckets.bucketOf hash = .ok 0
  /-- Words of 64 bits do for the mask. -/
  bucketOf_eq_word : ∀ hash : UInt64,
    buckets.bucketOf hash = .ok (hash &&& (.ofNat buckets.count - 1)).toNat

theorem isNew_empty (hbits : bits.toNat < 64) :
    (⟨Heads.empty (2 ^ bits.toNat), bits⟩ : Buckets ι).IsNew bits := by
  have hcount : (⟨Heads.empty (2 ^ bits.toNat), bits⟩ : Buckets ι).count = 2 ^ bits.toNat :=
    Array.size_replicate
  have hbucket := Buckets.bucketOf_eq hcount
  refine ⟨rfl, hcount, fun b hb => ?_, hbucket, fun hash b hb => ?_, fun hzero hash => ?_,
    fun hash => ?_⟩
  · rw [hcount] at hb
    simp [isEmptyAt, Heads.isEmptyAt, Heads.first?, Heads.empty, hb]
  · rw [hbucket hash, Except.ok.injEq] at hb
    rw [hcount, ← hb]
    exact Nat.mod_lt _ (Nat.two_pow_pos _)
  · rw [hbucket hash, hzero]
    exact congrArg _ (Nat.mod_one _)
  · rw [hbucket hash, hcount, toNat_and_mask hbits]

/-- The buckets that are made are new, however much memory a head takes. -/
theorem isNew_of_create {buckets : Buckets ι}
    (h : create headSize bits gate heap s = (.ok buckets, s₁)) : buckets.IsNew bits := by
  obtain ⟨-, -, hbits, -, -, -, rfl⟩ := exists_of_create h
  exact isNew_empty hbits

/-! ## The stages -/

/-- What a gate in state `s` has been asked for 2^`bits` buckets with heads of 8 bytes, and what has
been made: the table is asked for, then the heads are counted, asked for and taken, up to the first
stage that fails. -/
structure MakesInStages (gate : Gate σ) (heap : Heap) (bits : UInt32) (s : σ) (asked : Gate.Log)
    (made : Except AllocError (Buckets ι)) : Prop where
  /-- Once the table is refused, nothing else is asked for. -/
  refused : ∀ cause s₁, gate .table s = (.error cause, s₁) →
    asked = [(.table, .error cause)] ∧ made = .error cause
  /-- Heads are not asked for when their bytes do not fit in a word. -/
  overflow_iff : ∀ s₁, gate .table s = (.ok (), s₁) →
    (asked = [(.table, .ok ())] ∧ made = .error .capacityOverflow ↔ 61 ≤ bits.toNat)
  /-- Otherwise they are, and then only gate and heap can stand in the way, in that order. -/
  heads : ∀ s₁ answer s₂, gate .table s = (.ok (), s₁) → bits.toNat < 61 →
    gate (.buckets (2 ^ bits.toNat * 8)) s₁ = (answer, s₂) →
    asked = [(.table, .ok ()), (.buckets (2 ^ bits.toNat * 8), answer)] ∧
      ∀ cause, made = .error cause ↔
        answer = .error cause ∨ answer = .ok () ∧ heap.reserve (2 ^ bits.toNat * 8) = .error cause
  /-- The heap lacks the memory, or the heads are larger than any object may be. -/
  reserve_iff : bits.toNat < 61 → ∀ cause, heap.reserve (2 ^ bits.toNat * 8) = .error cause ↔
    bits.toNat = 60 ∧ cause = .exhausted .tooLarge ∨
      bits.toNat < 60 ∧ heap.holds (2 ^ bits.toNat * 8) = false ∧ cause = .exhausted .unsatisfied
  bytes_lt : ∀ bytes answer, (.buckets bytes, answer) ∈ asked → bytes < UInt64.size

namespace MakesInStages

theorem of_refused {cause : AllocError} (htable : gate .table s = (.error cause, s₁)) :
    MakesInStages (ι := ι) gate heap bits s [(.table, .error cause)] (.error cause) where
  refused cause' s₁' htable' := by
    cases htable.symm.trans htable'
    exact ⟨rfl, rfl⟩
  overflow_iff s₁' htable' := nomatch htable.symm.trans htable'
  heads s₁' answer s₂ htable' := nomatch htable.symm.trans htable'
  reserve_iff hlt _ := Heap.reserve_heads_eq_error_iff hlt
  bytes_lt := by simp

theorem of_overflow (htable : gate .table s = (.ok (), s₁)) (hbits : 61 ≤ bits.toNat) :
    MakesInStages (ι := ι) gate heap bits s [(.table, .ok ())] (.error .capacityOverflow) where
  refused cause s₁' htable' := nomatch htable.symm.trans htable'
  overflow_iff s₁' htable' := ⟨fun _ => hbits, fun _ => ⟨rfl, rfl⟩⟩
  heads s₁' answer s₂ htable' hlt := absurd hbits (Nat.not_le_of_lt hlt)
  reserve_iff hlt _ := Heap.reserve_heads_eq_error_iff hlt
  bytes_lt := by simp

theorem of_fits (htable : gate .table s = (.ok (), s₁)) (hbits : bits.toNat < 61)
    {answer : Except AllocError Unit}
    (hheads : gate (.buckets (2 ^ bits.toNat * 8)) s₁ = (answer, s₂)) :
    MakesInStages (ι := ι) gate heap bits s
      [(.table, .ok ()), (.buckets (2 ^ bits.toNat * 8), answer)]
      (answer >>= fun _ => heap.reserve (2 ^ bits.toNat * 8) >>= fun _ =>
        pure ⟨Heads.empty (2 ^ bits.toNat), bits⟩) where
  refused cause s₁' htable' := nomatch htable.symm.trans htable'
  overflow_iff s₁' htable' :=
    ⟨fun ⟨hasked, _⟩ => (nomatch hasked), fun hle => absurd hle (Nat.not_le_of_lt hbits)⟩
  heads s₁' answer' s₂' htable' _ hheads' := by
    cases htable.symm.trans htable'
    cases hheads.symm.trans hheads'
    refine ⟨rfl, fun cause => ?_⟩
    cases answer with
    | error refusal => simp [bind, Except.bind]
    | ok => cases heap.reserve (2 ^ bits.toNat * 8) <;> simp [bind, Except.bind]
  reserve_iff _ _ := Heap.reserve_heads_eq_error_iff hbits
  bytes_lt bytes answer' hasked := by
    obtain ⟨rfl, -⟩ : bytes = 2 ^ bits.toNat * 8 ∧ answer' = answer := by simpa using hasked
    exact NodeId.two_pow_mul_placeSize_lt_iff.2 hbits

end MakesInStages

/-- Whatever the gate answers and the heap holds, the first stage that fails gives the error, and
more than 2^60 buckets fail before they are asked for. Buckets that are made are 2^`bits` in number,
and the last `bits` bits of a hash are the number of its bucket. -/
theorem create_makesInStages (gate : Gate σ) (heap : Heap) (bits : UInt32) (s : σ)
    (log : Gate.Log) : ∃ asked made s',
      create (ι := ι) NodeId.placeSize bits gate heap s = (made, s') ∧
      create (ι := ι) NodeId.placeSize bits gate.recorded heap (s, log) = (made, s', log ++ asked) ∧
      MakesInStages gate heap bits s asked made ∧
      ∀ buckets, made = .ok buckets → buckets.IsNew bits := by
  have hpos : 0 < NodeId.placeSize := by decide
  rcases htable : gate .table s with ⟨cause | ⟨⟩, s₁⟩
  · exact ⟨_, _, s₁, create_of_refused htable, create_of_refused (Gate.recorded_eq htable),
      .of_refused htable, fun buckets hmade => nomatch hmade⟩
  rcases Nat.lt_or_ge bits.toNat 61 with hbits | hbits
  · have hsize := NodeId.two_pow_mul_placeSize_lt_iff.2 hbits
    rcases hheads : gate (.buckets (2 ^ bits.toNat * NodeId.placeSize)) s₁ with ⟨answer, s₂⟩
    have hmade : create (ι := ι) NodeId.placeSize bits gate heap s = (_, s₂) :=
      create_of_fits hpos htable hsize hheads
    refine ⟨_, _, s₂, hmade, ?_, .of_fits htable hbits hheads, fun buckets hok => ?_⟩
    · rw [create_of_fits hpos (Gate.recorded_eq htable) hsize (Gate.recorded_eq hheads),
        List.append_assoc]
      rfl
    · exact isNew_of_create (hmade.trans (congrArg (·, s₂) hok))
  · have hsize : UInt64.size ≤ 2 ^ bits.toNat * NodeId.placeSize :=
      Nat.le_of_not_lt fun hlt => Nat.not_lt_of_le hbits (NodeId.two_pow_mul_placeSize_lt_iff.1 hlt)
    exact ⟨_, _, s₁, create_of_overflow hpos htable hsize,
      create_of_overflow hpos (Gate.recorded_eq htable) hsize, .of_overflow htable hbits,
      fun buckets hmade => nomatch hmade⟩

/-- No heap has room for 2^60 heads, but the gate is asked for them. For twice as many it is not. -/
example : (create (ι := NodeId) NodeId.placeSize 60 Gate.always.recorded .ofProcess ((), [])) =
      (.error (.exhausted .tooLarge), (), [(.table, .ok ()), (.buckets (2 ^ 63), .ok ())]) ∧
    (create (ι := NodeId) NodeId.placeSize 61 Gate.always.recorded .ofProcess ((), [])) =
      (.error .capacityOverflow, (), [(.table, .ok ())]) := ⟨rfl, rfl⟩

end Buckets

end OrderedTable
