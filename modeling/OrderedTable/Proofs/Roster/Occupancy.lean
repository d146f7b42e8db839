import OrderedTable.Proofs.Roster.Basic

/-!
# The occupancy of a roster

How full the buckets are depends on a multiset only: the bucket of each entry's key, as often as there
are entries in it (`Roster.occupancy_eq_ofIndices`). The counts of such a multiset
(`Occupancy.ofIndices`) bound each other, since a bucket that is occupied holds at least one entry and
no more than the fullest one does (`Occupancy.coherent_ofIndices`).
-/

namespace OrderedTable

namespace Occupancy

/-! ## The occupancy of a multiset -/

/-- The occupancy of `buckets` buckets when each entry is in the bucket of its index. -/
def ofIndices (buckets : Nat) (indices : Multiset Nat) : Occupancy where
  buckets
  occupied := indices.toFinset.card
  entries := indices.card
  collisions := indices.card - indices.toFinset.card
  longestChain := indices.toFinset.sup indices.count

variable {n : Nat} {indices : Multiset Nat}

theorem occupied_add_collisions : (ofIndices n indices).occupied + (ofIndices n indices).collisions =
    (ofIndices n indices).entries := Nat.add_sub_of_le indices.toFinset_card_le

theorem count_le_longestChain (b : Nat) : indices.count b ≤ (ofIndices n indices).longestChain := by
  by_cases hb : b ∈ indices
  · exact Finset.le_sup (f := indices.count) (Multiset.mem_toFinset.2 hb)
  · rw [Multiset.count_eq_zero_of_notMem hb]
    exact Nat.zero_le _

theorem entries_le : (ofIndices n indices).entries ≤
    (ofIndices n indices).longestChain * (ofIndices n indices).occupied := by
  calc indices.card
    _ = ∑ b ∈ indices.toFinset, indices.count b := indices.toFinset_sum_count_eq.symm
    _ ≤ indices.toFinset.card * (ofIndices n indices).longestChain :=
      Finset.sum_le_card_nsmul _ _ _ fun b _ => count_le_longestChain b
    _ = _ := Nat.mul_comm _ _

theorem occupied_le (hlt : ∀ b ∈ indices, b < n) : (ofIndices n indices).occupied ≤ n := by
  have hsub : indices.toFinset ⊆ Finset.range n := fun b hb =>
    Finset.mem_range.2 (hlt b (Multiset.mem_toFinset.1 hb))
  exact (Finset.card_le_card hsub).trans_eq (Finset.card_range n)

/-- All but one of the entries in a bucket collide: each of the other buckets has at least one. -/
theorem count_le_collisions {b : Nat} (hb : b ∈ indices) :
    indices.count b ≤ (ofIndices n indices).collisions + 1 := by
  have hmem : b ∈ indices.toFinset := Multiset.mem_toFinset.2 hb
  have hothers : indices.toFinset.card - 1 ≤ ∑ c ∈ indices.toFinset.erase b, indices.count c := by
    rw [← Finset.card_erase_of_mem hmem, Finset.card_eq_sum_ones]
    refine Finset.sum_le_sum fun c hc => ?_
    exact Multiset.one_le_count_iff_mem.2 (Multiset.mem_toFinset.1 (Finset.mem_of_mem_erase hc))
  have hsum : indices.count b + ∑ c ∈ indices.toFinset.erase b, indices.count c = indices.card :=
    (Finset.add_sum_erase _ indices.count hmem).trans indices.toFinset_sum_count_eq
  have hpos : 0 < indices.toFinset.card := Finset.card_pos.2 ⟨b, hmem⟩
  simp only [ofIndices]
  omega

theorem longestChain_le :
    (ofIndices n indices).longestChain ≤ (ofIndices n indices).collisions + 1 :=
  Finset.sup_le fun _ hb => count_le_collisions (Multiset.mem_toFinset.1 hb)

theorem collisions_lt (hne : indices.card ≠ 0) :
    (ofIndices n indices).collisions < (ofIndices n indices).entries := by
  have hpos : 0 < indices.toFinset.card := by
    rw [Finset.card_pos, Multiset.toFinset_nonempty]
    exact fun h => hne (Multiset.card_eq_zero.2 h)
  simp only [ofIndices]
  omega

theorem percent_eq_div (o : Occupancy) : o.percent = o.collisions * 100 / o.entries := by
  rw [percent]
  split
  next hzero => rw [hzero, Nat.div_zero]
  next => rfl

theorem percent_lt : (ofIndices n indices).percent < 100 := by
  rw [percent]
  split
  next => decide
  next hne =>
    have hlt := collisions_lt (n := n) hne
    exact Nat.div_lt_of_lt_mul (by omega)

theorem percent_eq_zero (hnodup : indices.Nodup) : (ofIndices n indices).percent = 0 := by
  have hcollisions : (ofIndices n indices).collisions = 0 := by
    rw [ofIndices, Multiset.toFinset_card_of_nodup hnodup, Nat.sub_self]
  rw [percent_eq_div, hcollisions, Nat.zero_mul, Nat.zero_div]

/-- How the counts bound each other. -/
structure Coherent (o : Occupancy) : Prop where
  occupied_add_collisions : o.occupied + o.collisions = o.entries
  entries_le : o.entries ≤ o.longestChain * o.occupied
  occupied_le : o.occupied ≤ o.buckets
  longestChain_le : o.longestChain ≤ o.collisions + 1
  percent_eq : o.percent = 100 * (o.entries - o.occupied) / o.entries
  percent_lt : o.percent < 100

theorem coherent_ofIndices (hlt : ∀ b ∈ indices, b < n) : (ofIndices n indices).Coherent where
  occupied_add_collisions := occupied_add_collisions
  entries_le := entries_le
  occupied_le := occupied_le hlt
  longestChain_le := longestChain_le
  percent_eq := by
    rw [percent_eq_div, Nat.mul_comm]
    rfl
  percent_lt := percent_lt

/-- Ten entries in a single bucket. -/
example : (ofIndices 1 (.replicate 10 0)).percent = 90 := by decide

/-! ## In words -/

/-- `percent` in words of 64 bits, where the product wraps around. -/
def percentInWords (collisions entries : Nat) : UInt64 :=
  if entries = 0 then 0 else UInt64.ofNat collisions * 100 / UInt64.ofNat entries

theorem toNat_percentInWords {o : Occupancy} (hentries : o.entries < UInt64.size)
    (hproduct : o.collisions * 100 < UInt64.size) :
    (percentInWords o.collisions o.entries).toNat = o.percent := by
  have hcollisions : o.collisions < UInt64.size := by omega
  rw [percentInWords, percent]
  split
  · rfl
  · rw [UInt64.toNat_div, UInt64.toNat_mul, UInt64.toNat_ofNat_of_lt' hcollisions,
      UInt64.toNat_ofNat_of_lt' hentries]
    exact congrArg (· / o.entries) (Nat.mod_eq_of_lt hproduct)

/-! ## Counting bucket by bucket -/

theorem countP_count (hlt : ∀ b ∈ indices, b < n) :
    ((List.range n).map indices.count).countP (0 < ·) = indices.toFinset.card := by
  have hfilter : indices.toFinset = (Finset.range n).filter (0 < indices.count ·) := by
    ext b
    rw [Multiset.mem_toFinset, Finset.mem_filter, Finset.mem_range, Multiset.count_pos]
    exact ⟨fun hb => ⟨hlt b hb, hb⟩, fun hb => hb.2⟩
  rw [hfilter, List.countP_map, List.countP_eq_length_filter]
  rfl

theorem foldr_max_count (hlt : ∀ b ∈ indices, b < n) :
    ((List.range n).map indices.count).foldr max 0 = indices.toFinset.sup indices.count := by
  have hrange : ((List.range n).map indices.count).foldr max 0 =
      (Finset.range n).sup indices.count := rfl
  have hsub : indices.toFinset ⊆ Finset.range n := fun b hb =>
    Finset.mem_range.2 (hlt b (Multiset.mem_toFinset.1 hb))
  rw [hrange]
  exact le_antisymm (Finset.sup_le fun b _ => count_le_longestChain (n := n) b)
    (Finset.sup_mono hsub)

end Occupancy

/-! ## The buckets of the entries -/

variable {V : Type}

/-- The bucket of each entry's key, as often as there are entries in it. -/
def bucketIndices (hash : Key → UInt64) (bits : Nat) (es : List (Entry V)) : Multiset Nat :=
  (es.map fun e => bucketOf hash bits e.key : List Nat)

namespace Roster

theorem length_chain (r : Roster V) (hash : Key → UInt64) (bits b : Nat) :
    (r.chain hash bits b).length = (bucketIndices hash bits r.entries).count b := by
  rw [chain, ← List.countP_eq_length_filter, List.countP_reverse, bucketIndices, Multiset.coe_count,
    List.count_eq_countP, entries, List.map_map, List.countP_map]
  exact List.countP_congr fun m _ => by simp

theorem lt_of_mem_bucketIndices {hash : Key → UInt64} {bits b : Nat} {es : List (Entry V)}
    (hb : b ∈ bucketIndices hash bits es) : b < 2 ^ bits := by
  obtain ⟨e, -, rfl⟩ := List.mem_map.1 (Multiset.mem_coe.1 hb)
  exact bucketOf_lt e.key

theorem occupancy_eq_ofIndices (r : Roster V) (hash : Key → UInt64) (bits : Nat) :
    r.occupancy hash bits = .ofIndices (2 ^ bits) (bucketIndices hash bits r.entries) := by
  have hlt : ∀ b ∈ bucketIndices hash bits r.entries, b < 2 ^ bits :=
    fun _ => lt_of_mem_bucketIndices
  have hlength : r.length = (bucketIndices hash bits r.entries).card := by
    simp [bucketIndices, entries]
  simp only [occupancy, length_chain, Occupancy.ofIndices]
  rw [Occupancy.countP_count hlt, Occupancy.foldr_max_count hlt, hlength]

/-- The order of the entries does not matter. -/
theorem occupancy_eq_of_perm {r r' : Roster V} (h : r'.entries.Perm r.entries)
    (hash : Key → UInt64) (bits : Nat) : r'.occupancy hash bits = r.occupancy hash bits := by
  have hindices : bucketIndices hash bits r'.entries = bucketIndices hash bits r.entries :=
    Multiset.coe_eq_coe.2 (h.map _)
  rw [occupancy_eq_ofIndices, occupancy_eq_ofIndices, hindices]

end Roster

end OrderedTable
