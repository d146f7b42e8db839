import OrderedTable.Proofs.Roster.Occupancy
import OrderedTable.Proofs.Table.Invariants

/-!
# What a table says of its buckets

A table counts its buckets by walking the chains that all its calls have left behind. The counts are
those of the multiset that has the bucket of each entry's key, and nothing else about the history
matters. Both percentages of collisions are taken of the same number, and words of 64 bits do for them
as long as the product fits. See `Table.run_countsIndices`.
-/

namespace OrderedTable

variable {σ V A : Type} [Arena A (Node V)]

namespace Store

/-- The occupancy `o` is that of the buckets of the entries `es`. -/
structure CountsIndices (hash : Key → UInt64) (s : Store V A) (es : List (Entry V)) (o : Occupancy) :
    Prop where
  entries_eq : s.entries = .ok es
  occupancy_eq : s.occupancy = .ok o
  eq_ofIndices : o = .ofIndices (2 ^ s.buckets.bits.toNat)
    (bucketIndices hash s.buckets.bits.toNat es)
  size_eq : o.entries = s.size
  coherent : o.Coherent
  collisionPercent_eq : s.collisionPercent = .ok o.percent
  percent_eq_zero : (bucketIndices hash s.buckets.bits.toNat es).Nodup → o.percent = 0
  /-- As long as the product fits in a word, words do not make a difference. -/
  percentInWords_eq : o.collisions * 100 < UInt64.size →
    (Occupancy.percentInWords o.collisions o.entries).toNat = o.percent ∧
      (Occupancy.percentInWords o.collisions s.size).toNat = o.percent

theorem Holds.countsIndices [LawfulArena A (Node V)] {hash : Key → UInt64} {s : Store V A}
    {r : Roster V} (h : s.Holds hash r)
    (hbits : 2 ^ s.buckets.bits.toNat * NodeId.placeSize < UInt64.size) :
    s.CountsIndices hash r.entries (r.occupancy hash s.buckets.bits.toNat) := by
  have hindices := r.occupancy_eq_ofIndices hash s.buckets.bits.toNat
  have hsize : (r.occupancy hash s.buckets.bits.toNat).entries = s.size := h.size.symm
  have hcoherent : (r.occupancy hash s.buckets.bits.toNat).Coherent :=
    hindices ▸ Occupancy.coherent_ofIndices fun _ => Roster.lt_of_mem_bucketIndices
  refine ⟨h.entries_eq, h.occupancy_eq, hindices, hsize, hcoherent, ?_, ?_, ?_⟩
  · rw [h.collisionPercent_eq]
    cases r <;> rfl
  · intro hnodup
    rw [hindices, Occupancy.percent_eq_zero hnodup]
  · intro hproduct
    have hentries : (r.occupancy hash s.buckets.bits.toNat).entries < UInt64.size := by
      have hsum := hcoherent.occupied_add_collisions
      have hle : _ ≤ 2 ^ s.buckets.bits.toNat := hcoherent.occupied_le
      rw [NodeId.placeSize] at hbits
      omega
    have hwords := Occupancy.toNat_percentInWords hentries hproduct
    exact ⟨hwords, hsize ▸ hwords⟩

end Store

namespace Table

variable {bits : UInt32} {policy : Policy σ V} {heap : Heap} {env : σ} {t : Table σ V A}

/-- The heads of a table's buckets fit in memory. -/
theorem placeSize_lt_of_build (hbuild : (build bits policy heap env A).result = .ok t) :
    2 ^ bits.toNat * NodeId.placeSize < UInt64.size := by
  unfold build at hbuild
  split at hbuild
  · cases hbuild
  · split at hbuild
    · cases hbuild
    next hcreate =>
      obtain ⟨-, -, -, hlt, -⟩ := Buckets.exists_of_create hcreate
      exact hlt

/-- Whatever has been done to a table, its counts are those of its entries' buckets. -/
theorem run_countsIndices [LawfulArena A (Node V)] [Inhabited V]
    (hbuild : (build bits policy heap env A).result = .ok t) (hkey : policy.StoresKey)
    (calls : List (Call V)) :
    ∃ h es o, t.run calls = .ok h ∧ h.table.bits = bits ∧
      h.table.store.CountsIndices policy.hash es o := by
  obtain ⟨h, r, hrun, hbits, hholds, -⟩ := exists_holds_of_build hbuild hkey calls
  have hsize : 2 ^ h.table.store.buckets.bits.toNat * NodeId.placeSize < UInt64.size := by
    have hstore : h.table.store.buckets.bits = bits := hbits
    rw [hstore]
    exact placeSize_lt_of_build hbuild
  exact ⟨h, r.entries, _, hrun, hbits, hholds.countsIndices hsize⟩

/-- Three entries are left, and two of them share a bucket. -/
theorem run_countsIndices_copying :
    let policy : Policy Unit Nat := .copying fun key => key.length.toUInt64
    let calls : List (Call Nat) :=
      [.insert 1 [97], .insert 2 [98], .insert 3 [97, 98], .eraseFirst, .insert 4 [99]]
    (build 1 policy .ofProcess ()).result = .ok (empty policy 1 ()) ∧ policy.StoresKey ∧
      ∃ h es o, (empty policy 1 ()).run calls = .ok h ∧ h.table.bits = 1 ∧
        h.table.store.CountsIndices policy.hash es o := by
  intro policy calls
  have hbuild : (build 1 policy .ofProcess ()).result = .ok (empty policy 1 ()) := rfl
  have hkey : policy.StoresKey := Policy.storesKey_of_copyKey rfl
  exact ⟨hbuild, hkey, run_countsIndices hbuild hkey calls⟩

end Table

end OrderedTable
