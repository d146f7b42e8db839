import OrderedTable.Proofs.Ledger.Run
import OrderedTable.Proofs.Store.WellLinked

/-!
# What always holds of a table

Two properties of every table that comes out of a history, from its building on. Its arena, its list
and its buckets fit together (`Table.run_wellLinked`). And each bucket has its nodes in the order of
the list, read from the back, so that candidates come newest first (`Table.run_chainsFollow`).
-/

namespace OrderedTable

variable {σ V A : Type} [Arena A (Node V)]

namespace Store

/-- Whether the key of a live node is of bucket `b`. -/
def isInBucket (hash : Key → UInt64) (s : Store V A) (b : Nat) (id : NodeId) : Bool :=
  (s.get? id).any fun e => (hash e.key).toNat % 2 ^ s.buckets.bits.toNat = b

/-- The chains are the list `ids` read from the back, each restricted to its bucket. -/
structure ChainsFollow (hash : Key → UInt64) (s : Store V A) (ids : List NodeId) : Prop where
  ids_eq : s.ids = .ok ids
  chain_eq : ∀ b < s.bucketCount,
    s.buckets.chain s.nodes b = .ok (ids.reverse.filter (s.isInBucket hash b))
  candidates_eq : ∀ word : UInt64, s.buckets.candidates s.nodes word =
    .ok (ids.reverse.filter (s.isInBucket hash (word.toNat % 2 ^ s.buckets.bits.toNat)))

theorem Holds.ids_chain {hash : Key → UInt64} {s : Store V A} {r : Roster V} (h : s.Holds hash r)
    (b : Nat) : (r.chain hash s.buckets.bits.toNat b).ids =
      r.ids.reverse.filter (s.isInBucket hash b) := by
  rw [Roster.chain, Roster.ids, Roster.ids, ← List.map_reverse, List.filter_map]
  refine congrArg _ (List.filter_congr fun m hm => ?_)
  rw [Function.comp_apply, isInBucket, h.entry_of_mem (List.mem_reverse.1 hm)]
  rfl

theorem Holds.chainsFollow [LawfulArena A (Node V)] {hash : Key → UInt64} {s : Store V A}
    {r : Roster V} (h : s.Holds hash r) : s.ChainsFollow hash r.ids where
  ids_eq := h.ids_eq
  chain_eq b hb := by rw [h.chain_eq hb, h.ids_chain]
  candidates_eq word := by rw [h.candidates_eq, h.ids_chain]

end Store

namespace Table

variable [LawfulArena A (Node V)] {bits : UInt32} {policy : Policy σ V} {heap : Heap} {env : σ}
  {t : Table σ V A}

/-- The nodes of a table are linked as one list and one chain for each bucket, whatever has been done
to it. -/
theorem run_wellLinked [Inhabited V] (hbuild : (build bits policy heap env A).result = .ok t)
    (hkey : policy.StoresKey) (calls : List (Call V)) :
    ∃ h ids chains, t.run calls = .ok h ∧ h.table.bits = bits ∧
      h.table.store.WellLinked policy.hash ids chains := by
  obtain ⟨h, r, hrun, hbits, hholds, -⟩ := exists_holds_of_build hbuild hkey calls
  exact ⟨h, r.ids, _, hrun, hbits, hholds.wellLinked⟩

theorem run_wellLinked_copying :
    let policy : Policy Unit Nat := .copying fun key => key.length.toUInt64
    let calls : List (Call Nat) :=
      [.insert 1 [97], .insert 2 [98], .insert 3 [97, 98], .erase [97], .eraseFirst]
    (build 1 policy .ofProcess ()).result = .ok (empty policy 1 ()) ∧ policy.StoresKey ∧
      ∃ h ids chains, (empty policy 1 ()).run calls = .ok h ∧ h.table.bits = 1 ∧
        h.table.store.WellLinked policy.hash ids chains := by
  intro policy calls
  have hbuild : (build 1 policy .ofProcess ()).result = .ok (empty policy 1 ()) := rfl
  have hkey : policy.StoresKey := Policy.storesKey_of_copyKey rfl
  exact ⟨hbuild, hkey, run_wellLinked hbuild hkey calls⟩

/-- The chains of a table follow its list from the back, whatever has been done to it. The list is in
the order of insertion, so the candidates for a hash come strictly newest first. -/
theorem run_chainsFollow [Inhabited V] (hbuild : (build bits policy heap env A).result = .ok t)
    (hkey : policy.StoresKey) (calls : List (Call V)) :
    ∃ h ids, t.run calls = .ok h ∧ h.table.bits = bits ∧
      h.table.store.ChainsFollow policy.hash ids ∧ h.issued.Nodup ∧ ids.Sublist h.issued ∧
      ∀ word, ∃ candidates, h.table.store.buckets.candidates h.table.store.nodes word =
        .ok candidates ∧ candidates.Sublist h.issued.reverse := by
  obtain ⟨h, r, hrun, hbits, hholds, horder, hnodup⟩ := exists_holds_of_build hbuild hkey calls
  refine ⟨h, r.ids, hrun, hbits, hholds.chainsFollow, hnodup, horder, fun word => ?_⟩
  exact ⟨_, hholds.chainsFollow.candidates_eq word, List.filter_sublist.trans horder.reverse⟩

theorem run_chainsFollow_copying :
    let policy : Policy Unit Nat := .copying fun key => key.length.toUInt64
    let calls : List (Call Nat) :=
      [.insert 1 [97], .insert 2 [98], .insert 3 [97, 98], .erase [97], .eraseFirst]
    (build 1 policy .ofProcess ()).result = .ok (empty policy 1 ()) ∧ policy.StoresKey ∧
      ∃ h ids, (empty policy 1 ()).run calls = .ok h ∧ h.table.bits = 1 ∧
        h.table.store.ChainsFollow policy.hash ids ∧ h.issued.Nodup ∧ ids.Sublist h.issued ∧
        ∀ word, ∃ candidates, h.table.store.buckets.candidates h.table.store.nodes word =
          .ok candidates ∧ candidates.Sublist h.issued.reverse := by
  intro policy calls
  have hbuild : (build 1 policy .ofProcess ()).result = .ok (empty policy 1 ()) := rfl
  have hkey : policy.StoresKey := Policy.storesKey_of_copyKey rfl
  exact ⟨hbuild, hkey, run_chainsFollow hbuild hkey calls⟩

end Table

end OrderedTable
