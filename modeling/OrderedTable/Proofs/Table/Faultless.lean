import OrderedTable.Proofs.Table.Release

/-!
# No operation faults

Whatever has been done to a table, nothing that can be done to it next reports a `Fault`: no id is
followed to a node that is not live, no bucket is looked up that is not there, nothing is subtracted
from zero and no node is linked twice. And no walk is endless, even where it lets go of the nodes
that it comes to (`Store.WalksEnd`): without any bound on its length it reaches its end, over nodes
that are all different. See `Table.run_faultless`.
-/

namespace OrderedTable

variable {σ V A : Type} [Arena A (Node V)]

namespace Store

/-- Every walk comes to its end, and takes no node twice. -/
structure WalksEnd (s : Store V A) : Prop where
  /-- Down the chain that a hash belongs to; a lookup finds one of the nodes on the way. -/
  find : ∀ (word : UInt64) (probe : Key), ∃ b first ids found,
    s.buckets.bucketOf word = .ok b ∧ b < s.bucketCount ∧ s.buckets.heads.first? b = .ok first ∧
    Visits (Chain.step s.nodes) first () ids () ∧ ids.Nodup ∧
    s.find? word probe = .ok found ∧ ∀ id, found = some id → id ∈ ids
  /-- Over the list from both ends: what is read is different each time, and once as many nodes have
  been read as there are, nothing comes any more. -/
  iterate : ∀ sides : List Side, ∃ read, s.order.iterate s.nodes sides = .ok read ∧
    read.reduceOption.Nodup ∧ ∀ x ∈ read.drop s.size, x = none
  /-- Down all chains, to count them. -/
  occupancy : ∃ ids, VisitsEach (fun _ b => s.buckets.heads.first? b) (Chain.step s.nodes)
    (List.range s.bucketCount) () ids () ∧ ids.Nodup
  /-- Over the list, while the nodes that are not kept are let go of. -/
  retain : ∀ keep : List (Entry V) → Entry V → Bool, ∃ ids r, s.retain keep = .ok r ∧
    Visits (retainStep keep) s.firstId? { seen := [], departed := [], store := s } ids r ∧ ids.Nodup
  /-- Down all chains, while every node is let go of. -/
  clear : ∃ ids departed s', s.clear = .ok (departed, s') ∧
    VisitsEach (fun x b => x.1.heads.first? b) (Buckets.clearStep letGo) (List.range s.bucketCount)
      (s.clearing []) ids (s'.clearing departed) ∧ ids.Nodup

namespace Holds

variable {hash : Key → UInt64} {s : Store V A} {r : Roster V}

theorem nodup_ids_byBucket (h : s.Holds hash r) (bits : Nat) :
    (r.byBucket hash bits).ids.Nodup :=
  (Roster.byBucket_perm.map Member.id).nodup_iff.2 h.nodup

variable [LawfulArena A (Node V)]

theorem exists_find (h : s.Holds hash r) (word : UInt64) (probe : Key) : ∃ b first ids found,
    s.buckets.bucketOf word = .ok b ∧ b < s.bucketCount ∧ s.buckets.heads.first? b = .ok first ∧
    Visits (Chain.step s.nodes) first () ids () ∧ ids.Nodup ∧
    s.find? word probe = .ok found ∧ ∀ id, found = some id → id ∈ ids := by
  let b := word.toNat % 2 ^ s.buckets.bits.toNat
  have hbucket : s.buckets.bucketOf word = .ok b := Buckets.bucketOf_eq h.count word
  have hlt : b < s.bucketCount := Nat.lt_of_lt_of_eq (Nat.mod_lt _ (Nat.two_pow_pos _)) h.count.symm
  have hfind : s.firstMatch? probe (r.chain hash s.buckets.bits.toNat b).ids = _ :=
    h.firstMatch?_eq probe fun m hm => (Roster.mem_chain.1 hm).1
  let found := List.find? (fun m => m.entry.answersTo probe) (r.chain hash s.buckets.bits.toNat b)
  refine ⟨b, _, _, found.map Member.id, hbucket, hlt, h.chains.first?_eq hlt,
    (h.chains.threaded b).visits, h.chains.nodup b, ?_, fun id hid => ?_⟩
  · rw [find?, h.candidates_eq, ok_bind]
    exact hfind
  · obtain ⟨m, hm, rfl⟩ := Option.map_eq_some_iff.1 hid
    exact Roster.mem_ids (List.mem_of_find?_eq_some hm)

theorem walksEnd (h : s.Holds hash r) : s.WalksEnd where
  find := h.exists_find
  iterate sides := by
    refine ⟨_, h.order.iterate_eq sides, nodup_reduceOption_readEnds h.nodup sides, fun x hx => ?_⟩
    rw [h.size, ← Roster.length_ids] at hx
    exact eq_none_of_mem_drop_readEnds hx
  occupancy := by
    refine ⟨_, h.chains.visitsEach fun b hb => List.mem_range.1 hb, ?_⟩
    have hnd := h.nodup_ids_byBucket s.buckets.bits.toNat
    rw [Roster.byBucket, Roster.ids, List.map_flatMap] at hnd
    rw [h.count]
    exact hnd
  retain keep := by
    obtain ⟨ds, s', hretain, hvisits, -⟩ := h.exists_retain keep
    exact ⟨_, _, hretain, hvisits, h.nodup⟩
  clear := by
    obtain ⟨ds, s', hclear, hvisits, -⟩ := h.exists_clear
    exact ⟨_, ds, s', hclear, hvisits, h.nodup_ids_byBucket _⟩

end Holds

end Store

namespace Table

/-- No operation reports a fault. -/
structure Faultless [Inhabited V] (t : Table σ V A) : Prop where
  call : ∀ c : Call V, ∃ o, t.call c = .ok o
  outline : ∀ data : V → Outline, ∃ text, t.outline data = .ok text
  destroy : ∃ last, t.destroy = .ok last
  walks : t.store.WalksEnd

variable [Inhabited V] [LawfulArena A (Node V)] {bits : UInt32} {policy : Policy σ V} {heap : Heap}
  {env : σ} {t : Table σ V A} {r : Roster V}

theorem Holds.faultless (h : t.Holds r) (hkey : t.policy.StoresKey) : t.Faultless where
  call c := by
    obtain ⟨fresh, o, hcall, -⟩ := exists_call h c (Table.not_strays hkey c)
    exact ⟨o, hcall⟩
  outline data := by
    rw [outline, h.entries_eq]
    exact ⟨_, rfl⟩
  destroy := by
    obtain ⟨last, hdestroy, -⟩ := exists_destroy h
    exact ⟨last, hdestroy⟩
  walks := h.walksEnd

/-- No operation on a table faults, whatever has been done to it, and no walk through it takes a
node twice. -/
theorem run_faultless (hbuild : (build bits policy heap env A).result = .ok t)
    (hkey : policy.StoresKey) (calls : List (Call V)) :
    ∃ h, t.run calls = .ok h ∧ h.table.Faultless := by
  obtain ⟨h, script, hrun, -, -, href⟩ := exists_run_of_build hbuild hkey calls
  have hpolicy : h.table.policy = policy := href.policy
  exact ⟨h, hrun, Holds.faultless href.holds (hpolicy ▸ hkey)⟩

/-- The first, the last and a middle entry leave, all of them from one bucket. -/
theorem run_faultless_copying :
    let policy : Policy Unit Nat := .copying fun _ => 0
    let t := empty policy 0 ()
    let calls : List (Call Nat) := [.insert 1 [97], .insert 2 [98], .insert 3 [97, 98],
      .insert 4 [97], .insert 5 [99], .erase [98], .eraseFirst, .eraseLast]
    (build 0 policy .ofProcess ()).result = .ok t ∧ policy.StoresKey ∧
      ∃ h, t.run calls = .ok h ∧ h.table.Faultless := by
  intro policy t calls
  have hbuild : (build 0 policy .ofProcess ()).result = .ok t := rfl
  have hkey : policy.StoresKey := Policy.storesKey_of_copyKey rfl
  exact ⟨hbuild, hkey, run_faultless hbuild hkey calls⟩

end Table

end OrderedTable
