import OrderedTable.Proofs.Table.Invariants
import OrderedTable.Proofs.Table.Renamed

/-!
# Clearing

Clearing a table, and taking it down, releases all entries bucket by bucket, whatever the order in
which the list has them: `Table.ClearsAll`. What is left is as good as `Table.empty`, which is what
building comes to, with gate and strategy in the state that they have been left in. Only the ids
that have been issued tell the two apart, and these are never given out again on either:
`Table.run_clearsAll`.
-/

namespace OrderedTable

variable {σ V A : Type} [Arena A (Node V)]

namespace Table

/-- Clearing `t`, whose list is `ids`, comes to `o`. -/
structure ClearsAll (t : Table σ V A) (o : Outcome σ V Unit A) (ids : List NodeId) : Prop where
  nodup : ids.Nodup
  live : ∀ id, id ∈ ids ↔ t.store.contains id = true
  chains : ∀ b < t.bucketCount, t.store.buckets.chain t.store.nodes b =
    .ok (ids.reverse.filter (t.store.isInBucket t.policy.hash b))
  /-- The buckets are emptied in turn, each from the newest entry to the oldest. -/
  order : o.released.map Departure.id = (List.range t.bucketCount).flatMap fun b =>
    ids.reverse.filter (t.store.isInBucket t.policy.hash b)
  once : (o.released.map Departure.id).Perm ids
  entry : ∀ d ∈ o.released, t.store.get? d.id = some d.entry
  out : ∀ d ∈ o.released, d.IsOut
  size : o.table.size = 0
  list : o.table.store.ids = .ok []
  buckets : ∀ b < o.table.bucketCount, o.table.store.buckets.isEmptyAt b = .ok true ∧
    o.table.store.buckets.chain o.table.store.nodes b = .ok []
  bits : o.table.bits = t.bits
  bucketCount : o.table.bucketCount = t.bucketCount
  policy : o.table.policy = t.policy
  env : o.table.env = t.env
  /-- Taking the table down releases the same, and reports how many entries these have been. -/
  destroy : t.destroy = .ok ⟨o.released, .destroyed o.released.length t.bucketCount⟩

variable [LawfulArena A (Node V)] {t : Table σ V A} {r : Roster V} {o : Outcome σ V Unit A}

theorem Holds.clearsAll (h : t.Holds r) (hclear : t.clear = .ok o)
    (href : t.Refines o (t.ledger r).clear) : t.ClearsAll o r.ids := by
  have hmembers : o.released.map Departure.member = r.byBucket t.policy.hash t.bits.toNat :=
    href.released.members
  have hperm : (o.released.map Departure.member).Perm r := hmembers ▸ Roster.byBucket_perm
  have hempty : o.table.store.Holds o.table.policy.hash [] := href.holds
  have hcount : o.table.bucketCount = t.bucketCount := by
    rw [bucketCount, bucketCount, hempty.count, h.count, href.precedes.bits]
  have hlength : o.released.length = t.size := by
    rw [← List.length_map Departure.member, hperm.length_eq]
    exact h.size.symm
  exact {
    nodup := h.nodup
    live := fun id => h.mem_ids_iff
    chains := (Store.Holds.chainsFollow h).chain_eq
    order := by
      rw [← Departure.ids_members, hmembers, Roster.ids, Roster.byBucket, List.map_flatMap,
        bucketCount, h.count]
      exact List.flatMap_congr fun b _ => h.ids_chain b
    once := by
      rw [← Departure.ids_members]
      exact hperm.map Member.id
    entry := fun d hd => h.entry_of_mem (hperm.subset (List.mem_map_of_mem hd))
    out := fun d hd => (href.released.left d hd).isOut
    size := hempty.size
    list := hempty.ids_eq
    buckets := fun b hb => ⟨hempty.chains.isEmptyAt_eq hb, hempty.chain_eq hb⟩
    bits := href.precedes.bits
    bucketCount := hcount
    policy := href.policy
    env := href.env_eq.symm
    destroy := by rw [destroy_of_clear hclear, hlength] }

/-! ## A fresh start -/

variable {bits : UInt32} {policy : Policy σ V} {heap : Heap} {env : σ}

theorem Holds.renamed_empty (h : t.Holds []) (hpolicy : t.policy = policy) (hbits : t.bits = bits) :
    Renamed ∅ (Equiv.refl NodeId) t (empty policy bits t.env A) [] where
  paired := .of_nil h (holds_empty policy bits t.env)
  policy := hpolicy.symm
  bits := hbits.symm
  env := rfl

variable [Inhabited V]

/-- Whatever has been done to a table, clearing it releases every entry once, bucket by bucket and
the newest first, and so does taking it down. A table that has been cleared acts like the empty one
in the same state of gate and strategy, so it acts like any that has just been built and has been
left in this state. -/
theorem run_clearsAll (hbuild : (build bits policy heap env A).result = .ok t)
    (calls : List (Call V)) : policy.Stops (t.run calls) ∨
      ∃ h ids o, t.run calls = .ok h ∧ h.table.store.ids = .ok ids ∧ ids.Sublist h.issued ∧
        h.issued.Nodup ∧ h.table.clear = .ok o ∧ h.table.ClearsAll o ids ∧
        ActsLike o.table (empty policy bits o.table.env A) ∧
        ∀ heap' env' t', (build bits policy heap' env' A).result = .ok t' →
          t'.env = o.table.env → ActsLike o.table t' := by
  rcases stops_or_holds_of_build hbuild calls with
    hstop | ⟨h, r, hrun, hpolicy, hbits, hr, horder, hnodup⟩
  · exact .inl hstop
  obtain ⟨o, hclear, href⟩ := hr.exists_clear
  have hempty : o.table.Holds [] := href.holds
  have hfresh : ActsLike o.table (empty policy bits o.table.env A) :=
    (hempty.renamed_empty (href.policy.trans hpolicy) (href.precedes.bits.trans hbits)).actsLike
  refine .inr ⟨h, r.ids, o, hrun, hr.ids_eq, horder, hnodup, hclear, hr.clearsAll hclear href,
    hfresh, ?_⟩
  intro heap' env' t' hbuild' henv
  obtain rfl := eq_empty_of_build hbuild'
  rw [← henv] at hfresh
  exact hfresh

/-- Entries in two buckets, some of which have left the table before. The fresh table is the one that
has been there at first. -/
theorem run_clearsAll_copying :
    let policy : Policy Unit Nat := .copying fun key => key.length.toUInt64
    let t := empty policy 1 ()
    let calls : List (Call Nat) := [.insert 1 [97], .insert 2 [97, 98], .insert 3 [98],
      .erase [97], .insert 4 [98, 99], .insert 5 [98]]
    (build 1 policy .ofProcess ()).result = .ok t ∧
      ∃ h ids o, t.run calls = .ok h ∧ h.table.store.ids = .ok ids ∧ ids.Sublist h.issued ∧
        h.issued.Nodup ∧ h.table.clear = .ok o ∧ h.table.ClearsAll o ids ∧
        ActsLike o.table (empty policy 1 o.table.env) ∧ t.env = o.table.env ∧
        ActsLike o.table t := by
  intro policy t calls
  have hbuild : (build 1 policy .ofProcess ()).result = .ok t := rfl
  have hkey : policy.StoresKey := Policy.storesKey_of_copyKey rfl
  obtain ⟨h, ids, o, hrun, hids, horder, hnodup, hclear, hclears, hfresh, hbuilt⟩ :=
    (run_clearsAll hbuild calls).resolve_left fun hstop => hstop.2 hkey
  exact ⟨hbuild, h, ids, o, hrun, hids, horder, hnodup, hclear, hclears, hfresh, rfl,
    hbuilt .ofProcess () t hbuild rfl⟩

end Table

end OrderedTable
