import OrderedTable.Allocation.Script
import OrderedTable.Proofs.Ledger.Balance
import OrderedTable.Proofs.Store.WellLinked

/-!
# Every entry is released once

What a table has released by the end of its life, the entries that are left when it is taken down
included, are the entries that its insertions have made, each once (`Table.run_releases_once`). The
entry has left the table by then: `Departure.IsOut`.
-/

namespace OrderedTable

variable {σ V A : Type} [Arena A (Node V)]

/-- The node is neither live nor on the list nor on the chain of any bucket. -/
structure Departure.IsOut (d : Departure V A) : Prop where
  arena : d.rest.contains d.id = false
  order : ∃ ids, d.rest.ids = .ok ids ∧ d.id ∉ ids
  chains : ∀ b < d.rest.bucketCount,
    ∃ ids, d.rest.buckets.chain d.rest.nodes b = .ok ids ∧ d.id ∉ ids

theorem Departure.Left.isOut [LawfulArena A (Node V)] {hash : Key → UInt64} {d : Departure V A}
    (h : d.Left hash) : d.IsOut := by
  obtain ⟨r, hrest, hid⟩ := h
  exact {
    arena := Bool.eq_false_iff.2 fun hlive => hid (hrest.mem_ids_iff.2 hlive)
    order := ⟨r.ids, hrest.ids_eq, hid⟩
    chains := fun b hb => ⟨_, hrest.chain_eq hb, fun hmem => hid (Roster.ids_chain_subset hmem)⟩ }

namespace Table

/-- The calls on `t`, and the teardown after them, release every entry that has been deposited. -/
structure ReleasesOnce [Inhabited V] (t : Table σ V A) (calls : List (Call V))
    (h : History σ V A) (last : Teardown V A) (ms : Roster V) : Prop where
  /-- The deposits are the entries of the insertions that have succeeded. -/
  issued : ms.ids = h.issued
  nodup : h.issued.Nodup
  perm : ((h.released ++ last.released).map Departure.member).Perm ms
  /-- Before the teardown, what has not been released is still there. -/
  count : h.released.length + h.table.size = h.issued.length
  accepted : ∀ d ∈ h.released ++ last.released, t.Accepts calls d.member
  out : ∀ d ∈ h.released ++ last.released, d.IsOut

variable [LawfulArena A (Node V)] {bits : UInt32} {policy : Policy σ V} {heap : Heap} {env : σ}
  {t : Table σ V A}

omit [LawfulArena A (Node V)] in
theorem destroy_of_clear {o : Outcome σ V Unit A} (hclear : t.clear = .ok o) :
    t.destroy = .ok ⟨o.released, .destroyed t.size t.bucketCount⟩ := by
  rw [destroy, hclear]
  rfl

theorem Holds.exists_destroy {r : Roster V} (h : t.Holds r) :
    ∃ last, t.destroy = .ok last ∧ (last.released.map Departure.member).Perm r ∧
      ∀ d ∈ last.released, d.Left t.policy.hash := by
  obtain ⟨o, hclear, href⟩ := exists_clear h
  exact ⟨_, destroy_of_clear hclear, href.released.members ▸ Roster.byBucket_perm,
    href.released.left⟩

/-- Whatever is done to a table from its building to its end, refused insertions included, each
entry that an insertion has made is released once and nothing else is, and only when it has left the
table. A strategy that makes an entry under a foreign key stops the history there. -/
theorem run_releases_once [Inhabited V] (hbuild : (build bits policy heap env A).result = .ok t)
    (calls : List (Call V)) : policy.Stops (t.run calls) ∨
      ∃ h last ms, t.run calls = .ok h ∧ h.table.destroy = .ok last ∧
        t.deposits calls = .ok ms ∧ t.ReleasesOnce calls h last ms := by
  rcases exists_balance_of_build hbuild calls with hstop | ⟨h, ms, r, hrun, hms, hbal, hnodup⟩
  · exact .inl hstop
  obtain ⟨last, hdestroy, hlast, hleft⟩ := hbal.holds.exists_destroy
  have hperm : ((h.released ++ last.released).map Departure.member).Perm ms := by
    rw [List.map_append]
    exact (hlast.append_left _).trans hbal.perm
  refine .inr ⟨h, last, ms, hrun, hdestroy, hms, {
    issued := hbal.issued
    nodup := hnodup
    perm := hperm
    count := ?_
    accepted := fun d hd => ?_
    out := fun d hd => ?_ }⟩
  · have hlength := hbal.perm.length_eq
    rw [List.length_append, List.length_map, List.nil_append, ← hbal.holds.size] at hlength
    rw [← hbal.issued, Roster.length_ids]
    exact hlength
  · exact hbal.accepts _ (hperm.subset (List.mem_map_of_mem hd))
  · rcases List.mem_append.1 hd with hd | hd
    · exact (hbal.left d hd).isOut
    · exact (hleft d hd).isOut

/-- The gate grants what the first insertion needs, and nothing more: the replacement releases the
entry, and is refused. -/
theorem run_releases_once_ofBudget :
    let policy : Policy Rehearsal Nat :=
      { hash := fun _ => 0, gate := Rehearsal.gate, populate := Populate.copyKey }
    let opening := build 0 policy .ofProcess { script := .ofBudget 5 }
    let t := empty policy 0 opening.env
    let calls : List (Call Nat) := [.insert 1 [97], .insert 2 [98], .replace 3 [97]]
    opening.result = .ok t ∧ ∃ h last ms, t.run calls = .ok h ∧ h.table.destroy = .ok last ∧
      t.deposits calls = .ok ms ∧ t.ReleasesOnce calls h last ms := by
  intro policy opening t calls
  have hbuild : opening.result = .ok t := rfl
  have hkey : policy.StoresKey := Policy.storesKey_of_copyKey rfl
  exact ⟨hbuild, (run_releases_once hbuild calls).resolve_left fun hstop => hstop.2 hkey⟩

end Table

end OrderedTable
