import OrderedTable.Proofs.Ledger.Renaming
import OrderedTable.Proofs.Table.Stability

/-!
# Two tables side by side

Two tables on which the same calls are made may give different ids to the same entry. A permutation
of the ids takes the ones to the others: `Table.Paired` says what it has to know of them. When both
tables have given out one more id, the permutation can be changed so that it takes the one to the
other (`Table.Paired.exists_swap`), and no call notices, since so far the one id was as dead as the
other (`Table.Paired.call_congr`).
-/

namespace OrderedTable

variable {σ σ' V A : Type} [Arena A (Node V)] {f g : Equiv.Perm NodeId}

namespace Table

/-- Two tables have entries at the same places under ids that `f` takes to each other. All ids that
the first has given out so far are in `S`, and `f` takes them to those that the second has given
out. -/
structure Paired (S : Set NodeId) (f : Equiv.Perm NodeId) (t : Table σ V A) (t' : Table σ' V A)
    (r r' : Roster V) : Prop where
  holds : t.Holds r
  holds' : t'.Holds r'
  ids : r'.ids = r.ids.map f
  live : ∀ id ∈ r.ids, id ∈ S
  issued : ∀ id ∈ S, Arena.Issued t.store.nodes id
  issued' : ∀ id ∈ S, Arena.Issued t'.store.nodes (f id)

namespace Paired

variable {S : Set NodeId} {t : Table σ V A} {t' : Table σ' V A} {r r' : Roster V}

theorem congr (h : Paired S f t t' r r') (hg : ∀ id ∈ S, g id = f id) : Paired S g t t' r r' where
  holds := h.holds
  holds' := h.holds'
  ids := h.ids.trans (List.map_congr_left fun id hid => (hg id (h.live id hid)).symm)
  live := h.live
  issued := h.issued
  issued' id hid := hg id hid ▸ h.issued' id hid

theorem isDead (h : Paired S f t t' r r') {id : NodeId} (hid : id ∉ S) : t'.IsDead (f id) := by
  refine h.holds'.isDead_of_not_mem fun hmem => hid (h.live id ?_)
  rw [h.ids, List.mem_map_of_injective f.injective] at hmem
  exact hmem

/-- Tables without entries need not have their ids renamed. -/
theorem of_nil (h : t.Holds []) (h' : t'.Holds []) :
    Paired ∅ (Equiv.refl NodeId) t t' [] [] where
  holds := h
  holds' := h'
  ids := rfl
  live _ hid := absurd hid List.not_mem_nil
  issued id hid := absurd hid (Set.notMem_empty id)
  issued' id hid := absurd hid (Set.notMem_empty id)

theorem of_empty [LawfulArena A (Node V)] (policy : Policy σ V) (policy' : Policy σ' V)
    (bits bits' : UInt32) (env : σ) (env' : σ') :
    Paired ∅ (Equiv.refl NodeId) (empty policy bits env A) (empty policy' bits' env' A) [] [] :=
  of_nil (holds_empty policy bits env) (holds_empty policy' bits' env')

/-- The permutation can be changed where an id has just been given out, so that it takes it to the
one that the other table has given out. -/
theorem exists_swap {o : Outcome σ V (Answer V) A} {o' : Outcome σ' V (Answer V) A}
    (h : Paired S f t t' r r') (hissues : ∀ id, o.answer.issued? = some id → t.Issues o id)
    (hissues' : ∀ id, o'.answer.issued? = some id → t'.Issues o' id) :
    ∃ g : Equiv.Perm NodeId, (∀ id ∈ S, g id = f id) ∧
      ∀ id id', o.answer.issued? = some id → o'.answer.issued? = some id' → g id = id' := by
  rcases hid : o.answer.issued? with - | id
  · exact ⟨f, fun _ _ => rfl, fun _ _ hnone => nomatch hnone⟩
  rcases hid' : o'.answer.issued? with - | id'
  · exact ⟨f, fun _ _ => rfl, fun _ _ _ hnone => nomatch hnone⟩
  refine ⟨f.trans (Equiv.swap (f id) id'), fun other hother => ?_, fun x x' hx hx' => ?_⟩
  · refine Equiv.swap_apply_of_ne_of_ne (fun heq => ?_) fun heq => ?_
    · exact (hissues id hid).before (f.injective heq ▸ h.issued other hother)
    · exact (hissues' id' hid').before (heq ▸ h.issued' other hother)
  · cases hx
    cases hx'
    exact Equiv.swap_apply_left _ _

variable [Inhabited V] {c c' : Call V} {o : Outcome σ V (Answer V) A}
  {o' : Outcome σ' V (Answer V) A} {fresh fresh' : NodeId}

/-- How an id is renamed that has not been given out makes no difference. -/
theorem call_congr (h : Paired S f t t' r r') (hg : ∀ id ∈ S, g id = f id) (c : Call V) :
    t'.call (c.rename g) = t'.call (c.rename f) := by
  have hdead : ∀ id ∉ S, t'.IsDead (g id) ∧ t'.IsDead (f id) := fun id hid =>
    ⟨(h.congr hg).isDead hid, h.isDead hid⟩
  cases c with
  | eraseId id =>
    by_cases hid : id ∈ S
    · rw [Call.rename, hg id hid, Call.rename]
    · simp only [Call.rename, call, (hdead id hid).1.eraseId, (hdead id hid).2.eraseId]
  | get id =>
    by_cases hid : id ∈ S
    · rw [Call.rename, hg id hid, Call.rename]
    · simp only [Call.rename, call, (hdead id hid).1.get, (hdead id hid).2.get]
  | contains id =>
    by_cases hid : id ∈ S
    · rw [Call.rename, hg id hid, Call.rename]
    · simp only [Call.rename, call, (hdead id hid).1.contains, (hdead id hid).2.contains]
  | _ => rfl

/-- A call on both that gives out ids which `f` takes to each other. -/
theorem after (h : Paired S f t t' r r') (href : t.Refines o ((t.ledger r).call fresh c))
    (hissues : ∀ id, o.answer.issued? = some id → t.Issues o id)
    (href' : t'.Refines o' ((t'.ledger r').call fresh' c'))
    (hissues' : ∀ id, o'.answer.issued? = some id → t'.Issues o' id)
    (hids : ((t'.ledger r').call fresh' c').ledger.roster.ids =
      ((t.ledger r).call fresh c).ledger.roster.ids.map f)
    (hnew : o'.answer.issued? = o.answer.issued?.map f) :
    Paired (S ∪ {id | o.answer.issued? = some id}) f o.table o'.table
      ((t.ledger r).call fresh c).ledger.roster ((t'.ledger r').call fresh' c').ledger.roster where
  holds := href.holds
  holds' := href'.holds
  ids := hids
  live id hid := by
    have hkept := ((t.ledger r).call_roster fresh c).subset hid
    rw [← href.answer] at hkept
    rcases List.mem_append.1 hkept with hold | hid
    · exact .inl (h.live id hold)
    · exact .inr (Option.mem_toList.1 hid)
  issued id hid := by
    rcases hid with hold | hid
    · exact (h.issued id hold).becomes href.precedes.becomes
    · exact (hissues id hid).after
  issued' id hid := by
    rcases hid with hold | hid
    · exact (h.issued' id hold).becomes href'.precedes.becomes
    · refine (hissues' (f id) ?_).after
      rw [hnew, hid, Option.map_some]

end Paired

end Table

end OrderedTable
