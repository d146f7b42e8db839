import OrderedTable.Proofs.Ledger.Balance
import OrderedTable.Proofs.Links.Alike
import OrderedTable.Proofs.Table.Invariants
import OrderedTable.Proofs.Table.Replace

/-!
# Histories leave no trace in the links

The list of a table, with the keys on it, says how every node is linked: two stores whose lists have
the same keys at the same positions are linked alike (`Store.LinkedAlike`), once the nodes at the
same positions are identified. How the entries have come and what has been removed between them
makes no difference: see `Table.run_linkedAlike`.
-/

namespace OrderedTable

variable {σ σ' V V' A A' : Type} [Arena A (Node V)] [Arena A' (Node V')]

/-- Any list can be made of one without repetitions that is as long. -/
theorem exists_map_eq {α : Type} [DecidableEq α] {xs ys : List α} (hnd : xs.Nodup)
    (hlength : xs.length = ys.length) : ∃ f, xs.map f = ys := by
  induction xs generalizing ys with
  | nil => exact ⟨id, (List.length_eq_zero_iff.1 hlength.symm).symm⟩
  | cons x xs ih =>
    obtain ⟨hx, hnd⟩ := List.nodup_cons.1 hnd
    obtain ⟨y, ys, rfl⟩ := List.exists_cons_of_length_eq_add_one hlength.symm
    obtain ⟨f, rfl⟩ := ih hnd (Nat.succ.inj hlength)
    refine ⟨Function.update f x y, ?_⟩
    rw [List.map_cons, Function.update_self]
    refine congrArg _ (List.map_congr_left fun x' hx' => Function.update_of_ne ?_ _ _)
    rintro rfl
    exact hx hx'

/-! ## What decides the chains -/

namespace Roster

variable {r : Roster V} {r' : Roster V'} {f : NodeId → NodeId} {hash : Key → UInt64} {bits b : Nat}

/-- The ids with the keys behind them. -/
def keyed (r : Roster V) : List (NodeId × Key) := r.map fun m => (m.id, m.entry.key)

theorem keyed_eq_zip : r.keyed = r.ids.zip (keysOf r.entries) := by
  rw [keysOf, entries, ids, List.map_map, List.zip_map', keyed]
  rfl

theorem ids_eq_of_keyed (h : r'.keyed = r.keyed.map (Prod.map f id)) : r'.ids = r.ids.map f := by
  have hids := congrArg (List.map Prod.fst) h
  rw [keyed, keyed, List.map_map, List.map_map, List.map_map] at hids
  rw [ids, ids, List.map_map]
  exact hids

/-- The chain of a bucket needs no more of the entries than their keys. -/
theorem ids_chain_eq : (r.chain hash bits b).ids =
    (r.keyed.reverse.filter fun p => bucketOf hash bits p.2 = b).map Prod.fst := by
  rw [keyed, ← List.map_reverse, List.filter_map, List.map_map]
  rfl

theorem ids_chain_of_keyed (h : r'.keyed = r.keyed.map (Prod.map f id)) :
    (r'.chain hash bits b).ids = (r.chain hash bits b).ids.map f := by
  rw [ids_chain_eq, ids_chain_eq, h, ← List.map_reverse, List.filter_map, List.map_map,
    List.map_map]
  rfl

end Roster

/-! ## Stores that are linked alike -/

namespace Store

/-- The nodes of the two stores have the same links, a node `id` of the one being identified with
the node `f id` of the other, which stands at the same position of the list. -/
structure LinkedAlike (f : NodeId → NodeId) (s : Store V A) (s' : Store V' A') : Prop where
  ids : ∃ ids, s.ids = .ok ids ∧ s'.ids = .ok (ids.map f)
  live : Set.BijOn f {id | s.contains id = true} {id | s'.contains id = true}
  first : s'.order.first? = s.order.first?.map f
  heads : s'.buckets.heads.first = s.buckets.heads.first.map (Option.map f)
  node : ∀ id node, Arena.get? s.nodes id = some node →
    ∃ node', Arena.get? s'.nodes (f id) = some node' ∧
      node'.place = node.place.map f ∧ node'.chain = node.chain.map f

variable [LawfulArena A (Node V)] [LawfulArena A' (Node V')] {hash : Key → UInt64} {s : Store V A}
  {s' : Store V' A'} {r : Roster V} {r' : Roster V'} {f : NodeId → NodeId}

theorem Holds.linkedAlike (h : s.Holds hash r) (h' : s'.Holds hash r')
    (hbits : s'.buckets.bits = s.buckets.bits) (hkeyed : r'.keyed = r.keyed.map (Prod.map f id)) :
    s.LinkedAlike f s' := by
  have hids : r'.ids = r.ids.map f := Roster.ids_eq_of_keyed hkeyed
  have horder : s'.order.Holds s'.nodes (r.ids.map f) := hids ▸ h'.order
  have hchains : s'.buckets.heads.Holds s'.nodes fun b =>
      (r.chain hash s.buckets.bits.toNat b).ids.map f := by
    have hchains := h'.chains
    simp only [hbits, Roster.ids_chain_of_keyed hkeyed] at hchains
    exact hchains
  have hcount : s'.bucketCount = s.bucketCount := by rw [h'.count, h.count, hbits]
  refine ⟨⟨r.ids, h.ids_eq, hids ▸ h'.ids_eq⟩, ⟨?_, ?_, ?_⟩, ?_,
    h.chains.first_map hchains hcount, ?_⟩
  · intro id hid
    exact h'.mem_ids_iff.1 (hids ▸ List.mem_map_of_mem (h.mem_ids_iff.2 hid))
  · intro id hid id' hid' heq
    exact List.inj_on_of_nodup_map (hids ▸ h'.nodup) (h.mem_ids_iff.2 hid)
      (h.mem_ids_iff.2 hid') heq
  · intro id' hid'
    obtain ⟨id, hid, heq⟩ := List.mem_map.1 (hids ▸ h'.mem_ids_iff.2 hid')
    exact ⟨id, h.mem_ids_iff.1 hid, heq⟩
  · rw [h.order.first, horder.first, List.head?_map]
  · intro id node hnode
    have hid : id ∈ r.ids := h.mem_ids_iff.2 (Arena.contains_iff.2 ⟨node, hnode⟩)
    have hentry : s.get? id = some node.entry := congrArg (Option.map Node.entry) hnode
    have hplace := h.order.link_map horder hid
    have hchain := h.chains.link_map hchains (h.mem_ids_chain_iff.2 ⟨_, hentry, rfl⟩)
    rw [Holds.placeLink_eq hnode] at hplace
    rw [Holds.chainLink_eq hnode] at hchain
    obtain ⟨node', hnode', hplace⟩ := Option.map_eq_some_iff.1 hplace
    obtain ⟨node'', hnode'', hchain⟩ := Option.map_eq_some_iff.1 hchain
    obtain rfl := Option.some.inj (hnode'.symm.trans hnode'')
    exact ⟨node', hnode', hplace, hchain⟩

omit [Arena A' (Node V')] [LawfulArena A' (Node V')] in
theorem Holds.linkedAlike_id {s' : Store V A} (h : s.Holds hash r) (h' : s'.Holds hash r)
    (hbits : s'.buckets.bits = s.buckets.bits) : s.LinkedAlike id s' :=
  h.linkedAlike h' hbits (by rw [Prod.map_id, List.map_id])

/-- Where the lists have the same keys, some identification of the nodes will do. -/
theorem Holds.exists_linkedAlike (h : s.Holds hash r) (h' : s'.Holds hash r')
    (hbits : s'.buckets.bits = s.buckets.bits) (hkeys : keysOf r.entries = keysOf r'.entries) :
    ∃ f, s.LinkedAlike f s' := by
  have hlength : r.ids.length = r'.ids.length := by
    have hlength := congrArg List.length hkeys
    simpa [keysOf, Roster.entries] using hlength
  obtain ⟨f, hf⟩ := exists_map_eq h.nodup hlength
  refine ⟨f, h.linkedAlike h' hbits ?_⟩
  rw [Roster.keyed_eq_zip, Roster.keyed_eq_zip, ← hf, ← hkeys, List.zip_map_left]

end Store

/-! ## Removing entries in any order -/

namespace Roster

variable {r : Roster V}

/-- What is kept is what stands behind none of the ids that go. -/
theorem sift_eq_filter (keep : List (Entry V) → Entry V → Bool) (seen : List (Entry V))
    (hnd : r.ids.Nodup) :
    (sift keep seen r).1 = r.filter fun m => m.id ∉ (sift keep seen r).2.ids := by
  induction r generalizing seen with
  | nil => rfl
  | cons m rest ih =>
    obtain ⟨hm, hnd⟩ := List.nodup_cons.1 hnd
    have hrest := ih (seen ++ [m.entry]) hnd
    have hm' : m.id ∉ (sift keep (seen ++ [m.entry]) rest).2.ids := fun hid =>
      hm (((sift_perm keep _ rest).map Member.id).subset
        (by rw [List.map_append]; exact List.mem_append_left _ hid))
    rw [sift_cons]
    by_cases hkeep : keep seen m.entry = true
    · simp only [hkeep, if_true, List.nil_append, List.singleton_append]
      rw [List.filter_cons_of_pos (by simpa using hm'), ← hrest]
    · simp only [hkeep, List.nil_append, List.singleton_append, Bool.false_eq_true, if_false]
      rw [List.filter_cons_of_neg (by simp [ids]), hrest]
      refine List.filter_congr fun m' hm' => ?_
      have hne : m'.id ≠ m.id := fun hid => hm (hid ▸ mem_ids hm')
      simp [ids, hne]

end Roster

theorem Ledger.eraseMember_member?_roster (l : Ledger σ V) (id : NodeId) :
    (l.eraseMember (l.roster.member? id)).ledger.roster = l.roster.without id := by
  cases hm : l.roster.member? id with
  | some m =>
    obtain ⟨-, rfl⟩ := Roster.mem_of_member? hm
    rfl
  | none =>
    have hid : id ∉ l.roster.ids := Roster.get?_eq_none_iff.1 (Option.map_eq_none_iff.2 hm)
    refine (List.filter_eq_self.2 fun m hm => ?_).symm
    have hne : m.id ≠ id := fun heq => hid (heq ▸ Roster.mem_ids hm)
    simpa using hne

namespace Table

/-- Which entries are removed decides how the others are linked, not in what order they are removed
nor whether one by one or all at once. -/
structure ErasesAlike [Inhabited V] (t : Table σ V A) : Prop where
  eraseIds : ∀ gone gone' : List NodeId, (∀ id, id ∈ gone ↔ id ∈ gone') → ∃ h h',
    t.run (gone.map .eraseId) = .ok h ∧ t.run (gone'.map .eraseId) = .ok h' ∧
      h.table.store.LinkedAlike id h'.table.store
  retain : ∀ keep, ∃ o, t.retain keep = .ok o ∧ ∀ gone : List NodeId,
    (∀ id, id ∈ gone ↔ id ∈ o.released.map Departure.id) → ∃ h,
      t.run (gone.map .eraseId) = .ok h ∧ h.table.store.LinkedAlike id o.table.store

namespace Holds

variable [Inhabited V] [LawfulArena A (Node V)] {t : Table σ V A} {r : Roster V}

theorem exists_run_eraseIds (h : t.Holds r) (gone : List NodeId) : ∃ h',
    t.run (gone.map .eraseId) = .ok h' ∧ h'.table.policy = t.policy ∧ h'.table.bits = t.bits ∧
      h'.table.Holds (r.filter fun m => m.id ∉ gone) := by
  induction gone generalizing t r with
  | nil =>
    refine ⟨_, rfl, rfl, rfl, ?_⟩
    rw [List.filter_eq_self.2 fun m _ => by simp]
    exact h
  | cons id gone ih =>
    obtain ⟨o, herase, href⟩ := h.exists_eraseId id
    have hholds : o.table.Holds (r.without id) :=
      (t.ledger r).eraseMember_member?_roster id ▸ href.holds
    obtain ⟨h', hrun, hpolicy, hbits, hr'⟩ := ih hholds
    have hcall : t.call (.eraseId id) = .ok (o.map .removal) := by
      rw [call, herase]
      rfl
    have hrest : (r.without id).filter (fun m => m.id ∉ gone) =
        r.filter fun m => m.id ∉ id :: gone := by
      rw [Roster.without, List.filter_filter]
      exact List.filter_congr fun m _ => by simp [Bool.and_comm]
    exact ⟨_, run_cons hcall hrun, hpolicy.trans href.policy, hbits.trans href.precedes.bits,
      hrest ▸ hr'⟩

theorem erasesAlike (h : t.Holds r) : t.ErasesAlike where
  eraseIds gone gone' hsame := by
    obtain ⟨h₁, hrun₁, hpolicy₁, hbits₁, hr₁⟩ := h.exists_run_eraseIds gone
    obtain ⟨h₂, hrun₂, hpolicy₂, hbits₂, hr₂⟩ := h.exists_run_eraseIds gone'
    rw [Holds, hpolicy₁] at hr₁
    simp only [Holds, hpolicy₂, ← hsame] at hr₂
    exact ⟨h₁, h₂, hrun₁, hrun₂, hr₁.linkedAlike_id hr₂ (hbits₂.trans hbits₁.symm)⟩
  retain keep := by
    obtain ⟨o, hretain, href⟩ := h.exists_retain keep
    refine ⟨o, hretain, fun gone hsame => ?_⟩
    obtain ⟨h₁, hrun₁, hpolicy₁, hbits₁, hr₁⟩ := h.exists_run_eraseIds gone
    have hids : o.released.map Departure.id = (Roster.sift keep [] r).2.ids := by
      have hids := congrArg Roster.ids href.released.members
      rwa [Roster.ids, List.map_map] at hids
    have hkept : (Roster.sift keep [] r).1 = r.filter fun m => m.id ∉ gone := by
      simp only [Roster.sift_eq_filter keep [] h.nodup, hsame, hids]
    have hr₂ : o.table.store.Holds t.policy.hash (r.filter fun m => m.id ∉ gone) :=
      hkept ▸ href.policy ▸ href.holds
    rw [Holds, hpolicy₁] at hr₁
    exact ⟨h₁, hrun₁, hr₁.linkedAlike_id hr₂ (href.precedes.bits.trans hbits₁.symm)⟩

end Holds

/-! ## Two histories -/

variable [Inhabited V] [Inhabited V'] [LawfulArena A (Node V)] [LawfulArena A' (Node V')]
  {bits : UInt32} {policy : Policy σ V} {policy' : Policy σ' V'} {heap heap' : Heap} {env : σ}
  {env' : σ'} {t : Table σ V A} {t' : Table σ' V' A'}

/-- Two histories of any kind that end with the same keys in the same order end with the same links.
In particular, which entries are removed from a table decides its links, and not how. -/
theorem run_linkedAlike (hbuild : (build bits policy heap env A).result = .ok t)
    (hbuild' : (build bits policy' heap' env' A').result = .ok t') (hkey : policy.StoresKey)
    (hkey' : policy'.StoresKey) (hhash : policy'.hash = policy.hash) (calls : List (Call V))
    (calls' : List (Call V')) :
    ∃ h h' es es', t.run calls = .ok h ∧ t'.run calls' = .ok h' ∧
      h.table.store.entries = .ok es ∧ h'.table.store.entries = .ok es' ∧
      (keysOf es = keysOf es' → ∃ f, h.table.store.LinkedAlike f h'.table.store) ∧
      h.table.ErasesAlike := by
  obtain ⟨h, script, hrun, -, -, href⟩ := exists_run_of_build hbuild hkey calls
  obtain ⟨h', r', hrun', hbits', hr', -⟩ := exists_holds_of_build hbuild' hkey' calls'
  have hpolicy : h.table.policy = policy := href.policy
  have hbits : h.table.bits = bits := href.precedes.bits
  have hr := href.holds
  refine ⟨h, h', _, _, hrun, hrun', hr.entries_eq, hr'.entries_eq, fun hkeys => ?_, hr.erasesAlike⟩
  rw [Holds, hpolicy] at hr
  exact hr.exists_linkedAlike (hhash ▸ hr') (hbits'.trans hbits.symm) hkeys

/-- The first entry and the last have left the one table, and have never been in the other. -/
theorem run_linkedAlike_copying :
    let policy : Policy Unit Nat := .copying fun key => key.length.toUInt64
    let t := empty policy 1 ()
    let calls : List (Call Nat) := [.insert 1 [97], .insert 2 [98], .insert 3 [97, 98],
      .insert 4 [99], .erase [97], .eraseLast]
    let calls' : List (Call Nat) := [.insert 5 [98], .insert 6 [97, 98]]
    (build 1 policy .ofProcess ()).result = .ok t ∧ policy.StoresKey ∧
      ∃ h h' f, t.run calls = .ok h ∧ t.run calls' = .ok h' ∧
        h.table.store.LinkedAlike f h'.table.store ∧ h.table.ErasesAlike := by
  intro policy t calls calls'
  have hbuild : (build 1 policy .ofProcess ()).result = .ok t := rfl
  have hkey : policy.StoresKey := Policy.storesKey_of_copyKey rfl
  obtain ⟨h, h', es, es', hrun, hrun', hentries, hentries', hlinked, herases⟩ :=
    run_linkedAlike hbuild hbuild hkey hkey rfl calls calls'
  have hkeys : (t.run calls >>= fun h => keysOf <$> h.table.store.entries) =
      .ok [[98], [97, 98]] := by decide +kernel
  have hkeys' : (t.run calls' >>= fun h => keysOf <$> h.table.store.entries) =
      .ok [[98], [97, 98]] := by decide +kernel
  rw [hrun, ok_bind, hentries] at hkeys
  rw [hrun', ok_bind, hentries'] at hkeys'
  obtain ⟨f, hlinked⟩ := hlinked ((Except.ok.inj hkeys).trans (Except.ok.inj hkeys').symm)
  exact ⟨hbuild, hkey, h, h', f, hrun, hrun', hlinked, herases⟩

end Table

end OrderedTable
