import OrderedTable.Proofs.Store.Holds

/-!
# Arena, list and buckets of a store

`Store.WellLinked` says without a roster how the three parts of a store fit together: every live node
is once on the list and once on the chain of its bucket, links name live nodes, the list is a circle
and each node on a chain knows the place that names it. Every store that holds a roster is well
linked (`Store.Holds.wellLinked`).
-/

namespace OrderedTable

variable {V A : Type} [Arena A (Node V)]

namespace Store

/-- The nodes of the arena are linked as the list `ids` and as one chain for each bucket. -/
structure WellLinked (hash : Key → UInt64) (s : Store V A) (ids : List NodeId)
    (chains : Nat → List NodeId) : Prop where
  /-- The list and every bucket are read to their end. -/
  count : s.bucketCount = 2 ^ s.buckets.bits.toNat
  ids_eq : s.ids = .ok ids
  chain_eq : ∀ b < s.bucketCount, s.buckets.chain s.nodes b = .ok (chains b)
  /-- The nodes on the list are the live ones, each once. -/
  nodup : ids.Nodup
  mem_ids : ∀ id, id ∈ ids ↔ s.contains id = true
  /-- The nodes on a chain are the live ones whose key is of that bucket, each once. -/
  nodup_chain : ∀ b, (chains b).Nodup
  mem_chain : ∀ b id, id ∈ chains b ↔
    ∃ e, s.get? id = some e ∧ (hash e.key).toNat % 2 ^ s.buckets.bits.toNat = b
  /-- The list starts at its first node; the neighbours of a node stand one further and one back,
  counted around. -/
  first : s.order.first? = ids.head?
  around : ∀ i id, ids[i]? = some id → ∃ node, Arena.get? s.nodes id = some node ∧
    ids[(i + 1) % ids.length]? = some node.place.next ∧
    ids[(i + (ids.length - 1)) % ids.length]? = some node.place.prev
  /-- The neighbours of a node are live and name it back. -/
  prev_next : ∀ id node, Arena.get? s.nodes id = some node →
    ∃ after, Arena.get? s.nodes node.place.next = some after ∧ after.place.prev = id
  next_prev : ∀ id node, Arena.get? s.nodes id = some node →
    ∃ before, Arena.get? s.nodes node.place.prev = some before ∧ before.place.next = id
  /-- A head names the first node of its chain, and a node names a live one or none. -/
  head : ∀ b, s.buckets.heads.first[b]?.join = (chains b).head?
  next_live : ∀ id node next, Arena.get? s.nodes id = some node → node.chain.next = some next →
    s.contains next = true
  /-- Every node is on a chain and knows the place that names it. -/
  chained : ∀ id node, Arena.get? s.nodes id = some node → node.chain.isChained = true
  holder_head : ∀ id node b, Arena.get? s.nodes id = some node →
    (node.chain.holder = some (.head b) ↔ (chains b).head? = some id)
  holder_after : ∀ id node other, Arena.get? s.nodes id = some node →
    (node.chain.holder = some (.after other) ↔
      ∃ before, Arena.get? s.nodes other = some before ∧ before.chain.next = some id)
  size : s.size = ids.length
  sum_length : ((List.range s.bucketCount).map fun b => (chains b).length).sum = s.size
  keySize : ∀ id e, s.get? id = some e → e.keySize.toNat = e.key.length ∧
    e.key.length ≤ maxKeyLength

namespace Holds

variable {hash : Key → UInt64} {s : Store V A} {r : Roster V} {id : NodeId} {node : Node V}

theorem mem_ids_iff (h : s.Holds hash r) : id ∈ r.ids ↔ s.contains id = true := by
  rw [h.contains_eq, Roster.isSome_get?]

theorem mem_ids_chain_iff (h : s.Holds hash r) {b : Nat} :
    id ∈ (r.chain hash s.buckets.bits.toNat b).ids ↔
      ∃ e, s.get? id = some e ∧ bucketOf hash s.buckets.bits.toNat e.key = b := by
  constructor
  · intro hid
    obtain ⟨m, hm, rfl⟩ := List.mem_map.1 hid
    obtain ⟨hmem, hb⟩ := Roster.mem_chain.1 hm
    exact ⟨m.entry, h.entry_of_mem hmem, hb⟩
  · rintro ⟨e, he, hb⟩
    obtain ⟨m, hm, rfl, rfl⟩ := Roster.exists_mem_of_get? ((h.entry id).symm.trans he)
    exact Roster.mem_ids (Roster.mem_chain.2 ⟨hm, hb⟩)

theorem chainLink_eq (hnode : Arena.get? s.nodes id = some node) :
    LinkStore.link? s.nodes id = some node.chain := congrArg (Option.map Node.chain) hnode

theorem placeLink_eq (hnode : Arena.get? s.nodes id = some node) :
    LinkStore.link? s.nodes id = some node.place := congrArg (Option.map Node.place) hnode

/-- The link of the node at a position of the list. -/
theorem exists_around (h : s.Holds hash r) {i : Nat} (hid : r.ids[i]? = some id) :
    ∃ node, Arena.get? s.nodes id = some node ∧
      r.ids[(i + 1) % r.ids.length]? = some node.place.next ∧
      r.ids[(i + (r.ids.length - 1)) % r.ids.length]? = some node.place.prev := by
  obtain ⟨link, hlink, hnext, hprev⟩ := h.order.closed.link_getElem? hid
  obtain ⟨node, hnode, rfl⟩ := Option.map_eq_some_iff.1 hlink
  exact ⟨node, hnode, hnext, hprev⟩

theorem exists_index (h : s.Holds hash r) (hnode : Arena.get? s.nodes id = some node) :
    ∃ i < r.ids.length, r.ids[i]? = some id := by
  have hlive : s.contains id = true := Arena.contains_iff.2 ⟨node, hnode⟩
  obtain ⟨i, hlt, hi⟩ := List.getElem_of_mem (h.mem_ids_iff.2 hlive)
  exact ⟨i, hlt, List.getElem?_eq_some_iff.2 ⟨hlt, hi⟩⟩

theorem exists_prev_next (h : s.Holds hash r) (hnode : Arena.get? s.nodes id = some node) :
    ∃ after, Arena.get? s.nodes node.place.next = some after ∧ after.place.prev = id := by
  obtain ⟨i, hlt, hi⟩ := h.exists_index hnode
  obtain ⟨node', hnode', hnext, -⟩ := h.exists_around hi
  obtain rfl := Option.some.inj (hnode.symm.trans hnode')
  obtain ⟨after, hafter, -, hprev⟩ := h.exists_around hnext
  refine ⟨after, hafter, Option.some.inj (hprev.symm.trans (.trans ?_ hi))⟩
  rw [Nat.mod_add_mod, Nat.add_assoc, Nat.add_comm 1, Nat.sub_add_cancel (by omega),
    Nat.add_mod_right, Nat.mod_eq_of_lt hlt]

theorem exists_next_prev (h : s.Holds hash r) (hnode : Arena.get? s.nodes id = some node) :
    ∃ before, Arena.get? s.nodes node.place.prev = some before ∧ before.place.next = id := by
  obtain ⟨i, hlt, hi⟩ := h.exists_index hnode
  obtain ⟨node', hnode', -, hprev⟩ := h.exists_around hi
  obtain rfl := Option.some.inj (hnode.symm.trans hnode')
  obtain ⟨before, hbefore, hnext, -⟩ := h.exists_around hprev
  refine ⟨before, hbefore, Option.some.inj (hnext.symm.trans (.trans ?_ hi))⟩
  rw [Nat.mod_add_mod, Nat.add_assoc, Nat.sub_add_cancel (by omega), Nat.add_mod_right,
    Nat.mod_eq_of_lt hlt]

variable [LawfulArena A (Node V)]

theorem wellLinked (h : s.Holds hash r) :
    s.WellLinked hash r.ids fun b => (r.chain hash s.buckets.bits.toNat b).ids where
  count := h.count
  ids_eq := h.ids_eq
  chain_eq _ hb := h.chain_eq hb
  nodup := h.nodup
  mem_ids _ := h.mem_ids_iff
  nodup_chain _ := Roster.nodup_ids_chain h.nodup
  mem_chain _ _ := h.mem_ids_chain_iff
  first := h.order.first
  around _ _ hi := h.exists_around hi
  prev_next _ _ hnode := h.exists_prev_next hnode
  next_prev _ _ hnode := h.exists_next_prev hnode
  head := h.chains.first
  next_live id node next hnode hnext := by
    obtain ⟨after, hafter⟩ := h.chains.exists_next (chainLink_eq hnode) hnext
    obtain ⟨node', hnode', -⟩ := Option.map_eq_some_iff.1 hafter
    exact Arena.contains_iff.2 ⟨node', hnode'⟩
  chained id node hnode := by
    have hlive : s.contains id = true := Arena.contains_iff.2 ⟨node, hnode⟩
    obtain ⟨e, he⟩ := Option.isSome_iff_exists.1 (h.contains_eq id ▸ hlive)
    have hid := h.mem_ids_chain_iff.2 ⟨e, (h.entry id).trans he, rfl⟩
    obtain ⟨link, hlink, hchained⟩ := (h.chains.threaded _).exists_link hid
    obtain rfl := Option.some.inj ((chainLink_eq hnode).symm.trans hlink)
    exact hchained
  holder_head id node b hnode := h.chains.holder_eq_head_iff (chainLink_eq hnode)
  holder_after id node other hnode := by
    rw [h.chains.holder_eq_after_iff (chainLink_eq hnode)]
    constructor
    · rintro ⟨before, hbefore, hnext⟩
      obtain ⟨node', hnode', rfl⟩ := Option.map_eq_some_iff.1 hbefore
      exact ⟨node', hnode', hnext⟩
    · rintro ⟨before, hbefore, hnext⟩
      exact ⟨before.chain, chainLink_eq hbefore, hnext⟩
  size := by rw [h.size, Roster.length_ids]
  sum_length := by
    simp only [h.count, Roster.length_ids]
    rw [Roster.sum_length_chain, h.size]
  keySize _ e _ := ⟨e.keySize_eq, e.key_length_le⟩

end Holds

end Store

end OrderedTable
