import OrderedTable.Proofs.Arena.Issued
import OrderedTable.Proofs.Links.Chains
import OrderedTable.Proofs.Roster.Basic

/-!
# Which roster a store holds

`Store.Holds hash s r` ties the three parts of a store to one roster: the list is the roster's ids,
the chain of each bucket is what `Roster.chain` picks out, and the arena has the roster's entries.
`Store.attach` then appends to the roster and `Store.detach?` takes an entry out of it, wherever it
stands; `Store.find?` finds what a scan of the roster finds.

Beside it, `Store.Precedes` says what no operation undoes: the number of buckets stays, and an id
that has been issued stays so.
-/

namespace OrderedTable

/-! ## Nodes under rewiring -/

variable {V A : Type} [Arena A (Node V)] {nodes nodes' : A} {id : NodeId}

theorem setLink_chain (link : ChainLink NodeId) : LinkStore.setLink nodes id link =
    Arena.modify nodes id fun node => { node with chain := link } := rfl

theorem setLink_place (link : CircularLink NodeId) : LinkStore.setLink nodes id link =
    Arena.modify nodes id fun node => { node with place := link } := rfl

namespace Rewired

/-- What rewiring leaves of an arena: the entries and their number. -/
structure Keeps (nodes nodes' : A) : Prop where
  entry : ∀ id, (Arena.get? nodes' id).map Node.entry = (Arena.get? nodes id).map Node.entry
  size : Arena.size nodes' = Arena.size nodes
  becomes : Arena.Becomes nodes nodes'

theorem Keeps.refl (nodes : A) : Keeps nodes nodes := ⟨fun _ => rfl, rfl, .refl⟩

theorem Keeps.trans {nodes'' : A} (h : Keeps nodes nodes') (h' : Keeps nodes' nodes'') :
    Keeps nodes nodes'' :=
  ⟨fun id => (h'.entry id).trans (h.entry id), h'.size.trans h.size, h.becomes.trans h'.becomes⟩

variable [LawfulArena A (Node V)]

theorem place_eq (h : Rewired (ChainLink NodeId) nodes nodes') (id : NodeId) :
    (LinkStore.link? nodes' id : Option (CircularLink NodeId)) = LinkStore.link? nodes id := by
  refine h.eq_of_setLink (fun a => (LinkStore.link? a id : Option (CircularLink NodeId))) ?_
  intro a i link
  rw [setLink_chain]
  exact Arena.map_get?_modify Node.place fun _ => rfl

theorem chain_eq (h : Rewired (CircularLink NodeId) nodes nodes') (id : NodeId) :
    (LinkStore.link? nodes' id : Option (ChainLink NodeId)) = LinkStore.link? nodes id := by
  refine h.eq_of_setLink (fun a => (LinkStore.link? a id : Option (ChainLink NodeId))) ?_
  intro a i link
  rw [setLink_place]
  exact Arena.map_get?_modify Node.chain fun _ => rfl

theorem keeps_modify (nodes : A) (id : NodeId) (f : Node V → Node V)
    (hf : ∀ node, (f node).entry = node.entry) : Keeps nodes (Arena.modify nodes id f) where
  entry _ := Arena.map_get?_modify Node.entry hf
  size := LawfulArena.size_modify nodes id f
  becomes := .modify .refl id f

theorem keeps_of_chain (h : Rewired (ChainLink NodeId) nodes nodes') : Keeps nodes nodes' := by
  refine h.of_setLink (P := Keeps nodes) (fun a i link ha => ha.trans ?_) (.refl nodes)
  rw [setLink_chain]
  exact keeps_modify a i _ fun _ => rfl

theorem keeps_of_circular (h : Rewired (CircularLink NodeId) nodes nodes') : Keeps nodes nodes' := by
  refine h.of_setLink (P := Keeps nodes) (fun a i link ha => ha.trans ?_) (.refl nodes)
  rw [setLink_place]
  exact keeps_modify a i _ fun _ => rfl

end Rewired

/-! ## On a chain and on the list

A node is on both at once. Its two links are changed one after the other, and changing the one kind
does not disturb the other.
-/

section

variable [LawfulArena A (Node V)] {heads : Heads NodeId} {order : CircularList NodeId}
  {chains : Nat → List NodeId} {ids : List NodeId} {b : Nat}

theorem exists_link (hchains : heads.Holds nodes chains) (horder : order.Holds nodes ids)
    {node : Node V} (hnode : Arena.get? nodes id = some node) (hid : id ∉ ids)
    (hsub : ∀ c, chains c ⊆ ids) (hb : b < heads.count) :
    ∃ heads' nodes₁ order' nodes₂, heads.push nodes b id = .ok (heads', nodes₁) ∧
      order.pushBack nodes₁ id = .ok (order', nodes₂) ∧ heads'.count = heads.count ∧
      (heads'.Holds nodes₂ fun c => if c = b then id :: chains c else chains c) ∧
      order'.Holds nodes₂ (ids ++ [id]) ∧ Rewired.Keeps nodes nodes₂ := by
  have hchain : LinkStore.link? nodes id = some node.chain := congrArg (Option.map Node.chain) hnode
  have hplace : LinkStore.link? nodes id = some node.place := congrArg (Option.map Node.place) hnode
  obtain ⟨heads', nodes₁, hpush, hcount, hrew₁, hheads⟩ :=
    hchains.push hchain (fun c hmem => hid (hsub c hmem)) hb
  obtain ⟨order', nodes₂, hback, horder', hrew₂, -⟩ :=
    (horder.congr fun id _ => hrew₁.place_eq id).pushBack ((hrew₁.place_eq id).trans hplace) hid
  exact ⟨heads', nodes₁, order', nodes₂, hpush, hback, hcount,
    hheads.congr fun id => hrew₂.chain_eq id, horder',
    hrew₁.keeps_of_chain.trans hrew₂.keeps_of_circular⟩

theorem exists_unlink (hchains : heads.Holds nodes chains) (horder : order.Holds nodes ids)
    (hchain : id ∈ chains b) (hid : id ∈ ids) :
    ∃ heads' nodes₁ order' nodes₂, heads.erase nodes id = .ok (heads', nodes₁) ∧
      order.erase nodes₁ id = .ok (order', nodes₂) ∧ heads'.count = heads.count ∧
      (heads'.Holds nodes₂ fun c => (chains c).erase id) ∧ order'.Holds nodes₂ (ids.erase id) ∧
      Rewired.Keeps nodes nodes₂ := by
  obtain ⟨heads', nodes₁, herase, hcount, hrew₁, hheads⟩ := hchains.erase hchain
  obtain ⟨order', nodes₂, hunlink, horder', -, hrew₂, -⟩ :=
    (horder.congr fun id _ => hrew₁.place_eq id).erase hid
  exact ⟨heads', nodes₁, order', nodes₂, herase, hunlink, hcount,
    hheads.congr fun id => hrew₂.chain_eq id, horder',
    hrew₁.keeps_of_chain.trans hrew₂.keeps_of_circular⟩

end

/-! ## The relation -/

namespace Store

/-- The number of buckets stays, and the arena goes on. -/
structure Precedes (s s' : Store V A) : Prop where
  bits : s'.buckets.bits = s.buckets.bits
  becomes : Arena.Becomes s.nodes s'.nodes

theorem Precedes.refl (s : Store V A) : s.Precedes s := ⟨rfl, .refl⟩

theorem Precedes.trans {s s' s'' : Store V A} (h : s.Precedes s') (h' : s'.Precedes s'') :
    s.Precedes s'' := ⟨h'.bits.trans h.bits, h.becomes.trans h'.becomes⟩

/-- The store has the entries of the roster, in its order and in the buckets of their keys. -/
structure Holds (hash : Key → UInt64) (s : Store V A) (r : Roster V) : Prop where
  count : s.bucketCount = 2 ^ s.buckets.bits.toNat
  order : s.order.Holds s.nodes r.ids
  chains : s.buckets.heads.Holds s.nodes fun b => (r.chain hash s.buckets.bits.toNat b).ids
  entry : ∀ id, s.get? id = r.get? id
  size : s.size = r.length

namespace Holds

variable {hash : Key → UInt64} {s : Store V A} {r : Roster V} {m : Member V} {b : Nat}

theorem nodup (h : s.Holds hash r) : r.ids.Nodup := h.order.nodup

theorem entry_of_mem (h : s.Holds hash r) (hm : m ∈ r) : s.get? m.id = some m.entry := by
  rw [h.entry, Roster.get?_of_mem h.nodup hm]

theorem entryAt_of_mem (h : s.Holds hash r) (hm : m ∈ r) : s.entryAt m.id = .ok m.entry := by
  rw [entryAt, h.entry_of_mem hm]

theorem contains_eq (h : s.Holds hash r) (id : NodeId) :
    s.contains id = (r.get? id).isSome := by
  rw [contains, Arena.contains, ← h.entry, Store.get?, Option.isSome_map]

/-! ## Reading -/

theorem isEmpty_eq (h : s.Holds hash r) : s.isEmpty = r.isEmpty := by
  rw [isEmpty, h.size]
  cases r <;> simp

theorem firstId?_eq (h : s.Holds hash r) : s.firstId? = r.head?.map Member.id := by
  rw [firstId?, h.order.first, Roster.ids, List.head?_map]

theorem lastId?_eq (h : s.Holds hash r) : s.lastId? = .ok (r.getLast?.map Member.id) := by
  rw [lastId?, h.order.last?_eq, Roster.ids, List.getLast?_map]

theorem iterate_eq (h : s.Holds hash r) (sides : List Side) :
    s.iterate sides = .ok (readEnds r.entries sides) := by
  rw [iterate, h.order.iterate_eq, ok_bind, Roster.ids, Roster.entries, readEnds_map, readEnds_map,
    List.mapM_map]
  refine mapM_eq_ok fun m hm => ?_
  cases m with
  | none => rfl
  | some m =>
    have hentry := h.entryAt_of_mem (mem_of_mem_readEnds hm)
    change s.entryAt m.id >>= (fun e => pure (some e)) = _
    rw [hentry]
    rfl

theorem firstMatch?_eq (h : s.Holds hash r) (probe : Key) {ms : Roster V} (hms : ∀ m ∈ ms, m ∈ r) :
    s.firstMatch? probe ms.ids =
      .ok ((List.find? (fun m => m.entry.answersTo probe) ms).map Member.id) := by
  induction ms with
  | nil => rfl
  | cons m rest ih =>
    have hrest := ih fun m' hm' => hms m' (List.mem_cons_of_mem _ hm')
    simp only [Roster.ids, List.map_cons, firstMatch?, h.entryAt_of_mem (hms m List.mem_cons_self),
      ok_bind]
    rw [List.find?_cons]
    by_cases hprobe : m.entry.answersTo probe = true
    · rw [if_pos hprobe, hprobe]
      rfl
    · rw [if_neg hprobe, Bool.eq_false_iff.2 hprobe]
      exact hrest

/-- An id that resolves to nothing changes nothing. -/
theorem detach?_eq_none (h : s.Holds hash r) {id : NodeId} (hid : r.get? id = none) :
    s.detach? id = .ok none := by
  have hgone : ¬ s.contains id = true := by
    rw [h.contains_eq, hid]
    exact Bool.false_ne_true
  rw [detach?, if_neg hgone]
  rfl

variable [LawfulArena A (Node V)]

theorem ids_eq (h : s.Holds hash r) : s.ids = .ok r.ids := h.order.walk_eq

theorem entries_eq (h : s.Holds hash r) : s.entries = .ok r.entries := by
  rw [entries, h.ids_eq, ok_bind, Roster.ids, List.mapM_map]
  exact mapM_eq_ok fun m hm => h.entryAt_of_mem hm

theorem chain_eq (h : s.Holds hash r) (hb : b < s.bucketCount) :
    s.buckets.chain s.nodes b = .ok (r.chain hash s.buckets.bits.toNat b).ids :=
  h.chains.chain_eq hb

theorem candidates_eq (h : s.Holds hash r) (word : UInt64) :
    s.buckets.candidates s.nodes word = .ok
      (r.chain hash s.buckets.bits.toNat (word.toNat % 2 ^ s.buckets.bits.toNat)).ids := by
  rw [Buckets.candidates, Buckets.bucketOf_eq h.count, ok_bind]
  refine h.chain_eq ?_
  rw [h.count]
  exact Nat.mod_lt _ (Nat.two_pow_pos _)

theorem find?_eq (h : s.Holds hash r) (probe : Key) : s.find? (hash probe) probe =
    .ok ((r.find? hash s.buckets.bits.toNat probe).map Member.id) := by
  have hchain : s.buckets.candidates s.nodes (hash probe) = .ok
      (r.chain hash s.buckets.bits.toNat (bucketOf hash s.buckets.bits.toNat probe)).ids :=
    h.candidates_eq (hash probe)
  rw [find?, hchain, ok_bind, h.firstMatch?_eq probe fun m hm => (Roster.mem_chain.1 hm).1,
    Roster.find?_eq_find?_chain]

/-! ## Coming and going -/

/-- An entry is appended, under an id that has not been issued before. -/
theorem exists_attach (h : s.Holds hash r) (entry : Entry V) :
    ∃ id s', s.attach (hash entry.key) entry = .ok (id, s') ∧ s'.Holds hash (r ++ [⟨id, entry⟩]) ∧
      s.Precedes s' ∧ ¬ Arena.Issued s.nodes id ∧ Arena.Issued s'.nodes id := by
  obtain ⟨new, nodes₁, hinsert, hnew⟩ := Arena.exists_insertWith s.nodes
    fun id => { place := CircularLink.detached id, entry : Node V }
  have hid : new ∉ r.ids := by
    rw [← Roster.get?_eq_none_iff, ← h.entry, Store.get?, hnew.get?_old]
    rfl
  -- In the arena the new node is on no chain and not on the list yet.
  have hchains := h.chains.congr_of_ne (fun b hmem => hid (Roster.ids_chain_subset hmem))
    (fun link hlink =>
      Option.some.inj (hlink.symm.trans (congrArg (Option.map Node.chain) hnew.get?_self)))
    (fun id hne => congrArg (Option.map Node.chain) (hnew.get?_ne id hne))
  have horder := h.order.congr fun id hmem =>
    congrArg (Option.map Node.place) (hnew.get?_ne id (ne_of_mem_of_not_mem hmem hid))
  have hlt : bucketOf hash s.buckets.bits.toNat entry.key < s.buckets.heads.count :=
    Nat.lt_of_lt_of_eq (bucketOf_lt entry.key) h.count.symm
  obtain ⟨heads, nodes₂, order, nodes₃, hpush, hback, hcount, hheads, horder', hkeeps⟩ :=
    exists_link hchains horder hnew.get?_self hid (fun _ _ => Roster.ids_chain_subset) hlt
  refine ⟨new, ⟨⟨heads, s.buckets.bits⟩, nodes₃, order⟩, ?_, ⟨?_, ?_, ?_, ?_, ?_⟩,
    ⟨rfl, hnew.becomes.trans hkeeps.becomes⟩, hnew.not_issued, hnew.issued.becomes hkeeps.becomes⟩
  · rw [bucketOf] at hpush
    rw [attach, hinsert]
    simp only [Buckets.insert, Buckets.bucketOf_eq h.count, hpush, hback, ok_bind, pure_eq_ok]
  · exact hcount.trans h.count
  · rw [Roster.ids_append]
    exact horder'
  · simp only [Roster.chain_concat, apply_ite Roster.ids]
    exact hheads
  · intro id
    rw [Roster.get?_concat hid, Store.get?, hkeeps.entry]
    by_cases heq : id = new
    · rw [if_pos heq, heq, hnew.get?_self]
      rfl
    · rw [if_neg heq, ← h.entry, hnew.get?_ne id heq]
      rfl
  · rw [List.length_append, ← h.size]
    exact hkeeps.size.trans hnew.size

/-- A member leaves, wherever it stands. The steps are told one by one: they are taken on the way
out of the store as well as while it is cleared. -/
theorem exists_depart (h : s.Holds hash r) (hm : m ∈ r) :
    ∃ (d : Departure V A) (nodes₁ nodes₂ : A) (node : Node V), d.member = m ∧
      s.buckets.erase s.nodes d.id = .ok (d.rest.buckets, nodes₁) ∧
      s.order.erase nodes₁ d.id = .ok (d.rest.order, nodes₂) ∧
      Arena.remove? nodes₂ d.id = some (node, d.rest.nodes) ∧ node.entry = d.entry ∧
      d.rest.Holds hash (r.without m.id) ∧ s.Precedes d.rest := by
  obtain ⟨heads, nodes₁, order, nodes₂, herase, hunlink, hcount, hheads, horder, hkeeps⟩ :=
    exists_unlink h.chains h.order (Roster.mem_ids (Roster.mem_chain.2 ⟨hm, rfl⟩))
      (Roster.mem_ids hm)
  obtain ⟨node, hnode, hentry⟩ :
      ∃ node, Arena.get? nodes₂ m.id = some node ∧ node.entry = m.entry := by
    rw [← Option.map_eq_some_iff, hkeeps.entry]
    exact h.entry_of_mem hm
  obtain ⟨nodes₃, hremove, hgone⟩ := Arena.exists_remove? hnode
  refine ⟨⟨m.id, m.entry, ⟨⟨heads, s.buckets.bits⟩, nodes₃, order⟩⟩, nodes₁, nodes₂, node, rfl, ?_,
    hunlink, hremove, hentry, ⟨?_, ?_, ?_, ?_, ?_⟩, ⟨rfl, hkeeps.becomes.trans hgone.becomes⟩⟩
  · rw [Buckets.erase, herase]
    rfl
  · exact hcount.trans h.count
  · rw [Roster.ids_without h.nodup]
    refine horder.congr fun id hid => congrArg (Option.map Node.place) (hgone.get?_ne id ?_)
    exact (List.Nodup.mem_erase_iff h.nodup).1 hid |>.1
  · have hids : ∀ b, ((r.without m.id).chain hash s.buckets.bits.toNat b).ids =
        (r.chain hash s.buckets.bits.toNat b).ids.erase m.id := by
      intro b
      rw [Roster.chain_without, Roster.ids_without (Roster.nodup_ids_chain h.nodup)]
    simp only [hids]
    refine hheads.congr_of_ne (fun b => List.Nodup.not_mem_erase (h.chains.nodup b))
      (fun link hlink => ?_) (fun id hne => congrArg (Option.map Node.chain) (hgone.get?_ne id hne))
    exact nomatch hlink.symm.trans (congrArg (Option.map Node.chain) hgone.get?_self)
  · intro id
    by_cases hid : id = m.id
    · rw [hid, Roster.get?_without_self, Store.get?, hgone.get?_self]
      rfl
    · rw [Roster.get?_without_ne hid, ← h.entry, Store.get?, hgone.get?_ne id hid, hkeeps.entry]
      rfl
  · have hlength := Roster.length_without h.nodup hm
    exact Nat.succ.inj ((hgone.size.trans (hkeeps.size.trans h.size)).trans hlength.symm)

theorem exists_detach (h : s.Holds hash r) (hm : m ∈ r) :
    ∃ d, s.detach? m.id = .ok (some d) ∧ d.member = m ∧ d.rest.Holds hash (r.without m.id) ∧
      s.Precedes d.rest := by
  have hlive : s.contains m.id = true := by
    rw [h.contains_eq, Roster.get?_of_mem h.nodup hm]
    rfl
  obtain ⟨d, nodes₁, nodes₂, node, rfl, herase, hunlink, hremove, hentry, hrest, hprec⟩ :=
    h.exists_depart hm
  refine ⟨d, ?_, rfl, hrest, hprec⟩
  rw [detach?, if_pos hlive]
  simp only [Departure.member, herase, hunlink, hremove, hentry, ok_bind, pure_eq_ok]

end Holds

end Store

end OrderedTable
