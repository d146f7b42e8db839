import OrderedTable.Proofs.Table.LinkedAlike
import OrderedTable.Proofs.Table.Release
import OrderedTable.Proofs.Table.Stability

/-!
# Undoing an insertion

The entry that has just been inserted is the one that its key finds, the last one of the list and the
only one behind its id. So it can be removed in three ways, and each of them leads back to the store
that was there before: `Table.InsertUndone`, which holds after every history
(`Table.run_insertUndone`). The store is the same down to the links of every node
(`Store.Agrees`), because the links follow from the order.
-/

namespace OrderedTable

variable {σ V A : Type} [Arena A (Node V)]

theorem Roster.member?_of_mem {r : Roster V} {m : Member V} (hnd : r.ids.Nodup) (hm : m ∈ r) :
    r.member? m.id = some m := by
  have hsome : (r.member? m.id).isSome = true :=
    Option.isSome_map.symm.trans (isSome_get?.2 (mem_ids hm))
  obtain ⟨m', hm'⟩ := Option.isSome_iff_exists.1 hsome
  obtain ⟨hmem, hid⟩ := mem_of_member? hm'
  rw [hm', eq_of_id_eq hnd hmem hm hid]

/-! ## The same store -/

namespace Store

/-- The two stores have the same live nodes with the same entries and the same links, the same heads
of the chains and the same first node of the list. -/
structure Agrees (s s' : Store V A) : Prop where
  buckets : s'.buckets = s.buckets
  order : s'.order = s.order
  node : ∀ id, Arena.get? s'.nodes id = Arena.get? s.nodes id
  size : s'.size = s.size

theorem Holds.agrees [LawfulArena A (Node V)] {hash : Key → UInt64} {s s' : Store V A}
    {r : Roster V} (h : s.Holds hash r) (h' : s'.Holds hash r)
    (hbits : s'.buckets.bits = s.buckets.bits) : s.Agrees s' := by
  have hlinked := h.linkedAlike_id h' hbits
  have hfirst : s'.buckets.heads.first = s.buckets.heads.first := by
    simpa using hlinked.heads
  have horder : s'.order.first? = s.order.first? := by
    simpa using hlinked.first
  have hentry : ∀ id, s'.get? id = s.get? id := fun id => (h'.entry id).trans (h.entry id).symm
  refine ⟨Buckets.ext (Heads.ext hfirst) hbits, CircularList.ext horder, fun id => ?_,
    h'.size.trans h.size.symm⟩
  have hsame := hentry id
  cases hnode : Arena.get? s.nodes id with
  | none =>
    rw [get?, get?, hnode] at hsame
    exact Option.map_eq_none_iff.1 hsame
  | some node =>
    obtain ⟨node', hnode', hplace, hchain⟩ := hlinked.node id node hnode
    replace hnode' : Arena.get? s'.nodes id = some node' := hnode'
    rw [get?, get?, hnode, hnode'] at hsame
    rw [CircularLink.map_id] at hplace
    rw [ChainLink.map_id] at hchain
    rw [hnode', Node.ext hchain hplace (Option.some.inj hsame)]

end Store

/-! ## Lookups -/

/-- The call asks for something and leaves the table as it is. -/
def Call.isLookup : Call V → Bool
  | .insert .. | .insertDefault .. | .replace .. => false
  | .erase _ | .eraseId _ | .eraseFirst | .eraseLast => false
  | .retain _ | .clear => false
  | _ => true

variable [Inhabited V]

/-- A lookup takes no notice of the state of gate and strategy. -/
theorem Ledger.answer_of_isLookup {l : Ledger σ V} {c : Call V} (hc : c.isLookup = true)
    (fresh fresh' : NodeId) (env : σ) :
    ({ l with env }.call fresh' c).answer = (l.call fresh c).answer := by
  cases c with
  | insert | insertDefault | replace | erase | eraseId | eraseFirst | eraseLast | retain | clear =>
    exact nomatch hc
  | _ => rfl

namespace Table

variable {t t' : Table σ V A} {r : Roster V} {c : Call V}

theorem eq_of_call_of_isLookup {o : Outcome σ V (Answer V) A} (hc : c.isLookup = true)
    (hcall : t.call c = .ok o) : o = { answer := o.answer, table := t } := by
  cases c with
  | insert | insertDefault | replace | erase | eraseId | eraseFirst | eraseLast | retain | clear =>
    exact nomatch hc
  | get | contains | firstId | first | size | isEmpty =>
    cases hcall
    rfl
  | _ =>
    obtain ⟨_, -, hsay⟩ := bind_eq_ok_iff.1 hcall
    cases hsay
    rfl

variable [LawfulArena A (Node V)]

theorem Holds.exists_lookup (h : t.Holds r) (h' : t'.Holds r) (hpolicy : t'.policy = t.policy)
    (hbits : t'.bits = t.bits) (hc : c.isLookup = true) :
    ∃ answer, t.call c = .ok { answer, table := t } ∧ t'.call c = .ok { answer, table := t' } := by
  have hstores : c.stores? = none := by cases c <;> first | rfl | exact nomatch hc
  have hstrays : ∀ t : Table σ V A, ¬ t.Strays c := fun t ⟨data, key, hsome, _⟩ =>
    nomatch hstores.symm.trans hsome
  obtain ⟨fresh, o, hcall, href, -⟩ := h.exists_call c (hstrays t)
  obtain ⟨fresh', o', hcall', href', -⟩ := h'.exists_call c (hstrays t')
  have hledger : t'.ledger r = { t.ledger r with env := t'.env } := by
    rw [ledger, hpolicy, hbits]
    rfl
  have hanswer : o'.answer = o.answer := by
    rw [href.answer, href'.answer, hledger]
    exact Ledger.answer_of_isLookup hc ..
  rw [eq_of_call_of_isLookup hc hcall] at hcall
  rw [eq_of_call_of_isLookup hc hcall', hanswer] at hcall'
  exact ⟨o.answer, hcall, hcall'⟩

/-! ## Undoing -/

/-- The table `t'` has the store that `t` has had, link by link, and nothing that can be looked up
tells the two apart. -/
structure Restores (t t' : Table σ V A) : Prop where
  policy : t'.policy = t.policy
  store : t.store.Agrees t'.store
  ids : ∃ ids, t.store.ids = .ok ids ∧ t'.store.ids = .ok ids
  entries : ∃ es, t.store.entries = .ok es ∧ t'.store.entries = .ok es
  chains : ∀ b < t.bucketCount, ∃ chain, t.store.buckets.chain t.store.nodes b = .ok chain ∧
    t'.store.buckets.chain t'.store.nodes b = .ok chain
  lookups : ∀ c : Call V, c.isLookup = true →
    ∃ answer, t.call c = .ok { answer, table := t } ∧ t'.call c = .ok { answer, table := t' }

/-- The removal from `t'` releases `m` and nothing else, and leads back to `t`. -/
structure Undoes (t t' : Table σ V A) (m : Member V) (o : Outcome σ V Removal A) : Prop where
  answer : o.answer = .removed
  released : o.released.map Departure.member = [m]
  out : ∀ d ∈ o.released, d.IsOut
  restores : t.Restores o.table
  /-- Neither gate nor strategy is asked. -/
  env : o.table.env = t'.env

/-- The insertion under `key` has turned `t` into `t'` and made the entry `m`. It is found at once,
and is removed without a trace. -/
structure InsertUndone (t t' : Table σ V A) (key : Key) (m : Member V) : Prop where
  key_eq : m.entry.key = key
  fresh : t.store.contains m.id = false
  entry : t'.store.get? m.id = some m.entry
  find : t'.find? key = .ok (some m.id)
  last : t'.store.lastId? = .ok (some m.id)
  erase : ∃ o, t'.erase key = .ok o ∧ t.Undoes t' m o
  eraseId : ∃ o, t'.eraseId m.id = .ok o ∧ t.Undoes t' m o
  eraseLast : ∃ o, t'.eraseLast = .ok o ∧ t.Undoes t' m o

theorem Holds.restores (h : t.Holds r) (h' : t'.Holds r) (hpolicy : t'.policy = t.policy)
    (hbits : t'.bits = t.bits) : t.Restores t' := by
  have hs' : t'.store.Holds t.policy.hash r := hpolicy ▸ h'
  have hagrees := Store.Holds.agrees h hs' hbits
  refine ⟨hpolicy, hagrees, ⟨_, h.ids_eq, h'.ids_eq⟩, ⟨_, h.entries_eq, h'.entries_eq⟩,
    fun b hb => ⟨_, h.chain_eq hb, ?_⟩, fun c hc => h.exists_lookup h' hpolicy hbits hc⟩
  have hb' : b < t'.store.bucketCount := by
    rw [Store.bucketCount, hagrees.buckets]
    exact hb
  rw [hs'.chain_eq hb', hagrees.buckets]

variable {m : Member V}

/-- However the newest entry is taken out, the rest is the roster that has been there before. -/
theorem Holds.undoes {o : Outcome σ V Removal A} (h : t.Holds r) (h' : t'.Holds (r ++ [m]))
    (hpolicy : t'.policy = t.policy) (hbits : t'.bits = t.bits)
    (href : t'.Refines o ((t'.ledger (r ++ [m])).eraseMember (some m))) : t.Undoes t' m o := by
  have hrest : Roster.without (r ++ [m]) m.id = r :=
    (Roster.without_append_cons h'.nodup).trans (List.append_nil r)
  have hholds : o.table.Holds (Roster.without (r ++ [m]) m.id) := href.holds
  rw [hrest] at hholds
  exact {
    answer := href.answer
    released := href.released.members
    out := fun d hd => (href.released.left d hd).isOut
    restores := h.restores hholds (href.policy.trans hpolicy) (href.precedes.bits.trans hbits)
    env := href.env_eq.symm }

/-- An insertion that succeeds has made an entry and put it behind the others. -/
theorem Holds.exists_entry_of_insert {data : V} {key : Key} {id : NodeId}
    {o : Outcome σ V (Except (Rejected V) NodeId) A} (h : t.Holds r) (hkey : t.policy.StoresKey)
    (hinsert : t.insert data key = .ok o) (hid : o.answer = .ok id) :
    ∃ e, t.policy.make? t.env (.insert data key) = some e ∧ e.key = key ∧
      o.table.Holds (r ++ [⟨id, e⟩]) ∧ o.table.policy = t.policy ∧ o.table.bits = t.bits := by
  obtain ⟨fresh, o', hinsert', href, -⟩ := h.exists_insert data key hkey.not_strays
  obtain rfl := Except.ok.inj (hinsert.symm.trans hinsert')
  have hanswer := href.answer
  have hholds := href.holds
  rcases hattempt : t.policy.attempt data key t.env with ⟨rejected | e, env⟩
  · simp only [Ledger.insert_eq, ledger, hattempt, hid] at hanswer
    cases hanswer
  · simp only [Ledger.insert_eq, ledger, hattempt, hid] at hanswer hholds
    obtain rfl := Except.ok.inj hanswer
    obtain ⟨env₁, hpopulate⟩ := Policy.exists_populate_of_attempt hattempt
    refine ⟨e, ?_, hkey data key env₁ e env hpopulate, hholds, href.policy, href.precedes.bits⟩
    simp only [Policy.make?, Call.stores?, Option.bind_some, hattempt, Except.toOption]

/-- The newest entry is found by its key, by its id and at the end of the list. -/
theorem Holds.insertUndone (h : t.Holds r) (h' : t'.Holds (r ++ [m]))
    (hpolicy : t'.policy = t.policy) (hbits : t'.bits = t.bits) :
    t.InsertUndone t' m.entry.key m := by
  have hmem : m ∈ r ++ [m] := List.mem_append_right _ (List.mem_singleton_self m)
  have hfind : (t'.ledger (r ++ [m])).find? m.entry.key = some m :=
    Roster.find?_append_cons Roster.answersTo_self
  have hlast : (r ++ [m]).getLast? = some m := List.getLast?_concat
  have hmember : Roster.member? (r ++ [m]) m.id = some m := Roster.member?_of_mem h'.nodup hmem
  have hfresh : m.id ∉ r.ids := by
    intro hid
    have hnd := h'.nodup
    rw [Roster.ids_append, List.nodup_append] at hnd
    exact hnd.2.2 m.id hid m.id (List.mem_singleton_self _) rfl
  obtain ⟨o, herase, href⟩ := h'.exists_erase m.entry.key
  obtain ⟨o₁, heraseId, href₁⟩ := h'.exists_eraseId m.id
  obtain ⟨o₂, heraseLast, href₂⟩ := h'.exists_eraseLast
  rw [hfind] at href
  rw [hmember] at href₁
  rw [hlast] at href₂
  exact {
    key_eq := rfl
    fresh := (h.isDead_of_not_mem hfresh).contains
    entry := h'.entry_of_mem hmem
    find := by rw [find?_eq h', hfind, Option.map_some]
    last := by rw [h'.lastId?_eq, hlast, Option.map_some]
    erase := ⟨o, herase, h.undoes h' hpolicy hbits href⟩
    eraseId := ⟨o₁, heraseId, h.undoes h' hpolicy hbits href₁⟩
    eraseLast := ⟨o₂, heraseLast, h.undoes h' hpolicy hbits href₂⟩ }

/-! ## Histories -/

variable {bits : UInt32} {policy : Policy σ V} {heap : Heap} {env : σ}

/-- Whatever has been done to a table, and whatever its buckets hold: an insertion that succeeds can
be undone at once by removing the entry by its key, by its id or as the last one. -/
theorem run_insertUndone (hbuild : (build bits policy heap env A).result = .ok t)
    (hkey : policy.StoresKey) (calls : List (Call V)) :
    ∃ h, t.run calls = .ok h ∧ ∀ data key o id, h.table.insert data key = .ok o →
      o.answer = .ok id → ∃ e, h.table.policy.make? h.table.env (.insert data key) = some e ∧
        h.table.InsertUndone o.table key ⟨id, e⟩ := by
  obtain ⟨h, r, hrun, hpolicy, -, hr, -⟩ :=
    (stops_or_holds_of_build hbuild calls).resolve_left fun hstop => hstop.2 hkey
  refine ⟨h, hrun, ?_⟩
  intro data key o id hinsert hid
  obtain ⟨e, hmake, rfl, hr', hpolicy', hbits'⟩ :=
    hr.exists_entry_of_insert (hpolicy ▸ hkey) hinsert hid
  exact ⟨e, hmake, hr.insertUndone hr' hpolicy' hbits'⟩

/-- The bucket has the key already, and a longer one that starts with it. -/
theorem run_insertUndone_copying :
    let policy : Policy Unit Nat := .copying fun _ => 0
    let t := empty policy 0 ()
    let calls : List (Call Nat) := [.insert 1 [97], .insert 2 [98], .insert 3 [97, 98],
      .insert 4 [97], .eraseFirst, .insert 5 [97, 98, 99]]
    (build 0 policy .ofProcess ()).result = .ok t ∧ policy.StoresKey ∧
      ∃ h o id e, t.run calls = .ok h ∧ h.table.insert 6 [97] = .ok o ∧ o.answer = .ok id ∧
        h.table.policy.make? h.table.env (.insert 6 [97]) = some e ∧
        h.table.InsertUndone o.table [97] ⟨id, e⟩ := by
  intro policy t calls
  have hbuild : (build 0 policy .ofProcess ()).result = .ok t := rfl
  have hkey : policy.StoresKey := Policy.storesKey_of_copyKey rfl
  obtain ⟨h, hrun, hundone⟩ := run_insertUndone hbuild hkey calls
  have hinserts : (t.run calls >>= fun h => (fun o => o.answer.toOption.isSome) <$>
      h.table.insert 6 [97]) = .ok true := by decide +kernel
  rw [hrun, ok_bind] at hinserts
  cases hinsert : h.table.insert 6 [97] with
  | error fault =>
    rw [hinsert] at hinserts
    cases hinserts
  | ok o =>
    rw [hinsert] at hinserts
    cases hid : o.answer with
    | error rejected =>
      rw [Except.map_ok, hid] at hinserts
      cases hinserts
    | ok id =>
      obtain ⟨e, hmake, hundone⟩ := hundone 6 [97] o id hinsert hid
      exact ⟨hbuild, hkey, h, o, id, e, hrun, hinsert, hid, hmake, hundone⟩

end Table

end OrderedTable
