import OrderedTable.Proofs.Ledger.Balance
import OrderedTable.Proofs.Store.WellLinked

/-!
# Ids stay with their entries

`Table.Removes` says which calls remove which entry. From its insertion until such a call is made, an
entry is found behind its id, and after that nothing is found there any more, no matter what is
inserted: `Table.KeepsIds`, which holds of every history (`Table.run_keepsIds`).
-/

namespace OrderedTable

variable {σ V A : Type} [Arena A (Node V)]

namespace Roster

variable {r : Roster V} {id : NodeId}

theorem mem_ids_toList {m : Option (Member V)} : id ∈ ids m.toList ↔ m.map Member.id = some id := by
  cases m <;> simp [ids, eq_comm]

/-- What `keep` turns down is asked about where it stands, after all entries before it. -/
theorem mem_ids_sift_iff {keep : List (Entry V) → Entry V → Bool} {seen : List (Entry V)} :
    id ∈ ids (sift keep seen r).2 ↔ ∃ (i : Nat) (e : Entry V), r.ids[i]? = some id ∧
      r.entries[i]? = some e ∧ keep (seen ++ r.entries.take i) e = false := by
  induction r generalizing seen with
  | nil => simp [sift, ids]
  | cons m rest ih =>
    have hrest := @ih (seen ++ [m.entry])
    rw [← Nat.or_exists_add_one]
    by_cases hkeep : keep seen m.entry = true
    · simpa [sift, ids, entries, hkeep] using hrest
    · have hid : m.id = id ↔ id = m.id := eq_comm
      simpa [sift, ids, entries, hkeep, hid] using or_congr_right hrest

theorem get?_eq_some_iff (hnd : r.ids.Nodup) {e : Entry V} :
    r.get? id = some e ↔ ∃ i : Nat, r.ids[i]? = some id ∧ r.entries[i]? = some e := by
  constructor
  · intro hget
    obtain ⟨m, hm, rfl, rfl⟩ := exists_mem_of_get? hget
    obtain ⟨i, hi⟩ := List.mem_iff_getElem?.1 hm
    exact ⟨i, by simp [ids, hi], by simp [entries, hi]⟩
  · rintro ⟨i, hid, he⟩
    rw [ids, List.getElem?_map] at hid
    rw [entries, List.getElem?_map] at he
    obtain ⟨m, hi, rfl⟩ := Option.map_eq_some_iff.1 hid
    rw [hi] at he
    rw [get?_of_mem hnd (List.mem_of_getElem? hi)]
    exact he

end Roster

theorem Ledger.eraseMember_released (l : Ledger σ V) (m : Option (Member V)) :
    (l.eraseMember m).released = m.toList := by
  cases m <;> rfl

omit [Arena A (Node V)] in
theorem Departure.ids_members (ds : List (Departure V A)) :
    Roster.ids (ds.map Departure.member) = ds.map Departure.id := List.map_map

namespace Table

/-- The call removes the entry behind `id`. -/
def Removes (t : Table σ V A) (id : NodeId) : Call V → Prop
  | .erase key => t.find? key = .ok (some id)
  | .replace _ key => key.length ≤ maxKeyLength ∧ t.find? key = .ok (some id)
  | .eraseId other => other = id ∧ t.store.contains id = true
  | .eraseFirst => t.store.firstId? = some id
  | .eraseLast => t.store.lastId? = .ok (some id)
  | .retain keep => ∃ ids entries, t.store.ids = .ok ids ∧ t.store.entries = .ok entries ∧
      ∃ (i : Nat) (e : Entry V), ids[i]? = some id ∧ entries[i]? = some e ∧
        keep (entries.take i) e = false
  | .clear => t.store.contains id = true
  | _ => False

/-- The entry is found behind its id. -/
structure Resolves (t : Table σ V A) (m : Member V) : Prop where
  contains : t.store.contains m.id = true
  get : t.store.get? m.id = some m.entry

/-- Nothing is found behind the id, and erasing it changes nothing. -/
structure IsDead (t : Table σ V A) (id : NodeId) : Prop where
  contains : t.store.contains id = false
  get : t.store.get? id = none
  eraseId : t.eraseId id = .ok { answer := .notFound, table := t }

namespace Holds

variable {t : Table σ V A} {r : Roster V} {id : NodeId}

theorem resolves_of_mem (h : t.Holds r) {m : Member V} (hm : m ∈ r) : t.Resolves m :=
  ⟨h.mem_ids_iff.1 (Roster.mem_ids hm), h.entry_of_mem hm⟩

theorem isDead_of_not_mem (h : t.Holds r) (hid : id ∉ r.ids) : t.IsDead id := by
  have hget : r.get? id = none := Roster.get?_eq_none_iff.2 hid
  refine ⟨Bool.eq_false_iff.2 fun hlive => hid (h.mem_ids_iff.2 hlive), (h.entry id).trans hget, ?_⟩
  rw [eraseId, h.detach?_eq_none hget]
  rfl

end Holds

/-! ## Histories -/

variable [Inhabited V]

/-- Somewhere in the history of the calls, one removes the entry behind `id`. -/
inductive RemovesAlong (t : Table σ V A) (calls : List (Call V)) (id : NodeId) : Prop
  | intro {before c h} (hbefore : before ++ [c] <+: calls) (hrun : t.run before = .ok h)
    (hremoves : h.table.Removes id c)

/-- The calls on `t`, which insert `ms`, keep to the ids. -/
structure KeepsIds (t : Table σ V A) (calls : List (Call V)) (h : History σ V A)
    (ms : Roster V) : Prop where
  /-- No two insertions are answered with the same id. -/
  issued : ms.ids = h.issued
  nodup : h.issued.Nodup
  resolves : ∀ m ∈ ms, ¬ t.RemovesAlong calls m.id → h.table.Resolves m
  dead : ∀ id, t.RemovesAlong calls id →
    ∀ later h', h.table.run later = .ok h' → h'.table.IsDead id
  /-- The live ids have been issued, and each stands for a place of its own on the list. -/
  places : ∃ ids entries, h.table.store.ids = .ok ids ∧ h.table.store.entries = .ok entries ∧
    ids.Nodup ∧ ids ⊆ h.issued ∧ ∀ id e, h.table.store.get? id = some e ↔
      ∃ i : Nat, ids[i]? = some id ∧ entries[i]? = some e

variable {t : Table σ V A} {r : Roster V} {c : Call V} {calls : List (Call V)} {id : NodeId}
  {h : History σ V A} {ms : Roster V}

theorem removesAlong_cons {o : Outcome σ V (Answer V) A} (hcall : t.call c = .ok o) :
    t.RemovesAlong (c :: calls) id ↔ t.Removes id c ∨ o.table.RemovesAlong calls id := by
  constructor
  · rintro ⟨hbefore, hrun, hremoves⟩
    next before c' h =>
    cases before with
    | nil =>
      obtain ⟨rfl, -⟩ := List.cons_prefix_cons.1 hbefore
      cases hrun
      exact .inl hremoves
    | cons b before =>
      obtain ⟨rfl, hbefore'⟩ := List.cons_prefix_cons.1 hbefore
      obtain ⟨o', h', hcall', hlater, rfl⟩ := exists_of_run_cons hrun
      obtain rfl := Except.ok.inj (hcall.symm.trans hcall')
      exact .inr (.intro hbefore' hlater hremoves)
  · rintro (hremoves | ⟨hbefore, hrun, hremoves⟩)
    · have hbefore : [] ++ [c] <+: c :: calls := List.cons_prefix_cons.2 ⟨rfl, List.nil_prefix⟩
      exact .intro hbefore rfl hremoves
    · exact .intro (List.cons_prefix_cons.2 ⟨rfl, hbefore⟩) (run_cons hcall hrun) hremoves

namespace Holds

variable [LawfulArena A (Node V)]

/-- A call releases the entries that it removes, and no others. -/
theorem removes_iff (h : t.Holds r) (fresh : NodeId) (c : Call V) :
    t.Removes id c ↔ id ∈ Roster.ids ((t.ledger r).call fresh c).released := by
  have hok {x y : Option NodeId} : (Except.ok x : Except Fault _) = .ok y ↔ x = y :=
    ⟨Except.ok.inj, congrArg _⟩
  cases c with
  | erase key =>
    change t.find? key = _ ↔ id ∈ Roster.ids (Ledger.eraseMember _ _).released
    rw [find?_eq h, hok, Ledger.eraseMember_released, Roster.mem_ids_toList]
  | replace data key =>
    change key.length ≤ maxKeyLength ∧ t.find? key = _ ↔
      id ∈ Roster.ids ((t.ledger r).replace fresh data key).released
    rcases Nat.lt_or_ge maxKeyLength key.length with hlong | hlength
    · rw [Ledger.replace, if_pos hlong]
      simp [Roster.ids, Nat.not_le_of_lt hlong]
    · rw [Ledger.replace_of_le hlength, Ledger.eraseMember_released, Roster.mem_ids_toList,
        find?_eq h, hok]
      exact and_iff_right hlength
  | eraseId other =>
    change other = id ∧ t.store.contains id = true ↔
      id ∈ Roster.ids (Ledger.eraseMember _ (r.member? other)).released
    rw [Ledger.eraseMember_released, Roster.mem_ids_toList, ← h.mem_ids_iff]
    constructor
    · rintro ⟨rfl, hid⟩
      obtain ⟨m, hm⟩ := Option.isSome_iff_exists.1 (Option.isSome_map.symm.trans
        (Roster.isSome_get?.2 hid))
      rw [hm, Option.map_some, (Roster.mem_of_member? hm).2]
    · intro hid
      obtain ⟨m, hm, rfl⟩ := Option.map_eq_some_iff.1 hid
      obtain ⟨hmem, hother⟩ := Roster.mem_of_member? hm
      exact ⟨hother.symm, Roster.mem_ids hmem⟩
  | eraseFirst =>
    change t.store.firstId? = _ ↔ id ∈ Roster.ids (Ledger.eraseMember _ r.head?).released
    rw [h.firstId?_eq, Ledger.eraseMember_released, Roster.mem_ids_toList]
  | eraseLast =>
    change t.store.lastId? = _ ↔ id ∈ Roster.ids (Ledger.eraseMember _ r.getLast?).released
    rw [h.lastId?_eq, hok, Ledger.eraseMember_released, Roster.mem_ids_toList]
  | retain keep =>
    change _ ↔ id ∈ Roster.ids (Roster.sift keep [] r).2
    rw [Roster.mem_ids_sift_iff]
    constructor
    · rintro ⟨ids, entries, hids, hentries, i, e, hplace⟩
      obtain rfl := Except.ok.inj (h.ids_eq.symm.trans hids)
      obtain rfl := Except.ok.inj (h.entries_eq.symm.trans hentries)
      exact ⟨i, e, hplace⟩
    · rintro ⟨i, e, hplace⟩
      exact ⟨_, _, h.ids_eq, h.entries_eq, i, e, hplace⟩
  | clear =>
    refine h.mem_ids_iff.symm.trans ?_
    exact ((Roster.byBucket_perm (r := r)).map Member.id).mem_iff.symm
  | insert data key =>
    change False ↔ id ∈ Roster.ids (Ledger.insert _ fresh data key).released
    simp [Ledger.insert_released, Roster.ids]
  | insertDefault key =>
    change False ↔ id ∈ Roster.ids (Ledger.insert _ fresh default key).released
    simp [Ledger.insert_released, Roster.ids]
  | _ => exact iff_of_false (fun hfalse => hfalse) List.not_mem_nil

theorem mem_released_iff (h : t.Holds r) {h' : History σ V A} (hrun : t.run calls = .ok h') :
    id ∈ h'.released.map Departure.id ↔ t.RemovesAlong calls id := by
  induction calls generalizing t r h' with
  | nil =>
    cases hrun
    refine iff_of_false List.not_mem_nil ?_
    rintro ⟨hbefore, -, -⟩
    simp at hbefore
  | cons c calls ih =>
    obtain ⟨o, h', hcall, hlater, rfl⟩ := exists_of_run_cons hrun
    obtain ⟨fresh, href, -⟩ := refines_of_call h hcall
    rw [removesAlong_cons hcall, removes_iff h fresh c, ← href.released.members,
      Departure.ids_members, ← ih href.holds hlater, ← List.mem_append, ← List.map_append]

end Holds

/-- Nothing that has been released is left, since no id has been issued twice. -/
theorem Balanced.not_mem_of_released (hbal : t.Balanced calls [] h ms r) (hnodup : h.issued.Nodup)
    (hid : id ∈ h.released.map Departure.id) : id ∉ r.ids := by
  rw [← hbal.issued, Roster.ids, ← List.nil_append ms, ← (hbal.perm.map Member.id).nodup_iff,
    List.map_append, List.nodup_append] at hnodup
  rw [← Departure.ids_members] at hid
  exact fun hmem => hnodup.2.2 id hid id hmem rfl

theorem Balanced.resolves (hbal : t.Balanced calls [] h ms r) {m : Member V} (hm : m ∈ ms)
    (hid : m.id ∉ h.released.map Departure.id) : h.table.Resolves m := by
  rcases List.mem_append.1 (hbal.perm.mem_iff.2 hm) with hreleased | hleft
  · rw [← Departure.ids_members] at hid
    exact absurd (Roster.mem_ids hreleased) hid
  · exact hbal.holds.resolves_of_mem hleft

variable [LawfulArena A (Node V)] {bits : UInt32} {policy : Policy σ V} {heap : Heap} {env : σ}

/-- Whatever is done to a table, an id resolves to its entry until that is removed, and never again
afterwards. A strategy that makes an entry under a foreign key stops the history there. -/
theorem run_keepsIds (hbuild : (build bits policy heap env A).result = .ok t)
    (calls : List (Call V)) : policy.Stops (t.run calls) ∨
      ∃ h ms, t.run calls = .ok h ∧ t.deposits calls = .ok ms ∧ t.KeepsIds calls h ms := by
  rcases exists_balance_of_build hbuild calls with hstop | ⟨h, ms, r, hrun, hms, hbal, hnodup⟩
  · exact .inl hstop
  have hempty : t.Holds [] := holds_of_build hbuild
  refine .inr ⟨h, ms, hrun, hms, {
    issued := hbal.issued
    nodup := hnodup
    resolves := fun m hm hremains => ?_
    dead := fun id hremoved later h' hlater => ?_
    places := ?_ }⟩
  · exact hbal.resolves hm fun hid => hremains ((hempty.mem_released_iff hrun).1 hid)
  · have hid := (hempty.mem_released_iff hrun).2 hremoved
    have hall : t.run (calls ++ later) = .ok (h.append h') := by
      rw [run_append, hrun, ok_bind, hlater]
      rfl
    rcases exists_balance_of_build hbuild (calls ++ later) with
      hstop | ⟨h'', ms', r', hrun', -, hbal', hnodup'⟩
    · exact nomatch hstop.1.symm.trans hall
    obtain rfl := Except.ok.inj (hall.symm.trans hrun')
    refine hbal'.holds.isDead_of_not_mem (hbal'.not_mem_of_released hnodup' ?_)
    rw [History.append, List.map_append]
    exact List.mem_append_left _ hid
  · refine ⟨r.ids, r.entries, hbal.holds.ids_eq, hbal.holds.entries_eq, hbal.holds.nodup, ?_, ?_⟩
    · rw [← hbal.issued]
      exact List.map_subset _ fun m hm => hbal.perm.subset (List.mem_append_right _ hm)
    · exact fun id e => (congrArg (· = some e) (hbal.holds.entry id)).to_iff.trans
        (Roster.get?_eq_some_iff hbal.holds.nodup)

/-- The third entry takes the slot of the first, under an id of its own. -/
theorem run_keepsIds_copying :
    let policy : Policy Unit Nat := .copying fun _ => 0
    let t := empty policy 0 ()
    let calls : List (Call Nat) :=
      [.insert 1 [97], .insert 2 [98], .erase [97], .insert 3 [97], .retain fun _ e => e.data = 3]
    (build 0 policy .ofProcess ()).result = .ok t ∧
      ∃ h ms, t.run calls = .ok h ∧ t.deposits calls = .ok ms ∧ t.KeepsIds calls h ms := by
  intro policy t calls
  have hbuild : (build 0 policy .ofProcess ()).result = .ok t := rfl
  have hkey : policy.StoresKey := Policy.storesKey_of_copyKey rfl
  exact ⟨hbuild, (run_keepsIds hbuild calls).resolve_left fun hstop => hstop.2 hkey⟩

end Table

end OrderedTable
