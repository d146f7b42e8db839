import OrderedTable.Proofs.Ledger.Attempt
import OrderedTable.Proofs.Store.Sweep

/-!
# A table is as good as its ledger

A table that `Holds` a roster is related to the ledger `Table.ledger` of that roster. Every operation
on the table succeeds, unless the strategy strays, says and releases what the ledger says and
releases, and leaves the two related: `Table.Refines` says so of one outcome, and
`Table.Holds.exists_call` and `Table.Holds.run_cases` prove it for a call and for a history of calls.

The one thing that a ledger cannot know is which ids its entries get. It is told them: no id is
issued twice in the life of a table.
-/

namespace OrderedTable

variable {σ V A α β : Type} [Arena A (Node V)]

namespace Table

/-- The store of the table has the entries of the roster. -/
abbrev Holds (t : Table σ V A) (r : Roster V) : Prop := t.store.Holds t.policy.hash r

/-- The ledger of a roster, with all else as in the table. -/
def ledger (t : Table σ V A) (r : Roster V) : Ledger σ V :=
  { policy := t.policy, bits := t.bits.toNat, roster := r, env := t.env }

/-- The outcome of an operation on `t` is that of the ledger. -/
structure Refines (t : Table σ V A) (o : Outcome σ V α A) (o' : Ledger.Outcome σ V α) : Prop where
  answer : o.answer = o'.answer
  released : Departures t.policy.hash o.released o'.released
  ledger : o'.ledger = o.table.ledger o'.ledger.roster
  holds : o.table.Holds o'.ledger.roster
  policy : o.table.policy = t.policy
  precedes : t.store.Precedes o.table.store

/-- The id is new in an outcome of an operation on `t`. -/
structure Issues (t : Table σ V A) (o : Outcome σ V α A) (id : NodeId) : Prop where
  before : ¬ Arena.Issued t.store.nodes id
  after : Arena.Issued o.table.store.nodes id

variable {t : Table σ V A} {r : Roster V}

theorem Refines.map {o : Outcome σ V α A} {o' : Ledger.Outcome σ V α} (h : t.Refines o o')
    (f : α → β) : t.Refines (o.map f) (o'.map f) :=
  ⟨congrArg f h.answer, h.released, h.ledger, h.holds, h.policy, h.precedes⟩

theorem Refines.env_eq {o : Outcome σ V α A} {o' : Ledger.Outcome σ V α} (h : t.Refines o o') :
    o'.ledger.env = o.table.env := congrArg Ledger.env h.ledger

namespace Holds

/-- Only the store changes. -/
theorem refines_of_store {s : Store V A} {r' : Roster V} (hs : s.Holds t.policy.hash r')
    (hprec : t.store.Precedes s) (answer : α) {ds : List (Departure V A)} {ms : Roster V}
    (hds : Departures t.policy.hash ds ms) :
    t.Refines { answer, released := ds, table := { t with store := s } }
      { answer, released := ms, ledger := t.ledger r' } where
  answer := rfl
  released := hds
  ledger := by rw [ledger, ledger, bits, bits, hprec.bits]
  holds := hs
  policy := rfl
  precedes := hprec

theorem refines_say (h : t.Holds r) (answer : α) :
    t.Refines { answer, table := t } { answer, ledger := t.ledger r } :=
  refines_of_store h (.refl _) answer .nil

/-! ## Reading -/

theorem bind_get? (h : t.Holds r) {m : Option (Member V)} (hm : ∀ x, m = some x → x ∈ r) :
    (m.map Member.id).bind t.store.get? = m.map Member.entry := by
  cases m with
  | none => rfl
  | some m => exact h.entry_of_mem (hm m rfl)

theorem first?_eq (h : t.Holds r) : t.first? = r.head?.map Member.entry := by
  rw [first?, h.firstId?_eq, bind_get? h fun _ => List.mem_of_mem_head?]

theorem last?_eq (h : t.Holds r) : t.last? = .ok (r.getLast?.map Member.entry) := by
  rw [last?, h.lastId?_eq, ok_bind, bind_get? h fun _ => List.mem_of_mem_getLast?]
  rfl

variable [LawfulArena A (Node V)]

theorem find?_eq (h : t.Holds r) (key : Key) :
    t.find? key = .ok (((t.ledger r).find? key).map Member.id) :=
  Store.Holds.find?_eq h key

theorem getByKey?_eq (h : t.Holds r) (key : Key) :
    t.getByKey? key = .ok (((t.ledger r).find? key).map Member.entry) := by
  rw [getByKey?, find?_eq h, ok_bind, bind_get? h fun _ => Ledger.mem_of_find?]
  rfl

theorem containsKey_eq (h : t.Holds r) (key : Key) :
    t.containsKey key = .ok ((t.ledger r).find? key).isSome := by
  rw [containsKey, find?_eq h, ok_bind, Option.isSome_map]
  rfl

/-! ## Inserting -/

omit [LawfulArena A (Node V)] in
theorem insert_of_strays {data : V} {key : Key} (hstrays : t.policy.Strays data key t.env) :
    t.insert data key = .error .foreignKey := by
  obtain ⟨e, env, hattempt, hne⟩ := hstrays
  rw [Table.insert_eq, hattempt]
  dsimp only
  rw [settle, ensure_of_neg hne]
  rfl

theorem exists_insert (h : t.Holds r) (data : V) (key : Key)
    (hkey : ¬ t.policy.Strays data key t.env) :
    ∃ fresh o, t.insert data key = .ok o ∧ t.Refines o ((t.ledger r).insert fresh data key) ∧
      ∀ id, o.answer = .ok id → t.Issues o id := by
  simp only [Table.insert_eq, Ledger.insert_eq, ledger]
  rcases hattempt : t.policy.attempt data key t.env with ⟨rejected | entry, env⟩
  · exact ⟨⟨0, 0⟩, _, rfl, ⟨rfl, .nil, rfl, h, rfl, .refl _⟩, fun _ hid => nomatch hid⟩
  obtain rfl : entry.key = key := Classical.byContradiction fun hne =>
    hkey ⟨entry, env, hattempt, hne⟩
  obtain ⟨id, s', hattach, hs', hprec, hbefore, hafter⟩ := h.exists_attach entry
  refine ⟨id, { answer := .ok id, table := { t with store := s', env } }, ?_,
    ⟨rfl, .nil, ?_, hs', rfl, hprec⟩, fun id' hid => ?_⟩
  · dsimp only
    rw [settle, ensure_of_pos rfl, ok_bind, hattach]
    rfl
  · simp only [ledger, bits, hprec.bits]
  · cases hid
    exact ⟨hbefore, hafter⟩

/-! ## Removing -/

theorem exists_eraseMember (h : t.Holds r) {m : Option (Member V)}
    (hm : ∀ x, m = some x → x ∈ r) :
    ∃ o, t.eraseId? (m.map Member.id) = .ok o ∧ t.Refines o ((t.ledger r).eraseMember m) := by
  cases m with
  | none => exact ⟨_, rfl, refines_say h _⟩
  | some m =>
    obtain ⟨d, hdetach, rfl, hrest, hprec⟩ := h.exists_detach (hm m rfl)
    refine ⟨_, ?_, refines_of_store hrest hprec _ (.singleton hrest)⟩
    rw [Option.map_some, eraseId?, eraseId, hdetach]
    rfl

theorem exists_erase (h : t.Holds r) (key : Key) : ∃ o, t.erase key = .ok o ∧
    t.Refines o ((t.ledger r).eraseMember ((t.ledger r).find? key)) := by
  rw [erase, find?_eq h, ok_bind]
  exact exists_eraseMember h fun _ => Ledger.mem_of_find?

theorem exists_eraseId (h : t.Holds r) (id : NodeId) :
    ∃ o, t.eraseId id = .ok o ∧ t.Refines o ((t.ledger r).eraseMember (r.member? id)) := by
  cases hm : r.member? id with
  | none =>
    refine ⟨_, ?_, refines_say h _⟩
    rw [eraseId, h.detach?_eq_none (Option.map_eq_none_iff.2 hm)]
    rfl
  | some m =>
    obtain ⟨hmem, rfl⟩ := Roster.mem_of_member? hm
    exact exists_eraseMember h (m := some m) fun x hx => Option.some.inj hx ▸ hmem

theorem exists_eraseFirst (h : t.Holds r) :
    ∃ o, t.eraseFirst = .ok o ∧ t.Refines o ((t.ledger r).eraseMember r.head?) := by
  rw [eraseFirst, h.firstId?_eq]
  exact exists_eraseMember h fun _ => List.mem_of_mem_head?

theorem exists_eraseLast (h : t.Holds r) :
    ∃ o, t.eraseLast = .ok o ∧ t.Refines o ((t.ledger r).eraseMember r.getLast?) := by
  rw [eraseLast, h.lastId?_eq, ok_bind]
  exact exists_eraseMember h fun _ => List.mem_of_mem_getLast?

/-- Taking an entry out neither asks the gate nor calls the strategy. -/
theorem exists_erase_env (h : t.Holds r) (key : Key) : ∃ o, t.erase key = .ok o ∧
    t.Refines o ((t.ledger r).eraseMember ((t.ledger r).find? key)) ∧ o.table.env = t.env := by
  obtain ⟨o, herase, href⟩ := exists_erase h key
  exact ⟨o, herase, href, href.env_eq.symm.trans (Ledger.eraseMember_env _ _)⟩

theorem replace_of_strays (h : t.Holds r) {data : V} {key : Key}
    (hstrays : t.policy.Strays data key t.env) : t.replace data key = .error .foreignKey := by
  obtain ⟨o, herase, href, henv⟩ := exists_erase_env h key
  have hlength : ¬ maxKeyLength < key.length := by
    intro hlong
    obtain ⟨e, env, hattempt, -⟩ := hstrays
    exact nomatch hattempt.symm.trans (Policy.attempt_of_tooLong hlong)
  rw [← href.policy, ← henv] at hstrays
  rw [replace, if_neg hlength, herase, ok_bind, insert_of_strays hstrays]
  rfl

theorem exists_replace (h : t.Holds r) (data : V) (key : Key)
    (hkey : ¬ t.policy.Strays data key t.env) :
    ∃ fresh o, t.replace data key = .ok o ∧ t.Refines o ((t.ledger r).replace fresh data key) ∧
      ∀ id, o.answer = .ok id → t.Issues o id := by
  rw [replace]
  by_cases hlong : maxKeyLength < key.length
  · simp only [Ledger.replace, if_pos hlong]
    exact ⟨⟨0, 0⟩, _, rfl, refines_say h _, fun _ hid => nomatch hid⟩
  simp only [Ledger.replace, if_neg hlong]
  obtain ⟨o₁, herase, href₁, henv⟩ := exists_erase_env h key
  rw [← href₁.policy, ← henv] at hkey
  obtain ⟨fresh, o₂, hinsert, href₂, hissues⟩ := exists_insert href₁.holds data key hkey
  rw [← href₁.ledger] at href₂
  refine ⟨fresh, { o₂ with released := o₁.released ++ o₂.released }, ?_, ⟨href₂.answer,
    href₁.released.append (href₁.policy ▸ href₂.released), href₂.ledger, href₂.holds,
    href₂.policy.trans href₁.policy, href₁.precedes.trans href₂.precedes⟩, fun id hid => ?_⟩
  · rw [herase, ok_bind, hinsert]
    rfl
  · obtain ⟨hbefore, hafter⟩ := hissues id hid
    exact ⟨fun hissued => hbefore (hissued.becomes href₁.precedes.becomes), hafter⟩

theorem exists_retain (h : t.Holds r) (keep : List (Entry V) → Entry V → Bool) :
    ∃ o, t.retain keep = .ok o ∧ t.Refines o ((t.ledger r).retain keep) := by
  obtain ⟨ds, s', hretain, -, hds, hs', hprec⟩ := Store.Holds.exists_retain h keep
  refine ⟨_, ?_, refines_of_store hs' hprec _ hds⟩
  rw [retain, hretain]
  rfl

theorem exists_clear (h : t.Holds r) : ∃ o, t.clear = .ok o ∧ t.Refines o (t.ledger r).clear := by
  obtain ⟨ds, s', hclear, -, hds, hs', hprec⟩ := Store.Holds.exists_clear h
  refine ⟨_, ?_, refines_of_store hs' hprec _ hds⟩
  rw [clear, hclear]
  rfl

end Holds

end Table

end OrderedTable
