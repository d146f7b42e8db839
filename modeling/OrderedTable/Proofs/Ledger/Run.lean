import OrderedTable.Proofs.Arena.Slots
import OrderedTable.Proofs.Ledger.Refinement

/-!
# Histories of tables and ledgers

`Table.Holds.exists_call` puts the operations together, and `Table.Holds.exists_run` makes calls one
after the other. What is built is always `Table.empty`, which holds the empty roster: so
`Table.run_refines_ledger` speaks of all that can happen to a table.
-/

namespace OrderedTable

variable {σ V A : Type} [Arena A (Node V)]

/-- The ids of the entries that a history has made, in the order of their insertion. -/
def History.issued (h : History σ V A) : List NodeId := h.answers.filterMap Answer.issued?

def History.append (h h' : History σ V A) : History σ V A :=
  { answers := h.answers ++ h'.answers, released := h.released ++ h'.released, table := h'.table }

namespace Table

theorem run_append [Inhabited V] (t : Table σ V A) (calls calls' : List (Call V)) :
    t.run (calls ++ calls') =
      t.run calls >>= fun h => h.append <$> h.table.run calls' := by
  induction calls generalizing t with
  | nil =>
    rw [List.nil_append, run, pure_eq_ok, ok_bind]
    cases t.run calls' <;> rfl
  | cons c calls ih =>
    rw [List.cons_append, run, run]
    cases t.call c with
    | error fault => rfl
    | ok o =>
      rw [ok_bind, ok_bind, ih]
      cases o.table.run calls with
      | error fault => rfl
      | ok h =>
        simp only [ok_bind, pure_eq_ok]
        cases h.table.run calls' with
        | error fault => rfl
        | ok h' => simp [History.append]

theorem run_concat [Inhabited V] {t : Table σ V A} {calls : List (Call V)} {c : Call V}
    {h : History σ V A} {o : Outcome σ V (Answer V) A} (hrun : t.run calls = .ok h)
    (hcall : h.table.call c = .ok o) :
    ∃ h', t.run (calls ++ [c]) = .ok h' ∧ h'.table = o.table := by
  rw [run_append, hrun, ok_bind, run, hcall]
  exact ⟨_, rfl, rfl⟩

/-- The history from `t` on is that of the ledger. -/
structure RefinesRun (t : Table σ V A) (h : History σ V A) (h' : Ledger.History σ V) : Prop where
  answers : h.answers = h'.answers
  released : Departures t.policy.hash h.released h'.released
  ledger : h'.ledger = h.table.ledger h'.ledger.roster
  holds : h.table.Holds h'.ledger.roster
  policy : h.table.policy = t.policy
  precedes : t.store.Precedes h.table.store

/-- The ids that a history from `t` on issues are new, and all different. -/
structure IssuesRun (t : Table σ V A) (h : History σ V A) : Prop where
  before : ∀ id ∈ h.issued, ¬ Arena.Issued t.store.nodes id
  nodup : h.issued.Nodup

variable {t : Table σ V A} {r : Roster V}

namespace Holds

/-! ## Calls -/

section

variable {α : Type} {answer : α → Answer V} {x : Except Fault (Outcome σ V α A)}

theorem exists_map {o' : Ledger.Outcome σ V α} (h : ∃ o, x = .ok o ∧ t.Refines o o')
    (hnone : ∀ a, (answer a).issued? = none) :
    ∃ o, (·.map answer) <$> x = .ok o ∧ t.Refines o (o'.map answer) ∧
      ∀ id, o.answer.issued? = some id → t.Issues o id := by
  obtain ⟨o, rfl, href⟩ := h
  exact ⟨_, rfl, href.map answer, fun id hid => nomatch (hnone _).symm.trans hid⟩

theorem exists_inserted {x : Except Fault (Outcome σ V (Except (Rejected V) NodeId) A)}
    {o' : NodeId → Ledger.Outcome σ V (Except (Rejected V) NodeId)}
    (h : ∃ fresh o, x = .ok o ∧ t.Refines o (o' fresh) ∧
      ∀ id, o.answer = .ok id → t.Issues o id) :
    ∃ fresh o, (·.map Answer.inserted) <$> x = .ok o ∧
      t.Refines o ((o' fresh).map Answer.inserted) ∧
        ∀ id, o.answer.issued? = some id → t.Issues o id := by
  obtain ⟨fresh, ⟨answer, released, t'⟩, rfl, href, hissues⟩ := h
  refine ⟨fresh, _, rfl, href.map Answer.inserted, fun id hid => ?_⟩
  cases answer with
  | error rejected => exact nomatch hid
  | ok id' =>
    obtain ⟨hbefore, hafter⟩ := hissues id' rfl
    obtain rfl : id' = id := Option.some.inj hid
    exact ⟨hbefore, hafter⟩

theorem exists_say (h : t.Holds r) {answer : Answer V} (hnone : answer.issued? = none) :
    ∃ o, t.say answer = .ok o ∧ t.Refines o ((t.ledger r).say answer) ∧
      ∀ id, o.answer.issued? = some id → t.Issues o id :=
  ⟨_, rfl, refines_say h answer, fun _ hid => nomatch hnone.symm.trans hid⟩

end

variable [LawfulArena A (Node V)]

theorem call_of_strays [Inhabited V] (h : t.Holds r) {c : Call V} (hc : t.Strays c) :
    t.call c = .error .foreignKey := by
  obtain ⟨data, key, hstores, hstrays⟩ := hc
  cases c with
  | insert =>
    cases hstores
    rw [call, insert_of_strays hstrays]
    rfl
  | insertDefault =>
    cases hstores
    rw [call, insertDefault, insert_of_strays hstrays]
    rfl
  | replace =>
    cases hstores
    rw [call, replace_of_strays h hstrays]
    rfl
  | _ => exact nomatch hstores

/-- Every other call succeeds, with the outcome that the ledger gives. -/
theorem exists_call [Inhabited V] (h : t.Holds r) (c : Call V) (hc : ¬ t.Strays c) :
    ∃ fresh o, t.call c = .ok o ∧ t.Refines o ((t.ledger r).call fresh c) ∧
      ∀ id, o.answer.issued? = some id → t.Issues o id := by
  have hkey : ∀ data key, c.stores? = some (data, key) → ¬ t.policy.Strays data key t.env :=
    fun data key hstores hstrays => hc ⟨data, key, hstores, hstrays⟩
  cases c with
  | insert data key => exact exists_inserted (exists_insert h data key (hkey data key rfl))
  | insertDefault key => exact exists_inserted (exists_insert h default key (hkey default key rfl))
  | replace data key => exact exists_inserted (exists_replace h data key (hkey data key rfl))
  | erase key => exact ⟨⟨0, 0⟩, exists_map (exists_erase h key) fun _ => rfl⟩
  | eraseId id => exact ⟨⟨0, 0⟩, exists_map (exists_eraseId h id) fun _ => rfl⟩
  | eraseFirst => exact ⟨⟨0, 0⟩, exists_map (exists_eraseFirst h) fun _ => rfl⟩
  | eraseLast => exact ⟨⟨0, 0⟩, exists_map (exists_eraseLast h) fun _ => rfl⟩
  | retain keep => exact ⟨⟨0, 0⟩, exists_map (exists_retain h keep) fun _ => rfl⟩
  | clear => exact ⟨⟨0, 0⟩, exists_map (exists_clear h) fun _ => rfl⟩
  | find key =>
    rw [call, find?_eq h]
    exact ⟨⟨0, 0⟩, exists_say h rfl⟩
  | getByKey key =>
    rw [call, getByKey?_eq h]
    exact ⟨⟨0, 0⟩, exists_say h rfl⟩
  | containsKey key =>
    rw [call, containsKey_eq h]
    exact ⟨⟨0, 0⟩, exists_say h rfl⟩
  | get id =>
    rw [call, h.entry]
    exact ⟨⟨0, 0⟩, exists_say h rfl⟩
  | contains id =>
    rw [call, h.contains_eq]
    exact ⟨⟨0, 0⟩, exists_say h rfl⟩
  | firstId =>
    rw [call, h.firstId?_eq]
    exact ⟨⟨0, 0⟩, exists_say h rfl⟩
  | lastId =>
    rw [call, h.lastId?_eq]
    exact ⟨⟨0, 0⟩, exists_say h rfl⟩
  | first =>
    rw [call, first?_eq h]
    exact ⟨⟨0, 0⟩, exists_say h rfl⟩
  | last =>
    rw [call, last?_eq h]
    exact ⟨⟨0, 0⟩, exists_say h rfl⟩
  | iterate sides =>
    rw [call, h.iterate_eq]
    exact ⟨⟨0, 0⟩, exists_say h rfl⟩
  | entries =>
    rw [call, h.entries_eq]
    exact ⟨⟨0, 0⟩, exists_say h rfl⟩
  | size =>
    rw [call, size, h.size]
    exact ⟨⟨0, 0⟩, exists_say h rfl⟩
  | isEmpty =>
    rw [call, isEmpty, h.isEmpty_eq]
    exact ⟨⟨0, 0⟩, exists_say h rfl⟩
  | occupancy =>
    rw [call, h.occupancy_eq]
    exact ⟨⟨0, 0⟩, exists_say h rfl⟩
  | collisionPercent =>
    rw [call, h.collisionPercent_eq]
    exact ⟨⟨0, 0⟩, exists_say h rfl⟩

theorem not_strays_of_call [Inhabited V] (h : t.Holds r) {c : Call V}
    {o : Outcome σ V (Answer V) A} (hcall : t.call c = .ok o) : ¬ t.Strays c :=
  fun hstrays => nomatch (call_of_strays h hstrays).symm.trans hcall

theorem refines_of_call [Inhabited V] (h : t.Holds r) {c : Call V}
    {o : Outcome σ V (Answer V) A} (hcall : t.call c = .ok o) :
    ∃ fresh, t.Refines o ((t.ledger r).call fresh c) ∧
      ∀ id, o.answer.issued? = some id → t.Issues o id := by
  obtain ⟨fresh, o', hcall', href, hissues⟩ := exists_call h c (not_strays_of_call h hcall)
  obtain rfl := Except.ok.inj (hcall.symm.trans hcall')
  exact ⟨fresh, href, hissues⟩

/-! ## Histories -/

/-- Calls can be made until the strategy strays, with the history that the ledger gives. -/
theorem run_cases [Inhabited V] (h : t.Holds r) (calls : List (Call V)) :
    t.policy.Stops (t.run calls) ∨ ∃ h' script, script.map Prod.snd = calls ∧
      t.run calls = .ok h' ∧ t.RefinesRun h' ((t.ledger r).run script) ∧ t.IssuesRun h' := by
  -- On the calls: what carries the induction is that the table holds the ledger's roster.
  induction calls generalizing t r with
  | nil =>
    exact .inr ⟨_, [], rfl, rfl, ⟨rfl, .nil, rfl, h, rfl, .refl _⟩,
      fun _ hid => absurd hid List.not_mem_nil, List.nodup_nil⟩
  | cons c calls ih =>
    by_cases hc : t.Strays c
    · rw [run, call_of_strays h hc]
      obtain ⟨data, key, -, hstrays⟩ := hc
      exact .inl (Policy.stops_of_strays hstrays)
    obtain ⟨fresh, o, hcall, href, hissues⟩ := exists_call h c hc
    rw [run, hcall, ok_bind]
    rcases ih href.holds with ⟨hstop, hkey⟩ | ⟨h', script, rfl, hrun, href', hissues'⟩
    · rw [hstop]
      exact .inl ⟨rfl, href.policy ▸ hkey⟩
    rw [← href.ledger] at href'
    refine .inr ⟨{ h' with answers := o.answer :: h'.answers, released := o.released ++ h'.released },
      (fresh, c) :: script, rfl, ?_,
      ⟨congrArg₂ _ href.answer href'.answers, href.released.append (href.policy ▸ href'.released),
        href'.ledger, href'.holds, href'.policy.trans href.policy,
        href.precedes.trans href'.precedes⟩, ?_⟩
    · rw [hrun]
      rfl
    constructor
    · rw [History.issued, Answer.filterMap_issued?_cons]
      intro id hid hissued
      rcases List.mem_append.1 hid with hid | hid
      · exact (hissues id (Option.mem_toList.1 hid)).before hissued
      · exact hissues'.before id hid (hissued.becomes href.precedes.becomes)
    · rw [History.issued, Answer.filterMap_issued?_cons, List.nodup_append]
      refine ⟨Option.toList_nodup _, hissues'.nodup, fun id hid id' hid' => ?_⟩
      rintro rfl
      exact hissues'.before id hid' (hissues id (Option.mem_toList.1 hid)).after

theorem exists_run [Inhabited V] (h : t.Holds r) (hkey : t.policy.StoresKey)
    (calls : List (Call V)) : ∃ h' script, script.map Prod.snd = calls ∧ t.run calls = .ok h' ∧
      t.RefinesRun h' ((t.ledger r).run script) ∧ t.IssuesRun h' :=
  (run_cases h calls).resolve_left fun hstop => hstop.2 hkey

end Holds

/-! ## From the building on -/

end Table

def Ledger.empty (policy : Policy σ V) (bits : UInt32) (env : σ) : Ledger σ V :=
  { policy, bits := bits.toNat, env }

/-- The history is, as far as can be seen, that of a ledger. -/
structure History.Agrees (h : History σ V A) (h' : Ledger.History σ V) : Prop where
  answers : h.answers = h'.answers
  released : h.released.map Departure.member = h'.released
  ids : h.table.store.ids = .ok h'.ledger.roster.ids
  entries : h.table.store.entries = .ok h'.ledger.roster.entries
  env : h.table.env = h'.ledger.env

namespace Table

def empty (policy : Policy σ V) (bits : UInt32) (env : σ) (A : Type := SlotArena (Node V))
    [Arena A (Node V)] : Table σ V A :=
  { policy, store := { buckets := ⟨Heads.empty (2 ^ bits.toNat), bits⟩, nodes := Arena.empty }, env }

section

variable {bits : UInt32} {policy : Policy σ V} {heap : Heap} {env : σ}

theorem eq_empty_of_build (hbuild : (build bits policy heap env A).result = .ok t) :
    t = empty policy bits (build bits policy heap env A).env A := by
  unfold build at hbuild ⊢
  split at hbuild
  · cases hbuild
  split at hbuild
  · cases hbuild
  next hcreate =>
    cases hbuild
    rw [Buckets.eq_of_create hcreate]
    rfl

variable [LawfulArena A (Node V)]

theorem holds_empty (policy : Policy σ V) (bits : UInt32) (env : σ) :
    (empty policy bits env A).Holds [] where
  count := by simp [Store.bucketCount, Buckets.count, Heads.count, Heads.empty, empty]
  order := CircularList.holds_nil _
  chains := Heads.holds_empty _ _ fun id link hlink => by
    obtain ⟨node, hnode, -⟩ := Option.map_eq_some_iff.1 hlink
    cases (LawfulArena.get?_empty id).symm.trans hnode
  entry id := congrArg (Option.map Node.entry) (LawfulArena.get?_empty id)
  size := LawfulArena.size_empty

theorem holds_of_build (hbuild : (build bits policy heap env A).result = .ok t) : t.Holds [] :=
  eq_empty_of_build hbuild ▸ holds_empty _ _ _

theorem exists_run_of_build [Inhabited V] (hbuild : (build bits policy heap env A).result = .ok t)
    (hkey : policy.StoresKey) (calls : List (Call V)) :
    ∃ h script, t.run calls = .ok h ∧ script.map Prod.snd = calls ∧ h.issued.Nodup ∧
      (empty policy bits (build bits policy heap env A).env A).RefinesRun h
        ((Ledger.empty policy bits (build bits policy heap env A).env).run script) := by
  obtain rfl := eq_empty_of_build hbuild
  obtain ⟨h, script, hscript, hrun, href, hissues⟩ :=
    (holds_empty policy bits (build bits policy heap env A).env (A := A)).exists_run hkey calls
  exact ⟨h, script, hrun, hscript, hissues.nodup, href⟩

/-- Whatever is done to a table after it has been built: every call succeeds and says what a ledger
says that is told the ids, and the two release the same entries and come to the same list. No id is
given to two entries. -/
theorem run_refines_ledger [Inhabited V] (hbuild : (build bits policy heap env A).result = .ok t)
    (hkey : policy.StoresKey) (calls : List (Call V)) :
    ∃ (h : History σ V A) (script : List (NodeId × Call V)), t.run calls = .ok h ∧
      script.map Prod.snd = calls ∧ h.issued.Nodup ∧
      h.Agrees ((Ledger.empty policy bits (build bits policy heap env A).env).run script) := by
  obtain ⟨h, script, hrun, hscript, hnodup, href⟩ := exists_run_of_build hbuild hkey calls
  exact ⟨h, script, hrun, hscript, hnodup, href.answers, href.released.members,
    href.holds.ids_eq, href.holds.entries_eq, (congrArg Ledger.env href.ledger).symm⟩

theorem run_refines_ledger_copying :
    let policy : Policy Unit Nat := .copying fun _ => 0
    let calls : List (Call Nat) := [.insert 1 [97], .insert 2 [97, 98], .erase [97], .entries]
    (build 0 policy .ofProcess ()).result = .ok (empty policy 0 ()) ∧ policy.StoresKey ∧
      ∃ (h : History Unit Nat) (script : List (NodeId × Call Nat)),
        (empty policy 0 ()).run calls = .ok h ∧ script.map Prod.snd = calls ∧ h.issued.Nodup ∧
        h.Agrees ((Ledger.empty policy 0 ()).run script) := by
  intro policy calls
  have hbuild : (build 0 policy .ofProcess ()).result = .ok (empty policy 0 ()) := rfl
  have hkey : policy.StoresKey := Policy.storesKey_of_copyKey rfl
  exact ⟨hbuild, hkey, run_refines_ledger hbuild hkey calls⟩

/-- A table that comes out of a history holds a roster in the order of insertion. Only a strategy that
strays keeps a history from its end. -/
theorem stops_or_holds_of_build [Inhabited V]
    (hbuild : (build bits policy heap env A).result = .ok t) (calls : List (Call V)) :
    policy.Stops (t.run calls) ∨ ∃ h r, t.run calls = .ok h ∧ h.table.policy = policy ∧
      h.table.bits = bits ∧ h.table.Holds r ∧ r.ids.Sublist h.issued ∧ h.issued.Nodup := by
  obtain rfl := eq_empty_of_build hbuild
  rcases (holds_empty policy bits (build bits policy heap env A).env (A := A)).run_cases calls with
    hstop | ⟨h, script, -, hrun, href, hissues⟩
  · exact .inl hstop
  · have horder := Ledger.run_roster
      ((empty policy bits (build bits policy heap env A).env A).ledger []) script
    rw [← href.answers] at horder
    exact .inr ⟨h, _, hrun, href.policy, href.precedes.bits, href.holds, horder, hissues.nodup⟩

theorem exists_holds_of_build [Inhabited V] (hbuild : (build bits policy heap env A).result = .ok t)
    (hkey : policy.StoresKey) (calls : List (Call V)) :
    ∃ h r, t.run calls = .ok h ∧ h.table.bits = bits ∧ h.table.store.Holds policy.hash r ∧
      r.ids.Sublist h.issued ∧ h.issued.Nodup := by
  obtain ⟨h, r, hrun, hpolicy, hbits, hholds, horder⟩ :=
    (stops_or_holds_of_build hbuild calls).resolve_left fun hstop => hstop.2 hkey
  exact ⟨h, r, hrun, hbits, hpolicy ▸ hholds, horder⟩

end

end Table

end OrderedTable
