import OrderedTable.Proofs.Ledger.Run

/-!
# What comes in and what goes out

The entries that a history makes, with their ids, are its `Table.deposits`. Nothing else comes in,
and nothing leaves without being released: what a call has released and what it leaves are together
what was there before and what it has deposited (`Ledger.call_perm`). `Table.Balanced` says so of a
history, and `Table.Holds.exists_balance` proves it of all.
-/

namespace OrderedTable

variable {σ V A : Type} [Arena A (Node V)]

/-! ## Rosters -/

namespace Roster

variable {r : Roster V} {m : Member V}

theorem sift_perm (keep : List (Entry V) → Entry V → Bool) (seen : List (Entry V))
    (r : Roster V) : ((sift keep seen r).2 ++ (sift keep seen r).1).Perm r := by
  induction r generalizing seen with
  | nil => exact .nil
  | cons m rest ih =>
    by_cases hkeep : keep seen m.entry = true
    · simp only [sift, hkeep, if_true]
      exact List.perm_middle.trans ((ih _).cons m)
    · simp only [sift, hkeep]
      exact (ih _).cons m

theorem cons_without_perm (hnd : r.ids.Nodup) (hm : m ∈ r) : (m :: r.without m.id).Perm r := by
  obtain ⟨older, newer, rfl⟩ := List.append_of_mem hm
  rw [without_append_cons hnd]
  exact List.perm_middle.symm

end Roster

/-! ## One call on a ledger -/

namespace Ledger

variable {l : Ledger σ V} {fresh : NodeId}

/-- What an insertion stores under the id that it is told. -/
def inserted (l : Ledger σ V) (fresh : NodeId) (data : V) (key : Key) : Roster V :=
  ((l.policy.attempt data key l.env).1.toOption.map (Member.mk fresh)).toList

/-- What a call stores under the id that it is told. -/
def deposits [Inhabited V] (l : Ledger σ V) (fresh : NodeId) (c : Call V) : Roster V :=
  ((l.policy.make? l.env c).map (Member.mk fresh)).toList

theorem mem_deposits [Inhabited V] {c : Call V} {m : Member V} :
    m ∈ l.deposits fresh c ↔ m.id = fresh ∧ l.policy.make? l.env c = some m.entry := by
  rw [deposits, Option.mem_toList, Option.map_eq_some_iff]
  constructor
  · rintro ⟨e, hmake, rfl⟩
    exact ⟨rfl, hmake⟩
  · rintro ⟨rfl, hmake⟩
    exact ⟨m.entry, hmake, rfl⟩

theorem insert_released (data : V) (key : Key) : (l.insert fresh data key).released = [] := by
  rw [insert_eq]
  rcases l.policy.attempt data key l.env with ⟨rejected | entry, env⟩ <;> rfl

theorem insert_roster_eq (data : V) (key : Key) : (l.insert fresh data key).ledger.roster =
    l.roster ++ l.inserted fresh data key := by
  rw [insert_eq, inserted]
  rcases l.policy.attempt data key l.env with ⟨rejected | entry, env⟩
  · exact (List.append_nil _).symm
  · rfl

theorem insert_issued? (data : V) (key : Key) :
    Answer.issued? (.inserted (l.insert fresh data key).answer : Answer V) =
      (l.policy.attempt data key l.env).1.toOption.map fun _ => fresh := by
  rw [insert_eq]
  rcases l.policy.attempt data key l.env with ⟨rejected | entry, env⟩ <;> rfl

theorem insert_perm (data : V) (key : Key) :
    ((l.insert fresh data key).released ++ (l.insert fresh data key).ledger.roster).Perm
      (l.roster ++ l.inserted fresh data key) := by
  rw [insert_released, insert_roster_eq]
  exact .refl _

theorem eraseMember_perm (hnd : l.roster.ids.Nodup) {m : Option (Member V)}
    (hm : ∀ x, m = some x → x ∈ l.roster) :
    ((l.eraseMember m).released ++ (l.eraseMember m).ledger.roster).Perm l.roster := by
  cases m with
  | none => exact .refl _
  | some m => exact Roster.cons_without_perm hnd (hm m rfl)

/-- What is removed to make room for an entry does not depend on there being one. -/
theorem replace_of_le {data : V} {key : Key} (h : key.length ≤ maxKeyLength) :
    l.replace fresh data key =
      { (l.eraseMember (l.find? key)).ledger.insert fresh data key with
        released := (l.eraseMember (l.find? key)).released } := by
  rw [replace, if_neg (Nat.not_lt_of_le h)]
  simp only [insert_released, List.append_nil]

theorem inserted_of_tooLong {data : V} {key : Key} (h : maxKeyLength < key.length) :
    l.inserted fresh data key = [] := by
  rw [inserted, Policy.attempt_of_tooLong h]
  rfl

theorem inserted_eraseMember (m : Option (Member V)) (data : V) (key : Key) :
    (l.eraseMember m).ledger.inserted fresh data key = l.inserted fresh data key := by
  rw [inserted, eraseMember_policy, eraseMember_env, inserted]

theorem replace_perm (hnd : l.roster.ids.Nodup) (data : V) (key : Key) :
    ((l.replace fresh data key).released ++ (l.replace fresh data key).ledger.roster).Perm
      (l.roster ++ l.inserted fresh data key) := by
  rcases Nat.lt_or_ge maxKeyLength key.length with hlong | hlength
  · rw [replace, if_pos hlong, inserted_of_tooLong hlong, List.append_nil]
    exact .refl _
  · rw [replace_of_le hlength]
    dsimp only
    rw [insert_roster_eq, inserted_eraseMember, ← List.append_assoc]
    exact (eraseMember_perm hnd fun _ => mem_of_find?).append_right _

theorem replace_issued? (data : V) (key : Key) :
    Answer.issued? (.inserted (l.replace fresh data key).answer : Answer V) =
      (l.policy.attempt data key l.env).1.toOption.map fun _ => fresh := by
  rcases Nat.lt_or_ge maxKeyLength key.length with hlong | hlength
  · rw [replace, if_pos hlong, Policy.attempt_of_tooLong hlong]
    rfl
  · rw [replace_of_le hlength]
    dsimp only
    rw [insert_issued?, eraseMember_policy, eraseMember_env]

variable [Inhabited V]

/-- A call is answered with an id if an entry is made for it, and only then. -/
theorem call_issued? (c : Call V) :
    (l.call fresh c).answer.issued? = (l.policy.make? l.env c).map fun _ => fresh := by
  cases c with
  | insert data key => exact insert_issued? data key
  | insertDefault key => exact insert_issued? default key
  | replace data key => exact replace_issued? data key
  | _ => rfl

/-- What a call has released and what it leaves are together what was there and what it stores. -/
theorem call_perm (hnd : l.roster.ids.Nodup) (fresh : NodeId) (c : Call V) :
    ((l.call fresh c).released ++ (l.call fresh c).ledger.roster).Perm
      (l.roster ++ l.deposits fresh c) := by
  -- Only the first three store something.
  cases c with
  | insert data key => exact insert_perm data key
  | insertDefault key => exact insert_perm default key
  | replace data key => exact replace_perm hnd data key
  | erase key =>
    exact (eraseMember_perm hnd fun _ => mem_of_find?).trans (.of_eq (List.append_nil _).symm)
  | eraseId id =>
    refine (eraseMember_perm hnd fun m hm => ?_).trans (.of_eq (List.append_nil _).symm)
    exact (Roster.mem_of_member? hm).1
  | eraseFirst =>
    refine (eraseMember_perm hnd fun m hm => ?_).trans (.of_eq (List.append_nil _).symm)
    exact List.mem_of_mem_head? hm
  | eraseLast =>
    refine (eraseMember_perm hnd fun m hm => ?_).trans (.of_eq (List.append_nil _).symm)
    exact List.mem_of_mem_getLast? hm
  | retain keep => exact (Roster.sift_perm keep [] l.roster).trans (.of_eq (List.append_nil _).symm)
  | clear =>
    refine .trans ?_ (.of_eq (List.append_nil _).symm)
    exact (List.append_nil _).symm ▸ Roster.byBucket_perm
  | _ => exact .of_eq (List.append_nil _).symm

/-- Entries keep their order, and what a call stores comes last. -/
theorem call_sublist (fresh : NodeId) (c : Call V) :
    (l.call fresh c).ledger.roster.Sublist (l.roster ++ l.deposits fresh c) := by
  cases c with
  | insert data key => exact (insert_roster_eq data key).symm ▸ .refl _
  | insertDefault key => exact (insert_roster_eq (default : V) key).symm ▸ .refl _
  | replace data key =>
    change (l.replace fresh data key).ledger.roster.Sublist (l.roster ++ l.inserted fresh data key)
    rcases Nat.lt_or_ge maxKeyLength key.length with hlong | hlength
    · rw [replace, if_pos hlong]
      exact List.sublist_append_left _ _
    · rw [replace_of_le hlength]
      dsimp only
      rw [insert_roster_eq, inserted_eraseMember]
      exact (l.eraseMember_roster _).append_right _
  | _ => exact (call_kept rfl).trans (List.sublist_append_left _ _)

end Ledger

/-! ## Histories of a table -/

namespace Table

variable [Inhabited V]

/-- What a call has stored, given its answer: the entry that was made for it, under the id that it
is answered with. A call that is turned away has stored nothing. -/
def deposit? (t : Table σ V A) (c : Call V) (answer : Answer V) : Option (Member V) :=
  match answer.issued?, t.policy.make? t.env c with
  | some id, some entry => some ⟨id, entry⟩
  | _, _ => none

/-- What calls that are made one after the other store. -/
def deposits (t : Table σ V A) : List (Call V) → Except Fault (Roster V)
  | [] => pure []
  | c :: calls => do
    let o ← t.call c
    let later ← o.table.deposits calls
    pure ((t.deposit? c o.answer).toList ++ later)

/-- Somewhere in the history of the calls, one is answered with the id of the entry that has been
made for it. -/
inductive Accepts (t : Table σ V A) (calls : List (Call V)) (m : Member V) : Prop
  | intro {before c h o} (hbefore : before ++ [c] <+: calls) (hrun : t.run before = .ok h)
    (hmake : h.table.policy.make? h.table.env c = some m.entry) (hcall : h.table.call c = .ok o)
    (hanswer : o.answer = .inserted (.ok m.id))

/-- A history from `t` on, which holds `r`, has deposited `ms` and leaves `r'`. -/
structure Balanced (t : Table σ V A) (calls : List (Call V)) (r : Roster V) (h : History σ V A)
    (ms r' : Roster V) : Prop where
  perm : (h.released.map Departure.member ++ r').Perm (r ++ ms)
  order : r'.Sublist (r ++ ms)
  issued : ms.ids = h.issued
  accepts : ∀ m ∈ ms, t.Accepts calls m
  left : ∀ d ∈ h.released, d.Left t.policy.hash
  holds : h.table.Holds r'
  policy : h.table.policy = t.policy

variable {t : Table σ V A} {r : Roster V} {c : Call V} {calls : List (Call V)} {m : Member V}

theorem run_cons {o : Outcome σ V (Answer V) A} {h : History σ V A} (hcall : t.call c = .ok o)
    (hrun : o.table.run calls = .ok h) : t.run (c :: calls) =
      .ok { h with answers := o.answer :: h.answers, released := o.released ++ h.released } := by
  rw [run, hcall, ok_bind, hrun]
  rfl

theorem exists_of_run_cons (hrun : t.run (c :: calls) = .ok h) :
    ∃ o h', t.call c = .ok o ∧ o.table.run calls = .ok h' ∧
      h = { h' with answers := o.answer :: h'.answers, released := o.released ++ h'.released } := by
  obtain ⟨o, hcall, hrun⟩ := bind_eq_ok_iff.1 hrun
  obtain ⟨h', hrun, hh⟩ := bind_eq_ok_iff.1 hrun
  exact ⟨o, h', hcall, hrun, (Except.ok.inj hh).symm⟩

theorem Accepts.cons {o : Outcome σ V (Answer V) A} (hcall : t.call c = .ok o)
    (h : o.table.Accepts calls m) : t.Accepts (c :: calls) m := by
  obtain ⟨hbefore, hrun, hmake, hcall', hanswer⟩ := h
  exact .intro (List.cons_prefix_cons.2 ⟨rfl, hbefore⟩) (run_cons hcall hrun) hmake hcall' hanswer

theorem Refines.issued?_eq {o : Outcome σ V (Answer V) A} {fresh : NodeId}
    (href : t.Refines o ((t.ledger r).call fresh c)) :
    o.answer.issued? = (t.policy.make? t.env c).map fun _ => fresh :=
  (congrArg Answer.issued? href.answer).trans (Ledger.call_issued? c)

theorem Refines.deposit?_eq {o : Outcome σ V (Answer V) A} {fresh : NodeId}
    (href : t.Refines o ((t.ledger r).call fresh c)) :
    t.deposit? c o.answer = (t.policy.make? t.env c).map (Member.mk fresh) := by
  rw [deposit?, href.issued?_eq]
  cases t.policy.make? t.env c <;> rfl

theorem accepts_of_deposit? {o : Outcome σ V (Answer V) A} (hcall : t.call c = .ok o)
    (hm : t.deposit? c o.answer = some m) : t.Accepts (c :: calls) m := by
  rw [deposit?] at hm
  split at hm
  next id entry hissued hmake =>
    cases hm
    have hbefore : [] ++ [c] <+: c :: calls := List.cons_prefix_cons.2 ⟨rfl, List.nil_prefix⟩
    refine .intro hbefore rfl hmake hcall ?_
    cases hanswer : o.answer with
    | inserted result =>
      cases result with
      | ok id' =>
        rw [hanswer] at hissued
        rw [show id' = id from Option.some.inj hissued]
      | error rejected => exact nomatch hanswer ▸ hissued
    | _ => exact nomatch hanswer ▸ hissued
  · cases hm

/-- One call more, before the others. -/
theorem Balanced.cons {o : Outcome σ V (Answer V) A} {fresh : NodeId} {h' : History σ V A}
    {ms r' : Roster V} (hnd : r.ids.Nodup) (hcall : t.call c = .ok o)
    (href : t.Refines o ((t.ledger r).call fresh c))
    (h : o.table.Balanced calls ((t.ledger r).call fresh c).ledger.roster h' ms r') :
    t.Balanced (c :: calls) r
      { h' with answers := o.answer :: h'.answers, released := o.released ++ h'.released }
      ((t.deposit? c o.answer).toList ++ ms) r' := by
  have hdeposit : (t.ledger r).deposits fresh c = (t.deposit? c o.answer).toList := by
    rw [href.deposit?_eq]
    rfl
  constructor
  case perm =>
    have hstep := (t.ledger r).call_perm hnd fresh c
    rw [← href.released.members, hdeposit] at hstep
    have hlater := h.perm.append_left (o.released.map Departure.member)
    rw [← List.append_assoc, ← List.append_assoc, ← List.map_append] at hlater
    rw [← List.append_assoc]
    exact hlater.trans (hstep.append_right ms)
  case order =>
    have hstep := (t.ledger r).call_sublist fresh c
    rw [hdeposit] at hstep
    rw [← List.append_assoc]
    exact h.order.trans (hstep.append_right ms)
  case issued =>
    change _ = (o.answer :: h'.answers).filterMap Answer.issued?
    rw [Roster.ids_append, h.issued, Answer.filterMap_issued?_cons, href.deposit?_eq,
      href.issued?_eq]
    cases t.policy.make? t.env c <;> rfl
  case accepts =>
    intro m hm
    rcases List.mem_append.1 hm with hm | hm
    · exact accepts_of_deposit? hcall (Option.mem_toList.1 hm)
    · exact (h.accepts m hm).cons hcall
  case left =>
    intro d hd
    rcases List.mem_append.1 hd with hd | hd
    · exact href.released.left d hd
    · exact href.policy ▸ h.left d hd
  case holds => exact h.holds
  case policy => exact h.policy.trans href.policy

variable [LawfulArena A (Node V)]

theorem Holds.exists_balance (h : t.Holds r) (calls : List (Call V)) :
    t.policy.Stops (t.run calls) ∨ ∃ h' ms r', t.run calls = .ok h' ∧ t.deposits calls = .ok ms ∧
      t.Balanced calls r h' ms r' := by
  induction calls generalizing t r with
  | nil =>
    exact .inr ⟨_, [], r, rfl, rfl, .of_eq (List.append_nil _).symm,
      List.sublist_append_left _ _, rfl, by simp, by simp, h, rfl⟩
  | cons c calls ih =>
    by_cases hc : t.Strays c
    · rw [run, call_of_strays h hc]
      obtain ⟨data, key, -, hstrays⟩ := hc
      exact .inl (Policy.stops_of_strays hstrays)
    obtain ⟨fresh, o, hcall, href, -⟩ := exists_call h c hc
    rcases ih href.holds with ⟨hstop, hkey⟩ | ⟨h', ms, r', hrun, hms, hbal⟩
    · rw [run, hcall, ok_bind, hstop]
      exact .inl ⟨rfl, href.policy ▸ hkey⟩
    refine .inr ⟨_, _, r', run_cons hcall hrun, ?_, hbal.cons h.nodup hcall href⟩
    rw [deposits, hcall, ok_bind, hms]
    rfl

theorem exists_balance_of_build {bits : UInt32} {policy : Policy σ V} {heap : Heap} {env : σ}
    (hbuild : (build bits policy heap env A).result = .ok t)
    (calls : List (Call V)) : policy.Stops (t.run calls) ∨ ∃ h ms r, t.run calls = .ok h ∧
      t.deposits calls = .ok ms ∧ t.Balanced calls [] h ms r ∧ h.issued.Nodup := by
  have hempty : t.Holds [] := holds_of_build hbuild
  have hpolicy : t.policy = policy := congrArg Table.policy (eq_empty_of_build hbuild)
  rw [← hpolicy]
  rcases hempty.exists_balance calls with hstop | ⟨h, ms, r, hrun, hms, hbal⟩
  · exact .inl hstop
  rcases hempty.run_cases calls with hstop | ⟨h', script, -, hrun', -, hissues⟩
  · exact .inl hstop
  · obtain rfl := Except.ok.inj (hrun.symm.trans hrun')
    exact .inr ⟨h, ms, r, hrun, hms, hbal, hissues.nodup⟩

end Table

end OrderedTable
