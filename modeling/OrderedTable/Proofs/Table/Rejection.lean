import OrderedTable.Allocation.Script
import OrderedTable.Proofs.Ledger.Balance

/-!
# What a failed insertion leaves

`Policy.Refuses` says when an insertion is turned away, and with what error. A table that turns one
away is as it was before, and a failed replacement has done what an erasure does: see
`Table.FailsCleanly`, which holds of every table that comes out of a history
(`Table.run_failsCleanly`).
-/

namespace OrderedTable

variable {σ V A : Type} [Arena A (Node V)]

namespace Table

/-- The insertion `x` of the data on `t` is answered with an error if the policy refuses the entry,
and only then. Of the table it has then changed the state of gate and strategy, as far as they have
been asked, and what is told by `released` and `store`. -/
def FailsWith (t : Table σ V A) (data : V) (key : Key)
    (x : Except Fault (Outcome σ V (Except (Rejected V) NodeId) A))
    (released : List (Departure V A)) (store : Store V A) : Prop :=
  ∀ rejected o, (x = .ok o ∧ o.answer = .error rejected) ↔
    ∃ env, t.policy.Refuses data key t.env rejected env ∧
      o = { answer := .error rejected, released, table := { t with store, env } }

/-- What failed insertions leave of the table. -/
structure FailsCleanly [Inhabited V] (t : Table σ V A) (data : V) (key : Key) : Prop where
  insert : t.FailsWith data key (t.insert data key) [] t.store
  insertDefault : t.FailsWith default key (t.insertDefault key) [] t.store
  /-- A replacement under a key that is too long asks for nothing and removes nothing. -/
  replace_of_tooLong : maxKeyLength < key.length → t.replace data key =
    .ok { answer := .error ⟨.keyTooLong key.length, data⟩, table := t }
  /-- All that any other one does to the entries is to erase the key. -/
  replace : key.length ≤ maxKeyLength → ∃ erased, t.erase key = .ok erased ∧
    erased.released.length ≤ 1 ∧ erased.table.policy = t.policy ∧ erased.table.env = t.env ∧
    t.FailsWith data key (t.replace data key) erased.released erased.table.store
  /-- The caller gets the data back when keys are copied. -/
  data_eq : t.policy.populate = Populate.copyKey → ∀ data rejected env,
    t.policy.Refuses data key t.env rejected env → rejected.data = data

variable {t : Table σ V A} {r : Roster V} {data : V} {key : Key}

theorem exists_id_of_settle {entry : Entry V} {env : σ}
    {o : Outcome σ V (Except (Rejected V) NodeId) A} (h : t.settle key entry env = .ok o) :
    ∃ id, o.answer = .ok id := by
  rw [settle] at h
  obtain ⟨-, -, h⟩ := bind_eq_ok_iff.1 h
  obtain ⟨⟨id, store⟩, -, h⟩ := bind_eq_ok_iff.1 h
  cases h
  exact ⟨id, rfl⟩

theorem failsWith_insert (t : Table σ V A) (data : V) (key : Key) :
    t.FailsWith data key (t.insert data key) [] t.store := by
  intro rejected o
  rw [insert_eq]
  constructor
  · rintro ⟨hinsert, hanswer⟩
    rcases hattempt : t.policy.attempt data key t.env with ⟨rejected' | entry, env⟩
    · rw [hattempt] at hinsert
      cases hinsert
      cases hanswer
      exact ⟨env, Policy.attempt_eq_error_iff.1 hattempt, rfl⟩
    · rw [hattempt] at hinsert
      obtain ⟨id, hid⟩ := exists_id_of_settle hinsert
      exact nomatch hanswer.symm.trans hid
  · rintro ⟨env, hrefuses, rfl⟩
    rw [Policy.attempt_eq_error_iff.2 hrefuses]
    exact ⟨rfl, rfl⟩

/-- An error of the insertion is one of the replacement. -/
theorem failsWith_replace {erased : Outcome σ V Removal A} (hlength : key.length ≤ maxKeyLength)
    (herase : t.erase key = .ok erased) (hpolicy : erased.table.policy = t.policy)
    (henv : erased.table.env = t.env) :
    t.FailsWith data key (t.replace data key) erased.released erased.table.store := by
  intro rejected o
  have hinsert := failsWith_insert erased.table data key rejected
  rw [replace, if_neg (Nat.not_lt_of_le hlength), herase, ok_bind]
  constructor
  · rintro ⟨hreplace, hanswer⟩
    obtain ⟨inserted, hinserted, hreplace⟩ := bind_eq_ok_iff.1 hreplace
    cases hreplace
    obtain ⟨env, hrefuses, rfl⟩ := (hinsert inserted).1 ⟨hinserted, hanswer⟩
    rw [hpolicy, henv] at hrefuses
    refine ⟨env, hrefuses, ?_⟩
    rw [List.append_nil, hpolicy]
  · rintro ⟨env, hrefuses, rfl⟩
    rw [← hpolicy, ← henv] at hrefuses
    obtain ⟨hinserted, -⟩ := (hinsert _).2 ⟨env, hrefuses, rfl⟩
    rw [hinserted, ok_bind, List.append_nil, hpolicy]
    exact ⟨rfl, rfl⟩

variable [Inhabited V] [LawfulArena A (Node V)]

theorem Holds.failsCleanly (h : t.Holds r) (data : V) (key : Key) : t.FailsCleanly data key where
  insert := failsWith_insert t data key
  insertDefault := failsWith_insert t default key
  replace_of_tooLong hlong := if_pos hlong
  replace hlength := by
    obtain ⟨erased, herase, href, henv⟩ := exists_erase_env h key
    refine ⟨erased, herase, ?_, href.policy, henv, failsWith_replace hlength herase href.policy henv⟩
    have hreleased := congrArg List.length href.released.members
    rw [List.length_map] at hreleased
    rw [hreleased]
    cases (t.ledger r).find? key with
    | none => exact Nat.zero_le 1
    | some m => exact Nat.le_refl 1
  data_eq hcopy _ _ _ hrefuses := hrefuses.data_eq hcopy

variable {bits : UInt32} {policy : Policy σ V} {heap : Heap} {env : σ}

/-- An insertion fails cleanly, and for the reasons that `Policy.Refuses` gives, whatever has been
done to the table. A strategy that makes an entry under a foreign key stops the history there. -/
theorem run_failsCleanly (hbuild : (build bits policy heap env A).result = .ok t)
    (calls : List (Call V)) : policy.Stops (t.run calls) ∨
      ∃ h, t.run calls = .ok h ∧ h.table.policy = policy ∧
        ∀ data key, h.table.FailsCleanly data key := by
  rcases exists_balance_of_build hbuild calls with hstop | ⟨h, ms, r, hrun, -, hbal, -⟩
  · exact .inl hstop
  obtain rfl := eq_empty_of_build hbuild
  exact .inr ⟨h, hrun, hbal.policy, hbal.holds.failsCleanly⟩

/-- The gate stops granting requests with the buffer for the second key. -/
theorem run_failsCleanly_ofBudget :
    let policy : Policy Rehearsal Nat :=
      { hash := fun _ => 0, gate := Rehearsal.gate, populate := Populate.copyKey }
    let opening := build 0 policy .ofProcess { script := .ofBudget 6 }
    let t := empty policy 0 opening.env
    let calls : List (Call Nat) := [.insert 1 [97], .insert 2 [98], .replace 3 [97]]
    opening.result = .ok t ∧ ∃ h, t.run calls = .ok h ∧ h.table.policy = policy ∧
      ∀ data key, h.table.FailsCleanly data key := by
  intro policy opening t calls
  have hbuild : opening.result = .ok t := rfl
  have hkey : policy.StoresKey := Policy.storesKey_of_copyKey rfl
  exact ⟨hbuild, (run_failsCleanly hbuild calls).resolve_left fun hstop => hstop.2 hkey⟩

end Table

end OrderedTable
