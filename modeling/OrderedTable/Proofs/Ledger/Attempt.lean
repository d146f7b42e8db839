import OrderedTable.Proofs.Ledger.Basic

/-!
# Making an entry

An insertion first makes its entry, by `Policy.attempt`, and then stores it. Three stages may turn
it away before there is an entry, one after the other, and `Policy.Refuses` says which of them has
done so, with what error. Only then does the table come into play: `Table.insert_eq` and
`Ledger.insert_eq` say what it does with the entry.

A strategy that makes an entry under another key than the caller's `Strays`. The table stops there,
at a debug assertion; where the strategy stores the caller's key, that never happens.
-/

namespace OrderedTable

variable {σ V A α : Type} [Arena A (Node V)]

namespace Policy

/-- The entry for an insertion, or why there is none, with the state that gate and strategy are in
afterwards. -/
def attempt (policy : Policy σ V) (data : V) (key : Key) (env : σ) :
    Except (Rejected V) (Entry V) × σ :=
  if maxKeyLength < key.length then (.error ⟨.keyTooLong key.length, data⟩, env)
  else
    match policy.gate .entry env with
    | (.error cause, env) => (.error ⟨.alloc cause, data⟩, env)
    | (.ok (), env) => policy.populate policy.gate data key env

/-- An insertion is turned away, by the first of three stages that fails: the length of the key is
looked at, the gate is asked for the entry, the strategy is called. The last index is the state
that is left; what has not been asked has not changed it. -/
inductive Refuses (policy : Policy σ V) (data : V) (key : Key) (env : σ) : Rejected V → σ → Prop
  | tooLong (hlong : maxKeyLength < key.length) :
    Refuses policy data key env ⟨.keyTooLong key.length, data⟩ env
  | gate {cause env'} (hlength : key.length ≤ maxKeyLength)
    (hgate : policy.gate .entry env = (.error cause, env')) :
    Refuses policy data key env ⟨.alloc cause, data⟩ env'
  | strategy {env₁ rejected env'} (hlength : key.length ≤ maxKeyLength)
    (hgate : policy.gate .entry env = (.ok (), env₁))
    (hpopulate : policy.populate policy.gate data key env₁ = (.error rejected, env')) :
    Refuses policy data key env rejected env'

/-- The strategy makes an entry for this insertion, under another key than it was given. -/
def Strays (policy : Policy σ V) (data : V) (key : Key) (env : σ) : Prop :=
  ∃ e env', policy.attempt data key env = (.ok e, env') ∧ e.key ≠ key

/-- The operation stops where the strategy strays. What stops it is a debug assertion, so a result
that has this as its other case is about builds with the assertion. Where the strategy stores the
caller's key the assertion never fails (`StoresKey.not_strays`), and the result is about all
builds. -/
def Stops (policy : Policy σ V) (x : Except Fault α) : Prop :=
  x = .error .foreignKey ∧ ¬ policy.StoresKey

variable {policy : Policy σ V} {data : V} {key : Key} {env env' : σ} {rejected : Rejected V}

theorem attempt_of_tooLong (h : maxKeyLength < key.length) :
    policy.attempt data key env = (.error ⟨.keyTooLong key.length, data⟩, env) := if_pos h

theorem attempt_of_le (h : key.length ≤ maxKeyLength) : policy.attempt data key env =
    match policy.gate .entry env with
    | (.error cause, env) => (.error ⟨.alloc cause, data⟩, env)
    | (.ok (), env) => policy.populate policy.gate data key env := if_neg (Nat.not_lt_of_le h)

theorem attempt_eq_error_iff : policy.attempt data key env = (.error rejected, env') ↔
    policy.Refuses data key env rejected env' := by
  constructor
  · intro h
    rcases Nat.lt_or_ge maxKeyLength key.length with hlong | hlength
    · rw [attempt_of_tooLong hlong] at h
      cases h
      exact .tooLong hlong
    · rw [attempt_of_le hlength] at h
      rcases hgate : policy.gate .entry env with ⟨cause | ⟨⟩, env₁⟩
      · rw [hgate] at h
        cases h
        exact .gate hlength hgate
      · rw [hgate] at h
        exact .strategy hlength hgate h
  · intro h
    cases h with
    | tooLong hlong => exact attempt_of_tooLong hlong
    | gate hlength hgate => rw [attempt_of_le hlength, hgate]
    | strategy hlength hgate hpopulate =>
      rw [attempt_of_le hlength, hgate]
      exact hpopulate

/-- A strategy is called only with a key that is short enough and when the gate has granted the
entry. -/
theorem exists_populate_of_attempt {e : Entry V} (h : policy.attempt data key env = (.ok e, env')) :
    ∃ env₁, policy.populate policy.gate data key env₁ = (.ok e, env') := by
  rcases Nat.lt_or_ge maxKeyLength key.length with hlong | hlength
  · rw [attempt_of_tooLong hlong] at h
    cases h
  · rw [attempt_of_le hlength] at h
    rcases hgate : policy.gate .entry env with ⟨cause | ⟨⟩, env₁⟩
    · rw [hgate] at h
      cases h
    · rw [hgate] at h
      exact ⟨env₁, h⟩

theorem StoresKey.not_strays (h : policy.StoresKey) : ¬ policy.Strays data key env := by
  rintro ⟨e, env', hattempt, hne⟩
  obtain ⟨env₁, hpopulate⟩ := exists_populate_of_attempt hattempt
  exact hne (h data key env₁ e env' hpopulate)

theorem stops_of_strays (h : policy.Strays data key env) :
    policy.Stops (.error .foreignKey : Except Fault α) :=
  ⟨rfl, fun hkey => hkey.not_strays h⟩

/-- Copying a key, the strategy hands the caller's data back when it fails. -/
theorem Refuses.data_eq (h : policy.Refuses data key env rejected env')
    (hcopy : policy.populate = Populate.copyKey) : rejected.data = data := by
  cases h with
  | tooLong | gate => rfl
  | strategy hlength hgate hpopulate =>
    obtain ⟨e, howned⟩ := Entry.exists_owned_of_le hlength data
    rw [hcopy, Populate.copyKey, howned] at hpopulate
    split at hpopulate
    · cases hpopulate
      rfl
    · cases hpopulate

end Policy

/-! ## Calls that make an entry -/

section

variable [Inhabited V]

/-- What a call is to store, and under which key. -/
def Call.stores? : Call V → Option (V × Key)
  | .insert data key => some (data, key)
  | .insertDefault key => some (default, key)
  | .replace data key => some (data, key)
  | _ => none

/-- The entry that is made for a call, if it is to make one and is not turned away. -/
def Policy.make? (policy : Policy σ V) (env : σ) (c : Call V) : Option (Entry V) :=
  c.stores?.bind fun (data, key) => (policy.attempt data key env).1.toOption

/-- The strategy makes an entry for the call under another key than it was given. -/
def Table.Strays (t : Table σ V A) (c : Call V) : Prop :=
  ∃ data key, c.stores? = some (data, key) ∧ t.policy.Strays data key t.env

omit [Arena A (Node V)] in
theorem Table.not_strays {t : Table σ V A} (hkey : t.policy.StoresKey) (c : Call V) :
    ¬ t.Strays c := by
  rintro ⟨data, key, -, hstrays⟩
  exact hkey.not_strays hstrays

end

/-! ## What becomes of the entry -/

/-- Stores the entry that has been made for `key`. -/
def Table.settle (t : Table σ V A) (key : Key) (entry : Entry V) (env : σ) :
    Except Fault (Outcome σ V (Except (Rejected V) NodeId) A) := do
  ensure (entry.key = key) .foreignKey
  let (id, store) ← t.store.attach (t.policy.hash key) entry
  pure { answer := .ok id, table := { t with store, env } }

theorem Table.insert_eq (t : Table σ V A) (data : V) (key : Key) : t.insert data key =
    match t.policy.attempt data key t.env with
    | (.error rejected, env) => .ok { answer := .error rejected, table := { t with env } }
    | (.ok entry, env) => t.settle key entry env := by
  rcases Nat.lt_or_ge maxKeyLength key.length with hlong | hlength
  · rw [insert, if_pos hlong, Policy.attempt_of_tooLong hlong]
    rfl
  · rw [insert, if_neg (Nat.not_lt_of_le hlength), Policy.attempt_of_le hlength]
    rcases t.policy.gate .entry t.env with ⟨cause | ⟨⟩, env⟩
    · rfl
    · dsimp only
      rcases t.policy.populate t.policy.gate data key env with ⟨rejected | entry, env'⟩ <;> rfl

theorem Ledger.insert_eq (l : Ledger σ V) (fresh : NodeId) (data : V) (key : Key) :
    l.insert fresh data key =
      match l.policy.attempt data key l.env with
      | (.error rejected, env) => { answer := .error rejected, ledger := { l with env } }
      | (.ok entry, env) =>
        { answer := .ok fresh
          ledger := { l with roster := l.roster ++ [⟨fresh, entry⟩], env } } := by
  rcases Nat.lt_or_ge maxKeyLength key.length with hlong | hlength
  · rw [insert, if_pos hlong, Policy.attempt_of_tooLong hlong]
  · rw [insert, if_neg (Nat.not_lt_of_le hlength), Policy.attempt_of_le hlength]
    rcases l.policy.gate .entry l.env with ⟨cause | ⟨⟩, env⟩
    · rfl
    · rcases hpopulate : l.policy.populate l.policy.gate data key env with
        ⟨rejected | entry, env'⟩
      · simp only [hpopulate]
      · simp only [hpopulate]

end OrderedTable
