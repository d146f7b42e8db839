import OrderedTable.Proofs.Roster.Basic
import OrderedTable.Table.Call

/-!
# Ledgers

A `Ledger` is a table without arena, buckets and list: it has the policy and the environment of a
table, and its entries are one roster. Each operation is said on the roster alone. An insertion is
told the id that the new entry gets; where the ids come from is left open.
-/

namespace OrderedTable

/-- Entries with their ids, the oldest first, and what a table is built with. -/
structure Ledger (σ V : Type) where
  policy : Policy σ V
  /-- The number that the number of buckets is two to the power of. -/
  bits : Nat
  roster : Roster V := []
  env : σ

/-- What an operation on a ledger comes to. -/
structure Ledger.Outcome (σ V α : Type) where
  answer : α
  released : Roster V := []
  ledger : Ledger σ V

/-- What a history of calls on a ledger comes to. -/
structure Ledger.History (σ V : Type) where
  answers : List (Answer V) := []
  released : Roster V := []
  ledger : Ledger σ V

variable {σ V α β : Type}

/-! ## Policies -/

/-- The strategy stores the caller's key whenever it makes an entry. -/
def Policy.StoresKey (policy : Policy σ V) : Prop :=
  ∀ data key env e env', policy.populate policy.gate data key env = (.ok e, env') → e.key = key

theorem Policy.storesKey_of_copyKey {policy : Policy σ V} (h : policy.populate = Populate.copyKey) :
    policy.StoresKey := by
  intro data key env e env' hpopulate
  rw [h, Populate.copyKey] at hpopulate
  split at hpopulate
  · cases hpopulate
  · exact Entry.key_of_owned (congrArg Prod.fst hpopulate)

/-- Every key is copied, and memory is never refused. -/
def Policy.copying (hash : Key → UInt64) : Policy Unit V :=
  { hash, gate := Gate.always, populate := Populate.copyKey }

/-! ## Ledgers -/

/-- Whether the call may make an entry. -/
def Call.makesEntry : Call V → Bool
  | .insert .. | .insertDefault .. | .replace .. => true
  | _ => false

/-- The id of the entry that a call has made. -/
def Answer.issued? : Answer V → Option NodeId
  | .inserted (.ok new) => some new
  | _ => none

theorem Answer.filterMap_issued?_cons (answer : Answer V) (answers : List (Answer V)) :
    (answer :: answers).filterMap issued? = answer.issued?.toList ++ answers.filterMap issued? := by
  rw [List.filterMap_cons]
  cases answer.issued? <;> rfl

def Ledger.Outcome.map (f : α → β) (o : Ledger.Outcome σ V α) : Ledger.Outcome σ V β :=
  { answer := f o.answer, released := o.released, ledger := o.ledger }

namespace Ledger

/-- The newest entry in the key's bucket whose own key starts with `key`. -/
def find? (l : Ledger σ V) (key : Key) : Option (Member V) := l.roster.find? l.policy.hash l.bits key

theorem mem_of_find? {l : Ledger σ V} {key : Key} {m : Member V} (h : l.find? key = some m) :
    m ∈ l.roster := Roster.mem_of_find? h

/-! ## Inserting and removing -/

/-- Inserts an entry at the end, under the id `fresh`. -/
def insert (l : Ledger σ V) (fresh : NodeId) (data : V) (key : Key) :
    Outcome σ V (Except (Rejected V) NodeId) :=
  if maxKeyLength < key.length then
    { answer := .error ⟨.keyTooLong key.length, data⟩, ledger := l }
  else
    match l.policy.gate .entry l.env with
    | (.error cause, env) => { answer := .error ⟨.alloc cause, data⟩, ledger := { l with env } }
    | (.ok (), env) =>
      match l.policy.populate l.policy.gate data key env with
      | (.error rejected, env) => { answer := .error rejected, ledger := { l with env } }
      | (.ok entry, env) =>
        { answer := .ok fresh, ledger := { l with roster := l.roster ++ [⟨fresh, entry⟩], env } }

def eraseMember (l : Ledger σ V) : Option (Member V) → Outcome σ V Removal
  | some m =>
    { answer := .removed, released := [m], ledger := { l with roster := l.roster.without m.id } }
  | none => { answer := .notFound, ledger := l }

/-- Removes what `find?` finds, then inserts at the end. A key that is too long is turned away
before anything is removed. -/
def replace (l : Ledger σ V) (fresh : NodeId) (data : V) (key : Key) :
    Outcome σ V (Except (Rejected V) NodeId) :=
  if maxKeyLength < key.length then
    { answer := .error ⟨.keyTooLong key.length, data⟩, ledger := l }
  else
    let erased := l.eraseMember (l.find? key)
    let inserted := erased.ledger.insert fresh data key
    { inserted with released := erased.released ++ inserted.released }

/-- Keeps the entries that `keep` accepts and releases the others, the oldest first. -/
def retain (l : Ledger σ V) (keep : List (Entry V) → Entry V → Bool) :
    Outcome σ V (List (Entry V)) :=
  let (kept, dropped) := Roster.sift keep [] l.roster
  { answer := l.roster.entries, released := dropped, ledger := { l with roster := kept } }

def clear (l : Ledger σ V) : Outcome σ V Unit :=
  { answer := (), released := l.roster.byBucket l.policy.hash l.bits,
    ledger := { l with roster := [] } }

/-! ## Calls -/

def say (l : Ledger σ V) (answer : Answer V) : Outcome σ V (Answer V) := { answer, ledger := l }

/-- Makes a call. An entry that it makes gets the id `fresh`. -/
def call [Inhabited V] (l : Ledger σ V) (fresh : NodeId) : Call V → Outcome σ V (Answer V)
  | .insert data key => (l.insert fresh data key).map .inserted
  | .insertDefault key => (l.insert fresh default key).map .inserted
  | .replace data key => (l.replace fresh data key).map .inserted
  | .erase key => (l.eraseMember (l.find? key)).map .removal
  | .eraseId id => (l.eraseMember (l.roster.member? id)).map .removal
  | .eraseFirst => (l.eraseMember l.roster.head?).map .removal
  | .eraseLast => (l.eraseMember l.roster.getLast?).map .removal
  | .retain keep => (l.retain keep).map .seen
  | .clear => l.clear.map fun _ => .done
  | .find key => l.say (.id ((l.find? key).map Member.id))
  | .getByKey key => l.say (.entry ((l.find? key).map Member.entry))
  | .containsKey key => l.say (.truth (l.find? key).isSome)
  | .get id => l.say (.entry (l.roster.get? id))
  | .contains id => l.say (.truth (l.roster.get? id).isSome)
  | .firstId => l.say (.id (l.roster.head?.map Member.id))
  | .lastId => l.say (.id (l.roster.getLast?.map Member.id))
  | .first => l.say (.entry (l.roster.head?.map Member.entry))
  | .last => l.say (.entry (l.roster.getLast?.map Member.entry))
  | .iterate sides => l.say (.read (readEnds l.roster.entries sides))
  | .entries => l.say (.entries l.roster.entries)
  | .size => l.say (.count l.roster.length)
  | .isEmpty => l.say (.truth l.roster.isEmpty)
  | .occupancy => l.say (.occupancy (l.roster.occupancy l.policy.hash l.bits))
  | .collisionPercent => l.say (.count (if l.roster.isEmpty then 0
      else (l.roster.occupancy l.policy.hash l.bits).collisions * 100 / l.roster.length))

/-- Makes the calls one after the other, each with the id for the entry that it may make. -/
def run [Inhabited V] (l : Ledger σ V) : List (NodeId × Call V) → History σ V
  | [] => { ledger := l }
  | (fresh, c) :: calls =>
    let o := l.call fresh c
    let h := o.ledger.run calls
    { h with answers := o.answer :: h.answers, released := o.released ++ h.released }

/-! ## The order of insertion -/

variable {l : Ledger σ V} {fresh : NodeId}

/-- An insertion leaves the roster as it is, or an entry comes last. -/
theorem insert_cases (l : Ledger σ V) (fresh : NodeId) (data : V) (key : Key) :
    (∃ rejected, (l.insert fresh data key).answer = .error rejected ∧
      (l.insert fresh data key).ledger.roster = l.roster) ∨
    ∃ e, (l.policy.StoresKey → e.key = key) ∧ (l.insert fresh data key).answer = .ok fresh ∧
      (l.insert fresh data key).ledger.roster = l.roster ++ [⟨fresh, e⟩] := by
  unfold insert
  split
  · exact .inl ⟨_, rfl, rfl⟩
  split
  · exact .inl ⟨_, rfl, rfl⟩
  split
  · exact .inl ⟨_, rfl, rfl⟩
  next hpopulate => exact .inr ⟨_, fun hkey => hkey _ _ _ _ _ hpopulate, rfl, rfl⟩

theorem eraseMember_roster (l : Ledger σ V) (m : Option (Member V)) :
    (l.eraseMember m).ledger.roster.Sublist l.roster := by
  cases m with
  | none => exact .refl _
  | some m => exact List.filter_sublist

theorem eraseMember_policy (l : Ledger σ V) (m : Option (Member V)) :
    (l.eraseMember m).ledger.policy = l.policy := by
  cases m <;> rfl

theorem eraseMember_bits (l : Ledger σ V) (m : Option (Member V)) :
    (l.eraseMember m).ledger.bits = l.bits := by
  cases m <;> rfl

theorem eraseMember_env (l : Ledger σ V) (m : Option (Member V)) :
    (l.eraseMember m).ledger.env = l.env := by
  cases m <;> rfl

/-- A replacement that is turned away may still have removed an entry. -/
theorem replace_cases (l : Ledger σ V) (fresh : NodeId) (data : V) (key : Key) :
    (∃ rejected, (l.replace fresh data key).answer = .error rejected ∧
      (l.replace fresh data key).ledger.roster.Sublist l.roster) ∨
    ∃ e, (l.policy.StoresKey → e.key = key) ∧ (l.replace fresh data key).answer = .ok fresh ∧
      (l.replace fresh data key).ledger.roster =
        (l.eraseMember (l.find? key)).ledger.roster ++ [⟨fresh, e⟩] := by
  unfold replace
  split
  · exact .inl ⟨_, rfl, .refl _⟩
  · rw [← l.eraseMember_policy (l.find? key)]
    rcases insert_cases (l.eraseMember (l.find? key)).ledger fresh data key with
      ⟨rejected, hanswer, hroster⟩ | hnew
    · exact .inl ⟨rejected, hanswer, hroster.symm ▸ l.eraseMember_roster (l.find? key)⟩
    · exact .inr hnew

theorem ids_sublist_of_kept {r : Roster V} (ids : List NodeId) (h : r.Sublist l.roster) :
    r.ids.Sublist (l.roster.ids ++ ids) :=
  (h.map Member.id).trans (List.sublist_append_left _ _)

theorem insert_roster (data : V) (key : Key) : ((l.insert fresh data key).ledger.roster.ids).Sublist
    (l.roster.ids ++ (Answer.issued? (.inserted (l.insert fresh data key).answer)).toList) := by
  rcases l.insert_cases fresh data key with ⟨rejected, hanswer, hroster⟩ | ⟨e, -, hanswer, hroster⟩
  · exact ids_sublist_of_kept _ (hroster ▸ .refl _)
  · rw [hanswer, hroster, Roster.ids_append]
    exact .refl _

theorem replace_roster (data : V) (key : Key) :
    ((l.replace fresh data key).ledger.roster.ids).Sublist
    (l.roster.ids ++ (Answer.issued? (.inserted (l.replace fresh data key).answer)).toList) := by
  rcases l.replace_cases fresh data key with ⟨rejected, hanswer, hroster⟩ | ⟨e, -, hanswer, hroster⟩
  · exact ids_sublist_of_kept _ hroster
  · rw [hanswer, hroster, Roster.ids_append]
    exact .append_right ((l.eraseMember_roster _).map Member.id) _

/-- A call that makes no entry leaves some of the old ones. -/
theorem call_kept [Inhabited V] {c : Call V} (hc : c.makesEntry = false) :
    (l.call fresh c).ledger.roster.Sublist l.roster := by
  cases c with
  | insert | insertDefault | replace => exact nomatch hc
  | erase | eraseId | eraseFirst | eraseLast => exact l.eraseMember_roster _
  | retain keep => exact Roster.sift_sublist keep [] l.roster
  | clear => exact List.nil_sublist _
  | _ => exact .refl _

/-- Entries never change their order, and a new one comes last. -/
theorem call_roster [Inhabited V] (l : Ledger σ V) (fresh : NodeId) (c : Call V) :
    ((l.call fresh c).ledger.roster.ids).Sublist
      (l.roster.ids ++ (l.call fresh c).answer.issued?.toList) := by
  cases c with
  | insert data key => exact insert_roster data key
  | insertDefault key => exact insert_roster default key
  | replace data key => exact replace_roster data key
  | _ => exact ids_sublist_of_kept _ (call_kept rfl)

/-- So at any time they stand in the order in which they have been inserted. -/
theorem run_roster [Inhabited V] (l : Ledger σ V) (script : List (NodeId × Call V)) :
    ((l.run script).ledger.roster.ids).Sublist
      (l.roster.ids ++ (l.run script).answers.filterMap Answer.issued?) := by
  induction script generalizing l with
  | nil => exact List.sublist_append_left _ _
  | cons step script ih =>
    obtain ⟨fresh, c⟩ := step
    rw [run, Answer.filterMap_issued?_cons, ← List.append_assoc]
    exact (ih (l.call fresh c).ledger).trans ((call_roster l fresh c).append_right _)

end Ledger

end OrderedTable
