import OrderedTable.Proofs.Ledger.Renaming
import OrderedTable.Proofs.Table.Turns

/-!
# Shelves

A `Shelf` has the entries of one bucket, the newest first. Where keys are copied and memory is never
refused, an operation that is given a key looks only at the shelf that the key belongs to, and
changes only that one: `Shelf.call` says what it does there, and `Ledger.call_onShelf` that this is
all.
-/

namespace OrderedTable

variable {σ V : Type}

/-! ## One bucket -/

/-- The entries of one bucket, the newest first. -/
abbrev Shelf (V : Type) := List (Entry V)

namespace Shelf

/-- What a call comes to on one shelf. -/
structure Outcome (V : Type) where
  verdict? : Option (Verdict V) := none
  released : List (Entry V) := []
  shelf : Shelf V

/-- Puts an entry in front, unless its key is too long. -/
def insert (shelf : Shelf V) (data : V) (key : Key) : Outcome V :=
  match Entry.owned key data with
  | .ok e => { verdict? := some .stored, shelf := e :: shelf }
  | .error rejected => { verdict? := some (.rejected rejected), shelf }

/-- Removes the newest entry whose own key starts with `key`. -/
def erase (shelf : Shelf V) (key : Key) : Outcome V :=
  match List.find? (fun e => e.answersTo key) shelf with
  | some e =>
    { verdict? := some (.removal .removed)
      released := [e]
      shelf := List.eraseP (fun e => e.answersTo key) shelf }
  | none => { verdict? := some (.removal .notFound), shelf }

def replace (shelf : Shelf V) (data : V) (key : Key) : Outcome V :=
  if maxKeyLength < key.length then
    { verdict? := some (.rejected ⟨.keyTooLong key.length, data⟩), shelf }
  else
    { (shelf.erase key).shelf.insert data key with released := (shelf.erase key).released }

variable [Inhabited V]

/-- A call that is not to change what is under a key leaves the shelf as it is. -/
def call (shelf : Shelf V) : Call V → Outcome V
  | .insert data key => shelf.insert data key
  | .insertDefault key => shelf.insert default key
  | .replace data key => shelf.replace data key
  | .erase key => shelf.erase key
  | _ => { shelf }

/-- Makes the calls one after the other: what has come of each, and the shelf from then on. -/
def run (shelf : Shelf V) : List (Call V) → List (Turn V) × Shelf V
  | [] => ([], shelf)
  | c :: calls =>
    let o := shelf.call c
    let (later, last) := run o.shelf calls
    (⟨c, o.verdict?, o.released⟩ :: later, last)

end Shelf

/-! ## The buckets of a roster -/

namespace Roster

variable {r : Roster V} {m : Member V} {hash : Key → UInt64} {bits : Nat} {probe : Key}

def shelf (r : Roster V) (hash : Key → UInt64) (bits b : Nat) : Shelf V :=
  (r.chain hash bits b).entries

theorem shelf_concat : shelf (r ++ [m]) hash bits =
    Function.update (r.shelf hash bits) (bucketOf hash bits m.entry.key)
      (m.entry :: r.shelf hash bits (bucketOf hash bits m.entry.key)) := by
  funext b
  rw [shelf, chain_concat, Function.update_apply]
  split
  next hb => rw [hb]; rfl
  · rfl

theorem entry_find? : (r.find? hash bits probe).map Member.entry =
    List.find? (fun e => e.answersTo probe) (r.shelf hash bits (bucketOf hash bits probe)) := by
  rw [find?_eq_find?_chain, shelf, entries, List.find?_map]
  rfl

theorem entries_without_of_find? {p : Entry V → Bool} (hnd : r.ids.Nodup)
    (hm : List.find? (fun m => p m.entry) r = some m) :
    (r.without m.id).entries = r.entries.eraseP p := by
  obtain ⟨hp, newer, older, rfl, hnewer⟩ := List.find?_eq_some_iff_append.1 hm
  rw [without_append_cons hnd, entries, entries, List.map_append, List.map_append, List.map_cons,
    List.eraseP_append_right _ fun e he => ?_, List.eraseP_cons_of_pos hp]
  obtain ⟨m', hm', rfl⟩ := List.mem_map.1 he
  simpa using hnewer m' hm'

/-- What a lookup has found leaves its own shelf, and no other. -/
theorem shelf_without (hnd : r.ids.Nodup) (hm : r.find? hash bits probe = some m) :
    (r.without m.id).shelf hash bits =
      Function.update (r.shelf hash bits) (bucketOf hash bits probe)
        ((r.shelf hash bits (bucketOf hash bits probe)).eraseP fun e => e.answersTo probe) := by
  rw [find?_eq_find?_chain] at hm
  obtain ⟨hmem, hbucket⟩ := mem_chain.1 (List.mem_of_find?_eq_some hm)
  funext b
  rw [shelf, chain_without, Function.update_apply]
  split
  next hb =>
    subst hb
    exact entries_without_of_find? (p := fun e => e.answersTo probe) (nodup_ids_chain hnd) hm
  next hb =>
    refine congrArg entries (List.filter_eq_self.2 fun m' hm' => ?_)
    obtain ⟨hmem', rfl⟩ := mem_chain.1 hm'
    have hne : m'.id ≠ m.id := fun hid =>
      hb (eq_of_id_eq hnd hmem' hmem hid ▸ hbucket)
    simpa using hne

end Roster

/-! ## The calls that are given a key -/

namespace Policy

/-- Keys are copied, and the gate grants everything. -/
structure CopiesFreely (policy : Policy σ V) : Prop where
  gate : ∀ request env, ∃ env', policy.gate request env = (.ok (), env')
  populate : policy.populate = Populate.copyKey

variable {policy : Policy σ V}

theorem CopiesFreely.attempt_fst (h : policy.CopiesFreely) (data : V) (key : Key) (env : σ) :
    (policy.attempt data key env).1 = Entry.owned key data := by
  rcases Nat.lt_or_ge maxKeyLength key.length with hlong | hlength
  · rw [attempt_of_tooLong hlong, Entry.owned_of_tooLong hlong]
  · obtain ⟨env₁, hentry⟩ := h.gate .entry env
    obtain ⟨env₂, hbuffer⟩ := h.gate (.key key.length) env₁
    rw [attempt_of_le hlength, hentry]
    dsimp only
    rw [h.populate, Populate.copyKey, hbuffer]

theorem copiesFreely_copying (hash : Key → UInt64) : (copying (V := V) hash).CopiesFreely :=
  ⟨fun _ env => ⟨env, rfl⟩, rfl⟩

end Policy

/-- The call inserts or removes by a key. -/
def Call.editsByKey : Call V → Bool
  | .insert .. | .insertDefault .. | .replace .. | .erase .. => true
  | _ => false

namespace Ledger

/-- The entries of each bucket, the newest first. -/
def shelf (l : Ledger σ V) : Nat → Shelf V := l.roster.shelf l.policy.hash l.bits

/-- The outcome is what comes of the shelf of the key, and all other shelves stay as they are. -/
structure OnShelf (l : Ledger σ V) (key : Key) (o : Outcome σ V (Answer V))
    (o' : Shelf.Outcome V) : Prop where
  verdict : o.answer.verdict? = o'.verdict?
  released : o.released.entries = o'.released
  shelf : o.ledger.shelf =
    Function.update l.shelf (bucketOf l.policy.hash l.bits key) o'.shelf

theorem insert_onShelf (l : Ledger σ V) (fresh : NodeId) (hp : l.policy.CopiesFreely) (data : V)
    (key : Key) :
    l.OnShelf key ((l.insert fresh data key).map .inserted)
      ((l.shelf (bucketOf l.policy.hash l.bits key)).insert data key) := by
  have hattempt := hp.attempt_fst data key l.env
  rw [Ledger.insert_eq, Shelf.insert, ← hattempt]
  generalize l.policy.attempt data key l.env = attempt at hattempt ⊢
  rcases attempt with ⟨rejected | e, env⟩
  · exact ⟨rfl, rfl, (Function.update_eq_self _ _).symm⟩
  · obtain rfl : e.key = key := Entry.key_of_owned hattempt.symm
    exact ⟨rfl, rfl, Roster.shelf_concat⟩

variable {l : Ledger σ V} {fresh : NodeId}

theorem erase_onShelf (hnd : l.roster.ids.Nodup) (key : Key) :
    l.OnShelf key ((l.eraseMember (l.find? key)).map .removal)
      ((l.shelf (bucketOf l.policy.hash l.bits key)).erase key) := by
  have hentry : (l.find? key).map Member.entry = List.find? (fun e => e.answersTo key)
      (l.shelf (bucketOf l.policy.hash l.bits key)) := Roster.entry_find?
  rw [Shelf.erase, ← hentry]
  cases hm : l.find? key with
  | none => exact ⟨rfl, rfl, (Function.update_eq_self _ _).symm⟩
  | some m => exact ⟨rfl, rfl, Roster.shelf_without hnd hm⟩

theorem replace_onShelf (hp : l.policy.CopiesFreely) (hnd : l.roster.ids.Nodup) (data : V)
    (key : Key) : l.OnShelf key ((l.replace fresh data key).map .inserted)
      ((l.shelf (bucketOf l.policy.hash l.bits key)).replace data key) := by
  rcases Nat.lt_or_ge maxKeyLength key.length with hlong | hlength
  · rw [replace, if_pos hlong, Shelf.replace, if_pos hlong]
    exact ⟨rfl, rfl, (Function.update_eq_self _ _).symm⟩
  · obtain ⟨-, hreleased, hshelf⟩ := erase_onShelf hnd key
    -- The insertion is made where the removal has left the shelf.
    obtain ⟨hverdict, -, hshelf'⟩ := insert_onShelf (l.eraseMember (l.find? key)).ledger fresh
      ((l.eraseMember_policy _).symm ▸ hp) data key
    change (l.eraseMember (l.find? key)).ledger.shelf = _ at hshelf
    rw [eraseMember_policy, eraseMember_bits, hshelf, Function.update_self] at hverdict hshelf'
    rw [Function.update_idem] at hshelf'
    rw [replace_of_le hlength, Shelf.replace, if_neg (Nat.not_lt_of_le hlength)]
    exact ⟨hverdict, hreleased, hshelf'⟩

/-- Each call that edits by a key acts on one shelf. -/
theorem call_onShelf [Inhabited V] (hp : l.policy.CopiesFreely) (hnd : l.roster.ids.Nodup)
    (fresh : NodeId) {c : Call V} (hc : c.editsByKey = true) : ∃ key, c.key? = some key ∧
      l.OnShelf key (l.call fresh c) ((l.shelf (bucketOf l.policy.hash l.bits key)).call c) := by
  cases c with
  | insert data key => exact ⟨key, rfl, l.insert_onShelf fresh hp data key⟩
  | insertDefault key => exact ⟨key, rfl, l.insert_onShelf fresh hp default key⟩
  | replace data key => exact ⟨key, rfl, replace_onShelf hp hnd data key⟩
  | erase key => exact ⟨key, rfl, erase_onShelf hnd key⟩
  | _ => exact nomatch hc

end Ledger

end OrderedTable
