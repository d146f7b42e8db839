import OrderedTable.Proofs.Ledger.Twins

/-!
# The names of the ids do not matter

If all ids of a ledger are renamed, and the id that a new entry is to get as well, then a call comes
to the same with the ids renamed: `Ledger.call_rename`. Gate, strategy and buckets are the same here,
so that holds of every call, and whatever the gate and the strategy do.
-/

namespace OrderedTable

variable {σ V α β : Type} {f : Equiv.Perm NodeId}

namespace Roster

variable {r : Roster V} {hash : Key → UInt64} {bits b : Nat}

theorem twins_rename (r : Roster V) : Twins Eq f r (r.rename f) :=
  List.forall₂_map_right_iff.2 (List.forall₂_same.2 fun _ _ => ⟨rfl, rfl⟩)

theorem head?_rename : (r.rename f).head? = r.head?.map (Member.rename f) := List.head?_map

theorem getLast?_rename : (r.rename f).getLast? = r.getLast?.map (Member.rename f) :=
  List.getLast?_map

theorem isEmpty_rename : (r.rename f).isEmpty = r.isEmpty := List.isEmpty_map

theorem find?_rename (probe : Key) :
    (r.rename f).find? hash bits probe = (r.find? hash bits probe).map (Member.rename f) := by
  rw [find?, rename, ← List.map_reverse, List.find?_map]
  rfl

theorem chain_rename : (r.rename f).chain hash bits b = (r.chain hash bits b).rename f := by
  rw [chain, rename, ← List.map_reverse, List.filter_map]
  rfl

theorem byBucket_rename : (r.rename f).byBucket hash bits = (r.byBucket hash bits).rename f := by
  simp only [byBucket, rename, List.map_flatMap]
  exact List.flatMap_congr fun b _ => chain_rename

theorem occupancy_rename : (r.rename f).occupancy hash bits = r.occupancy hash bits := by
  simp only [occupancy, chain_rename, length_rename]

end Roster

theorem Answer.twins_rename (answer : Answer V) : answer.Twins Eq f (answer.rename f) := by
  have hsame : ∀ es : List (Entry V), List.Forall₂ Eq es es := fun _ =>
    List.forall₂_same.2 fun _ _ => rfl
  have hsame? : ∀ e : Option (Entry V), Option.Rel Eq e e := fun e => by
    cases e with
    | none => exact .none
    | some e => exact .some rfl
  cases answer with
  | inserted result =>
    cases result with
    | ok id => exact .stored id
    | error rejected => exact .rejected rejected
  | removal result => exact .removal result
  | seen es => exact .seen (hsame es)
  | done => exact .done
  | id found => exact .id found
  | entry e => exact .entry (hsame? e)
  | truth value => exact .truth value
  | read es => exact .read (List.forall₂_same.2 fun e _ => hsame? e)
  | entries es => exact .entries (hsame es)
  | count n => exact .count n
  | occupancy o => exact .occupancy o

/-! ## Ledgers -/

namespace Ledger

def rename (f : Equiv.Perm NodeId) (l : Ledger σ V) : Ledger σ V :=
  { l with roster := l.roster.rename f }

/-- The outcome with all ids renamed, where `answer` renames those in the answer. -/
def Outcome.rename (f : Equiv.Perm NodeId) (answer : α → α) (o : Outcome σ V α) : Outcome σ V α :=
  { answer := answer o.answer, released := o.released.rename f, ledger := o.ledger.rename f }

theorem Outcome.map_rename {rename : α → α} {rename' : β → β} {answer : α → β}
    {o o' : Outcome σ V α} (h : o' = o.rename f rename)
    (hanswer : ∀ a, answer (rename a) = rename' (answer a)) :
    o'.map answer = (o.map answer).rename f rename' := by
  rw [h, map, Outcome.rename, Outcome.rename, map, hanswer]

variable {l : Ledger σ V} {fresh : NodeId}

theorem find?_rename (key : Key) :
    (l.rename f).find? key = (l.find? key).map (Member.rename f) := Roster.find?_rename key

theorem say_rename {answer answer' : Answer V} (h : answer' = answer.rename f) :
    (l.rename f).say answer' = (l.say answer).rename f (Answer.rename f) := by
  rw [h]
  rfl

theorem insert_rename (data : V) (key : Key) : (l.rename f).insert (f fresh) data key =
    (l.insert fresh data key).rename f (Except.map f) := by
  simp only [insert_eq, rename]
  rcases l.policy.attempt data key l.env with ⟨rejected | entry, env⟩
  · rfl
  · simp only [Outcome.rename, rename, Roster.rename_append]
    rfl

theorem eraseMember_rename {m m' : Option (Member V)} (h : m' = m.map (Member.rename f)) :
    (l.rename f).eraseMember m' = (l.eraseMember m).rename f id := by
  rw [h]
  cases m with
  | none => rfl
  | some m =>
    simp only [Option.map_some, eraseMember, Outcome.rename, rename, Member.rename,
      Roster.without_rename]
    rfl

theorem replace_rename (data : V) (key : Key) : (l.rename f).replace (f fresh) data key =
    (l.replace fresh data key).rename f (Except.map f) := by
  rcases Nat.lt_or_ge maxKeyLength key.length with hlong | hlength
  · rw [replace, replace, if_pos hlong, if_pos hlong]
    rfl
  · rw [replace_of_le hlength, replace_of_le hlength, eraseMember_rename (find?_rename key)]
    simp only [Outcome.rename, insert_rename]

theorem retain_rename (keep : List (Entry V) → Entry V → Bool) :
    (l.rename f).retain keep = (l.retain keep).rename f id := by
  simp only [retain, rename, Roster.sift_rename, Roster.entries_rename]
  rfl

theorem clear_rename : (l.rename f).clear = l.clear.rename f id := by
  simp only [clear, rename, Roster.byBucket_rename]
  rfl

variable [Inhabited V]

theorem call_rename (l : Ledger σ V) (fresh : NodeId) (c : Call V) :
    (l.rename f).call (f fresh) (c.rename f) = (l.call fresh c).rename f (Answer.rename f) := by
  have hmember : ∀ id, (l.rename f).roster.member? (f id) =
      (l.roster.member? id).map (Member.rename f) := fun id => Roster.member?_rename
  have hhead : (l.rename f).roster.head? = l.roster.head?.map (Member.rename f) :=
    Roster.head?_rename
  have hlast : (l.rename f).roster.getLast? = l.roster.getLast?.map (Member.rename f) :=
    Roster.getLast?_rename
  have hentries : (l.rename f).roster.entries = l.roster.entries := Roster.entries_rename
  cases c with
  | insert data key => exact Outcome.map_rename (insert_rename data key) fun _ => rfl
  | insertDefault key => exact Outcome.map_rename (insert_rename default key) fun _ => rfl
  | replace data key => exact Outcome.map_rename (replace_rename data key) fun _ => rfl
  | erase key => exact Outcome.map_rename (eraseMember_rename (find?_rename key)) fun _ => rfl
  | eraseId id => exact Outcome.map_rename (eraseMember_rename (hmember id)) fun _ => rfl
  | eraseFirst => exact Outcome.map_rename (eraseMember_rename hhead) fun _ => rfl
  | eraseLast => exact Outcome.map_rename (eraseMember_rename hlast) fun _ => rfl
  | retain keep => exact Outcome.map_rename (retain_rename keep) fun _ => rfl
  | clear =>
    change ((l.rename f).clear.map fun _ => Answer.done) = _
    exact Outcome.map_rename clear_rename fun _ => rfl
  | find key => exact say_rename (congrArg Answer.id (Member.map_id_rename (find?_rename key)))
  | getByKey key =>
    exact say_rename (congrArg Answer.entry (Member.map_entry_rename (find?_rename key)))
  | containsKey key =>
    refine say_rename (congrArg Answer.truth ?_)
    rw [find?_rename, Option.isSome_map]
  | get id => exact say_rename (congrArg Answer.entry Roster.get?_rename)
  | contains id =>
    exact say_rename (congrArg (fun e => Answer.truth (Option.isSome e)) Roster.get?_rename)
  | firstId => exact say_rename (congrArg Answer.id (Member.map_id_rename hhead))
  | lastId => exact say_rename (congrArg Answer.id (Member.map_id_rename hlast))
  | first => exact say_rename (congrArg Answer.entry (Member.map_entry_rename hhead))
  | last => exact say_rename (congrArg Answer.entry (Member.map_entry_rename hlast))
  | iterate sides => exact say_rename (congrArg (fun es => Answer.read (readEnds es sides)) hentries)
  | entries => exact say_rename (congrArg Answer.entries hentries)
  | size => exact say_rename (congrArg Answer.count Roster.length_rename)
  | isEmpty => exact say_rename (congrArg Answer.truth Roster.isEmpty_rename)
  | occupancy => exact say_rename (congrArg Answer.occupancy Roster.occupancy_rename)
  | collisionPercent =>
    refine say_rename (congrArg Answer.count ?_)
    rw [rename, Roster.isEmpty_rename, Roster.occupancy_rename, Roster.length_rename]

end Ledger

end OrderedTable
