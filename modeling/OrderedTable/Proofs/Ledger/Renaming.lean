import OrderedTable.Proofs.Ledger.Balance

/-!
# Ledgers up to the names of the ids

A permutation of the ids renames rosters, calls and answers. Of a call that takes no notice of the
buckets, a ledger whose ids are renamed makes the same up to the renaming, even if it has another
hash and another number of buckets, as long as the two find the same under the key of the call:
`Ledger.Mirrors.call`. Gate and strategy are the same, but may have been asked for other things
before; `Policy.GrantsAll` says that this does not matter.
-/

namespace OrderedTable

variable {σ τ V α β : Type} {f : Equiv.Perm NodeId}

/-! ## Renaming -/

def Member.rename (f : Equiv.Perm NodeId) (m : Member V) : Member V := { m with id := f m.id }

theorem Member.map_id_rename {m m' : Option (Member V)} (h : m' = m.map (rename f)) :
    m'.map Member.id = (m.map Member.id).map f := by
  cases m <;> rw [h] <;> rfl

theorem Member.map_entry_rename {m m' : Option (Member V)} (h : m' = m.map (rename f)) :
    m'.map Member.entry = m.map Member.entry := by
  cases m <;> rw [h] <;> rfl

def Call.rename (f : Equiv.Perm NodeId) : Call V → Call V
  | .eraseId id => .eraseId (f id)
  | .get id => .get (f id)
  | .contains id => .contains (f id)
  | c => c

theorem Call.stores?_rename [Inhabited V] (c : Call V) : (c.rename f).stores? = c.stores? := by
  cases c <;> rfl

def Answer.rename (f : Equiv.Perm NodeId) : Answer V → Answer V
  | .inserted result => .inserted (result.map f)
  | .id found => .id (found.map f)
  | answer => answer

theorem Answer.issued?_rename (answer : Answer V) :
    (answer.rename f).issued? = answer.issued?.map f := by
  cases answer with
  | inserted result => cases result <;> rfl
  | _ => rfl

/-- The call is one whose outcome may depend on which entries share a bucket. -/
def Call.seesBuckets : Call V → Bool
  | .clear | .occupancy | .collisionPercent => true
  | _ => false

/-- The key that a call brings with it. -/
def Call.key? : Call V → Option Key
  | .insert _ key | .insertDefault key | .replace _ key | .erase key | .find key | .getByKey key
  | .containsKey key => some key
  | _ => none

namespace Roster

def rename (f : Equiv.Perm NodeId) (r : Roster V) : Roster V := r.map (Member.rename f)

variable {r : Roster V} {id : NodeId}

theorem ids_rename : (r.rename f).ids = r.ids.map f := by
  rw [ids, rename, ids, List.map_map, List.map_map]
  rfl

theorem entries_rename : (r.rename f).entries = r.entries := List.map_map

theorem length_rename : (r.rename f).length = r.length := List.length_map _

theorem rename_append (r r' : Roster V) : rename f (r ++ r') = r.rename f ++ r'.rename f :=
  List.map_append

/-- Only what is done to the ids of the roster matters. -/
theorem rename_congr {g : Equiv.Perm NodeId} (h : ∀ id ∈ r.ids, g id = f id) :
    r.rename g = r.rename f :=
  List.map_congr_left fun m hm => congrArg (Member.mk · m.entry) (h m.id (mem_ids hm))

theorem member?_rename : (r.rename f).member? (f id) = (r.member? id).map (Member.rename f) := by
  rw [member?, rename, List.find?_map, member?]
  refine congrArg (Option.map (Member.rename f)) (congrArg (List.find? · r) (funext fun m => ?_))
  simp [Member.rename]

theorem get?_rename : (r.rename f).get? (f id) = r.get? id := by
  rw [get?, member?_rename, Option.map_map, get?]
  rfl

theorem without_rename : (r.rename f).without (f id) = (r.without id).rename f := by
  rw [without, rename, List.filter_map, without, rename]
  refine congrArg (List.map (Member.rename f)) (List.filter_congr fun m _ => ?_)
  simp [Member.rename]

theorem sift_rename (keep : List (Entry V) → Entry V → Bool) (seen : List (Entry V)) :
    sift keep seen (r.rename f) =
      ((sift keep seen r).1.rename f, (sift keep seen r).2.rename f) := by
  induction r generalizing seen with
  | nil => rfl
  | cons m rest ih =>
    have hrest := ih (seen ++ [m.entry])
    rw [rename] at hrest
    by_cases hkeep : keep seen m.entry = true
    · simp [rename, sift, Member.rename, hrest, hkeep]
    · simp [rename, sift, Member.rename, hrest, hkeep]

end Roster

/-! ## Gates that grant everything -/

namespace Policy

/-- The gate grants everything, and what it has been asked makes no difference to the strategy: that
goes by a `view` of the state, which the gate leaves alone. -/
structure GrantsAll (policy : Policy σ V) (view : σ → τ) : Prop where
  gate : ∀ request env, ∃ env', policy.gate request env = (.ok (), env') ∧ view env' = view env
  populate : ∀ data key env env', view env' = view env →
    Prod.map id view (policy.populate policy.gate data key env') =
      Prod.map id view (policy.populate policy.gate data key env)

/-- Only the hash may be another one. -/
structure Alike (policy policy' : Policy σ V) : Prop where
  gate : policy'.gate = policy.gate
  populate : policy'.populate = policy.populate

variable {policy policy' : Policy σ V} {view : σ → τ} {env env' : σ}

theorem GrantsAll.attempt_eq (h : policy.GrantsAll view) (hlike : policy.Alike policy')
    (henv : view env' = view env) (data : V) (key : Key) :
    Prod.map id view (policy'.attempt data key env') =
      Prod.map id view (policy.attempt data key env) := by
  rcases Nat.lt_or_ge maxKeyLength key.length with hlong | hlength
  · rw [attempt_of_tooLong hlong, attempt_of_tooLong hlong, Prod.map_apply, Prod.map_apply, henv]
  · obtain ⟨env₁, hgate, hview⟩ := h.gate .entry env
    obtain ⟨env₁', hgate', hview'⟩ := h.gate .entry env'
    rw [attempt_of_le hlength, attempt_of_le hlength, hlike.gate, hlike.populate, hgate, hgate']
    exact h.populate data key env₁ env₁' (hview'.trans (henv.trans hview.symm))

/-- Two such tables make the same entry, or stop at the same insertion. -/
theorem GrantsAll.attempt_fst (h : policy.GrantsAll view) (hlike : policy.Alike policy')
    (henv : view env' = view env) (data : V) (key : Key) :
    (policy'.attempt data key env').1 = (policy.attempt data key env).1 :=
  (congrArg Prod.fst (h.attempt_eq hlike henv data key) :)

theorem strays_iff {data : V} {key : Key} : policy.Strays data key env ↔
    ∃ e, (policy.attempt data key env).1 = .ok e ∧ e.key ≠ key := by
  constructor
  · rintro ⟨e, env', hattempt, hne⟩
    exact ⟨e, congrArg Prod.fst hattempt, hne⟩
  · rintro ⟨e, hattempt, hne⟩
    exact ⟨e, _, Prod.ext hattempt rfl, hne⟩

theorem GrantsAll.of_alike (h : policy.GrantsAll view) (hlike : policy.Alike policy') :
    policy'.GrantsAll view where
  gate := hlike.gate ▸ h.gate
  populate := hlike.gate ▸ hlike.populate ▸ h.populate

/-! ## Building -/

theorem GrantsAll.view_create (h : policy.GrantsAll view) {ι : Type} (headSize : Nat)
    (bits : UInt32) (heap : Heap) (env : σ) :
    view (Buckets.create (ι := ι) headSize bits policy.gate heap env).2 = view env := by
  obtain ⟨env₁, hgate, hview⟩ := h.gate .table env
  rw [Buckets.create, hgate]
  dsimp only
  split
  · exact hview
  split
  · exact hview
  next bytes _ =>
    obtain ⟨env₂, hgate', hview'⟩ := h.gate (.buckets bytes) env₁
    rw [hgate']
    dsimp only
    split
    · exact hview'.trans hview
    · exact hview'.trans hview

theorem GrantsAll.view_build {A : Type} [Arena A (Node V)] (h : policy.GrantsAll view)
    (bits : UInt32) (heap : Heap) (env : σ) :
    view (Table.build bits policy heap env A).env = view env := by
  obtain ⟨env₁, hgate, hview⟩ := h.gate .container env
  have hcreate := h.view_create (ι := NodeId) NodeId.placeSize bits heap env₁
  rw [Table.build, hgate]
  dsimp only
  split
  next hresult => exact (congrArg (view ·.2) hresult).symm.trans (hcreate.trans hview)
  next hresult => exact (congrArg (view ·.2) hresult).symm.trans (hcreate.trans hview)

end Policy

/-! ## Two ledgers -/

namespace Ledger

/-- The second ledger is the first with the ids renamed, up to the hash, the number of buckets and
what gate and strategy make no use of. -/
structure Mirrors (view : σ → τ) (f : Equiv.Perm NodeId) (l l' : Ledger σ V) : Prop where
  alike : l.policy.Alike l'.policy
  view : view l'.env = view l.env
  roster : l'.roster = l.roster.rename f

/-- An outcome on the first ledger is mirrored by one on the second. -/
structure Outcome.Mirrors (view : σ → τ) (f : Equiv.Perm NodeId) (rename : α → α)
    (o o' : Outcome σ V α) : Prop where
  answer : o'.answer = rename o.answer
  released : o'.released = o.released.rename f
  ledger : o.ledger.Mirrors view f o'.ledger

variable {view : σ → τ} {l l' : Ledger σ V}

theorem Outcome.Mirrors.map {rename : α → α} {rename' : β → β} {o o' : Outcome σ V α}
    (h : o.Mirrors view f rename o') {answer : α → β}
    (hanswer : ∀ a, answer (rename a) = rename' (answer a)) :
    (o.map answer).Mirrors view f rename' (o'.map answer) where
  answer := (congrArg answer h.answer).trans (hanswer o.answer)
  released := h.released
  ledger := h.ledger

namespace Mirrors

theorem say (h : l.Mirrors view f l') {rename : Answer V → Answer V} {answer answer' : Answer V}
    (hanswer : answer' = rename answer) :
    (l.say answer).Mirrors view f rename (l'.say answer') where
  answer := hanswer
  released := rfl
  ledger := h

theorem insert (h : l.Mirrors view f l') (hp : l.policy.GrantsAll view) (fresh : NodeId)
    (data : V) (key : Key) :
    (l.insert fresh data key).Mirrors view f (Except.map f) (l'.insert (f fresh) data key) := by
  have hsame := hp.attempt_eq h.alike h.view data key
  rw [insert_eq, insert_eq]
  rcases hattempt : l.policy.attempt data key l.env with ⟨result, env⟩
  rcases hattempt' : l'.policy.attempt data key l'.env with ⟨result', env'⟩
  rw [hattempt, hattempt'] at hsame
  obtain ⟨rfl, hview⟩ := Prod.mk.inj hsame
  cases result' with
  | error rejected => exact ⟨rfl, rfl, h.alike, hview, h.roster⟩
  | ok entry =>
    refine ⟨rfl, rfl, h.alike, hview, ?_⟩
    change l'.roster ++ _ = Roster.rename f (l.roster ++ _)
    rw [Roster.rename_append, ← h.roster]
    rfl

theorem eraseMember (h : l.Mirrors view f l') (m : Option (Member V)) :
    (l.eraseMember m).Mirrors view f id (l'.eraseMember (m.map (Member.rename f))) := by
  cases m with
  | none => exact ⟨rfl, rfl, h⟩
  | some m =>
    refine ⟨rfl, rfl, h.alike, h.view, ?_⟩
    change l'.roster.without (f m.id) = (l.roster.without m.id).rename f
    rw [← Roster.without_rename, h.roster]

theorem replace (h : l.Mirrors view f l') (hp : l.policy.GrantsAll view) (fresh : NodeId)
    (data : V) {key : Key} (hfind : l'.find? key = (l.find? key).map (Member.rename f)) :
    (l.replace fresh data key).Mirrors view f (Except.map f) (l'.replace (f fresh) data key) := by
  rcases Nat.lt_or_ge maxKeyLength key.length with hlong | hlength
  · rw [Ledger.replace, Ledger.replace, if_pos hlong, if_pos hlong]
    exact ⟨rfl, rfl, h⟩
  · rw [replace_of_le hlength, replace_of_le hlength, hfind]
    have herased := h.eraseMember (l.find? key)
    rw [← l.eraseMember_policy (l.find? key)] at hp
    have hinserted := herased.ledger.insert hp fresh data key
    exact ⟨hinserted.answer, herased.released, hinserted.ledger⟩

variable [Inhabited V]

theorem call (h : l.Mirrors view f l') (hp : l.policy.GrantsAll view) {c : Call V}
    (hc : c.seesBuckets = false)
    (hfind : ∀ key, c.key? = some key → l'.find? key = (l.find? key).map (Member.rename f))
    (fresh : NodeId) : (l.call fresh c).Mirrors view f (Answer.rename f)
      (l'.call (f fresh) (c.rename f)) := by
  have hentries : l'.roster.entries = l.roster.entries := by rw [h.roster, Roster.entries_rename]
  have hlength : l'.roster.length = l.roster.length := by rw [h.roster, Roster.length_rename]
  have hhead : l'.roster.head? = l.roster.head?.map (Member.rename f) := by
    rw [h.roster, Roster.rename, List.head?_map]
  have hlast : l'.roster.getLast? = l.roster.getLast?.map (Member.rename f) := by
    rw [h.roster, Roster.rename, List.getLast?_map]
  have hmember : ∀ id, l'.roster.member? (f id) = (l.roster.member? id).map (Member.rename f) :=
    fun id => by rw [h.roster, Roster.member?_rename]
  have hget : ∀ id, l'.roster.get? (f id) = l.roster.get? id := fun id => by
    rw [h.roster, Roster.get?_rename]
  cases c with
  | clear | occupancy | collisionPercent => exact nomatch hc
  | insert data key => exact (h.insert hp fresh data key).map fun _ => rfl
  | insertDefault key => exact (h.insert hp fresh default key).map fun _ => rfl
  | replace data key => exact (h.replace hp fresh data (hfind key rfl)).map fun _ => rfl
  | erase key => exact (hfind key rfl ▸ h.eraseMember (l.find? key)).map fun _ => rfl
  | eraseId id => exact (hmember id ▸ h.eraseMember (l.roster.member? id)).map fun _ => rfl
  | eraseFirst => exact (hhead ▸ h.eraseMember l.roster.head?).map fun _ => rfl
  | eraseLast => exact (hlast ▸ h.eraseMember l.roster.getLast?).map fun _ => rfl
  | retain keep =>
    have hsift := Roster.sift_rename (f := f) (r := l.roster) keep []
    rw [← h.roster] at hsift
    refine ⟨?_, ?_, h.alike, h.view, ?_⟩
    · exact congrArg Answer.seen hentries
    · exact congrArg Prod.snd hsift
    · exact congrArg Prod.fst hsift
  | find key => exact h.say (congrArg Answer.id (Member.map_id_rename (hfind key rfl)))
  | getByKey key => exact h.say (congrArg Answer.entry (Member.map_entry_rename (hfind key rfl)))
  | containsKey key =>
    refine h.say (congrArg Answer.truth ?_)
    rw [hfind key rfl, Option.isSome_map]
  | get id => exact h.say (congrArg Answer.entry (hget id))
  | contains id => exact h.say (congrArg (fun x => Answer.truth (Option.isSome x)) (hget id))
  | firstId => exact h.say (congrArg Answer.id (Member.map_id_rename hhead))
  | lastId => exact h.say (congrArg Answer.id (Member.map_id_rename hlast))
  | first => exact h.say (congrArg Answer.entry (Member.map_entry_rename hhead))
  | last => exact h.say (congrArg Answer.entry (Member.map_entry_rename hlast))
  | iterate sides => exact h.say (congrArg (fun es => Answer.read (readEnds es sides)) hentries)
  | entries => exact h.say (congrArg Answer.entries hentries)
  | size => exact h.say (congrArg Answer.count hlength)
  | isEmpty =>
    refine h.say (congrArg Answer.truth ?_)
    rw [h.roster, Roster.rename, List.isEmpty_map]

end Mirrors

/-- Where no entry is made, it does not matter which id it would get. -/
theorem call_congr [Inhabited V] {c : Call V} (h : l.policy.make? l.env c = none)
    (fresh fresh' : NodeId) : l.call fresh c = l.call fresh' c := by
  have hinsert : ∀ {l : Ledger σ V} {data key},
      (l.policy.attempt data key l.env).1.toOption = none →
        l.insert fresh data key = l.insert fresh' data key := by
    intro l data key hnone
    rw [insert_eq, insert_eq]
    rcases hattempt : l.policy.attempt data key l.env with ⟨rejected | entry, env⟩
    · rfl
    · rw [hattempt] at hnone
      cases hnone
  cases c with
  | insert data key => exact congrArg (Outcome.map Answer.inserted) (hinsert h)
  | insertDefault key => exact congrArg (Outcome.map Answer.inserted) (hinsert h)
  | replace data key =>
    refine congrArg (Outcome.map Answer.inserted) ?_
    rcases Nat.lt_or_ge maxKeyLength key.length with hlong | hlength
    · rw [Ledger.replace, Ledger.replace, if_pos hlong, if_pos hlong]
    · rw [replace_of_le hlength, replace_of_le hlength, hinsert]
      rw [eraseMember_policy, eraseMember_env]
      exact h
  | _ => rfl

end Ledger

end OrderedTable
