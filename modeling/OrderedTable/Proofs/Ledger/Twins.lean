import Mathlib.Data.List.Forall2
import OrderedTable.Proofs.Ledger.Renaming

/-!
# Twin ledgers

Two rosters are twins if they have as many entries and these stand, one by one, in a relation `E`
under ids that are images of one another. A ledger goes by the keys of its entries and by nothing
else of them. So where `E` relates entries with the same key only, twin ledgers find twin entries,
and each call makes the same of both up to `E` and the names of the ids: `Ledger.Twins.call`. The two
may have different gates and strategies, as long as these make related entries (`Policy.Twins`).
-/

namespace OrderedTable

/-! ## Lists that are related element by element -/

section

variable {α β : Type} {R : α → β → Prop} {xs : List α} {ys : List β}

theorem head?_rel (h : List.Forall₂ R xs ys) : Option.Rel R xs.head? ys.head? := by
  cases h with
  | nil => exact .none
  | cons hxy _ => exact .some hxy

theorem getLast?_rel (h : List.Forall₂ R xs ys) : Option.Rel R xs.getLast? ys.getLast? := by
  rw [← List.head?_reverse, ← List.head?_reverse]
  exact head?_rel (List.forall₂_reverse_iff.2 h)

theorem tail_rel (h : List.Forall₂ R xs ys) : List.Forall₂ R xs.tail ys.tail := by
  cases h with
  | nil => exact .nil
  | cons _ hrest => exact hrest

theorem dropLast_rel (h : List.Forall₂ R xs ys) : List.Forall₂ R xs.dropLast ys.dropLast := by
  rw [List.dropLast_eq_take, List.dropLast_eq_take, h.length_eq]
  exact List.forall₂_take _ h

theorem find?_rel {p : α → Bool} {q : β → Bool} (h : List.Forall₂ R xs ys)
    (hpq : ∀ x y, R x y → q y = p x) : Option.Rel R (xs.find? p) (ys.find? q) := by
  induction h with
  | nil => exact .none
  | @cons x y xs ys hxy _ ih =>
    rw [List.find?_cons, List.find?_cons, hpq x y hxy]
    cases p x with
    | true => exact .some hxy
    | false => exact ih

theorem filter_rel {p : α → Bool} {q : β → Bool} (h : List.Forall₂ R xs ys)
    (hpq : ∀ x y, R x y → q y = p x) : List.Forall₂ R (xs.filter p) (ys.filter q) :=
  List.rel_filter (fun x y hxy => show p x = true ↔ q y = true by rw [hpq x y hxy]) h

theorem readEnds_rel (h : List.Forall₂ R xs ys) (sides : List Side) :
    List.Forall₂ (Option.Rel R) (readEnds xs sides) (readEnds ys sides) := by
  induction sides generalizing xs ys with
  | nil => exact .nil
  | cons side sides ih =>
    cases side with
    | front => exact .cons (head?_rel h) (ih (tail_rel h))
    | back => exact .cons (getLast?_rel h) (ih (dropLast_rel h))

theorem isEmpty_eq_of_rel (h : List.Forall₂ R xs ys) : ys.isEmpty = xs.isEmpty := by
  cases h <;> rfl

theorem isSome_eq_of_rel {x : Option α} {y : Option β} (h : Option.Rel R x y) :
    y.isSome = x.isSome := by
  cases h <;> rfl

theorem map_rel {γ δ : Type} {S : γ → δ → Prop} {f : α → γ} {g : β → δ} {x : Option α} {y : Option β}
    (h : Option.Rel R x y) (hS : ∀ x y, R x y → S (f x) (g y)) :
    Option.Rel S (x.map f) (y.map g) := by
  cases h with
  | none => exact .none
  | some hxy => exact .some (hS _ _ hxy)

end

variable {σ σ' V α β : Type} {E : Entry V → Entry V → Prop} {f : Equiv.Perm NodeId}

/-! ## Twin rosters -/

/-- The two have related entries, the second under the image of the first one's id. -/
structure Member.Twins (E : Entry V → Entry V → Prop) (f : Equiv.Perm NodeId) (m m' : Member V) :
    Prop where
  id : m'.id = f m.id
  entry : E m.entry m'.entry

namespace Roster

/-- The two have twin entries at the same positions. -/
abbrev Twins (E : Entry V → Entry V → Prop) (f : Equiv.Perm NodeId) : Roster V → Roster V → Prop :=
  List.Forall₂ (Member.Twins E f)

namespace Twins

variable {r r' : Roster V}

theorem ids_eq (h : Twins E f r r') : r'.ids = r.ids.map f := by
  induction h with
  | nil => rfl
  | cons hm _ ih => exact congrArg₂ _ hm.id ih

theorem entries (h : Twins E f r r') : List.Forall₂ E r.entries r'.entries := by
  rw [Roster.entries, Roster.entries, List.forall₂_map_left_iff, List.forall₂_map_right_iff]
  exact h.imp fun _ _ hm => hm.entry

/-- Only what is done to the ids of the roster matters. -/
theorem congr {g : Equiv.Perm NodeId} (h : Twins E f r r') (hg : ∀ id ∈ r.ids, g id = f id) :
    Twins E g r r' := by
  induction h with
  | nil => exact .nil
  | @cons m m' r r' hm _ ih =>
    refine .cons ⟨hm.id.trans (hg m.id List.mem_cons_self).symm, hm.entry⟩ (ih fun id hid => ?_)
    exact hg id (List.mem_cons_of_mem _ hid)

theorem id_eq_iff {m m' : Member V} (h : m.Twins E f m') (id : NodeId) :
    m'.id = f id ↔ m.id = id := by
  rw [h.id, f.injective.eq_iff]

theorem member? (h : Twins E f r r') (id : NodeId) :
    Option.Rel (Member.Twins E f) (r.member? id) (r'.member? (f id)) :=
  find?_rel h fun m m' hm => by simp only [id_eq_iff hm]

theorem get? (h : Twins E f r r') (id : NodeId) :
    Option.Rel E (r.get? id) (r'.get? (f id)) :=
  map_rel (h.member? id) fun _ _ hm => hm.entry

theorem without (h : Twins E f r r') (id : NodeId) :
    Twins E f (r.without id) (r'.without (f id)) :=
  filter_rel h fun m m' hm => by simp only [ne_eq, id_eq_iff hm]

/-- Predicates that cannot tell twins apart sort them into twin rosters. -/
theorem sift {keep keep' : List (Entry V) → Entry V → Bool} (h : Twins E f r r')
    (hkeep : ∀ seen seen' e e', List.Forall₂ E seen seen' → E e e' → keep' seen' e' = keep seen e)
    {seen seen' : List (Entry V)} (hseen : List.Forall₂ E seen seen') :
    Twins E f (Roster.sift keep seen r).1 (Roster.sift keep' seen' r').1 ∧
      Twins E f (Roster.sift keep seen r).2 (Roster.sift keep' seen' r').2 := by
  induction h generalizing seen seen' with
  | nil => exact ⟨.nil, .nil⟩
  | @cons m m' r r' hm _ ih =>
    obtain ⟨hkept, hdropped⟩ := ih (List.rel_append hseen (.cons hm.entry .nil))
    simp only [Roster.sift, hkeep seen seen' m.entry m'.entry hseen hm.entry]
    cases keep seen m.entry with
    | true => exact ⟨.cons hm hkept, hdropped⟩
    | false => exact ⟨hkept, .cons hm hdropped⟩

/-! ## By key -/

section

variable (hE : ∀ e e', E e e' → e'.key = e.key) {hash : Key → UInt64} {bits : Nat}

include hE

theorem find? (h : Twins E f r r') (probe : Key) :
    Option.Rel (Member.Twins E f) (r.find? hash bits probe) (r'.find? hash bits probe) :=
  find?_rel (List.forall₂_reverse_iff.2 h) fun m m' hm => by
    simp only [Member.answersTo, Entry.answersTo, hE _ _ hm.entry]

theorem chain (h : Twins E f r r') (b : Nat) :
    Twins E f (r.chain hash bits b) (r'.chain hash bits b) :=
  filter_rel (List.forall₂_reverse_iff.2 h) fun m m' hm => by rw [hE _ _ hm.entry]

theorem byBucket (h : Twins E f r r') :
    Twins E f (r.byBucket hash bits) (r'.byBucket hash bits) :=
  List.rel_flatMap (List.forall₂_same.2 fun _ _ => rfl) fun b _ hb => hb ▸ h.chain hE b

theorem occupancy_eq (h : Twins E f r r') : r'.occupancy hash bits = r.occupancy hash bits := by
  have hchain : ∀ b, (r'.chain hash bits b).length = (r.chain hash bits b).length := fun b =>
    (h.chain hE b).length_eq.symm
  simp only [occupancy, hchain, h.length_eq]

end

end Twins

end Roster

/-! ## Twin answers -/

/-- A predicate of the call cannot tell related entries apart. -/
def Call.Overlooks (E : Entry V → Entry V → Prop) : Call V → Prop
  | .retain keep => ∀ seen seen' e e', List.Forall₂ E seen seen' → E e e' →
      keep seen' e' = keep seen e
  | _ => True

/-- The answers are the same, but for the names of the ids, and show related entries. -/
inductive Answer.Twins (E : Entry V → Entry V → Prop) (f : Equiv.Perm NodeId) :
    Answer V → Answer V → Prop
  | stored (id : NodeId) : Twins E f (.inserted (.ok id)) (.inserted (.ok (f id)))
  | rejected (r : Rejected V) : Twins E f (.inserted (.error r)) (.inserted (.error r))
  | removal (result : Removal) : Twins E f (.removal result) (.removal result)
  | seen {es es' : List (Entry V)} (h : List.Forall₂ E es es') : Twins E f (.seen es) (.seen es')
  | done : Twins E f .done .done
  | id (found : Option NodeId) : Twins E f (.id found) (.id (found.map f))
  | entry {e e' : Option (Entry V)} (h : Option.Rel E e e') : Twins E f (.entry e) (.entry e')
  | truth (value : Bool) : Twins E f (.truth value) (.truth value)
  | read {es es' : List (Option (Entry V))} (h : List.Forall₂ (Option.Rel E) es es') :
    Twins E f (.read es) (.read es')
  | entries {es es' : List (Entry V)} (h : List.Forall₂ E es es') :
    Twins E f (.entries es) (.entries es')
  | count (n : Nat) : Twins E f (.count n) (.count n)
  | occupancy (o : Occupancy) : Twins E f (.occupancy o) (.occupancy o)

theorem Answer.Twins.issued?_eq {answer answer' : Answer V} (h : answer.Twins E f answer') :
    answer'.issued? = answer.issued?.map f := by
  cases h <;> rfl

theorem Answer.Twins.of_ids {m m' : Option (Member V)}
    (h : Option.Rel (Member.Twins E f) m m') :
    Answer.Twins E f (.id (m.map Member.id)) (.id (m'.map Member.id)) := by
  have hid : m'.map Member.id = (m.map Member.id).map f := by
    cases h with
    | none => rfl
    | some hm => exact congrArg some hm.id
  rw [hid]
  exact .id _

/-! ## Twin policies -/

/-- Both make an entry, and these are related, or both turn the data away for the same reason. -/
inductive Attempted (E : Entry V → Entry V → Prop) :
    Except (Rejected V) (Entry V) → Except (Rejected V) (Entry V) → Prop
  | rejected (r : Rejected V) : Attempted E (.error r) (.error r)
  | made {e e' : Entry V} (h : E e e') : Attempted E (.ok e) (.ok e')

theorem Attempted.toOption {x x' : Except (Rejected V) (Entry V)} (h : Attempted E x x') :
    Option.Rel E x.toOption x'.toOption := by
  cases h with
  | rejected r => exact .none
  | made he => exact .some he

/-- From states that are related by `R`, gate and strategy of the two make related entries, and come
to related states. Both store the key that they are given. -/
structure Policy.Twins (E : Entry V → Entry V → Prop) (R : σ → σ' → Prop) (p : Policy σ V)
    (p' : Policy σ' V) : Prop where
  hash : p'.hash = p.hash
  storesKey : p.StoresKey
  storesKey' : p'.StoresKey
  made : ∀ data key env env', R env env' →
    Attempted E (p.attempt data key env).1 (p'.attempt data key env').1
  env : ∀ data key env env', R env env' →
    R (p.attempt data key env).2 (p'.attempt data key env').2

theorem Policy.Twins.make? [Inhabited V] {R : σ → σ' → Prop} {p : Policy σ V} {p' : Policy σ' V}
    (h : p.Twins E R p') {env : σ} {env' : σ'} (henv : R env env') (c : Call V) :
    Option.Rel E (p.make? env c) (p'.make? env' (c.rename f)) := by
  rw [Policy.make?, Policy.make?, Call.stores?_rename]
  cases c.stores? with
  | none => exact .none
  | some stored => exact (h.made stored.1 stored.2 env env' henv).toOption

/-! ## Twin ledgers -/

namespace Ledger

/-- The two have twin rosters in as many buckets, twin policies and related states. -/
structure Twins (E : Entry V → Entry V → Prop) (R : σ → σ' → Prop) (f : Equiv.Perm NodeId)
    (l : Ledger σ V) (l' : Ledger σ' V) : Prop where
  policy : l.policy.Twins E R l'.policy
  bits : l'.bits = l.bits
  roster : Roster.Twins E f l.roster l'.roster
  env : R l.env l'.env

/-- Twin answers, with what is released and what is left. -/
structure Outcome.Twins (E : Entry V → Entry V → Prop) (R : σ → σ' → Prop) (f : Equiv.Perm NodeId)
    (o : Outcome σ V (Answer V)) (o' : Outcome σ' V (Answer V)) : Prop where
  answer : o.answer.Twins E f o'.answer
  released : Roster.Twins E f o.released o'.released
  ledger : o.ledger.Twins E R f o'.ledger

namespace Twins

variable {R : σ → σ' → Prop} {l : Ledger σ V} {l' : Ledger σ' V}

theorem say (h : l.Twins E R f l') {answer answer' : Answer V} (hanswer : answer.Twins E f answer') :
    (l.say answer).Twins E R f (l'.say answer') where
  answer := hanswer
  released := .nil
  ledger := h

theorem insert (h : l.Twins E R f l') (fresh : NodeId) (data : V) (key : Key) :
    ((l.insert fresh data key).map Answer.inserted).Twins E R f
      ((l'.insert (f fresh) data key).map Answer.inserted) := by
  have hmade := h.policy.made data key l.env l'.env h.env
  have henv := h.policy.env data key l.env l'.env h.env
  rw [insert_eq, insert_eq]
  revert hmade henv
  rcases l.policy.attempt data key l.env with ⟨result, env⟩
  rcases l'.policy.attempt data key l'.env with ⟨result', env'⟩
  intro hmade henv
  cases hmade with
  | rejected r => exact ⟨.rejected r, .nil, h.policy, h.bits, h.roster, henv⟩
  | made he =>
    exact ⟨.stored fresh, .nil, h.policy, h.bits, List.rel_append h.roster (.cons ⟨rfl, he⟩ .nil),
      henv⟩

theorem eraseMember (h : l.Twins E R f l') {m m' : Option (Member V)}
    (hm : Option.Rel (Member.Twins E f) m m') :
    ((l.eraseMember m).map Answer.removal).Twins E R f
      ((l'.eraseMember m').map Answer.removal) := by
  cases hm with
  | none => exact ⟨.removal .notFound, .nil, h⟩
  | @some m m' hm =>
    refine ⟨.removal .removed, .cons hm .nil, h.policy, h.bits, ?_, h.env⟩
    change Roster.Twins E f (l.roster.without m.id) (l'.roster.without m'.id)
    rw [hm.id]
    exact h.roster.without m.id

theorem replace (h : l.Twins E R f l') (fresh : NodeId) (data : V) {key : Key}
    (hfind : Option.Rel (Member.Twins E f) (l.find? key) (l'.find? key)) :
    ((l.replace fresh data key).map Answer.inserted).Twins E R f
      ((l'.replace (f fresh) data key).map Answer.inserted) := by
  rcases Nat.lt_or_ge maxKeyLength key.length with hlong | hlength
  · rw [Ledger.replace, Ledger.replace, if_pos hlong, if_pos hlong]
    exact ⟨.rejected _, .nil, h⟩
  · rw [replace_of_le hlength, replace_of_le hlength]
    have herased := h.eraseMember hfind
    have hinserted := herased.ledger.insert fresh data key
    exact ⟨hinserted.answer, herased.released, hinserted.ledger⟩

section

variable (hE : ∀ e e', E e e' → e'.key = e.key)

include hE

theorem clear (h : l.Twins E R f l') :
    (l.clear.map fun _ => Answer.done).Twins E R f (l'.clear.map fun _ => Answer.done) := by
  refine ⟨.done, ?_, h.policy, h.bits, .nil, h.env⟩
  change Roster.Twins E f (l.roster.byBucket _ _) (l'.roster.byBucket _ _)
  rw [h.policy.hash, h.bits]
  exact h.roster.byBucket hE

theorem call [Inhabited V] (h : l.Twins E R f l') {c : Call V} (hc : c.Overlooks E)
    (fresh : NodeId) :
    (l.call fresh c).Twins E R f (l'.call (f fresh) (c.rename f)) := by
  have hfind : ∀ key, Option.Rel (Member.Twins E f) (l.find? key) (l'.find? key) := fun key => by
    rw [Ledger.find?, Ledger.find?, h.policy.hash, h.bits]
    exact h.roster.find? hE key
  have hoccupancy : l'.roster.occupancy l'.policy.hash l'.bits =
      l.roster.occupancy l.policy.hash l.bits := by
    rw [h.policy.hash, h.bits, h.roster.occupancy_eq hE]
  have hlength : l'.roster.length = l.roster.length := h.roster.length_eq.symm
  have hempty : l'.roster.isEmpty = l.roster.isEmpty := isEmpty_eq_of_rel h.roster
  cases c with
  | insert data key => exact h.insert fresh data key
  | insertDefault key => exact h.insert fresh default key
  | replace data key => exact h.replace fresh data (hfind key)
  | erase key => exact h.eraseMember (hfind key)
  | eraseId id => exact h.eraseMember (h.roster.member? id)
  | eraseFirst => exact h.eraseMember (head?_rel h.roster)
  | eraseLast => exact h.eraseMember (getLast?_rel h.roster)
  | retain keep =>
    obtain ⟨hkept, hdropped⟩ := h.roster.sift hc .nil
    exact ⟨.seen h.roster.entries, hdropped, h.policy, h.bits, hkept, h.env⟩
  | clear => exact h.clear hE
  | find key => exact h.say (.of_ids (hfind key))
  | getByKey key => exact h.say (.entry (map_rel (hfind key) fun _ _ hm => hm.entry))
  | containsKey key =>
    refine h.say ?_
    rw [isSome_eq_of_rel (hfind key)]
    exact .truth _
  | get id => exact h.say (.entry (h.roster.get? id))
  | contains id =>
    refine h.say ?_
    rw [isSome_eq_of_rel (h.roster.get? id)]
    exact .truth _
  | firstId => exact h.say (.of_ids (head?_rel h.roster))
  | lastId => exact h.say (.of_ids (getLast?_rel h.roster))
  | first => exact h.say (.entry (map_rel (head?_rel h.roster) fun _ _ hm => hm.entry))
  | last => exact h.say (.entry (map_rel (getLast?_rel h.roster) fun _ _ hm => hm.entry))
  | iterate sides => exact h.say (.read (readEnds_rel h.roster.entries sides))
  | entries => exact h.say (.entries h.roster.entries)
  | size =>
    refine h.say ?_
    rw [hlength]
    exact .count _
  | isEmpty =>
    refine h.say ?_
    rw [hempty]
    exact .truth _
  | occupancy =>
    refine h.say ?_
    rw [hoccupancy]
    exact .occupancy _
  | collisionPercent =>
    refine h.say ?_
    rw [hempty, hoccupancy, hlength]
    exact .count _

end

end Twins

end Ledger

end OrderedTable
