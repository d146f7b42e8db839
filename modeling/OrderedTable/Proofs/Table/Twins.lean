import OrderedTable.Proofs.Ledger.Twins
import OrderedTable.Proofs.Table.Paired
import OrderedTable.Proofs.Table.Release

/-!
# Twin tables

Two tables are twins if their ledgers are and the ids that they have given out are paired. Then they
look alike, and remain twins after any call (`Table.Twins.call`). So, whatever is done to both, no
call and no release tells the one from the other, up to the names of the ids and to what the
relations between entries and between states leave open: `Table.Twins.exists_runsLike`. That goes for
every relation that the calls keep, a `Table.Bisimulation`.
-/

namespace OrderedTable

variable {σ σ' V A : Type} [Arena A (Node V)] {E : Entry V → Entry V → Prop} {R : σ → σ' → Prop}
  {f g : Equiv.Perm NodeId}

namespace Table

/-! ## What can be seen -/

/-- All that can be seen of the one table can be seen of the other, up to the names of the ids: the
list, the buckets, what is released when it is taken down, and the state of gate and strategy. -/
structure LooksLike (E : Entry V → Entry V → Prop) (R : σ → σ' → Prop) (f : Equiv.Perm NodeId)
    (t : Table σ V A) (t' : Table σ' V A) : Prop where
  ids : ∃ ids, t.store.ids = .ok ids ∧ t'.store.ids = .ok (ids.map f)
  entries : ∃ es es', t.store.entries = .ok es ∧ t'.store.entries = .ok es' ∧ List.Forall₂ E es es'
  occupancy : ∃ o, t.store.occupancy = .ok o ∧ t'.store.occupancy = .ok o
  size : t'.size = t.size
  bucketCount : t'.bucketCount = t.bucketCount
  destroy : ∃ last last', t.destroy = .ok last ∧ t'.destroy = .ok last' ∧
    Roster.Twins E f (last.released.map Departure.member) (last'.released.map Departure.member) ∧
      last'.notice = last.notice
  env : R t.env t'.env

/-- The calls on the one table, and the same with the ids renamed on the other, all succeed. Each of
them is answered alike and releases the same entries in the same order, and the tables look alike
before and after it. -/
inductive RunsLike [Inhabited V] (E : Entry V → Entry V → Prop) (R : σ → σ' → Prop)
    (f : Equiv.Perm NodeId) : Table σ V A → Table σ' V A → List (Call V) → Prop
  | done {t t'} (h : LooksLike E R f t t') : RunsLike E R f t t' []
  | call {t t' c calls o o'} (h : LooksLike E R f t t') (hcall : t.call c = .ok o)
    (hcall' : t'.call (c.rename f) = .ok o') (answer : o.answer.Twins E f o'.answer)
    (released : Roster.Twins E f (o.released.map Departure.member)
      (o'.released.map Departure.member))
    (rest : RunsLike E R f o.table o'.table calls) : RunsLike E R f t t' (c :: calls)

/-- So do the two histories. -/
theorem RunsLike.exists_run [Inhabited V] {t : Table σ V A} {t' : Table σ' V A}
    {calls : List (Call V)} (h : RunsLike E R f t t' calls) : ∃ h h', t.run calls = .ok h ∧
      t'.run (calls.map (Call.rename f)) = .ok h' ∧
      List.Forall₂ (Answer.Twins E f) h.answers h'.answers ∧
      Roster.Twins E f (h.released.map Departure.member) (h'.released.map Departure.member) ∧
      LooksLike E R f h.table h'.table := by
  induction h with
  | done hlook => exact ⟨_, _, rfl, rfl, .nil, .nil, hlook⟩
  | call _ hcall hcall' hanswer hreleased _ ih =>
    obtain ⟨h, h', hrun, hrun', hanswers, hreleases, hlook⟩ := ih
    refine ⟨_, _, run_cons hcall hrun, run_cons hcall' hrun', .cons hanswer hanswers, ?_, hlook⟩
    rw [List.map_append, List.map_append]
    exact List.rel_append hreleased hreleases

/-- Tables with related entries at all places and the same buckets look alike. -/
theorem Paired.looksLike [LawfulArena A (Node V)] {S : Set NodeId} {t : Table σ V A}
    {t' : Table σ' V A} {r r' : Roster V} (h : Paired S f t t' r r')
    (hE : ∀ e e', E e e' → e'.key = e.key) (hroster : Roster.Twins E f r r')
    (hhash : t'.policy.hash = t.policy.hash) (hbits : t'.bits.toNat = t.bits.toNat)
    (henv : R t.env t'.env) : LooksLike E R f t t' := by
  have hsize : t'.size = t.size :=
    h.holds'.size.trans (hroster.length_eq.symm.trans h.holds.size.symm)
  have hbuckets : t'.bucketCount = t.bucketCount := by
    rw [bucketCount, bucketCount, h.holds'.count, h.holds.count]
    exact congrArg _ hbits
  have hoccupancy : r'.occupancy t'.policy.hash t'.bits.toNat =
      r.occupancy t.policy.hash t.bits.toNat := by
    rw [hhash, hbits, hroster.occupancy_eq hE]
  obtain ⟨o, hclear, href⟩ := h.holds.exists_clear
  obtain ⟨o', hclear', href'⟩ := h.holds'.exists_clear
  have hreleased : Roster.Twins E f (o.released.map Departure.member)
      (o'.released.map Departure.member) := by
    rw [href.released.members, href'.released.members]
    change Roster.Twins E f (r.byBucket _ _) (r'.byBucket _ _)
    rw [ledger, ledger, hhash, hbits]
    exact hroster.byBucket hE
  exact {
    ids := ⟨r.ids, h.holds.ids_eq, h.ids ▸ h.holds'.ids_eq⟩
    entries := ⟨_, _, h.holds.entries_eq, h.holds'.entries_eq, hroster.entries⟩
    occupancy := ⟨_, h.holds.occupancy_eq,
      h.holds'.occupancy_eq.trans (congrArg Except.ok hoccupancy)⟩
    size := hsize
    bucketCount := hbuckets
    destroy := ⟨_, _, destroy_of_clear hclear, destroy_of_clear hclear', hreleased, by
      rw [hsize, hbuckets]⟩
    env := henv }

/-! ## Relations that calls keep -/

/-- A relation between tables with paired ids that look alike. The strategy strays on both or on
neither, and the calls that are `allowed` are answered alike and lead to tables that are related
again, given that the permutation takes the id that is given out on the one to that on the other. -/
structure Bisimulation [Inhabited V] (E : Entry V → Entry V → Prop) (R : σ → σ' → Prop)
    (allowed : Call V → Prop)
    (P : Set NodeId → Equiv.Perm NodeId → Table σ V A → Table σ' V A → Prop) : Prop where
  paired : ∀ {S f t t'}, P S f t t' → ∃ r r', Paired S f t t' r r'
  congr : ∀ {S f g t t'}, P S f t t' → (∀ id ∈ S, g id = f id) → P S g t t'
  looksLike : ∀ {S f t t'}, P S f t t' → LooksLike E R f t t'
  strays_iff : ∀ {S f t t' c}, P S f t t' → (t'.Strays (c.rename f) ↔ t.Strays c)
  call : ∀ {S f t t' c o o'}, P S f t t' → allowed c → t.call c = .ok o →
    t'.call (c.rename f) = .ok o' →
    (∀ id id', o.answer.issued? = some id → o'.answer.issued? = some id' → f id = id') →
    o.answer.Twins E f o'.answer ∧
      Roster.Twins E f (o.released.map Departure.member) (o'.released.map Departure.member) ∧
      P (S ∪ {id | o.answer.issued? = some id}) f o.table o'.table

section

variable [Inhabited V] {allowed : Call V → Prop}
  {P : Set NodeId → Equiv.Perm NodeId → Table σ V A → Table σ' V A → Prop} {S : Set NodeId}
  {t : Table σ V A} {t' : Table σ' V A}

theorem stops_cons {c : Call V} {calls : List (Call V)} {o : Outcome σ V (Answer V) A}
    (hcall : t.call c = .ok o) (hpolicy : o.table.policy = t.policy)
    (hstop : o.table.policy.Stops (o.table.run calls)) : t.policy.Stops (t.run (c :: calls)) := by
  rw [hpolicy] at hstop
  rw [run, hcall, ok_bind, hstop.1]
  exact ⟨rfl, hstop.2⟩

/-- Calls on both tables, one after the other: all of them are answered alike, or both strategies
stop them. The permutation is found step by step. -/
theorem Bisimulation.exists_runsLike [LawfulArena A (Node V)] (hP : Bisimulation E R allowed P)
    (h : P S f t t') (calls : List (Call V)) (hcalls : ∀ c ∈ calls, allowed c) :
    ∃ g : Equiv.Perm NodeId, (∀ id ∈ S, g id = f id) ∧ (RunsLike E R g t t' calls ∨
      t.policy.Stops (t.run calls) ∧ t'.policy.Stops (t'.run (calls.map (Call.rename g)))) := by
  induction calls generalizing t t' S f with
  | nil => exact ⟨f, fun _ _ => rfl, .inl (.done (hP.looksLike h))⟩
  | cons c calls ih =>
    obtain ⟨r, r', hpaired⟩ := hP.paired h
    have hc : allowed c := hcalls c List.mem_cons_self
    by_cases hstrays : t.Strays c
    · have hstrays' : t'.Strays (c.rename f) := (hP.strays_iff h).2 hstrays
      refine ⟨f, fun _ _ => rfl, .inr ?_⟩
      rw [List.map_cons, run, run, hpaired.holds.call_of_strays hstrays,
        hpaired.holds'.call_of_strays hstrays']
      obtain ⟨data, key, -, hstrays⟩ := hstrays
      obtain ⟨data', key', -, hstrays'⟩ := hstrays'
      exact ⟨Policy.stops_of_strays hstrays, Policy.stops_of_strays hstrays'⟩
    obtain ⟨fresh, o, hcall, href, hissues⟩ := hpaired.holds.exists_call c hstrays
    obtain ⟨fresh', o', hcall', href', hissues'⟩ :=
      hpaired.holds'.exists_call (c.rename f) ((hP.strays_iff h).not.2 hstrays)
    obtain ⟨f₁, hf₁, hnew⟩ := hpaired.exists_swap hissues hissues'
    obtain ⟨-, -, h₁⟩ := hP.call (hP.congr h hf₁) hc hcall
      ((hpaired.call_congr hf₁ c).trans hcall') hnew
    obtain ⟨g, hg, hrest⟩ := ih h₁ fun c hmem => hcalls c (List.mem_cons_of_mem _ hmem)
    have hgf : ∀ id ∈ S, g id = f id := fun id hid => (hg id (.inl hid)).trans (hf₁ id hid)
    have hcall₁ := (hpaired.call_congr hgf c).trans hcall'
    refine ⟨g, hgf, ?_⟩
    rcases hrest with hrest | ⟨hstop, hstop'⟩
    · -- The first call is looked at once more, now that all later ids are known.
      obtain ⟨hanswer, hreleased, -⟩ := hP.call (hP.congr h hgf) hc hcall hcall₁
        fun id id' hid hid' => (hg id (.inr hid)).trans (hnew id id' hid hid')
      exact .inl (.call (hP.looksLike (hP.congr h hgf)) hcall hcall₁ hanswer hreleased hrest)
    · exact .inr ⟨stops_cons hcall href.policy hstop, stops_cons hcall₁ href'.policy hstop'⟩

end

/-! ## Twins -/

/-- The two have twin ledgers, and all ids that the first has given out are in `S`. -/
structure Twins (E : Entry V → Entry V → Prop) (R : σ → σ' → Prop) (S : Set NodeId)
    (f : Equiv.Perm NodeId) (t : Table σ V A) (t' : Table σ' V A) (r r' : Roster V) : Prop where
  ledger : (t.ledger r).Twins E R f (t'.ledger r')
  paired : Paired S f t t' r r'

namespace Twins

variable {S : Set NodeId} {t : Table σ V A} {t' : Table σ' V A} {r r' : Roster V}

theorem congr (h : Twins E R S f t t' r r') (hg : ∀ id ∈ S, g id = f id) :
    Twins E R S g t t' r r' where
  ledger :=
    { h.ledger with roster := h.ledger.roster.congr fun id hid => hg id (h.paired.live id hid) }
  paired := h.paired.congr hg

variable [LawfulArena A (Node V)]

theorem of_empty {policy : Policy σ V} {policy' : Policy σ' V} (h : policy.Twins E R policy')
    {env : σ} {env' : σ'} (henv : R env env') (bits : UInt32) :
    Twins E R ∅ (Equiv.refl NodeId) (empty policy bits env A) (empty policy' bits env' A) [] [] where
  ledger := ⟨h, rfl, .nil, henv⟩
  paired := .of_empty policy policy' bits bits env env'

variable (hE : ∀ e e', E e e' → e'.key = e.key)

include hE

theorem looksLike (h : Twins E R S f t t' r r') : LooksLike E R f t t' :=
  h.paired.looksLike hE h.ledger.roster h.ledger.policy.hash h.ledger.bits h.ledger.env

variable [Inhabited V] {c : Call V} {o : Outcome σ V (Answer V) A} {o' : Outcome σ' V (Answer V) A}

omit [LawfulArena A (Node V)] in
/-- A call on the two ledgers, given that `f` takes the id of the new entry, if there is one, to that
of the other. -/
theorem ledger_call (h : Twins E R S f t t' r r') (hc : c.Overlooks E) {fresh fresh' : NodeId}
    (hf : ∀ e e', t.policy.make? t.env c = some e → t'.policy.make? t'.env (c.rename f) = some e' →
      f fresh = fresh') :
    ((t.ledger r).call fresh c).Twins E R f ((t'.ledger r').call fresh' (c.rename f)) := by
  have htwins := h.ledger.call hE hc fresh
  have hmake : Option.Rel E (t.policy.make? t.env c) (t'.policy.make? t'.env (c.rename f)) :=
    h.ledger.policy.make? h.ledger.env c
  rcases hx : t.policy.make? t.env c with - | e <;>
    rcases hx' : t'.policy.make? t'.env (c.rename f) with - | e' <;> rw [hx, hx'] at hmake
  · have hsame := Ledger.call_congr (l := t'.ledger r') hx' (f fresh) fresh'
    exact hsame ▸ htwins
  · cases hmake
  · cases hmake
  · exact hf e e' hx hx' ▸ htwins

/-- A call on both tables, given that `f` takes the id of the new entry to that of the other. -/
theorem call (h : Twins E R S f t t' r r') (hc : c.Overlooks E) (hcall : t.call c = .ok o)
    (hcall' : t'.call (c.rename f) = .ok o')
    (hf : ∀ id id', o.answer.issued? = some id → o'.answer.issued? = some id' → f id = id') :
    o.answer.Twins E f o'.answer ∧
      Roster.Twins E f (o.released.map Departure.member) (o'.released.map Departure.member) ∧
      ∃ r₁ r₁', Twins E R (S ∪ {id | o.answer.issued? = some id}) f o.table o'.table r₁ r₁' := by
  obtain ⟨fresh, href, hissues⟩ := h.paired.holds.refines_of_call hcall
  obtain ⟨fresh', href', hissues'⟩ := h.paired.holds'.refines_of_call hcall'
  have htwins := h.ledger_call hE hc fun e e' hmake hmake' => hf fresh fresh'
    (by rw [href.issued?_eq, hmake, Option.map_some])
    (by rw [href'.issued?_eq, hmake', Option.map_some])
  have hanswer : o.answer.Twins E f o'.answer := by
    rw [href.answer, href'.answer]
    exact htwins.answer
  have hreleased : Roster.Twins E f (o.released.map Departure.member)
      (o'.released.map Departure.member) := by
    rw [href.released.members, href'.released.members]
    exact htwins.released
  have hledger := htwins.ledger
  have hids := hledger.roster.ids_eq
  rw [href.ledger, href'.ledger] at hledger
  exact ⟨hanswer, hreleased, _, _, hledger,
    h.paired.after href hissues href' hissues' hids hanswer.issued?_eq⟩

theorem bisimulation : Bisimulation E R (Call.Overlooks E)
    fun S f (t : Table σ V A) (t' : Table σ' V A) => ∃ r r', Twins E R S f t t' r r' where
  paired := fun ⟨r, r', h⟩ => ⟨r, r', h.paired⟩
  congr := fun ⟨r, r', h⟩ hg => ⟨r, r', h.congr hg⟩
  looksLike := fun ⟨_, _, h⟩ => h.looksLike hE
  strays_iff := fun ⟨_, _, h⟩ => iff_of_false (not_strays h.ledger.policy.storesKey' _)
    (not_strays h.ledger.policy.storesKey _)
  call := fun ⟨_, _, h⟩ hc hcall hcall' hf => h.call hE hc hcall hcall' hf

/-- Whatever is done to both, neither strategy stops it. -/
theorem exists_runsLike (h : Twins E R S f t t' r r') (calls : List (Call V))
    (hcalls : ∀ c ∈ calls, c.Overlooks E) :
    ∃ g : Equiv.Perm NodeId, (∀ id ∈ S, g id = f id) ∧ RunsLike E R g t t' calls := by
  obtain ⟨g, hg, hrun⟩ := (bisimulation hE).exists_runsLike ⟨r, r', h⟩ calls hcalls
  exact ⟨g, hg, hrun.resolve_right fun hstop => hstop.1.2 h.ledger.policy.storesKey⟩

end Twins

end Table

end OrderedTable
