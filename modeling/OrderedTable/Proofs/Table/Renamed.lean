import OrderedTable.Proofs.Ledger.Equivariance
import OrderedTable.Proofs.Table.Twins

/-!
# Tables that differ in the names of the ids

Two tables with the same gate, strategy and buckets, in the same state and with the same entries in
the same order, differ in the ids at most. From then on every call has the same outcome on both, but
for the ids: `Table.Renamed.actsLike`. Nothing is asked of the strategy. Where it strays on the one
table, it does so on the other.
-/

namespace OrderedTable

variable {σ V A : Type} [Arena A (Node V)] {f g : Equiv.Perm NodeId}

namespace Table

/-- The second table is the first with the ids renamed by `f`. All ids that the first has given out
so far are in `S`. -/
structure Renamed (S : Set NodeId) (f : Equiv.Perm NodeId) (t t' : Table σ V A) (r : Roster V) :
    Prop where
  paired : Paired S f t t' r (r.rename f)
  policy : t'.policy = t.policy
  bits : t'.bits = t.bits
  env : t'.env = t.env

/-- Whatever is done to both, no call tells the one from the other but for the names of the ids: all
calls succeed on both with the same outcomes, or the strategy stops them on both. -/
def ActsLike [Inhabited V] (t t' : Table σ V A) : Prop :=
  ∀ calls : List (Call V), ∃ f : Equiv.Perm NodeId, RunsLike Eq Eq f t t' calls ∨
    t.policy.Stops (t.run calls) ∧ t.policy.Stops (t'.run (calls.map (Call.rename f)))

namespace Renamed

variable {S : Set NodeId} {t t' : Table σ V A} {r : Roster V}

theorem ledger_eq (h : Renamed S f t t' r) : t'.ledger (r.rename f) = (t.ledger r).rename f := by
  rw [ledger, h.policy, h.bits, h.env]
  rfl

theorem congr (h : Renamed S f t t' r) (hg : ∀ id ∈ S, g id = f id) : Renamed S g t t' r where
  paired := Roster.rename_congr (fun id hid => hg id (h.paired.live id hid)) ▸ h.paired.congr hg
  policy := h.policy
  bits := h.bits
  env := h.env

variable [LawfulArena A (Node V)]

theorem looksLike (h : Renamed S f t t' r) : LooksLike Eq Eq f t t' :=
  h.paired.looksLike (fun _ _ he => he ▸ rfl) (Roster.twins_rename r)
    (congrArg Policy.hash h.policy) (congrArg UInt32.toNat h.bits) h.env.symm

/-! ## Calls -/

variable [Inhabited V] {c : Call V} {o o' : Outcome σ V (Answer V) A}

omit [LawfulArena A (Node V)] in
theorem strays_iff (h : Renamed S f t t' r) (c : Call V) :
    t'.Strays (c.rename f) ↔ t.Strays c := by
  rw [Strays, Strays, Call.stores?_rename, h.policy, h.env]

omit [LawfulArena A (Node V)] in
theorem make?_eq (h : Renamed S f t t' r) (c : Call V) :
    t'.policy.make? t'.env (c.rename f) = t.policy.make? t.env c := by
  rw [Policy.make?, Call.stores?_rename, h.policy, h.env]
  rfl

omit [LawfulArena A (Node V)] in
/-- A call on the two ledgers, given that `f` takes the id of the new entry, if there is one, to that
of the other. -/
theorem ledger_call (h : Renamed S f t t' r) {fresh fresh' : NodeId}
    (hf : ∀ e, t.policy.make? t.env c = some e → f fresh = fresh') :
    (t'.ledger (r.rename f)).call fresh' (c.rename f) =
      ((t.ledger r).call fresh c).rename f (Answer.rename f) := by
  rw [← Ledger.call_rename, ← h.ledger_eq]
  cases hmake : t.policy.make? t.env c with
  | some e => rw [hf e hmake]
  | none =>
    apply Ledger.call_congr
    exact (h.make?_eq c).trans hmake

/-- A call on both tables, given that `f` takes the id of the new entry to that of the other. -/
theorem call (h : Renamed S f t t' r) (hcall : t.call c = .ok o)
    (hcall' : t'.call (c.rename f) = .ok o')
    (hf : ∀ id id', o.answer.issued? = some id → o'.answer.issued? = some id' → f id = id') :
    o.answer.Twins Eq f o'.answer ∧
      Roster.Twins Eq f (o.released.map Departure.member) (o'.released.map Departure.member) ∧
      ∃ r₁, Renamed (S ∪ {id | o.answer.issued? = some id}) f o.table o'.table r₁ := by
  obtain ⟨fresh, href, hissues⟩ := h.paired.holds.refines_of_call hcall
  obtain ⟨fresh', href', hissues'⟩ := h.paired.holds'.refines_of_call hcall'
  have hsame := h.ledger_call (c := c) fun e hmake => hf fresh fresh'
    (by rw [href.issued?_eq, hmake, Option.map_some])
    (by rw [href'.issued?_eq, h.make?_eq, hmake, Option.map_some])
  have hanswer : o'.answer = o.answer.rename f := by
    rw [href.answer, href'.answer, hsame]
    rfl
  have hroster : ((t'.ledger (r.rename f)).call fresh' (c.rename f)).ledger.roster =
      ((t.ledger r).call fresh c).ledger.roster.rename f := by
    rw [hsame]
    rfl
  have henv : o'.table.env = o.table.env := by
    rw [← href.env_eq, ← href'.env_eq, hsame]
    rfl
  have hpaired := h.paired.after href hissues href' hissues' (hroster ▸ Roster.ids_rename)
    (hanswer ▸ Answer.issued?_rename _)
  refine ⟨hanswer ▸ o.answer.twins_rename, ?_, _, hroster ▸ hpaired, ?_, ?_, henv⟩
  · rw [href.released.members, href'.released.members, hsame]
    exact Roster.twins_rename _
  · rw [href'.policy, href.policy, h.policy]
  · exact href'.precedes.bits.trans (h.bits.trans href.precedes.bits.symm)

theorem bisimulation : Bisimulation Eq Eq (fun _ => True)
    fun S f (t t' : Table σ V A) => ∃ r, Renamed S f t t' r where
  paired := fun ⟨r, h⟩ => ⟨r, _, h.paired⟩
  congr := fun ⟨r, h⟩ hg => ⟨r, h.congr hg⟩
  looksLike := fun ⟨_, h⟩ => h.looksLike
  strays_iff := fun ⟨_, h⟩ => h.strays_iff _
  call := fun ⟨_, h⟩ _ hcall hcall' hf => h.call hcall hcall' hf

theorem actsLike (h : Renamed S f t t' r) : ActsLike t t' := fun calls => by
  obtain ⟨g, -, hrun⟩ := bisimulation.exists_runsLike ⟨r, h⟩ calls fun _ _ => trivial
  rw [h.policy] at hrun
  exact ⟨g, hrun⟩

end Renamed

end Table

end OrderedTable
