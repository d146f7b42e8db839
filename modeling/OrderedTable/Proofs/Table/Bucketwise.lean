import OrderedTable.Proofs.Ledger.Shelves
import OrderedTable.Proofs.Roster.Occupancy
import OrderedTable.Proofs.Table.Release

/-!
# Buckets do not interfere

Where keys are copied and memory is never refused, what an insertion or a removal by key comes to
depends only on the earlier calls of its own bucket. So two histories with the same calls in every
bucket, in whatever order between the buckets, come to the same turns in every bucket, and to tables
that no lookup can tell apart: see `Table.run_bucketwise`. Only the order of the entries tells the
histories apart, and the ids.
-/

namespace OrderedTable

variable {σ σ' V A A' : Type} [Arena A (Node V)] [Arena A' (Node V)]

/-- The call brings a key of the bucket. -/
def Call.isOf (hash : Key → UInt64) (bits b : Nat) (c : Call V) : Bool :=
  c.key?.any fun key => bucketOf hash bits key = b

theorem Call.isOf_eq {c : Call V} {key : Key} (hkey : c.key? = some key) (hash : Key → UInt64)
    (bits b : Nat) : c.isOf hash bits b = decide (bucketOf hash bits key = b) := by
  rw [isOf, hkey, Option.any_some]

/-! ## The shelves tell everything but the order -/

namespace Roster

variable {r r' : Roster V} {hash : Key → UInt64} {bits : Nat}

theorem entries_byBucket (r : Roster V) (hash : Key → UInt64) (bits : Nat) :
    (r.byBucket hash bits).entries = (List.range (2 ^ bits)).flatMap (r.shelf hash bits) := by
  rw [entries, byBucket, List.map_flatMap]
  rfl

theorem entries_perm_of_shelf_eq (h : r'.shelf hash bits = r.shelf hash bits) :
    r'.entries.Perm r.entries := by
  have hperm : ∀ r : Roster V, r.entries.Perm (r.byBucket hash bits).entries := fun r =>
    (byBucket_perm.map Member.entry).symm
  refine (hperm r').trans (.trans (.of_eq ?_) (hperm r).symm)
  rw [entries_byBucket, entries_byBucket, h]

theorem length_eq_of_shelf_eq (h : r'.shelf hash bits = r.shelf hash bits) :
    r'.length = r.length := by
  have hlength := (entries_perm_of_shelf_eq h).length_eq
  rwa [entries, entries, List.length_map, List.length_map] at hlength

theorem occupancy_eq_of_shelf_eq (h : r'.shelf hash bits = r.shelf hash bits) :
    r'.occupancy hash bits = r.occupancy hash bits :=
  occupancy_eq_of_perm (entries_perm_of_shelf_eq h) hash bits

end Roster

namespace Table

/-- The tables differ in nothing but the order of their entries and the ids. -/
structure SameBuckets (t : Table σ V A) (t' : Table σ' V A') : Prop where
  getByKey : ∀ probe, ∃ e, t.getByKey? probe = .ok e ∧ t'.getByKey? probe = .ok e
  occupancy : ∃ o, t.store.occupancy = .ok o ∧ t'.store.occupancy = .ok o
  collisionPercent : ∃ n, t.store.collisionPercent = .ok n ∧ t'.store.collisionPercent = .ok n
  clear : ∃ o o', t.clear = .ok o ∧ t'.clear = .ok o' ∧
    o.released.map Departure.entry = o'.released.map Departure.entry
  destroy : ∃ last last', t.destroy = .ok last ∧ t'.destroy = .ok last' ∧
    last.released.map Departure.entry = last'.released.map Departure.entry ∧
    last.notice = last'.notice
  entries : ∃ es es', t.store.entries = .ok es ∧ t'.store.entries = .ok es' ∧ es.Perm es'

namespace Holds

variable [LawfulArena A (Node V)] [LawfulArena A' (Node V)] {t : Table σ V A} {t' : Table σ' V A'}
  {r r' : Roster V}

/-- An entry is released bucket by bucket when the table is cleared, and when it is taken down. -/
theorem exists_clear_byBucket (h : t.Holds r) : ∃ o, t.clear = .ok o ∧
    o.released.map Departure.entry =
      (List.range (2 ^ t.bits.toNat)).flatMap (r.shelf t.policy.hash t.bits.toNat) ∧
    t.destroy = .ok ⟨o.released, .destroyed r.length (2 ^ t.bits.toNat)⟩ := by
  obtain ⟨o, hclear, href⟩ := h.exists_clear
  refine ⟨o, hclear, ?_, ?_⟩
  · have hmembers : o.released.map Departure.member = r.byBucket t.policy.hash t.bits.toNat :=
      href.released.members
    rw [← Roster.entries_byBucket, ← hmembers, Roster.entries, List.map_map]
    rfl
  · rw [destroy_of_clear hclear, size, h.size, bucketCount, h.count]
    rfl

theorem sameBuckets (h : t.Holds r) (h' : t'.Holds r') (hhash : t'.policy.hash = t.policy.hash)
    (hbits : t'.bits = t.bits)
    (hshelf : r'.shelf t.policy.hash t.bits.toNat = r.shelf t.policy.hash t.bits.toNat) :
    t.SameBuckets t' where
  getByKey probe := by
    refine ⟨_, h.getByKey?_eq probe, ?_⟩
    rw [h'.getByKey?_eq, Ledger.find?, Ledger.find?, Roster.entry_find?, Roster.entry_find?]
    simp only [ledger, hhash, hbits, hshelf]
  occupancy := by
    refine ⟨_, h.occupancy_eq, ?_⟩
    rw [h'.occupancy_eq, hhash, ← bits, hbits, Roster.occupancy_eq_of_shelf_eq hshelf]
    rfl
  collisionPercent := by
    have hlength := Roster.length_eq_of_shelf_eq hshelf
    have hempty : r'.isEmpty = r.isEmpty := by
      rw [Bool.eq_iff_iff, List.isEmpty_iff_length_eq_zero, List.isEmpty_iff_length_eq_zero, hlength]
    refine ⟨_, h.collisionPercent_eq, ?_⟩
    rw [h'.collisionPercent_eq, hhash, ← bits, hbits, hempty, hlength,
      Roster.occupancy_eq_of_shelf_eq hshelf]
    rfl
  clear := by
    obtain ⟨o, hclear, hreleased, -⟩ := h.exists_clear_byBucket
    obtain ⟨o', hclear', hreleased', -⟩ := h'.exists_clear_byBucket
    rw [hhash, hbits, hshelf] at hreleased'
    exact ⟨o, o', hclear, hclear', hreleased.trans hreleased'.symm⟩
  destroy := by
    obtain ⟨o, -, hreleased, hdestroy⟩ := h.exists_clear_byBucket
    obtain ⟨o', -, hreleased', hdestroy'⟩ := h'.exists_clear_byBucket
    rw [hhash, hbits, hshelf] at hreleased'
    rw [hbits, Roster.length_eq_of_shelf_eq hshelf] at hdestroy'
    exact ⟨_, _, hdestroy, hdestroy', hreleased.trans hreleased'.symm, rfl⟩
  entries := ⟨_, _, h.entries_eq, h'.entries_eq, (Roster.entries_perm_of_shelf_eq hshelf).symm⟩

/-! ## One run -/

variable [Inhabited V] {hash : Key → UInt64} {bits : UInt32}

theorem exists_call_shelf (h : t.Holds r) (hp : t.policy.CopiesFreely)
    (hhash : t.policy.hash = hash) (hbits : t.bits = bits) {c : Call V} (hc : c.editsByKey = true) :
    ∃ o r' key, t.call c = .ok o ∧ o.table.Holds r' ∧ o.table.policy = t.policy ∧
      o.table.bits = bits ∧ c.key? = some key ∧
      let b := bucketOf hash bits.toNat key
      let o' := (r.shelf hash bits.toNat b).call c
      o.answer.verdict? = o'.verdict? ∧ o.released.map Departure.entry = o'.released ∧
        r'.shelf hash bits.toNat = Function.update (r.shelf hash bits.toNat) b o'.shelf := by
  subst hhash hbits
  obtain ⟨fresh, o, hcall, href, -⟩ :=
    h.exists_call c (not_strays (Policy.storesKey_of_copyKey hp.populate) c)
  obtain ⟨key, hkey, hon⟩ := (t.ledger r).call_onShelf hp h.nodup fresh hc
  have hbits : o.table.bits = t.bits := href.precedes.bits
  refine ⟨o, _, key, hcall, href.holds, href.policy, hbits, hkey, ?_, ?_, ?_⟩
  · rw [href.answer]
    exact hon.verdict
  · have hreleased := congrArg Roster.entries href.released.members
    rw [Roster.entries, List.map_map] at hreleased
    exact hreleased.trans hon.released
  · have hshelf := hon.shelf
    rw [href.ledger, Ledger.shelf, ledger, href.policy, hbits] at hshelf
    exact hshelf

/-- In each bucket a history comes to what the shelf of the bucket makes of the calls that are its
own. -/
theorem exists_run_shelf (h : t.Holds r) (hp : t.policy.CopiesFreely)
    (hhash : t.policy.hash = hash) (hbits : t.bits = bits) {calls : List (Call V)}
    (hedits : ∀ c ∈ calls, c.editsByKey = true) :
    ∃ h' ts r', t.run calls = .ok h' ∧ t.turns calls = .ok ts ∧ h'.table.Holds r' ∧
      h'.table.policy = t.policy ∧ h'.table.bits = bits ∧ ∀ b,
      (r.shelf hash bits.toNat b).run (calls.filter (Call.isOf hash bits.toNat b)) =
        (ts.filter fun turn => turn.call.isOf hash bits.toNat b, r'.shelf hash bits.toNat b) := by
  -- On the calls: a call moves the run of its own shelf on, and leaves the other shelves alone.
  induction calls generalizing t r with
  | nil => exact ⟨_, [], r, rfl, rfl, h, rfl, hbits, fun _ => rfl⟩
  | cons c calls ih =>
    obtain ⟨o, r₁, key, hcall, hr₁, hpolicy₁, hbits₁, hkey, hverdict, hreleased, hshelf⟩ :=
      h.exists_call_shelf hp hhash hbits (hedits c List.mem_cons_self)
    obtain ⟨h', ts, r', hrun, hturns, hr', hpolicy', hbits', hlater⟩ :=
      ih hr₁ (hpolicy₁ ▸ hp) (hpolicy₁ ▸ hhash) hbits₁ fun c hc =>
        hedits c (List.mem_cons_of_mem _ hc)
    refine ⟨_, _, r', run_cons hcall hrun, turns_cons hcall hturns, hr',
      hpolicy'.trans hpolicy₁, hbits', fun b => ?_⟩
    have hisOf := Call.isOf_eq hkey hash bits.toNat b
    have hlater := hlater b
    rw [hshelf, Function.update_apply] at hlater
    by_cases hb : b = bucketOf hash bits.toNat key
    · subst hb
      rw [if_pos rfl] at hlater
      rw [List.filter_cons_of_pos (by simp [hisOf]), List.filter_cons_of_pos (by simp [hisOf]),
        Shelf.run, hlater, hverdict, hreleased]
    · rw [if_neg hb] at hlater
      rw [List.filter_cons_of_neg (by simp [hisOf, Ne.symm hb]),
        List.filter_cons_of_neg (by simp [hisOf, Ne.symm hb]), hlater]

end Holds

/-! ## Two runs -/

variable [LawfulArena A (Node V)] [LawfulArena A' (Node V)] [Inhabited V] {bits : UInt32}
  {policy : Policy σ V} {policy' : Policy σ' V} {heap heap' : Heap} {env : σ} {env' : σ'}
  {t : Table σ V A} {t' : Table σ' V A'}

/-- Two histories of insertions and removals by key that have the same calls in every bucket, in the
same order there, unfold to the same turns in every bucket, and come to tables that differ in
nothing but the order of their entries. -/
theorem run_bucketwise (hbuild : (build bits policy heap env A).result = .ok t)
    (hbuild' : (build bits policy' heap' env' A').result = .ok t')
    (hp : policy.CopiesFreely) (hp' : policy'.CopiesFreely) (hhash : policy'.hash = policy.hash)
    {calls calls' : List (Call V)} (hedits : ∀ c ∈ calls, c.editsByKey = true)
    (hedits' : ∀ c ∈ calls', c.editsByKey = true)
    (hsame : ∀ b, calls.filter (Call.isOf policy.hash bits.toNat b) =
      calls'.filter (Call.isOf policy.hash bits.toNat b)) :
    ∃ h h' ts ts', t.run calls = .ok h ∧ t'.run calls' = .ok h' ∧
      t.turns calls = .ok ts ∧ t'.turns calls' = .ok ts' ∧
      h.UnfoldsTo calls ts ∧ h'.UnfoldsTo calls' ts' ∧
      (∀ b, (ts.filter fun turn => turn.call.isOf policy.hash bits.toNat b) =
        ts'.filter fun turn => turn.call.isOf policy.hash bits.toNat b) ∧
      h.table.SameBuckets h'.table := by
  obtain rfl := eq_empty_of_build hbuild
  obtain rfl := eq_empty_of_build hbuild'
  obtain ⟨h, ts, r, hrun, hturns, hr, hpolicy, hbits, hshelf⟩ :=
    (holds_of_build hbuild).exists_run_shelf hp rfl rfl hedits
  obtain ⟨h', ts', r', hrun', hturns', hr', hpolicy', hbits', hshelf'⟩ :=
    (holds_of_build hbuild').exists_run_shelf hp' hhash rfl hedits'
  have heq : ∀ b, _ = _ := fun b =>
    (hshelf' b).symm.trans ((congrArg (Shelf.run []) (hsame b)).symm.trans (hshelf b))
  refine ⟨h, h', ts, ts', hrun, hrun', hturns, hturns', unfoldsTo_of_run hrun hturns,
    unfoldsTo_of_run hrun' hturns', fun b => (congrArg Prod.fst (heq b)).symm,
    hr.sameBuckets hr' ?_ (hbits'.trans hbits.symm) ?_⟩
  · rw [hpolicy, hpolicy']
    exact hhash
  · rw [hpolicy, hbits]
    exact funext fun b => congrArg Prod.snd (heq b)

/-- Keys of one byte go into one bucket, and keys of two into the other. -/
theorem run_bucketwise_copying :
    let policy : Policy Unit Nat := .copying fun key => UInt64.ofNat key.length
    let t := empty policy 1 ()
    let calls : List (Call Nat) :=
      [.insert 1 [97], .insert 2 [97, 98], .replace 3 [97], .erase [97, 98]]
    let calls' : List (Call Nat) :=
      [.insert 2 [97, 98], .insert 1 [97], .erase [97, 98], .replace 3 [97]]
    (build 1 policy .ofProcess ()).result = .ok t ∧ policy.CopiesFreely ∧
      ∃ h h' ts ts', t.run calls = .ok h ∧ t.run calls' = .ok h' ∧
        t.turns calls = .ok ts ∧ t.turns calls' = .ok ts' ∧
        h.UnfoldsTo calls ts ∧ h'.UnfoldsTo calls' ts' ∧
        (∀ b, (ts.filter fun turn => turn.call.isOf policy.hash 1 b) =
          ts'.filter fun turn => turn.call.isOf policy.hash 1 b) ∧
        h.table.SameBuckets h'.table := by
  intro policy t calls calls'
  have hbuild : (build 1 policy .ofProcess ()).result = .ok t := rfl
  have hp : policy.CopiesFreely := Policy.copiesFreely_copying _
  have hsame : ∀ b, calls.filter (Call.isOf policy.hash 1 b) =
      calls'.filter (Call.isOf policy.hash 1 b) := by
    rintro (_ | _ | b) <;>
      simp [calls, calls', policy, Policy.copying, Call.isOf, Call.key?, bucketOf]
  exact ⟨hbuild, hp, run_bucketwise hbuild hbuild hp hp rfl (by decide) (by decide) hsame⟩

end Table

end OrderedTable
