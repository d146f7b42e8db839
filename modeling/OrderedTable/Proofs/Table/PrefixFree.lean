import OrderedTable.Proofs.Table.Paired
import OrderedTable.Proofs.Table.Replace

/-!
# Keys of which none starts with another

Among such keys a lookup finds what has the key itself, the newest first, and the buckets do not
matter any more: `Roster.find?_eq_newest?`. So a table whose calls keep to such a set of keys is an
ordered multimap, and two tables with different hashes and different numbers of buckets cannot be
told apart (`Table.run_prefixFree`).

The ids that two tables give out may have different names. So the calls of the one are made on the
other with the ids renamed, by a permutation that takes each id of the one to the id that the other
has given to the same entry. It is put together step by step, as the ids are given out.
-/

namespace OrderedTable

variable {σ τ V A : Type} [Arena A (Node V)] {K : Set Key} {f g : Equiv.Perm NodeId}

/-- The call brings no key that is not in `K`. -/
def Call.Within (K : Set Key) (c : Call V) : Prop := ∀ key, c.key? = some key → key ∈ K

theorem Call.key?_of_stores? [Inhabited V] {c : Call V} {data : V} {key : Key}
    (h : c.stores? = some (data, key)) : c.key? = some key := by
  cases c <;> cases h <;> rfl

/-! ## Looking up -/

namespace Roster

variable {r : Roster V} {key : Key}

/-- The newest entry under the key. -/
def newest? (r : Roster V) (key : Key) : Option (Member V) :=
  r.reverse.find? fun m => m.entry.key = key

theorem newest?_eq_none_iff : r.newest? key = none ↔ ∀ e ∈ r.entries, e.key ≠ key := by
  simp [newest?, entries]

theorem newest?_rename : (r.rename f).newest? key = (r.newest? key).map (Member.rename f) := by
  rw [newest?, rename, ← List.map_reverse, List.find?_map]
  rfl

/-- Where no key starts with another, a lookup finds the whole key, whatever the hash. -/
theorem find?_eq_newest? (hK : IsAntichain (· <+: ·) K) (hr : ∀ m ∈ r, m.entry.key ∈ K)
    (hkey : key ∈ K) (hash : Key → UInt64) (bits : Nat) :
    r.find? hash bits key = r.newest? key := by
  refine List.find?_congr fun m hm => Bool.eq_iff_iff.2 ?_
  rw [decide_eq_true_eq]
  by_cases heq : m.entry.key = key
  · subst heq
    exact iff_of_true answersTo_self rfl
  · rw [answersTo_iff heq]
    refine iff_of_false (fun hshadows => heq ?_) heq
    exact (hK.eq hkey (hr m (List.mem_reverse.1 hm)) hshadows.2.1).symm

end Roster

theorem Ledger.find?_eq_newest? {l : Ledger σ V} {key : Key} (hK : IsAntichain (· <+: ·) K)
    (hl : ∀ m ∈ l.roster, m.entry.key ∈ K) (hkey : key ∈ K) :
    l.find? key = l.roster.newest? key :=
  Roster.find?_eq_newest? hK hl hkey _ _

namespace Table

/-- A table that holds `r` finds whole keys of `K`, the newest entry first. -/
structure FindsNewest (t : Table σ V A) (K : Set Key) (r : Roster V) : Prop where
  ids : t.store.ids = .ok r.ids
  entries : t.store.entries = .ok r.entries
  find : ∀ key ∈ K, t.find? key = .ok ((r.newest? key).map Member.id)
  get : ∀ key ∈ K, t.getByKey? key = .ok ((r.newest? key).map Member.entry)
  find_eq_none : ∀ key ∈ K, t.find? key = .ok none ↔ ∀ e ∈ r.entries, e.key ≠ key

theorem Holds.findsNewest [LawfulArena A (Node V)] {t : Table σ V A} {r : Roster V}
    (h : t.Holds r) (hK : IsAntichain (· <+: ·) K) (hr : ∀ m ∈ r, m.entry.key ∈ K) :
    t.FindsNewest K r where
  ids := h.ids_eq
  entries := h.entries_eq
  find key hkey := by
    rw [find?_eq h, Ledger.find?_eq_newest? hK hr hkey]
    rfl
  get key hkey := by
    rw [getByKey?_eq h, Ledger.find?_eq_newest? hK hr hkey]
    rfl
  find_eq_none key hkey := by
    rw [find?_eq h, Ledger.find?_eq_newest? hK hr hkey, ← Roster.newest?_eq_none_iff,
      Except.ok.injEq, Option.map_eq_none_iff]
    rfl

/-! ## Keys that are stored -/

variable [Inhabited V] {t t' : Table σ V A} {r : Roster V} {c : Call V} {calls : List (Call V)}

omit [Arena A (Node V)] in
/-- An entry is made under the key of the call. -/
theorem key?_of_make? (hc : ¬ t.Strays c) {e : Entry V} (h : t.policy.make? t.env c = some e) :
    c.key? = some e.key := by
  obtain ⟨⟨data, key⟩, hstores, hmake⟩ := Option.bind_eq_some_iff.1 h
  have hattempt : (t.policy.attempt data key t.env).1 = .ok e := by
    dsimp only at hmake
    cases hresult : (t.policy.attempt data key t.env).1 with
    | error rejected =>
      rw [hresult] at hmake
      cases hmake
    | ok e' =>
      rw [hresult] at hmake
      cases hmake
      rfl
  have hkey : e.key = key := Classical.byContradiction fun hne =>
    hc ⟨data, key, hstores, Policy.strays_iff.2 ⟨e, hattempt, hne⟩⟩
  rw [hkey, Call.key?_of_stores? hstores]

omit [Arena A (Node V)] in
/-- What is there after a call was there before or has the key of the call. -/
theorem mem_or_key?_eq (hc : ¬ t.Strays c) {fresh : NodeId} {m : Member V}
    (hm : m ∈ ((t.ledger r).call fresh c).ledger.roster) : m ∈ r ∨ c.key? = some m.entry.key := by
  rcases List.mem_append.1 (((t.ledger r).call_sublist fresh c).subset hm) with hold | hnew
  · exact .inl hold
  · exact .inr (key?_of_make? hc (Ledger.mem_deposits.1 hnew).2)

variable [LawfulArena A (Node V)]

theorem Holds.key_mem_of_accepts (h : t.Holds r) {m : Member V} (hm : t.Accepts calls m)
    (hcalls : ∀ c ∈ calls, c.Within K) : m.entry.key ∈ K := by
  obtain ⟨hbefore, hrun, hmake, hcall, -⟩ := hm
  next before c h' o =>
  rcases h.exists_balance before with hstop | ⟨h'', ms, r', hrun', -, hbal⟩
  · exact nomatch hstop.1.symm.trans hrun
  obtain rfl := Except.ok.inj (hrun.symm.trans hrun')
  have hc : ¬ h'.table.Strays c := Holds.not_strays_of_call hbal.holds hcall
  exact hcalls c (hbefore.subset (by simp)) _ (key?_of_make? hc hmake)

end Table

/-! ## Two tables -/

/-- The second history is the first, but for the names of the ids: where a call is answered with an
id in the first, it is answered with the image of that id in the second. The same entries are
released in the same order, and the same are left in the same order. -/
structure History.Corresponds (f : Equiv.Perm NodeId) (h h' : History σ V A) : Prop where
  answers : h'.answers = h.answers.map (Answer.rename f)
  released : h'.released.map Departure.member = Roster.rename f (h.released.map Departure.member)
  ids : ∃ ids, h.table.store.ids = .ok ids ∧ h'.table.store.ids = .ok (ids.map f)
  entries : ∃ entries, h.table.store.entries = .ok entries ∧ h'.table.store.entries = .ok entries
  size : h'.table.size = h.table.size

/-- Two ways to make calls stop at the same fault, or they come to corresponding histories. -/
inductive Agree (f : Equiv.Perm NodeId) :
    Except Fault (History σ V A) → Except Fault (History σ V A) → Prop
  | stop (fault : Fault) : Agree f (.error fault) (.error fault)
  | done {h h' : History σ V A} (hcorr : h.Corresponds f h') : Agree f (.ok h) (.ok h')

namespace Table

theorem run_agree [Inhabited V] {t t' : Table σ V A} {c : Call V} {calls : List (Call V)}
    {o o' : Outcome σ V (Answer V) A} (hcall : t.call c = .ok o)
    (hcall' : t'.call (c.rename f) = .ok o') (hanswer : o'.answer = o.answer.rename f)
    (hreleased : o'.released.map Departure.member =
      Roster.rename f (o.released.map Departure.member))
    (h : Agree f (o.table.run calls) (o'.table.run (calls.map (Call.rename f)))) :
    Agree f (t.run (c :: calls)) (t'.run ((c :: calls).map (Call.rename f))) := by
  rw [List.map_cons, run, run, hcall, hcall', ok_bind, ok_bind]
  revert h
  generalize o.table.run calls = later
  generalize o'.table.run (calls.map (Call.rename f)) = later'
  rintro (fault | hcorr)
  · exact .stop fault
  · exact .done {
      answers := congrArg₂ _ hanswer hcorr.answers
      released := by
        rw [List.map_append, List.map_append, Roster.rename_append, hreleased, hcorr.released]
      ids := hcorr.ids
      entries := hcorr.entries
      size := hcorr.size }

/-- Two tables are alike but for the names of the ids. All ids that the first has given out so far
are in `S`, and `f` takes them to those that the second has given out. -/
structure Mirrors (view : σ → τ) (K : Set Key) (S : Set NodeId) (f : Equiv.Perm NodeId)
    (t t' : Table σ V A) (r : Roster V) : Prop where
  holds : t.Holds r
  holds' : t'.Holds (r.rename f)
  alike : t.policy.Alike t'.policy
  view : view t'.env = view t.env
  keys : ∀ m ∈ r, m.entry.key ∈ K
  live : ∀ id ∈ r.ids, id ∈ S
  issued : ∀ id ∈ S, Arena.Issued t.store.nodes id
  issued' : ∀ id ∈ S, Arena.Issued t'.store.nodes (f id)

namespace Mirrors

variable {view : σ → τ} {S : Set NodeId} {t t' : Table σ V A} {r : Roster V}

theorem congr (h : Mirrors view K S f t t' r) (hg : ∀ id ∈ S, g id = f id) :
    Mirrors view K S g t t' r where
  holds := h.holds
  holds' := Roster.rename_congr (fun id hid => hg id (h.live id hid)) ▸ h.holds'
  alike := h.alike
  view := h.view
  keys := h.keys
  live := h.live
  issued := h.issued
  issued' id hid := hg id hid ▸ h.issued' id hid

theorem paired (h : Mirrors view K S f t t' r) : Paired S f t t' r (r.rename f) where
  holds := h.holds
  holds' := h.holds'
  ids := Roster.ids_rename
  live := h.live
  issued := h.issued
  issued' := h.issued'

theorem corresponds [LawfulArena A (Node V)] (h : Mirrors view K S f t t' r) :
    History.Corresponds f { table := t } { table := t' } where
  answers := rfl
  released := rfl
  ids := ⟨r.ids, h.holds.ids_eq, Roster.ids_rename ▸ h.holds'.ids_eq⟩
  entries := ⟨r.entries, h.holds.entries_eq, Roster.entries_rename ▸ h.holds'.entries_eq⟩
  size := h.holds'.size.trans (Roster.length_rename.trans h.holds.size.symm)

variable [Inhabited V] {c : Call V} {o o' : Outcome σ V (Answer V) A}

theorem strays_iff (h : Mirrors view K S f t t' r) (hp : t.policy.GrantsAll view) :
    t'.Strays (c.rename f) ↔ t.Strays c := by
  simp only [Strays, Call.stores?_rename, Policy.strays_iff, hp.attempt_fst h.alike h.view]

theorem make?_eq (h : Mirrors view K S f t t' r) (hp : t.policy.GrantsAll view) :
    t'.policy.make? t'.env (c.rename f) = t.policy.make? t.env c := by
  simp only [Policy.make?, Call.stores?_rename, hp.attempt_fst h.alike h.view]

/-- A call on the ledgers of the two tables, given that `f` takes the id of the new entry, if there
is one, to that of the other. -/
theorem ledger_call (h : Mirrors view K S f t t' r) (hK : IsAntichain (· <+: ·) K)
    (hp : t.policy.GrantsAll view) (hc : c.Within K) (hblind : c.seesBuckets = false)
    {fresh fresh' : NodeId} (hf : ∀ e, t.policy.make? t.env c = some e → f fresh = fresh') :
    ((t.ledger r).call fresh c).Mirrors view f (Answer.rename f)
      ((t'.ledger (r.rename f)).call fresh' (c.rename f)) := by
  have hkeys : ∀ m ∈ r.rename f, m.entry.key ∈ K := by
    intro m hm
    obtain ⟨m', hm', rfl⟩ := List.mem_map.1 hm
    exact h.keys m' hm'
  have hfind : ∀ key, c.key? = some key → (t'.ledger (r.rename f)).find? key =
      ((t.ledger r).find? key).map (Member.rename f) := by
    intro key hkey
    rw [Ledger.find?_eq_newest? hK hkeys (hc key hkey),
      Ledger.find?_eq_newest? hK h.keys (hc key hkey)]
    exact Roster.newest?_rename
  have hledger : (t.ledger r).Mirrors view f (t'.ledger (r.rename f)) := ⟨h.alike, h.view, rfl⟩
  have hmirror := hledger.call hp hblind hfind fresh
  cases hmake : t.policy.make? t.env c with
  | none =>
    have hmake' := (h.make?_eq hp).trans hmake
    have hsame := Ledger.call_congr (l := t'.ledger (r.rename f)) hmake' (f fresh) fresh'
    exact hsame ▸ hmirror
  | some e => exact hf e hmake ▸ hmirror

variable [LawfulArena A (Node V)]

/-- A call on both tables, given that `f` takes the id of the new entry to that of the other. -/
theorem call (h : Mirrors view K S f t t' r) (hK : IsAntichain (· <+: ·) K)
    (hp : t.policy.GrantsAll view) (hc : c.Within K) (hblind : c.seesBuckets = false)
    (hcall : t.call c = .ok o) (hcall' : t'.call (c.rename f) = .ok o')
    (hf : ∀ id id', o.answer.issued? = some id → o'.answer.issued? = some id' → f id = id') :
    o'.answer = o.answer.rename f ∧
      o'.released.map Departure.member = Roster.rename f (o.released.map Departure.member) ∧
      ∃ r', Mirrors view K (S ∪ {id | o.answer.issued? = some id}) f o.table o'.table r' := by
  have hstrays : ¬ t.Strays c := Holds.not_strays_of_call h.holds hcall
  obtain ⟨fresh, href, hissues⟩ := Holds.refines_of_call h.holds hcall
  obtain ⟨fresh', href', hissues'⟩ := Holds.refines_of_call h.holds' hcall'
  have hmirror := h.ledger_call hK hp hc hblind fun e hmake => hf fresh fresh'
    (by rw [href.issued?_eq, hmake, Option.map_some])
    (by rw [href'.issued?_eq, h.make?_eq hp, hmake, Option.map_some])
  have hanswer : o'.answer = o.answer.rename f :=
    href'.answer.trans (hmirror.answer.trans (congrArg (Answer.rename f) href.answer.symm))
  refine ⟨hanswer, ?_, ((t.ledger r).call fresh c).ledger.roster, ?_⟩
  · rw [href'.released.members, hmirror.released, href.released.members]
  have hids : ((t'.ledger (r.rename f)).call fresh' (c.rename f)).ledger.roster.ids =
      ((t.ledger r).call fresh c).ledger.roster.ids.map f := by
    rw [hmirror.ledger.roster, Roster.ids_rename]
  have hnew : o'.answer.issued? = o.answer.issued?.map f := by
    rw [hanswer, Answer.issued?_rename]
  have hpaired := h.paired.after href hissues href' hissues' hids hnew
  exact {
    holds := hpaired.holds
    holds' := hmirror.ledger.roster ▸ hpaired.holds'
    alike := by
      rw [href.policy, href'.policy]
      exact h.alike
    view := by
      rw [← href.env_eq, ← href'.env_eq]
      exact hmirror.ledger.view
    keys := fun m hm => by
      rcases mem_or_key?_eq hstrays hm with hold | hkey
      · exact h.keys m hold
      · exact hc _ hkey
    live := hpaired.live
    issued := hpaired.issued
    issued' := hpaired.issued' }

/-- Calls on both tables, one after the other. The permutation is found step by step. -/
theorem exists_agree (h : Mirrors view K S f t t' r) (hK : IsAntichain (· <+: ·) K)
    (hp : t.policy.GrantsAll view) (calls : List (Call V))
    (hcalls : ∀ c ∈ calls, c.Within K ∧ c.seesBuckets = false) :
    ∃ g : Equiv.Perm NodeId, (∀ id ∈ S, g id = f id) ∧
      Agree g (t.run calls) (t'.run (calls.map (Call.rename g))) := by
  induction calls generalizing t t' r S f with
  | nil => exact ⟨f, fun _ _ => rfl, .done h.corresponds⟩
  | cons c calls ih =>
    by_cases hc : t.Strays c
    · have hstop := Holds.call_of_strays h.holds hc
      have hstop' := Holds.call_of_strays h.holds' ((h.strays_iff hp).2 hc)
      refine ⟨f, fun _ _ => rfl, ?_⟩
      rw [List.map_cons, run, run, hstop, hstop']
      exact .stop _
    obtain ⟨hwithin, hblind⟩ := hcalls c List.mem_cons_self
    obtain ⟨fresh, o, hcall, href, hissues⟩ := Holds.exists_call h.holds c hc
    obtain ⟨fresh', o', hcall', href', hissues'⟩ :=
      Holds.exists_call h.holds' (c.rename f) (mt (h.strays_iff hp).1 hc)
    obtain ⟨f₁, hf₁, hnew⟩ := h.paired.exists_swap hissues hissues'
    obtain ⟨-, -, r₁, h₁⟩ := (h.congr hf₁).call hK hp hwithin hblind hcall
      ((h.paired.call_congr hf₁ c).trans hcall') hnew
    obtain ⟨g, hg, hagree⟩ := ih h₁ (href.policy ▸ hp) fun c hmem =>
      hcalls c (List.mem_cons_of_mem _ hmem)
    have hgf : ∀ id ∈ S, g id = f id := fun id hid => (hg id (.inl hid)).trans (hf₁ id hid)
    have hcall₁ := (h.paired.call_congr hgf c).trans hcall'
    -- The first call is looked at once more, now that all later ids are known.
    obtain ⟨hanswer, hreleased, -⟩ := (h.congr hgf).call hK hp hwithin hblind hcall hcall₁
      fun id id' hid hid' => (hg id (.inr hid)).trans (hnew id id' hid hid')
    exact ⟨g, hgf, run_agree hcall hcall₁ hanswer hreleased hagree⟩

end Mirrors

/-! ## From the building on -/

section

/-- Two tables have been built with the same gate and the same strategy. Their hashes and their
numbers of buckets may be different, and so may the heaps that they have been built on. -/
inductive BuiltAlike (view : σ → τ) (policy : Policy σ V) (t t' : Table σ V A) : Prop
  | intro {bits bits' hash' heap heap' env env'} (henv : view env' = view env)
    (hbuild : (build bits policy heap env A).result = .ok t)
    (hbuild' : (build bits' { policy with hash := hash' } heap' env' A).result = .ok t')

variable [Inhabited V] [LawfulArena A (Node V)] {bits : UInt32} {policy : Policy σ V} {heap : Heap}
  {env : σ} {view : σ → τ} {t t' : Table σ V A} {calls : List (Call V)}

theorem run_findsNewest (hK : IsAntichain (· <+: ·) K)
    (hbuild : (build bits policy heap env A).result = .ok t) (hcalls : ∀ c ∈ calls, c.Within K) :
    policy.Stops (t.run calls) ∨
      ∃ h r, t.run calls = .ok h ∧ r.ids.Sublist h.issued ∧ h.table.FindsNewest K r := by
  rcases exists_balance_of_build hbuild calls with hstop | ⟨h, ms, r, hrun, -, hbal, -⟩
  · exact .inl hstop
  have hempty : t.Holds [] := holds_of_build hbuild
  refine .inr ⟨h, r, hrun, ?_, hbal.holds.findsNewest hK fun m hm => ?_⟩
  · rw [← hbal.issued]
    exact hbal.order.map Member.id
  · exact hempty.key_mem_of_accepts (hbal.accepts m (hbal.order.subset hm)) hcalls

theorem BuiltAlike.exists_agree (h : BuiltAlike view policy t t') (hp : policy.GrantsAll view)
    (hK : IsAntichain (· <+: ·) K) (hcalls : ∀ c ∈ calls, c.Within K ∧ c.seesBuckets = false) :
    ∃ f, Agree f (t.run calls) (t'.run (calls.map (Call.rename f))) := by
  obtain ⟨henv, hbuild, hbuild'⟩ := h
  next bits bits' hash' heap heap' env env' =>
  have hlike : policy.Alike { policy with hash := hash' } := ⟨rfl, rfl⟩
  have hview := (hp.of_alike hlike).view_build (A := A) bits' heap' env'
  obtain rfl := eq_empty_of_build hbuild
  obtain rfl := eq_empty_of_build hbuild'
  have hpaired := Paired.of_empty (A := A) policy { policy with hash := hash' } bits bits'
    (build bits policy heap env A).env (build bits' { policy with hash := hash' } heap' env' A).env
  have hmirror : Mirrors view K ∅ (Equiv.refl NodeId)
      (empty policy bits (build bits policy heap env A).env A)
      (empty { policy with hash := hash' } bits'
        (build bits' { policy with hash := hash' } heap' env' A).env A) [] := {
    holds := hpaired.holds
    holds' := hpaired.holds'
    alike := hlike
    view := hview.trans (henv.trans (hp.view_build bits heap env).symm)
    keys := fun m hm => absurd hm List.not_mem_nil
    live := hpaired.live
    issued := hpaired.issued
    issued' := hpaired.issued' }
  obtain ⟨f, -, hagree⟩ := hmirror.exists_agree hK hp calls hcalls
  exact ⟨f, hagree⟩

/-- Where no key starts with another, a lookup finds the newest entry under the key itself, and none
only if there is none. And tables with different hashes and numbers of buckets do the same, but for
the names of the ids, as long as the gate grants everything and no call looks at the buckets. -/
theorem run_prefixFree (hK : IsAntichain (· <+: ·) K) :
    (∀ (bits : UInt32) (policy : Policy σ V) (heap : Heap) (env : σ) (t : Table σ V A)
      (calls : List (Call V)), (build bits policy heap env A).result = .ok t →
        (∀ c ∈ calls, c.Within K) → policy.Stops (t.run calls) ∨
          ∃ h r, t.run calls = .ok h ∧ r.ids.Sublist h.issued ∧ h.table.FindsNewest K r) ∧
    ∀ (view : σ → τ) (policy : Policy σ V) (t t' : Table σ V A) (calls : List (Call V)),
      policy.GrantsAll view → BuiltAlike view policy t t' →
        (∀ c ∈ calls, c.Within K ∧ c.seesBuckets = false) →
          ∃ f, Agree f (t.run calls) (t'.run (calls.map (Call.rename f))) :=
  ⟨fun _ _ _ _ _ _ hbuild hcalls => run_findsNewest hK hbuild hcalls,
    fun _ _ _ _ _ hp hbuilt hcalls => hbuilt.exists_agree hp hK hcalls⟩

/-- The keys are of one byte. In one table they are all in one bucket, in the other in eight. -/
theorem run_prefixFree_oneByte :
    let K : Set Key := {key | key.length = 1}
    let policy : Policy Unit Nat := .copying fun _ => 0
    let hash' : Key → UInt64 := fun key => (key.headD 0).toUInt64
    let t := empty policy 0 ()
    let t' := empty { policy with hash := hash' } 3 ()
    let calls : List (Call Nat) :=
      [.insert 1 [97], .insert 2 [98], .replace 3 [97], .eraseId ⟨1, 0⟩, .find [97], .entries]
    IsAntichain (· <+: ·) K ∧ (∀ c ∈ calls, c.Within K ∧ c.seesBuckets = false) ∧
      policy.GrantsAll (id : Unit → Unit) ∧ BuiltAlike (id : Unit → Unit) policy t t' ∧
      (∃ h r, t.run calls = .ok h ∧ r.ids.Sublist h.issued ∧ h.table.FindsNewest K r) ∧
      ∃ f, Agree f (t.run calls) (t'.run (calls.map (Call.rename f))) := by
  intro K policy hash' t t' calls
  have hK : IsAntichain (· <+: ·) K := fun key hkey key' hkey' hne hpre =>
    hne (hpre.eq_of_length (hkey.trans hkey'.symm))
  have hcalls : ∀ c ∈ calls, c.Within K ∧ c.seesBuckets = false := by
    simp [calls, Call.Within, Call.key?, Call.seesBuckets, K]
  have hp : policy.GrantsAll (id : Unit → Unit) :=
    ⟨fun _ env => ⟨env, rfl, rfl⟩, fun _ _ _ _ _ => rfl⟩
  have hbuild : (build 0 policy .ofProcess ()).result = .ok t := rfl
  have hbuild' : (build 3 { policy with hash := hash' } .ofProcess ()).result = .ok t' := rfl
  have hbuilt : BuiltAlike (id : Unit → Unit) policy t t' := .intro rfl hbuild hbuild'
  have hkey : policy.StoresKey := Policy.storesKey_of_copyKey rfl
  obtain ⟨hfinds, hagree⟩ := run_prefixFree (σ := Unit) (V := Nat) (A := SlotArena (Node Nat)) hK
  refine ⟨hK, hcalls, hp, hbuilt, ?_, hagree id policy t t' calls hp hbuilt hcalls⟩
  exact (hfinds 0 policy .ofProcess () t calls hbuild fun c hc => (hcalls c hc).1).resolve_left
    fun hstop => hstop.2 hkey

end

end Table

end OrderedTable
