import OrderedTable.Proofs.Ledger.Run

/-!
# Replacing and unique keys

`Table.replace` removes what a lookup of the key finds, and a lookup finds any entry of the bucket
whose key starts with the probe. So an old entry under the key itself stays if a newer one of its
bucket has a longer key that starts with it: the longer one is removed in its place.
`Unshadowed` says that this is not so. Where entries come by `Table.replace` only, keys are unique
along a history if and only if no key is shadowed when it is replaced
(`Table.uniqueAlong_iff_unshadowedAlong`).
-/

namespace OrderedTable

variable {σ V A : Type} [Arena A (Node V)]

/-! ## Shadowing -/

/-- The entry has another key than `key`, and a lookup of `key` may find it. -/
def Entry.Shadows (hash : Key → UInt64) (bits : Nat) (key : Key) (e : Entry V) : Prop :=
  bucketOf hash bits e.key = bucketOf hash bits key ∧ key <+: e.key ∧ e.key ≠ key

/-- No entry under the key is followed by one that a lookup of the key finds first. -/
def Unshadowed (hash : Key → UInt64) (bits : Nat) (key : Key) (entries : List (Entry V)) : Prop :=
  entries.Pairwise fun older newer => older.key = key → ¬ newer.Shadows hash bits key

def keysOf (entries : List (Entry V)) : List Key := entries.map Entry.key

namespace Roster

variable {r : Roster V} {hash : Key → UInt64} {bits : Nat} {key : Key} {m : Member V}

theorem unshadowed_of_notMem (h : key ∉ keysOf r.entries) :
    Unshadowed hash bits key r.entries :=
  List.pairwise_of_forall_mem_list fun e he _ _ hkey =>
    absurd (List.mem_map.2 ⟨e, he, hkey⟩) h

theorem answersTo_iff (h : m.entry.key ≠ key) :
    m.answersTo hash bits key = true ↔ m.entry.Shadows hash bits key := by
  rw [Member.answersTo, Bool.and_eq_true, decide_eq_true_eq, Entry.answersTo, Key.startsWith_iff]
  exact ⟨fun ⟨hb, hpre⟩ => ⟨hb, hpre, h⟩, fun ⟨hb, hpre, _⟩ => ⟨hb, hpre⟩⟩

theorem answersTo_self : m.answersTo hash bits m.entry.key = true := by
  rw [Member.answersTo, Bool.and_eq_true, Entry.answersTo, Key.startsWith_iff]
  exact ⟨decide_eq_true rfl, List.prefix_refl _⟩

/-- Where all other keys are different, only what is newer can shadow. -/
theorem unshadowed_append_cons {older newer : Roster V}
    (hold : ∀ m' ∈ older, m'.entry.key ≠ m.entry.key)
    (hnew : ∀ m' ∈ newer, m'.entry.key ≠ m.entry.key) :
    Unshadowed hash bits m.entry.key (entries (older ++ m :: newer)) ↔
      ∀ m' ∈ newer, ¬ m'.entry.Shadows hash bits m.entry.key := by
  rw [Unshadowed, entries, List.pairwise_map, List.pairwise_append, List.pairwise_cons]
  refine ⟨fun h m' hm' => h.2.1.1 m' hm' rfl, fun h => ⟨?_, ⟨fun m' hm' _ => h m' hm', ?_⟩, ?_⟩⟩
  · exact List.pairwise_of_forall_mem_list fun m' hm' _ _ hkey => absurd hkey (hold m' hm')
  · exact List.pairwise_of_forall_mem_list fun m' hm' _ _ hkey => absurd hkey (hnew m' hm')
  · exact fun m' hm' _ _ hkey => absurd hkey (hold m' hm')

/-- Among different keys, a lookup of a key that is there finds its entry unless it is shadowed. -/
theorem find?_eq_some_iff (hnd : (keysOf r.entries).Nodup) (hm : m ∈ r) :
    r.find? hash bits m.entry.key = some m ↔ Unshadowed hash bits m.entry.key r.entries := by
  obtain ⟨older, newer, rfl⟩ := List.append_of_mem hm
  rw [keysOf, entries, List.map_map, List.map_append, List.map_cons, List.nodup_append,
    List.nodup_cons] at hnd
  obtain ⟨-, ⟨hm', -⟩, hdisj⟩ := hnd
  have hold : ∀ m' ∈ older, m'.entry.key ≠ m.entry.key := fun m' hmem =>
    hdisj _ (List.mem_map_of_mem hmem) _ List.mem_cons_self
  have hnew : ∀ m' ∈ newer, m'.entry.key ≠ m.entry.key := fun m' hmem heq =>
    hm' (List.mem_map.2 ⟨m', hmem, heq⟩)
  rw [unshadowed_append_cons hold hnew, find?_append_cons answersTo_self, Option.some.injEq]
  cases hfirst : newer.reverse.find? (Member.answersTo hash bits m.entry.key) with
  | none =>
    refine ⟨fun _ m' hmem hshadows => ?_, fun _ => rfl⟩
    exact List.find?_eq_none.1 hfirst m' (List.mem_reverse.2 hmem)
      ((answersTo_iff (hnew m' hmem)).2 hshadows)
  | some m' =>
    have hmem : m' ∈ newer := List.mem_reverse.1 (List.mem_of_find?_eq_some hfirst)
    refine ⟨fun heq => absurd (congrArg (Entry.key ∘ Member.entry) heq) (hnew m' hmem), fun h => ?_⟩
    exact absurd ((answersTo_iff (hnew m' hmem)).1 (List.find?_some hfirst)) (h m' hmem)

theorem nodup_keys_of_sublist {r' : Roster V} (h : r'.Sublist r) (hnd : (keysOf r.entries).Nodup) :
    (keysOf r'.entries).Nodup :=
  hnd.sublist ((h.map Member.entry).map Entry.key)

end Roster

/-! ## One call -/

namespace Ledger

variable {l : Ledger σ V} {fresh : NodeId} {key : Key} {e : Entry V}

/-- What a lookup finds is the only entry that a replacement removes. -/
theorem notMem_keys_erased_iff (hids : l.roster.ids.Nodup)
    (hnd : (keysOf l.roster.entries).Nodup) :
    key ∉ keysOf (l.eraseMember (l.find? key)).ledger.roster.entries ↔
      Unshadowed l.policy.hash l.bits key l.roster.entries := by
  have hkept := l.eraseMember_roster (l.find? key)
  constructor
  · intro hgone
    by_cases hkey : key ∈ keysOf l.roster.entries
    · obtain ⟨e, he, rfl⟩ := List.mem_map.1 hkey
      obtain ⟨m, hm, rfl⟩ := List.mem_map.1 he
      refine (Roster.find?_eq_some_iff hnd hm).1 ?_
      have hm' : m ∉ (l.eraseMember (l.find? m.entry.key)).ledger.roster := fun hmem =>
        hgone (List.mem_map_of_mem (List.mem_map_of_mem hmem))
      change l.find? m.entry.key = some m
      cases hfind : l.find? m.entry.key with
      | none =>
        rw [hfind] at hm'
        exact absurd hm hm'
      | some m' =>
        rw [hfind] at hm'
        have hid : m.id = m'.id := Classical.byContradiction fun hne =>
          hm' (Roster.mem_without.2 ⟨hm, hne⟩)
        rw [Roster.eq_of_id_eq hids hm (Roster.mem_of_find? hfind) hid]
    · exact Roster.unshadowed_of_notMem hkey
  · intro hun hkey
    obtain ⟨e, he, rfl⟩ := List.mem_map.1 hkey
    obtain ⟨m, hm, rfl⟩ := List.mem_map.1 he
    have hfind : l.find? m.entry.key = some m :=
      (Roster.find?_eq_some_iff hnd (hkept.subset hm)).2 hun
    rw [hfind] at hm
    exact (Roster.mem_without.1 hm).2 rfl

theorem nodup_keys_replaced_iff (hids : l.roster.ids.Nodup)
    (hnd : (keysOf l.roster.entries).Nodup) (he : e.key = key) :
    (keysOf (Roster.entries ((l.eraseMember (l.find? key)).ledger.roster ++ [⟨fresh, e⟩]))).Nodup ↔
      Unshadowed l.policy.hash l.bits key l.roster.entries := by
  have hkept := Roster.nodup_keys_of_sublist (l.eraseMember_roster (l.find? key)) hnd
  have hconcat : keysOf (Roster.entries ((l.eraseMember (l.find? key)).ledger.roster ++
      [⟨fresh, e⟩])) = (keysOf (l.eraseMember (l.find? key)).ledger.roster.entries).concat key := by
    rw [← he, keysOf, Roster.entries, List.map_append, List.map_append, List.concat_eq_append]
    rfl
  rw [hconcat, List.nodup_concat, notMem_keys_erased_iff hids hnd]
  exact and_iff_left hkept

end Ledger

/-! ## Along a history -/

namespace Table

/-- No entry under the key is followed by one that a lookup of the key finds first. -/
def Unshadowed (t : Table σ V A) (key : Key) : Prop :=
  ∃ entries, t.store.entries = .ok entries ∧
    OrderedTable.Unshadowed t.policy.hash t.bits.toNat key entries

variable [Inhabited V]

/-- Somewhere in the history of the calls, `t₁` becomes `t₂` when `key` is replaced with success. -/
inductive Replaced (t : Table σ V A) (calls : List (Call V)) (key : Key) :
    Table σ V A → Table σ V A → Prop
  | intro {before data h o id} (hbefore : before ++ [.replace data key] <+: calls)
      (hrun : t.run before = .ok h) (hreplace : h.table.replace data key = .ok o)
      (hanswer : o.answer = .ok id) : Replaced t calls key h.table o.table

/-- No two entries have the same key at any time of the history. -/
def DistinctAlong (t : Table σ V A) (calls : List (Call V)) : Prop :=
  ∀ before, before <+: calls → ∃ h entries, t.run before = .ok h ∧
    h.table.store.entries = .ok entries ∧ (keysOf entries).Nodup

/-- Keys are different at any time of the history, and after every replacement there is one entry
under the key. -/
structure UniqueAlong (t : Table σ V A) (calls : List (Call V)) : Prop where
  distinct : t.DistinctAlong calls
  one : ∀ key t₁ t₂, t.Replaced calls key t₁ t₂ → ∃ entries, t₂.store.entries = .ok entries ∧
    (keysOf entries).count key = 1

/-- No key is shadowed when it is replaced. -/
def UnshadowedAlong (t : Table σ V A) (calls : List (Call V)) : Prop :=
  ∀ key t₁ t₂, t.Replaced calls key t₁ t₂ → t₁.Unshadowed key

variable [LawfulArena A (Node V)] {t : Table σ V A} {r : Roster V} {key : Key}

namespace Holds

omit [Inhabited V] in
theorem unshadowed_iff (h : t.Holds r) : t.Unshadowed key ↔
    OrderedTable.Unshadowed t.policy.hash t.bits.toNat key r.entries := by
  rw [Unshadowed]
  simp [h.entries_eq]

omit [Inhabited V] in
/-- A replacement keeps keys different if the key is not shadowed, and only then. -/
theorem exists_replaced (h : t.Holds r) (hkey : t.policy.StoresKey)
    (hnd : (keysOf r.entries).Nodup) (data : V) (key : Key) :
    ∃ o r', t.replace data key = .ok o ∧ o.table.Holds r' ∧ o.table.policy = t.policy ∧
      ((∃ rejected, o.answer = .error rejected) ∧ r'.Sublist r ∨
        (∃ id, o.answer = .ok id) ∧ key ∈ keysOf r'.entries ∧
          ((keysOf r'.entries).Nodup ↔ t.Unshadowed key)) := by
  obtain ⟨fresh, o, hreplace, href, -⟩ := h.exists_replace data key hkey.not_strays
  refine ⟨o, _, hreplace, href.holds, href.policy, ?_⟩
  rcases (t.ledger r).replace_cases fresh data key with ⟨rejected, hanswer, hroster⟩ |
    ⟨e, he, hanswer, hroster⟩
  · exact .inl ⟨⟨rejected, href.answer.trans hanswer⟩, hroster⟩
  · rw [hroster, h.unshadowed_iff]
    refine .inr ⟨⟨fresh, href.answer.trans hanswer⟩, ?_,
      Ledger.nodup_keys_replaced_iff h.nodup hnd (he hkey)⟩
    rw [← he hkey]
    exact List.mem_map_of_mem (List.mem_map_of_mem (List.mem_append_right _ List.mem_cons_self))

/-- A call that makes entries by replacing only keeps keys different if it replaces none that is
shadowed. -/
theorem exists_call_distinct (h : t.Holds r) (hkey : t.policy.StoresKey)
    (hnd : (keysOf r.entries).Nodup) {c : Call V}
    (honly : c.makesEntry = true → ∃ data key, c = .replace data key)
    (hun : ∀ data key o id, c = .replace data key → t.replace data key = .ok o →
      o.answer = .ok id → t.Unshadowed key) :
    ∃ o r', t.call c = .ok o ∧ o.table.Holds r' ∧ o.table.policy = t.policy ∧
      (keysOf r'.entries).Nodup := by
  cases hmakes : c.makesEntry with
  | true =>
    obtain ⟨data, key, rfl⟩ := honly hmakes
    obtain ⟨o, r', hreplace, hr', hpolicy, hcases⟩ := h.exists_replaced hkey hnd data key
    refine ⟨_, r', by rw [call, hreplace]; rfl, hr', hpolicy, ?_⟩
    rcases hcases with ⟨-, hkept⟩ | ⟨⟨id, hanswer⟩, -, hiff⟩
    · exact Roster.nodup_keys_of_sublist hkept hnd
    · exact hiff.2 (hun data key o id rfl hreplace hanswer)
  | false =>
    obtain ⟨fresh, o, hcall, href, -⟩ := h.exists_call c (not_strays hkey c)
    exact ⟨o, _, hcall, href.holds, href.policy,
      Roster.nodup_keys_of_sublist (Ledger.call_kept hmakes) hnd⟩

theorem exists_run_distinct (h : t.Holds []) (hkey : t.policy.StoresKey) {calls : List (Call V)}
    (honly : ∀ c ∈ calls, c.makesEntry = true → ∃ data key, c = .replace data key)
    (hun : t.UnshadowedAlong calls) {before : List (Call V)} (hbefore : before <+: calls) :
    ∃ h' r, t.run before = .ok h' ∧ h'.table.Holds r ∧ h'.table.policy = t.policy ∧
      (keysOf r.entries).Nodup := by
  -- On the prefix from its end, so that the last call is made on the table of a shorter history.
  induction before using List.reverseRecOn with
  | nil => exact ⟨_, [], rfl, h, rfl, List.nodup_nil⟩
  | append_singleton before c ih =>
    obtain ⟨h', r, hrun, hr, hpolicy, hnd⟩ := ih ((List.prefix_append _ _).trans hbefore)
    have hc : c ∈ calls := hbefore.subset (List.mem_append_right _ List.mem_cons_self)
    obtain ⟨o, r', hcall, hr', hpolicy', hnd'⟩ :=
      hr.exists_call_distinct (hpolicy ▸ hkey) hnd (honly c hc)
        fun data key o id heq hreplace hanswer =>
          hun key h'.table o.table (.intro (heq ▸ hbefore) hrun hreplace hanswer)
    obtain ⟨h'', hrun', htable⟩ := run_concat hrun hcall
    rw [← htable] at hr' hpolicy'
    exact ⟨h'', r', hrun', hr', hpolicy'.trans hpolicy, hnd'⟩

/-- At any time of a history of different keys, the table holds a roster of different keys. -/
theorem exists_holds_of_distinct (h : t.Holds []) (hkey : t.policy.StoresKey)
    {calls before : List (Call V)} (hdistinct : t.DistinctAlong calls) (hbefore : before <+: calls)
    {h' : History σ V A} (hrun : t.run before = .ok h') :
    ∃ r, h'.table.Holds r ∧ h'.table.policy = t.policy ∧ (keysOf r.entries).Nodup := by
  obtain ⟨h₁, script, -, hrun₁, href, -⟩ := h.exists_run hkey before
  obtain rfl := Except.ok.inj (hrun.symm.trans hrun₁)
  obtain ⟨h₂, entries, hrun₂, hentries, hnd⟩ := hdistinct before hbefore
  obtain rfl := Except.ok.inj (hrun.symm.trans hrun₂)
  obtain rfl := Except.ok.inj (href.holds.entries_eq.symm.trans hentries)
  exact ⟨_, href.holds, href.policy, hnd⟩

/-- Along a history of different keys, a key that is replaced is not shadowed before and is there
once after. -/
theorem of_replaced (h : t.Holds []) (hkey : t.policy.StoresKey) {calls : List (Call V)}
    (hdistinct : t.DistinctAlong calls) {t₁ t₂ : Table σ V A}
    (hreplaced : t.Replaced calls key t₁ t₂) :
    t₁.Unshadowed key ∧ ∃ entries, t₂.store.entries = .ok entries ∧
      (keysOf entries).count key = 1 := by
  obtain @⟨before, data, h', o, id, hbefore, hrun, hreplace, hanswer⟩ := hreplaced
  obtain ⟨r, hr, hpolicy, hnd⟩ :=
    h.exists_holds_of_distinct hkey hdistinct ((List.prefix_append _ _).trans hbefore) hrun
  obtain ⟨o', r', hreplace', hr', -, hcases⟩ := hr.exists_replaced (hpolicy ▸ hkey) hnd data key
  obtain rfl := Except.ok.inj (hreplace.symm.trans hreplace')
  rcases hcases with ⟨⟨rejected, hrejected⟩, -⟩ | ⟨-, hmem, hiff⟩
  · exact nomatch hanswer.symm.trans hrejected
  -- The state after the replacement is one of the history too.
  have hcall : h'.table.call (.replace data key) = .ok (o.map .inserted) := by
    rw [call, hreplace]
    rfl
  obtain ⟨h₂, hrun₂, htable⟩ := run_concat hrun hcall
  obtain ⟨r₂, hr₂, -, hnd₂⟩ := h.exists_holds_of_distinct hkey hdistinct hbefore hrun₂
  rw [htable] at hr₂
  have hentries : r₂.entries = r'.entries := Except.ok.inj (hr₂.entries_eq.symm.trans hr'.entries_eq)
  rw [hentries] at hnd₂
  exact ⟨hiff.1 hnd₂, r'.entries, hr'.entries_eq, List.count_eq_one_of_mem hnd₂ hmem⟩

end Holds

variable {bits : UInt32} {policy : Policy σ V} {heap : Heap} {env : σ}

/-- Where entries come by replacing only, keys are unique along a history if and only if no key is
shadowed when it is replaced. -/
theorem uniqueAlong_iff_unshadowedAlong (hbuild : (build bits policy heap env A).result = .ok t)
    (hkey : policy.StoresKey) {calls : List (Call V)}
    (honly : ∀ c ∈ calls, c.makesEntry = true → ∃ data key, c = .replace data key) :
    t.UniqueAlong calls ↔ t.UnshadowedAlong calls := by
  obtain rfl := eq_empty_of_build hbuild
  have hempty := holds_empty policy bits (build bits policy heap env A).env (A := A)
  constructor
  · exact fun hunique key t₁ t₂ hreplaced => (hempty.of_replaced hkey hunique.distinct hreplaced).1
  · intro hun
    have hdistinct : (empty policy bits (build bits policy heap env A).env A).DistinctAlong calls :=
      fun before hbefore => by
        obtain ⟨h, r, hrun, hr, -, hnd⟩ := hempty.exists_run_distinct hkey honly hun hbefore
        exact ⟨h, r.entries, hrun, hr.entries_eq, hnd⟩
    exact ⟨hdistinct, fun key t₁ t₂ hreplaced => (hempty.of_replaced hkey hdistinct hreplaced).2⟩

theorem uniqueAlong_iff_unshadowedAlong_copying :
    let policy : Policy Unit Nat := .copying fun _ => 0
    let calls : List (Call Nat) := [.replace 1 [97, 98], .replace 2 [97], .clear, .replace 3 [97]]
    (build 0 policy .ofProcess ()).result = .ok (empty policy 0 ()) ∧ policy.StoresKey ∧
      (∀ c ∈ calls, c.makesEntry = true → ∃ data key, c = .replace data key) ∧
      ((empty policy 0 ()).UniqueAlong calls ↔ (empty policy 0 ()).UnshadowedAlong calls) := by
  intro policy calls
  have hbuild : (build 0 policy .ofProcess ()).result = .ok (empty policy 0 ()) := rfl
  have hkey : policy.StoresKey := Policy.storesKey_of_copyKey rfl
  have honly : ∀ c ∈ calls, c.makesEntry = true → ∃ data key, c = .replace data key := by
    simp [calls, Call.makesEntry]
  exact ⟨hbuild, hkey, honly, uniqueAlong_iff_unshadowedAlong hbuild hkey honly⟩

/-- The key `a` is replaced while `ab` shadows it: `ab` goes, and two entries are under `a`. -/
theorem not_uniqueAlong_of_prefix :
    let policy : Policy Unit Nat := .copying fun _ => 0
    let calls : List (Call Nat) := [.replace 1 [97], .replace 2 [97, 98], .replace 3 [97]]
    (build 0 policy .ofProcess ()).result = .ok (empty policy 0 ()) ∧ policy.StoresKey ∧
      (∀ c ∈ calls, c.makesEntry = true → ∃ data key, c = .replace data key) ∧
      ¬ (empty policy 0 ()).UniqueAlong calls := by
  intro policy calls
  refine ⟨rfl, Policy.storesKey_of_copyKey rfl, by simp [calls, Call.makesEntry], fun hunique => ?_⟩
  obtain ⟨h, entries, hrun, hentries, hnd⟩ := hunique.distinct calls (List.prefix_refl _)
  have hkeys : ((empty policy 0 ()).run calls >>= fun h => keysOf <$> h.table.store.entries) =
      .ok [[97], [97]] := by decide +kernel
  rw [hrun, ok_bind, hentries] at hkeys
  rw [Except.ok.inj hkeys] at hnd
  exact absurd hnd (by decide)

end Table

end OrderedTable
