import OrderedTable.Proofs.Table.Release
import OrderedTable.Proofs.Table.Stability

/-!
# Retaining is a stable filter

`Table.retain` walks a list that it is cutting: what it turns down is gone before the predicate is
asked about the next entry. That nevertheless makes no difference to the walk. The predicate decides
as if the entries had been listed beforehand (`verdicts`), and the list, each chain and what is
released are the old list and the old chains with other entries left out: `Table.RetainsStably`,
which holds after every history (`Table.run_retainsStably`).
-/

namespace OrderedTable

variable {σ V A α : Type} [Arena A (Node V)]

/-- What `keep` decides about each of the entries, told the entries before it. -/
def verdicts (keep : List (Entry V) → Entry V → Bool) (es : List (Entry V)) : List Bool :=
  es.mapIdx fun i e => keep (es.take i) e

/-- The elements about which this has been decided. -/
def decided (verdict : Bool) (vs : List Bool) (xs : List α) : List α :=
  ((vs.zip xs).filter fun p => p.1 = verdict).map Prod.snd

theorem verdicts_cons (keep : List (Entry V) → Entry V → Bool) (e : Entry V) (es : List (Entry V)) :
    verdicts keep (e :: es) = keep [] e :: verdicts (fun before => keep (e :: before)) es := by
  rw [verdicts, List.mapIdx_cons]
  rfl

theorem decided_cons (verdict v : Bool) (vs : List Bool) (x : α) (xs : List α) :
    decided verdict (v :: vs) (x :: xs) =
      (if v = verdict then [x] else []) ++ decided verdict vs xs := by
  rw [decided, List.zip_cons_cons, List.filter_cons]
  by_cases hv : v = verdict
  · simp [hv, decided]
  · simp [hv, decided]

theorem map_decided {β : Type} (f : α → β) (verdict : Bool) (vs : List Bool) (xs : List α) :
    (decided verdict vs xs).map f = decided verdict vs (xs.map f) := by
  rw [decided, decided, List.zip_map_right, List.filter_map, List.map_map, List.map_map]
  rfl

/-! ## Sifting -/

namespace Roster

variable {r : Roster V} {hash : Key → UInt64} {bits b : Nat}

/-- What has been seen before only changes what the predicate is told. -/
theorem sift_eq_decided (keep : List (Entry V) → Entry V → Bool) (seen : List (Entry V))
    (r : Roster V) :
    let vs := verdicts (fun before => keep (seen ++ before)) r.entries
    sift keep seen r = (decided true vs r, decided false vs r) := by
  intro vs
  induction r generalizing seen with
  | nil => rfl
  | cons m rest ih =>
    have hvs : vs = keep seen m.entry ::
        verdicts (fun before => keep (seen ++ [m.entry] ++ before)) (entries rest) := by
      simp only [vs, entries, List.map_cons, verdicts_cons, List.append_nil, List.append_assoc,
        List.singleton_append]
    rw [sift_cons, ih (seen ++ [m.entry]), hvs, decided_cons, decided_cons]
    cases keep seen m.entry <;> rfl

/-- Of entries with different ids, some are picked out by their ids. -/
theorem eq_filter_of_sublist {s : Roster V} (h : s.Sublist r) (hnd : r.ids.Nodup) :
    s = r.filter fun m => m.id ∈ s.ids := by
  induction h with
  | slnil => rfl
  | @cons s r m hsub ih =>
    obtain ⟨hm, hnd⟩ := List.nodup_cons.1 hnd
    have hm' : m.id ∉ ids s := fun hid => hm ((hsub.map Member.id).subset hid)
    rw [List.filter_cons_of_neg (by simpa using hm')]
    exact ih hnd
  | @cons_cons s r m hsub ih =>
    obtain ⟨hm, hnd⟩ := List.nodup_cons.1 hnd
    rw [List.filter_cons_of_pos (by simp [ids])]
    refine congrArg (m :: ·) ((ih hnd).trans (List.filter_congr fun m' hm' => ?_))
    have hne : m'.id ≠ m.id := fun heq => hm (heq ▸ mem_ids hm')
    simp [ids, hne]

theorem ids_chain_of_sublist {s : Roster V} (h : s.Sublist r) (hnd : r.ids.Nodup) :
    (s.chain hash bits b).ids = (r.chain hash bits b).ids.filter (· ∈ s.ids) := by
  have hs := eq_filter_of_sublist h hnd
  have hchain : s.chain hash bits b = (r.chain hash bits b).filter fun m => m.id ∈ s.ids := by
    conv_lhs => rw [hs]
    rw [chain, chain, ← List.filter_reverse, List.filter_filter, List.filter_filter]
    exact List.filter_congr fun m _ => Bool.and_comm _ _
  rw [hchain, ids, ids, ids, List.filter_map]
  rfl

end Roster

/-! ## Retaining -/

namespace Table

/-- Retaining from `t`, whose list is `ids` with the entries `es`, comes to `o`: a stable filter in
place. -/
structure RetainsStably (t : Table σ V A) (keep : List (Entry V) → Entry V → Bool)
    (o : Outcome σ V (List (Entry V)) A) (ids : List NodeId) (es : List (Entry V)) : Prop where
  nodup : ids.Nodup
  live : ∀ id, id ∈ ids ↔ t.store.contains id = true
  /-- The loop takes each node of the list once, in order, and is then at its end. -/
  visits : Visits (Store.retainStep keep) t.store.firstId? ⟨[], [], t.store⟩ ids
    ⟨es, o.released, o.table.store⟩
  /-- The predicate has been asked about all entries, in order and as they were. -/
  asked : o.answer = es
  keptIds : o.table.store.ids = .ok (decided true (verdicts keep es) ids)
  keptEntries : o.table.store.entries = .ok (decided true (verdicts keep es) es)
  bucketCount : o.table.bucketCount = t.bucketCount
  chains : ∀ b < t.bucketCount, ∃ chain, t.store.buckets.chain t.store.nodes b = .ok chain ∧
    o.table.store.buckets.chain o.table.store.nodes b =
      .ok (chain.filter (· ∈ decided true (verdicts keep es) ids))
  releasedIds : o.released.map Departure.id = decided false (verdicts keep es) ids
  releasedEntries : o.released.map Departure.entry = decided false (verdicts keep es) es
  out : ∀ d ∈ o.released, d.IsOut
  policy : o.table.policy = t.policy
  env : o.table.env = t.env

variable [LawfulArena A (Node V)] {t : Table σ V A} {r : Roster V}

theorem Holds.exists_retainsStably (h : t.Holds r) (keep : List (Entry V) → Entry V → Bool) :
    ∃ o, t.retain keep = .ok o ∧ t.RetainsStably keep o r.ids r.entries := by
  obtain ⟨ds, s', hretain, hvisits, hds, hs', hprec⟩ := Store.Holds.exists_retain h keep
  have hsift := Roster.sift_eq_decided keep [] r
  have hfst : (Roster.sift keep [] r).1 = decided true (verdicts keep r.entries) r :=
    congrArg Prod.fst hsift
  have hsnd : (Roster.sift keep [] r).2 = decided false (verdicts keep r.entries) r :=
    congrArg Prod.snd hsift
  have hsublist := Roster.sift_sublist keep [] r
  rw [hfst] at hs' hsublist
  rw [hsnd] at hds
  have hkept : ∀ verdict, Roster.ids (decided verdict (verdicts keep r.entries) r) =
      decided verdict (verdicts keep r.entries) r.ids := fun _ => map_decided ..
  have hcount : s'.bucketCount = t.bucketCount := by
    rw [hs'.count, hprec.bits]
    exact h.count.symm
  refine ⟨{ answer := r.entries, released := ds, table := { t with store := s' } }, ?_, {
    nodup := h.nodup
    live := fun id => h.mem_ids_iff
    visits := hvisits
    asked := rfl
    keptIds := by rw [hs'.ids_eq, hkept]
    keptEntries := hs'.entries_eq.trans (congrArg Except.ok (map_decided ..))
    bucketCount := hcount
    chains := fun b hb => ⟨_, h.chain_eq hb, ?_⟩
    releasedIds := ?_
    releasedEntries := ?_
    out := fun d hd => (hds.left d hd).isOut
    policy := rfl
    env := rfl }⟩
  · rw [retain, hretain]
    rfl
  · rw [hs'.chain_eq (hb.trans_eq hcount.symm), hprec.bits,
      Roster.ids_chain_of_sublist hsublist h.nodup, hkept]
  · rw [← hkept, ← hds.members, Departure.ids_members]
  · have hentries := congrArg Roster.entries hds.members
    rw [Roster.entries, List.map_map] at hentries
    exact hentries.trans (map_decided ..)

variable [Inhabited V] {bits : UInt32} {policy : Policy σ V} {heap : Heap} {env : σ}

/-- Whatever has been done to a table, and whatever a predicate makes of what it has seen: retaining
comes to an end, asks about every entry once and filters the list and the chains in place. -/
theorem run_retainsStably (hbuild : (build bits policy heap env A).result = .ok t)
    (calls : List (Call V)) : policy.Stops (t.run calls) ∨
      ∃ h ids es, t.run calls = .ok h ∧ h.table.store.ids = .ok ids ∧
        h.table.store.entries = .ok es ∧
        ∀ keep, ∃ o, h.table.retain keep = .ok o ∧ h.table.RetainsStably keep o ids es := by
  rcases stops_or_holds_of_build hbuild calls with hstop | ⟨h, r, hrun, -, -, hr, -⟩
  · exact .inl hstop
  · exact .inr ⟨h, r.ids, r.entries, hrun, hr.ids_eq, hr.entries_eq, hr.exists_retainsStably⟩

/-- A predicate that keeps every other entry that it sees. -/
theorem run_retainsStably_copying :
    let policy : Policy Unit Nat := .copying fun key => key.length.toUInt64
    let t := empty policy 1 ()
    let calls : List (Call Nat) := [.insert 1 [97], .insert 2 [98], .insert 3 [97, 98],
      .insert 4 [99], .erase [98], .insert 5 [97]]
    (build 1 policy .ofProcess ()).result = .ok t ∧
      ∃ h ids es, t.run calls = .ok h ∧ h.table.store.ids = .ok ids ∧
        h.table.store.entries = .ok es ∧ ∃ o, h.table.retain (fun seen _ => seen.length % 2 = 1) =
          .ok o ∧ h.table.RetainsStably (fun seen _ => seen.length % 2 = 1) o ids es := by
  intro policy t calls
  have hbuild : (build 1 policy .ofProcess ()).result = .ok t := rfl
  have hkey : policy.StoresKey := Policy.storesKey_of_copyKey rfl
  obtain ⟨h, ids, es, hrun, hids, hentries, hretain⟩ :=
    (run_retainsStably hbuild calls).resolve_left fun hstop => hstop.2 hkey
  exact ⟨hbuild, h, ids, es, hrun, hids, hentries, hretain _⟩

end Table

end OrderedTable
