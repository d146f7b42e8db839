import OrderedTable.Proofs.Links.Visits
import OrderedTable.Proofs.Store.Holds

/-!
# Sweeps over a store

`Store.retain` sifts the roster, `Store.clear` empties it bucket by bucket, and `Store.occupancy`
counts it. The first two walk while the store changes under them: a round lets go of the node that
it has come to, or of none (`Store.Holds.exists_retainStep`, `Store.Holds.exists_clearStep`), and from
there the walk goes on to its end (`Store.Holds.exists_visits_retain`,
`Store.Holds.exists_visits_clear`). What is let go of has `Left`.
-/

namespace OrderedTable

variable {V A : Type} [Arena A (Node V)] {hash : Key → UInt64} {s : Store V A} {r : Roster V}
  {m : Member V} {b : Nat}

/-- The entry is not in the store that it has been let go of by. -/
def Departure.Left (hash : Key → UInt64) (d : Departure V A) : Prop :=
  ∃ r, d.rest.Holds hash r ∧ d.id ∉ r.ids

/-- The departures are those of the members, one after the other. -/
structure Departures (hash : Key → UInt64) (ds : List (Departure V A)) (ms : Roster V) : Prop where
  members : ds.map Departure.member = ms
  left : ∀ d ∈ ds, d.Left hash

namespace Departures

theorem nil : Departures hash ([] : List (Departure V A)) [] :=
  ⟨rfl, fun _ hd => absurd hd List.not_mem_nil⟩

theorem append {ds ds' : List (Departure V A)} {ms ms' : Roster V} (h : Departures hash ds ms)
    (h' : Departures hash ds' ms') : Departures hash (ds ++ ds') (ms ++ ms') where
  members := by rw [List.map_append, h.members, h'.members]
  left d hd := (List.mem_append.1 hd).elim (h.left d) (h'.left d)

theorem singleton {d : Departure V A} (h : d.rest.Holds hash (r.without d.member.id)) :
    Departures hash [d] [d.member] where
  members := rfl
  left d' hd := by
    rw [List.mem_singleton.1 hd]
    exact ⟨_, h, Roster.get?_eq_none_iff.1 Roster.get?_without_self⟩

end Departures

theorem Roster.sift_cons (keep : List (Entry V) → Entry V → Bool) (seen : List (Entry V))
    (m : Member V) (rest : Roster V) : sift keep seen (m :: rest) =
      ((if keep seen m.entry then [m] else []) ++ (sift keep (seen ++ [m.entry]) rest).1,
        (if keep seen m.entry then [] else [m]) ++ (sift keep (seen ++ [m.entry]) rest).2) := by
  rw [sift]
  by_cases hkeep : keep seen m.entry = true <;> simp [hkeep]

namespace Store

/-! ## Rounds

What `Store.retain` does at each node that it comes to; for `Store.clear` that is `Buckets.clearStep`
with `Store.letGo`.
-/

/-- Asks `keep` about a node, and lets go of it if it is not kept. -/
def retainStep (keep : List (Entry V) → Entry V → Bool) (r : Retained V A) (id : NodeId) :
    Except Fault (Option NodeId × Retained V A) := do
  let next ← r.store.order.next? r.store.nodes id
  let entry ← r.store.entryAt id
  let seen := r.seen ++ [entry]
  if keep r.seen entry then pure (next, { r with seen })
  else
    match ← r.store.detach? id with
    | some d => pure (next, { seen, departed := r.departed ++ [d], store := d.rest })
    | none => pure (next, { r with seen })

theorem isBoundedBy_retainFrom (keep : List (Entry V) → Entry V → Bool) :
    IsBoundedBy (retainStep keep) (retainFrom (V := V) (A := A) keep) where
  done fuel r := by cases fuel <;> rfl
  take fuel id r := by
    rw [retainFrom, retainStep]
    cases r.store.order.next? r.store.nodes id with
    | error fault => rfl
    | ok next =>
      cases r.store.entryAt id with
      | error fault => rfl
      | ok entry =>
        simp only [ok_bind]
        split
        · rfl
        · cases r.store.detach? id with
          | error fault => rfl
          | ok d => cases d <;> rfl

/-- What changes while a store is cleared: its parts, and the list of what has been let go of. -/
def clearing (s : Store V A) (departed : List (Departure V A)) :
    Buckets NodeId × A × CircularList NodeId × List (Departure V A) :=
  (s.buckets, s.nodes, s.order, departed)

namespace Holds

/-! ## Retaining -/

theorem next?_eq {kept rest : Roster V} (h : s.Holds hash (kept ++ m :: rest)) :
    s.order.next? s.nodes m.id = .ok (rest.head?.map Member.id) := by
  have horder := h.order
  rw [Roster.ids_append] at horder
  rw [← List.head?_map]
  exact horder.next?_eq

variable [LawfulArena A (Node V)]

/-- The sweep asks about the first of `rest`, and has kept what stands before. -/
theorem exists_retainStep (keep : List (Entry V) → Entry V → Bool) (seen : List (Entry V))
    (departed : List (Departure V A)) {kept rest : Roster V} (h : s.Holds hash (kept ++ m :: rest)) :
    ∃ ds s', retainStep keep ⟨seen, departed, s⟩ m.id =
        .ok (rest.head?.map Member.id, ⟨seen ++ [m.entry], departed ++ ds, s'⟩) ∧
      Departures hash ds (if keep seen m.entry then [] else [m]) ∧
      s'.Holds hash (kept ++ (if keep seen m.entry then [m] else []) ++ rest) ∧ s.Precedes s' := by
  have hm : m ∈ kept ++ m :: rest := List.mem_append_right _ List.mem_cons_self
  by_cases hkeep : keep seen m.entry = true
  · refine ⟨[], s, ?_, ?_, ?_, .refl s⟩
    · simp [retainStep, h.next?_eq, h.entryAt_of_mem hm, hkeep]
    · simpa [hkeep] using Departures.nil
    · simpa [hkeep] using h
  · obtain ⟨d, hdetach, rfl, hrest, hprec⟩ := h.exists_detach hm
    have hd := Departures.singleton hrest
    rw [Roster.without_append_cons (m := d.member) h.nodup] at hrest
    refine ⟨[d], d.rest, ?_, ?_, ?_, hprec⟩
    · simp only [retainStep, h.next?_eq, h.entryAt_of_mem hm, ok_bind, if_neg hkeep, hdetach]
      rfl
    · simpa [hkeep] using hd
    · simpa [hkeep] using hrest

/-- The sweep goes from `rest` on to the end, and has kept what stands before. -/
theorem exists_visits_retain (keep : List (Entry V) → Entry V → Bool) (seen : List (Entry V))
    (departed : List (Departure V A)) (kept : Roster V) {rest : Roster V}
    (h : s.Holds hash (kept ++ rest)) :
    ∃ ds s', Visits (retainStep keep) (rest.head?.map Member.id) ⟨seen, departed, s⟩ rest.ids
        ⟨seen ++ rest.entries, departed ++ ds, s'⟩ ∧
      Departures hash ds (Roster.sift keep seen rest).2 ∧
      s'.Holds hash (kept ++ (Roster.sift keep seen rest).1) ∧ s.Precedes s' := by
  -- The store changes at every step, but it always holds what is kept, then what is left to see.
  induction rest generalizing s kept seen departed with
  | nil =>
    refine ⟨[], s, ?_, .nil, h, .refl s⟩
    rw [Roster.entries, List.map_nil, List.append_nil, List.append_nil]
    exact .done _
  | cons m rest ih =>
    obtain ⟨ds, s₁, hstep, hds, hs₁, hprec⟩ := exists_retainStep keep seen departed h
    obtain ⟨ds', s₂, hvisits, hds', hs₂, hprec'⟩ :=
      ih (seen ++ [m.entry]) (departed ++ ds) _ hs₁
    refine ⟨ds ++ ds', s₂, .take hstep ?_, ?_, ?_, hprec.trans hprec'⟩
    · simpa [Roster.entries, Roster.ids] using hvisits
    · rw [Roster.sift_cons]
      exact hds.append hds'
    · rw [Roster.sift_cons, ← List.append_assoc]
      exact hs₂

/-- The whole list is swept. -/
theorem exists_retain (h : s.Holds hash r) (keep : List (Entry V) → Entry V → Bool) :
    ∃ ds s', s.retain keep = .ok ⟨r.entries, ds, s'⟩ ∧
      Visits (retainStep keep) s.firstId? ⟨[], [], s⟩ r.ids ⟨r.entries, ds, s'⟩ ∧
      Departures hash ds (Roster.sift keep [] r).2 ∧
      s'.Holds hash (Roster.sift keep [] r).1 ∧ s.Precedes s' := by
  obtain ⟨ds, s', hvisits, hds, hs', hprec⟩ := exists_visits_retain keep [] [] [] h
  rw [List.nil_append, List.nil_append, ← h.firstId?_eq] at hvisits
  refine ⟨ds, s', ?_, hvisits, hds, hs', hprec⟩
  rw [retain]
  exact hvisits.run_eq (isBoundedBy_retainFrom keep) h.order.length_le_capacity

/-! ## Clearing -/

/-- The walk down a chain lets go of its first node. -/
theorem exists_clearStep (departed : List (Departure V A)) {rest : Roster V} (h : s.Holds hash r)
    (hchain : r.chain hash s.buckets.bits.toNat b = m :: rest) :
    ∃ d : Departure V A, d.member = m ∧ Buckets.clearStep letGo (s.clearing departed) m.id =
        .ok (rest.head?.map Member.id, d.rest.clearing (departed ++ [d])) ∧
      (r.without m.id).chain hash d.rest.buckets.bits.toNat b = rest ∧
      d.rest.Holds hash (r.without m.id) ∧ s.Precedes d.rest := by
  obtain ⟨hm, -⟩ := Roster.mem_chain.1 (hchain ▸ List.mem_cons_self : m ∈ r.chain hash _ b)
  have hnext : Chain.next? s.nodes m.id = .ok (rest.head?.map Member.id) := by
    have hthreaded := h.chains.threaded b
    rw [hchain] at hthreaded
    rw [← List.head?_map]
    exact hthreaded.next?_eq
  obtain ⟨d, nodes₁, nodes₂, node, rfl, herase, hunlink, hremove, hentry, hrest, hprec⟩ :=
    h.exists_depart hm
  refine ⟨d, rfl, ?_, ?_, hrest, hprec⟩
  · simp only [Buckets.clearStep, clearing, letGo, Departure.member] at hnext ⊢
    simp only [hnext, herase, hunlink, hremove, hentry, ok_bind, pure_eq_ok]
  · rw [hprec.bits, Roster.chain_without, hchain]
    exact Roster.without_append_cons (r := []) (hchain ▸ Roster.nodup_ids_chain h.nodup)

/-- The walk down a chain goes on to its end. -/
theorem exists_visits_clear (departed : List (Departure V A)) {ms : Roster V} (h : s.Holds hash r)
    (hchain : r.chain hash s.buckets.bits.toNat b = ms) :
    ∃ ds s', Visits (Buckets.clearStep letGo) (ms.head?.map Member.id) (s.clearing departed) ms.ids
        (s'.clearing (departed ++ ds)) ∧
      Departures hash ds ms ∧ s'.Holds hash (r.outside hash s.buckets.bits.toNat [b]) ∧
      s.Precedes s' := by
  -- The chain shrinks with the roster, while what is outside the bucket stays the same.
  induction ms generalizing s r departed with
  | nil =>
    rw [Roster.outside_of_chain_eq_nil hchain]
    refine ⟨[], s, ?_, .nil, h, .refl s⟩
    rw [List.append_nil]
    exact .done _
  | cons m rest ih =>
    obtain ⟨hm, hbucket⟩ := Roster.mem_chain.1 (hchain ▸ List.mem_cons_self : m ∈ r.chain hash _ b)
    obtain ⟨d, rfl, hstep, hchain', hrest, hprec⟩ := h.exists_clearStep departed hchain
    obtain ⟨ds, s', hvisits, hds, hs', hprec'⟩ := ih (departed ++ [d]) hrest hchain'
    rw [hprec.bits, Roster.outside_without hbucket h.nodup hm] at hs'
    refine ⟨d :: ds, s', .take hstep ?_, (Departures.singleton hrest).append hds, hs',
      hprec.trans hprec'⟩
    simpa [Roster.ids] using hvisits

/-- The listed buckets are emptied, one after the other. -/
theorem exists_clearEach (departed : List (Departure V A)) {bs : List Nat} (h : s.Holds hash r)
    (hnd : bs.Nodup) (hbs : ∀ b ∈ bs, b < s.bucketCount) :
    ∃ ds s', Buckets.clearEach letGo bs s.buckets s.nodes (s.order, departed) =
        .ok (s'.clearing (departed ++ ds)) ∧
      VisitsEach (fun x b => x.1.heads.first? b) (Buckets.clearStep letGo) bs (s.clearing departed)
        (Roster.ids (bs.flatMap (r.chain hash s.buckets.bits.toNat)))
        (s'.clearing (departed ++ ds)) ∧
      Departures hash ds (bs.flatMap (r.chain hash s.buckets.bits.toNat)) ∧
      s'.Holds hash (r.outside hash s.buckets.bits.toNat bs) ∧ s.Precedes s' := by
  induction bs generalizing s r departed with
  | nil =>
    refine ⟨[], s, ?_, ?_, .nil, ?_, .refl s⟩
    · rw [List.append_nil]
      rfl
    · rw [List.append_nil]
      exact .nil _
    · rwa [Roster.outside, List.filter_eq_self.2 fun m _ => by simp]
  | cons b bs ih =>
    obtain ⟨hb, hnd⟩ := List.nodup_cons.1 hnd
    have hlt := hbs b List.mem_cons_self
    have hfirst : s.buckets.heads.first? b =
        .ok ((r.chain hash s.buckets.bits.toNat b).head?.map Member.id) := by
      rw [h.chains.first?_eq hlt, Roster.ids, List.head?_map]
    obtain ⟨ds, s₁, hvisits, hds, hs₁, hprec⟩ := exists_visits_clear departed h rfl
    have hfrom := hvisits.run_eq (Buckets.isBoundedBy_clearFrom letGo)
      (h.chains.length_le_capacity b)
    have hcount : s₁.bucketCount = s.bucketCount := by rw [hs₁.count, hprec.bits, h.count]
    obtain ⟨ds', s₂, heach, hvisits', hds', hs₂, hprec'⟩ :=
      ih (departed ++ ds) hs₁ hnd fun c hc => by
        rw [hcount]
        exact hbs c (List.mem_cons_of_mem _ hc)
    have hothers : bs.flatMap ((r.outside hash s.buckets.bits.toNat [b]).chain hash
        s.buckets.bits.toNat) = bs.flatMap (r.chain hash s.buckets.bits.toNat) :=
      List.flatMap_congr fun c hc =>
        Roster.chain_outside (by simpa using ne_of_mem_of_not_mem hc hb)
    rw [hprec.bits, hothers] at hvisits' hds'
    rw [hprec.bits, ← Roster.outside_cons] at hs₂
    rw [List.append_assoc] at heach hvisits'
    refine ⟨ds ++ ds', s₂, ?_, ?_, hds.append hds', hs₂, hprec.trans hprec'⟩
    · rw [Buckets.clearEach, hfirst, ok_bind]
      exact bind_eq_ok_iff.2 ⟨_, hfrom, heach⟩
    · rw [List.flatMap_cons, Roster.ids_append]
      exact .cons hfirst hvisits hvisits'

/-- All are let go of, bucket by bucket. -/
theorem exists_clear (h : s.Holds hash r) :
    ∃ ds s', s.clear = .ok (ds, s') ∧
      VisitsEach (fun x b => x.1.heads.first? b) (Buckets.clearStep letGo)
        (List.range s.bucketCount) (s.clearing [])
        (Roster.ids (r.byBucket hash s.buckets.bits.toNat)) (s'.clearing ds) ∧
      Departures hash ds (r.byBucket hash s.buckets.bits.toNat) ∧ s'.Holds hash [] ∧
      s.Precedes s' := by
  obtain ⟨ds, s', heach, hvisits, hds, hs', hprec⟩ :=
    exists_clearEach [] h List.nodup_range fun b hb => List.mem_range.1 hb
  rw [List.nil_append] at heach hvisits
  have hcount : s.buckets.count = 2 ^ s.buckets.bits.toNat := h.count
  rw [h.count] at heach hvisits hds hs' ⊢
  rw [Roster.outside_range] at hs'
  refine ⟨ds, s', ?_, hvisits, hds, hs', hprec⟩
  have hempty : s'.order.isEmpty = true := hs'.order.isEmpty_eq
  have hsize : Arena.size s'.nodes = 0 := hs'.size
  rw [clear, Buckets.clear, hcount, heach]
  simp only [clearing, ok_bind, ensure_of_pos hempty, ensure_of_pos hsize]
  rfl

/-! ## Counting -/

theorem sum_pred_add_countP (ns : List Nat) :
    ns.sum = (ns.map (· - 1)).sum + ns.countP (0 < ·) := by
  induction ns with
  | nil => rfl
  | cons n ns ih =>
    rw [List.sum_cons, List.map_cons, List.sum_cons, List.countP_cons, ih]
    by_cases hn : 0 < n
    · rw [if_pos (decide_eq_true hn)]
      omega
    · rw [if_neg (by simpa using hn)]
      omega

/-- The counts of the listed buckets are added up. -/
theorem countBuckets_eq (h : s.Holds hash r) {bs : List Nat} (hbs : ∀ b ∈ bs, b < s.bucketCount)
    (o : Occupancy) :
    let sizes := bs.map fun b => (r.chain hash s.buckets.bits.toNat b).length
    s.countBuckets bs o = .ok { o with
      occupied := o.occupied + sizes.countP (0 < ·)
      entries := o.entries + sizes.sum
      collisions := o.collisions + (sizes.map (· - 1)).sum
      longestChain := max o.longestChain (sizes.foldr max 0) } := by
  induction bs generalizing o with
  | nil => simp [countBuckets]
  | cons b bs ih =>
    have hb := hbs b List.mem_cons_self
    have hrest := fun o => ih (fun c hc => hbs c (List.mem_cons_of_mem _ hc)) o
    have hempty : s.buckets.isEmptyAt b =
        .ok (r.chain hash s.buckets.bits.toNat b).ids.isEmpty := h.chains.isEmptyAt_eq hb
    rw [countBuckets, hempty, ok_bind]
    cases hchain : r.chain hash s.buckets.bits.toNat b with
    | nil => simpa [Roster.ids, hchain] using hrest o
    | cons m ms =>
      simp only [h.chain_eq hb, hchain, Roster.ids, List.map_cons, List.isEmpty_cons, ok_bind,
        List.length_cons, List.length_map, decrement, hrest, Bool.false_eq_true, if_false]
      simp [Occupancy.addChain]
      omega

theorem occupancy_eq (h : s.Holds hash r) :
    s.occupancy = .ok (r.occupancy hash s.buckets.bits.toNat) := by
  have hcollisions := sum_pred_add_countP
    ((List.range s.bucketCount).map fun b => (r.chain hash s.buckets.bits.toNat b).length)
  rw [h.count, Roster.sum_length_chain] at hcollisions
  rw [occupancy, h.countBuckets_eq fun b hb => List.mem_range.1 hb, h.count, Roster.sum_length_chain,
    Nat.eq_sub_of_add_eq hcollisions.symm]
  simp [h.size, Roster.occupancy]

theorem collisionPercent_eq (h : s.Holds hash r) : s.collisionPercent =
    .ok (if r.isEmpty then 0
      else (r.occupancy hash s.buckets.bits.toNat).collisions * 100 / r.length) := by
  rw [collisionPercent, h.isEmpty_eq, h.occupancy_eq, h.size]
  cases r.isEmpty <;> rfl

end Holds

end Store

end OrderedTable
