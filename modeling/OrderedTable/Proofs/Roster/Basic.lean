import Mathlib
import OrderedTable.Proofs.Links.Cursor
import OrderedTable.Store.Sweep

/-!
# Rosters

A `Roster` is a plain list of entries with their ids, the oldest first. All that a table says about
its entries is defined here on the roster alone: `Roster.find?` looks a key up by scanning all of it
from the newest entry to the oldest, `Roster.chain` picks out the entries of one bucket, and
`Roster.sift` asks a predicate about every entry in turn.
-/

namespace OrderedTable

structure Member (V : Type) where
  id : NodeId
  entry : Entry V

/-- Entries with their ids, the oldest first. -/
abbrev Roster (V : Type) := List (Member V)

/-- The bucket of a key among 2^`bits`. -/
def bucketOf (hash : Key → UInt64) (bits : Nat) (key : Key) : Nat := (hash key).toNat % 2 ^ bits

theorem bucketOf_lt {hash : Key → UInt64} {bits : Nat} (key : Key) :
    bucketOf hash bits key < 2 ^ bits := Nat.mod_lt _ (Nat.two_pow_pos bits)

variable {V : Type}

/-- What a departure lets go of. -/
def Departure.member {A : Type} (d : Departure V A) : Member V := ⟨d.id, d.entry⟩

/-- Whether a lookup of the probe may find the entry: it is in the bucket of the probe, and its key
starts with the probe. -/
def Member.answersTo (hash : Key → UInt64) (bits : Nat) (probe : Key) (m : Member V) : Bool :=
  bucketOf hash bits m.entry.key = bucketOf hash bits probe && m.entry.answersTo probe

namespace Roster

def ids (r : Roster V) : List NodeId := r.map Member.id

def entries (r : Roster V) : List (Entry V) := r.map Member.entry

def member? (r : Roster V) (id : NodeId) : Option (Member V) := List.find? (fun m => m.id = id) r

/-- The entry behind an id. -/
def get? (r : Roster V) (id : NodeId) : Option (Entry V) := (r.member? id).map Member.entry

/-- The entries behind other ids. -/
def without (r : Roster V) (id : NodeId) : Roster V := r.filter fun m => m.id ≠ id

/-- The entries of a bucket, the newest first. -/
def chain (r : Roster V) (hash : Key → UInt64) (bits b : Nat) : Roster V :=
  r.reverse.filter fun m => bucketOf hash bits m.entry.key = b

/-- The newest entry that a lookup of the probe may find. -/
def find? (r : Roster V) (hash : Key → UInt64) (bits : Nat) (probe : Key) : Option (Member V) :=
  r.reverse.find? (Member.answersTo hash bits probe)

/-- The entries that `keep` accepts and those that it does not. It is told what it has seen. -/
def sift (keep : List (Entry V) → Entry V → Bool) : List (Entry V) → Roster V → Roster V × Roster V
  | _, [] => ([], [])
  | seen, m :: rest =>
    let (kept, dropped) := sift keep (seen ++ [m.entry]) rest
    if keep seen m.entry then (m :: kept, dropped) else (kept, m :: dropped)

/-- The entries whose bucket is not among the listed ones. -/
def outside (r : Roster V) (hash : Key → UInt64) (bits : Nat) (bs : List Nat) : Roster V :=
  r.filter fun m => bucketOf hash bits m.entry.key ∉ bs

/-- The entries bucket by bucket, the newest of each first. -/
def byBucket (r : Roster V) (hash : Key → UInt64) (bits : Nat) : Roster V :=
  (List.range (2 ^ bits)).flatMap (r.chain hash bits)

/-- How the entries are spread over 2^`bits` buckets. -/
def occupancy (r : Roster V) (hash : Key → UInt64) (bits : Nat) : Occupancy :=
  let sizes := (List.range (2 ^ bits)).map fun b => (r.chain hash bits b).length
  let occupied := sizes.countP (0 < ·)
  { buckets := 2 ^ bits
    occupied
    entries := r.length
    collisions := r.length - occupied
    longestChain := sizes.foldr max 0 }

variable {r : Roster V} {hash : Key → UInt64} {bits b : Nat} {id : NodeId} {m : Member V}

/-! ## Ids -/

@[simp] theorem ids_append (r r' : Roster V) : ids (r ++ r') = r.ids ++ r'.ids := List.map_append

@[simp] theorem length_ids : r.ids.length = r.length := List.length_map _

theorem mem_ids (h : m ∈ r) : m.id ∈ r.ids := List.mem_map_of_mem h

theorem get?_eq_none_iff : r.get? id = none ↔ id ∉ r.ids := by
  simp only [get?, member?, ids, Option.map_eq_none_iff, List.find?_eq_none, decide_eq_true_eq,
    List.mem_map, not_exists, not_and]

theorem isSome_get? : (r.get? id).isSome = true ↔ id ∈ r.ids := by
  rw [Option.isSome_iff_ne_none, ne_eq, get?_eq_none_iff, Classical.not_not]

theorem mem_of_member? (h : r.member? id = some m) : m ∈ r ∧ m.id = id :=
  ⟨List.mem_of_find?_eq_some h, by simpa using List.find?_some h⟩

theorem exists_mem_of_get? {e : Entry V} (h : r.get? id = some e) :
    ∃ m ∈ r, m.id = id ∧ m.entry = e := by
  obtain ⟨m, hm, rfl⟩ := Option.map_eq_some_iff.1 h
  exact ⟨m, (mem_of_member? hm).1, (mem_of_member? hm).2, rfl⟩

theorem eq_of_id_eq (hnd : r.ids.Nodup) {m' : Member V} (hm : m ∈ r) (hm' : m' ∈ r)
    (hid : m.id = m'.id) : m = m' :=
  List.inj_on_of_nodup_map hnd hm hm' hid

theorem get?_of_mem (hnd : r.ids.Nodup) (hm : m ∈ r) : r.get? m.id = some m.entry := by
  obtain ⟨e, he⟩ := Option.isSome_iff_exists.1 (isSome_get?.2 (mem_ids hm))
  obtain ⟨m', hm', hid, rfl⟩ := exists_mem_of_get? he
  rw [he, eq_of_id_eq hnd hm' hm hid]

theorem get?_concat {e : Entry V} (hid : id ∉ r.ids) (other : NodeId) :
    get? (r ++ [⟨id, e⟩]) other = if other = id then some e else r.get? other := by
  rw [get?, member?, List.find?_append]
  by_cases hother : other = id
  · subst hother
    have hnone : List.find? (fun m : Member V => decide (m.id = other)) r = none :=
      Option.map_eq_none_iff.1 (get?_eq_none_iff.2 hid)
    simp [hnone]
  · simp [hother, Ne.symm hother, get?, member?]

/-! ## Leaving -/

theorem ids_without (hnd : r.ids.Nodup) : (r.without id).ids = r.ids.erase id := by
  rw [hnd.erase_eq_filter, ids, without, ids, List.filter_map]
  refine congrArg _ (List.filter_congr fun m _ => ?_)
  simp [bne, beq_eq_decide]

theorem mem_without : m ∈ r.without id ↔ m ∈ r ∧ m.id ≠ id := by
  simp [without]

theorem without_append_cons {r r' : Roster V} (hnd : (ids (r ++ m :: r')).Nodup) :
    without (r ++ m :: r') m.id = r ++ r' := by
  rw [ids, List.map_append, List.map_cons] at hnd
  obtain ⟨-, hnd', hdisj⟩ := List.nodup_append.1 hnd
  have hr : without r m.id = r := List.filter_eq_self.2 fun m' hm' => by
    simpa using hdisj m'.id (List.mem_map_of_mem hm') m.id List.mem_cons_self
  have hr' : without r' m.id = r' := List.filter_eq_self.2 fun m' hm' => by
    have hne := ne_of_mem_of_not_mem (List.mem_map_of_mem hm') (List.nodup_cons.1 hnd').1
    simpa using hne
  rw [without, List.filter_append, List.filter_cons_of_neg (by simp)]
  exact congrArg₂ _ hr hr'

theorem get?_without_self : (r.without id).get? id = none := by
  rw [get?_eq_none_iff]
  intro hid
  obtain ⟨m, hm, rfl⟩ := List.mem_map.1 hid
  exact (mem_without.1 hm).2 rfl

theorem get?_without_ne {other : NodeId} (h : other ≠ id) :
    (r.without id).get? other = r.get? other := by
  rw [get?, member?, without, List.find?_filter, get?, member?]
  refine congrArg _ (congrArg (List.find? · r) (funext fun m => ?_))
  by_cases hm : m.id = other
  · simp [hm, h]
  · simp [hm]

theorem length_without (hnd : r.ids.Nodup) (hm : m ∈ r) :
    (r.without m.id).length + 1 = r.length := by
  obtain ⟨xs, ys, rfl⟩ := List.append_of_mem hm
  rw [without_append_cons hnd]
  simp
  omega

theorem sift_sublist (keep : List (Entry V) → Entry V → Bool) (seen : List (Entry V))
    (r : Roster V) : (sift keep seen r).1.Sublist r := by
  induction r generalizing seen with
  | nil => exact .refl _
  | cons m rest ih =>
    by_cases hkeep : keep seen m.entry = true
    · simpa [sift, hkeep] using ih _
    · simpa [sift, hkeep] using (ih _).cons m

/-! ## Chains -/

theorem mem_chain : m ∈ r.chain hash bits b ↔ m ∈ r ∧ bucketOf hash bits m.entry.key = b := by
  simp [chain]

theorem ids_chain_subset (h : id ∈ (r.chain hash bits b).ids) : id ∈ r.ids :=
  List.map_subset _ (fun _ hm => (mem_chain.1 hm).1) h

theorem chain_concat : chain (r ++ [m]) hash bits b =
    if b = bucketOf hash bits m.entry.key then m :: r.chain hash bits b
    else r.chain hash bits b := by
  rw [chain, List.reverse_append, List.reverse_singleton, List.singleton_append, List.filter_cons]
  by_cases hb : b = bucketOf hash bits m.entry.key
  · simp [chain, hb]
  · simp [chain, hb, Ne.symm hb]

/-- A lookup never leaves the bucket of the probe. -/
theorem find?_eq_find?_chain (r : Roster V) (hash : Key → UInt64) (bits : Nat) (probe : Key) :
    r.find? hash bits probe = List.find? (fun m => m.entry.answersTo probe)
      (r.chain hash bits (bucketOf hash bits probe)) := by
  rw [chain, List.find?_filter]
  simp only [decide_eq_true_eq, Bool.decide_and, Bool.decide_eq_true, find?]
  rfl

theorem mem_of_find? {probe : Key} (h : r.find? hash bits probe = some m) : m ∈ r :=
  List.mem_reverse.1 (List.mem_of_find?_eq_some h)

/-- Only a newer entry comes before one that answers. -/
theorem find?_append_cons {older newer : Roster V} {probe : Key}
    (hm : m.answersTo hash bits probe = true) : find? (older ++ m :: newer) hash bits probe =
      some ((newer.reverse.find? (Member.answersTo hash bits probe)).getD m) := by
  rw [find?, List.reverse_append, List.reverse_cons, List.append_assoc, List.find?_append,
    List.singleton_append, List.find?_cons_of_pos hm]
  cases List.find? (Member.answersTo hash bits probe) newer.reverse <;> rfl

theorem nodup_ids_chain (hnd : r.ids.Nodup) : (r.chain hash bits b).ids.Nodup := by
  have hrev : (ids r.reverse).Nodup := by
    rw [ids, List.map_reverse]
    exact List.nodup_reverse.2 hnd
  exact hrev.sublist (List.filter_sublist.map _)

theorem chain_without : (r.without id).chain hash bits b = (r.chain hash bits b).without id := by
  rw [chain, without, ← List.filter_reverse, List.filter_filter, without, chain, List.filter_filter]
  exact List.filter_congr fun m _ => Bool.and_comm _ _

theorem chain_outside {bs : List Nat} (hb : b ∉ bs) :
    (r.outside hash bits bs).chain hash bits b = r.chain hash bits b := by
  rw [chain, outside, ← List.filter_reverse, List.filter_filter, chain]
  refine List.filter_congr fun m _ => ?_
  by_cases hm : bucketOf hash bits m.entry.key = b
  · simp [hm, hb]
  · simp [hm]

theorem outside_cons {bs : List Nat} :
    r.outside hash bits (b :: bs) = (r.outside hash bits [b]).outside hash bits bs := by
  rw [outside, outside, outside, List.filter_filter]
  refine List.filter_congr fun m _ => ?_
  simp [Bool.and_comm]

theorem outside_of_chain_eq_nil (h : r.chain hash bits b = []) : r.outside hash bits [b] = r := by
  refine List.filter_eq_self.2 fun m hm => ?_
  have hne : bucketOf hash bits m.entry.key ≠ b := fun hb =>
    List.not_mem_nil (h ▸ mem_chain.2 ⟨hm, hb⟩)
  simpa using hne

theorem outside_without (h : bucketOf hash bits m.entry.key = b) (hnd : r.ids.Nodup) (hm : m ∈ r) :
    (r.without m.id).outside hash bits [b] = r.outside hash bits [b] := by
  rw [outside, without, List.filter_filter, outside]
  refine List.filter_congr fun m' hm' => ?_
  by_cases hid : m'.id = m.id
  · simp [eq_of_id_eq hnd hm' hm hid, h]
  · simp [hid]

theorem outside_range : r.outside hash bits (List.range (2 ^ bits)) = [] := by
  refine List.filter_eq_nil_iff.2 fun m _ => ?_
  simpa using bucketOf_lt m.entry.key

theorem filter_lt_succ_perm (n : Nat) :
    ((r.filter fun m => bucketOf hash bits m.entry.key < n) ++ r.chain hash bits n).Perm
      (r.filter fun m => bucketOf hash bits m.entry.key < n + 1) := by
  have hsplit := List.filter_append_perm (fun m => decide (bucketOf hash bits m.entry.key < n))
    (r.filter fun m => decide (bucketOf hash bits m.entry.key < n + 1))
  rw [List.filter_filter, List.filter_filter] at hsplit
  refine .trans (.trans (.append_left _ ((List.reverse_perm r).filter _)) (.of_eq ?_)) hsplit
  congr 1 <;> refine List.filter_congr fun m _ => ?_ <;>
    rcases Nat.lt_trichotomy (bucketOf hash bits m.entry.key) n with hlt | heq | hgt
  · simp [hlt, Nat.lt_succ_of_lt hlt]
  · simp [heq]
  · simp [Nat.not_lt_of_gt hgt]
  · simp [hlt, Nat.ne_of_lt hlt]
  · simp [heq]
  · simp [Nat.ne_of_gt hgt, Nat.not_lt_of_ge hgt]

/-- Read bucket by bucket, every entry comes up once. -/
theorem byBucket_perm : (r.byBucket hash bits).Perm r := by
  have hbelow : ∀ n, List.Perm ((List.range n).flatMap (r.chain hash bits))
      (r.filter fun m => bucketOf hash bits m.entry.key < n) := by
    intro n
    induction n with
    | zero => simp
    | succ n ih =>
      rw [List.range_succ, List.flatMap_append, List.flatMap_singleton]
      exact (ih.append_right _).trans (filter_lt_succ_perm n)
  have hall := hbelow (2 ^ bits)
  rwa [List.filter_eq_self.2 fun m _ => decide_eq_true (bucketOf_lt m.entry.key)] at hall

theorem sum_length_chain :
    ((List.range (2 ^ bits)).map fun b => (r.chain hash bits b).length).sum = r.length := by
  rw [← List.length_flatMap]
  exact (byBucket_perm (r := r)).length_eq

end Roster

end OrderedTable
