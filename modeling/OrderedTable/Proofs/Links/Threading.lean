import Mathlib.Data.List.Infix
import Mathlib.Data.List.Nodup
import Mathlib.Logic.Function.Basic
import OrderedTable.Proofs.Links.Rules
import OrderedTable.Proofs.Links.Visits

/-!
# Chains that nodes come to and go from

`Heads.step` puts a node in front of a chain or takes a node off whichever chain it is on. As long as
only nodes on no chain are put on one, the chains are a family of sequences, and a step changes one
sequence of the family: `Heads.rules`. A node's link says where in the family it is, and so do the
walks along the chains (`Heads.Presents`).

A bucket is named by its number for `Heads` and by a hash for `Buckets`, whose steps are those of
their heads (`Buckets.step_eq`).
-/

namespace OrderedTable

variable {σ ι : Type} [LinkStore σ ι (ChainLink ι)]

namespace Heads

/-- What is done to the chains. -/
inductive Step (ι : Type)
  /-- A node is put in front of the chain of a bucket. -/
  | push (bucket : Nat) (id : ι)
  /-- A node is taken off the chain that it is on, if any. -/
  | erase (id : ι)
  deriving DecidableEq

def step (s : Heads ι × σ) : Step ι → Except Fault (Heads ι × σ)
  | .push bucket id => s.1.push s.2 bucket id
  | .erase id => s.1.erase s.2 id

variable [DecidableEq ι]

/-- What may be done to a family of chains over the live nodes of a store: a node on no chain is put
in front of one, and any node is erased, which concerns the one chain that it is on, if any. -/
def rules (count : Nat) (nodes : σ) : Rules (Nat → List ι) (Step ι) where
  allows chains
    | .push bucket id => bucket < count ∧
        (LinkStore.link? nodes id : Option (ChainLink ι)).isSome ∧ ∀ b, id ∉ chains b
    | .erase id => (LinkStore.link? nodes id : Option (ChainLink ι)).isSome
  next chains
    | .push bucket id => Function.update chains bucket (id :: chains bucket)
    | .erase id => fun b => (chains b).erase id

/-! ## What a link tells -/

namespace Holds

variable {heads : Heads ι} {nodes : σ} {chains : Nat → List ι} {id : ι} {link : ChainLink ι}

omit [DecidableEq ι] in
/-- The next node of a node is the one that stands behind it. -/
theorem next_eq_iff (h : heads.Holds nodes chains) (hlink : LinkStore.link? nodes id = some link)
    {next : ι} : link.next = some next ↔ ∃ b, [id, next] <:+: chains b := by
  constructor
  · intro hnext
    obtain ⟨b, xs, ys, hxs, rfl⟩ := h.exists_split hlink fun heq => by simp [heq] at hnext
    obtain ⟨zs, rfl⟩ := List.head?_eq_some_iff.1 hnext
    exact ⟨b, xs, zs, by simp [hxs]⟩
  · rintro ⟨b, xs, ys, hxs⟩
    have hthreaded := h.threaded b
    rw [← hxs, List.append_assoc] at hthreaded
    rw [Option.some.inj (hlink.symm.trans hthreaded.link_eq)]
    rfl

omit [DecidableEq ι] in
theorem holder_eq_after_iff_infix (h : heads.Holds nodes chains)
    (hlink : LinkStore.link? nodes id = some link) {other : ι} :
    link.holder = some (.after other) ↔ ∃ b, [other, id] <:+: chains b := by
  rw [h.holder_eq_after_iff hlink]
  constructor
  · rintro ⟨before, hbefore, hnext⟩
    exact (h.next_eq_iff hbefore).1 hnext
  · rintro ⟨b, hb⟩
    obtain ⟨before, hbefore, -⟩ := (h.threaded b).exists_link (hb.subset List.mem_cons_self)
    exact ⟨before, hbefore, (h.next_eq_iff hbefore).2 ⟨b, hb⟩⟩

/-- A node has a holder if it is on one chain, once. -/
theorem isChained_iff (h : heads.Holds nodes chains)
    (hlink : LinkStore.link? nodes id = some link) : link.isChained = true ↔
      ∃ b, (chains b).count id = 1 ∧ ∀ c, c ≠ b → id ∉ chains c := by
  constructor
  · intro hchained
    obtain ⟨b, xs, ys, hxs, -⟩ := h.exists_split hlink fun heq => by
      simp [heq, ChainLink.isChained] at hchained
    have hid : id ∈ chains b := hxs ▸ List.mem_append_right _ List.mem_cons_self
    exact ⟨b, List.count_eq_one_of_mem (h.nodup b) hid, fun c hc hid' =>
      hc (h.apart c b id hid' hid)⟩
  · rintro ⟨b, hcount, -⟩
    have hid : id ∈ chains b := List.count_pos_iff.1 (by omega)
    obtain ⟨link', hlink', hchained⟩ := (h.threaded b).exists_link hid
    rwa [Option.some.inj (hlink.symm.trans hlink')]

omit [DecidableEq ι] in
theorem eq_empty_of_not_isChained (h : heads.Holds nodes chains)
    (hlink : LinkStore.link? nodes id = some link) (hchained : link.isChained = false) :
    link = {} := by
  refine h.unchained id link (fun b hid => ?_) hlink
  obtain ⟨link', hlink', hchained'⟩ := (h.threaded b).exists_link hid
  rw [Option.some.inj (hlink.symm.trans hlink'), hchained'] at hchained
  exact absurd hchained (by decide)

end Holds

/-! ## Steps -/

/-- The heads, so many of them, and the links describe the family of chains. The live nodes are those
of `nodes`. -/
structure Describes (s : Heads ι × σ) (count : Nat) (nodes : σ) (chains : Nat → List ι) : Prop where
  total : s.1.count = count
  holds : s.1.Holds s.2 chains
  rewired : Rewired (ChainLink ι) nodes s.2

variable [NodeStore σ] [LawfulLinkStore σ ι (ChainLink ι)] {s : Heads ι × σ} {count : Nat}
  {nodes : σ} {chains : Nat → List ι}

/-- A step that the rules allow succeeds and leads on by the rules. -/
theorem Describes.exists_step {a : Step ι} (h : Describes s count nodes chains)
    (hallows : (rules count nodes).allows chains a) :
    ∃ s', step s a = .ok s' ∧ Describes s' count nodes ((rules count nodes).next chains a) := by
  obtain ⟨heads, links⟩ := s
  obtain ⟨hcount, hholds, hrew⟩ := h
  cases a with
  | push bucket id =>
    obtain ⟨hlt, hlive, hid⟩ := hallows
    obtain ⟨old, hold⟩ := hrew.exists_link hlive
    obtain ⟨heads', links', hpush, hcount', hrew', hholds'⟩ :=
      hholds.push hold hid (Nat.lt_of_lt_of_eq hlt hcount.symm)
    refine ⟨(heads', links'), hpush, hcount'.trans hcount, ?_, hrew.trans hrew'⟩
    convert hholds' using 1
    funext b
    simp only [rules, Function.update_apply]
    split <;> simp_all
  | erase id =>
    obtain ⟨old, hold⟩ := hrew.exists_link hallows
    by_cases hid : ∃ b, id ∈ chains b
    · obtain ⟨b, hid⟩ := hid
      obtain ⟨heads', links', herase, hcount', hrew', hholds'⟩ := hholds.erase hid
      exact ⟨(heads', links'), herase, hcount'.trans hcount, hholds', hrew.trans hrew'⟩
    · have hid := not_exists.1 hid
      refine ⟨(heads, links), hholds.erase_of_unchained hold hid, hcount, ?_, hrew⟩
      convert hholds using 1
      exact funext fun b => List.erase_of_not_mem (hid b)

/-- What can be read off the heads and the links is the family of chains. -/
structure Presents (s : Heads ι × σ) (count : Nat) (nodes : σ) (chains : Nat → List ι) : Prop where
  total : s.1.count = count
  live : ∀ id, (LinkStore.link? s.2 id : Option (ChainLink ι)).isSome =
    (LinkStore.link? nodes id : Option (ChainLink ι)).isSome
  /-- There are no chains without a head. -/
  beyond : ∀ b, count ≤ b → chains b = []
  first : ∀ b, b < count → s.1.first? b = .ok (chains b).head?
  isEmptyAt : ∀ b, b < count → s.1.isEmptyAt b = .ok (chains b).isEmpty
  /-- The walk from the head of a bucket yields its chain. -/
  walk : ∀ b, b < count → ∀ first, s.1.first? b = .ok first →
    Visits (Chain.step s.2) first () (chains b) ()
  chain : ∀ b, b < count → s.1.chain s.2 b = .ok (chains b)
  /-- A node has a holder if it is on exactly one chain, exactly once. -/
  chained : ∀ id (link : ChainLink ι), LinkStore.link? s.2 id = some link →
    (link.isChained = true ↔ ∃ b, (chains b).count id = 1 ∧ ∀ c, c ≠ b → id ∉ chains c)
  holder_head : ∀ id (link : ChainLink ι), LinkStore.link? s.2 id = some link →
    ∀ b, link.holder = some (.head b) ↔ (chains b).head? = some id
  holder_after : ∀ id (link : ChainLink ι), LinkStore.link? s.2 id = some link →
    ∀ other, link.holder = some (.after other) ↔ ∃ b, [other, id] <:+: chains b
  next : ∀ id (link : ChainLink ι), LinkStore.link? s.2 id = some link →
    ∀ next, link.next = some next ↔ ∃ b, [id, next] <:+: chains b
  /-- A node without a holder has no next node, and to erase it changes nothing. -/
  unchained : ∀ id (link : ChainLink ι), LinkStore.link? s.2 id = some link →
    link.isChained = false → link.next = none ∧ step s (.erase id) = .ok s

theorem Describes.presents (h : Describes s count nodes chains) : Presents s count nodes chains where
  total := h.total
  live := h.rewired.isSome_link?
  beyond b hb := by
    by_contra hne
    obtain ⟨id, hid⟩ := List.exists_mem_of_ne_nil _ hne
    exact absurd (Nat.lt_of_lt_of_eq (h.holds.lt_count hid) h.total) (Nat.not_lt.2 hb)
  first b hb := h.holds.first?_eq (Nat.lt_of_lt_of_eq hb h.total.symm)
  isEmptyAt b hb := h.holds.isEmptyAt_eq (Nat.lt_of_lt_of_eq hb h.total.symm)
  walk b hb first hfirst := by
    rw [h.holds.first?_eq (Nat.lt_of_lt_of_eq hb h.total.symm)] at hfirst
    obtain rfl := Except.ok.inj hfirst
    exact (h.holds.threaded b).visits
  chain b hb := h.holds.chain_eq (Nat.lt_of_lt_of_eq hb h.total.symm)
  chained _ _ hlink := h.holds.isChained_iff hlink
  holder_head _ _ hlink _ := h.holds.holder_eq_head_iff hlink
  holder_after _ _ hlink _ := h.holds.holder_eq_after_iff_infix hlink
  next _ _ hlink _ := h.holds.next_eq_iff hlink
  unchained id link hlink hchained := by
    obtain rfl := h.holds.eq_empty_of_not_isChained hlink hchained
    refine ⟨rfl, h.holds.erase_of_unchained hlink fun b hid => ?_⟩
    obtain ⟨link', hlink', hchained'⟩ := (h.holds.threaded b).exists_link hid
    rw [← Option.some.inj (hlink.symm.trans hlink'), hchained] at hchained'
    exact absurd hchained' (by decide)

omit [NodeStore σ] [LawfulLinkStore σ ι (ChainLink ι)] [DecidableEq ι] in
theorem describes_empty (hnodes : ∀ id (link : ChainLink ι),
    LinkStore.link? nodes id = some link → link = {}) :
    Describes (Heads.empty count, nodes) count nodes (fun _ => [] : Nat → List ι) where
  total := Array.size_replicate
  holds := holds_empty nodes count hnodes
  rewired := .refl

end Heads

/-! ## Steps by hashes -/

namespace Buckets

/-- What is done to the buckets. -/
inductive Step (ι : Type)
  /-- A node is put in front of the chain that its hash belongs to. -/
  | insert (id : ι) (hash : UInt64)
  /-- A node is taken off the chain that it is on, if any. -/
  | erase (id : ι)
  deriving DecidableEq

def step (s : Buckets ι × σ) : Step ι → Except Fault (Buckets ι × σ)
  | .insert id hash => s.1.insert s.2 id hash
  | .erase id => s.1.erase s.2 id

/-- The step on the heads of 2^`bits` buckets: the last `bits` bits of the hash are the number of the
bucket. -/
def Step.onHeads (bits : UInt32) : Step ι → Heads.Step ι
  | .insert id hash => .push (hash.toNat % 2 ^ bits.toNat) id
  | .erase id => .erase id

theorem step_eq {s : Buckets ι × σ} (hcount : s.1.count = 2 ^ s.1.bits.toNat) (a : Step ι) :
    step s a = (do
      let (heads, nodes) ← Heads.step (s.1.heads, s.2) (a.onHeads s.1.bits)
      pure (⟨heads, s.1.bits⟩, nodes)) := by
  cases a with
  | insert id hash => rw [step, insert, bucketOf_eq hcount]; rfl
  | erase id => rfl

variable [DecidableEq ι]

/-- What may be done to the chains of 2^`bits` buckets. -/
def rules (bits : UInt32) (nodes : σ) : Rules (Nat → List ι) (Step ι) :=
  (Heads.rules (2 ^ bits.toNat) nodes).comap (Step.onHeads bits)

/-- There are 2^`bits` buckets, and they describe the family of chains. -/
structure Describes (s : Buckets ι × σ) (bits : UInt32) (nodes : σ) (chains : Nat → List ι) :
    Prop where
  width : s.1.bits = bits
  heads : Heads.Describes (s.1.heads, s.2) (2 ^ bits.toNat) nodes chains

variable [NodeStore σ] [LawfulLinkStore σ ι (ChainLink ι)] {s : Buckets ι × σ} {bits : UInt32}
  {nodes : σ} {chains : Nat → List ι}

theorem Describes.exists_step {a : Step ι} (h : Describes s bits nodes chains)
    (hallows : (rules bits nodes).allows chains a) :
    ∃ s', step s a = .ok s' ∧ Describes s' bits nodes ((rules bits nodes).next chains a) := by
  obtain ⟨⟨heads, links⟩, hstep, h'⟩ := h.heads.exists_step hallows
  have hcount : s.1.count = 2 ^ s.1.bits.toNat := h.width ▸ h.heads.total
  refine ⟨(⟨heads, s.1.bits⟩, links), ?_, h.width, h'⟩
  rw [step_eq hcount, h.width, hstep]
  rfl

/-- What can be read off the buckets is the family of chains: the candidates for a hash are the chain
of its bucket. -/
structure Presents (s : Buckets ι × σ) (bits : UInt32) (nodes : σ) (chains : Nat → List ι) :
    Prop where
  heads : Heads.Presents (s.1.heads, s.2) (2 ^ bits.toNat) nodes chains
  width : s.1.bits = bits
  candidates : ∀ hash,
    s.1.candidates s.2 hash = .ok (chains (hash.toNat % 2 ^ bits.toNat))

theorem Describes.presents (h : Describes s bits nodes chains) : Presents s bits nodes chains where
  heads := h.heads.presents
  width := h.width
  candidates hash := by
    rw [candidates, bucketOf_eq h.heads.total, ok_bind]
    exact h.heads.presents.chain _ (Nat.mod_lt _ (Nat.two_pow_pos _))

omit [NodeStore σ] [LawfulLinkStore σ ι (ChainLink ι)] [DecidableEq ι] in
theorem describes_empty (hnodes : ∀ id (link : ChainLink ι),
    LinkStore.link? nodes id = some link → link = {}) :
    Describes (⟨Heads.empty (2 ^ bits.toNat), bits⟩, nodes) bits nodes
      (fun _ => [] : Nat → List ι) where
  width := rfl
  heads := Heads.describes_empty hnodes

end Buckets

/-- Steps that keep to the rules change a family of chains, all empty at first, one chain at a time,
and heads and links show this family. So a node that has been taken off can be put in any bucket
again. All this is so for any number of heads, and for the buckets of a hash table with any hashes. -/
theorem chains_refine_sequences {nodes : σ} [DecidableEq ι] [NodeStore σ]
    [LawfulLinkStore σ ι (ChainLink ι)]
    (hnodes : ∀ id (link : ChainLink ι), LinkStore.link? nodes id = some link → link = {}) :
    (∀ count, (Heads.rules count nodes).Follows Heads.step (fun s => Heads.Presents s count nodes)
      (Heads.empty count, nodes) (fun _ => [] : Nat → List ι)) ∧
    ∀ {τ : Type} (headSize : Nat) (bits : UInt32) (gate : Gate τ) (heap : Heap) (env env' : τ)
      (buckets : Buckets ι), Buckets.create headSize bits gate heap env = (.ok buckets, env') →
      (Buckets.rules bits nodes).Follows Buckets.step (fun s => Buckets.Presents s bits nodes)
        (buckets, nodes) fun _ => [] := by
  constructor
  · intro count
    exact Rules.follows_of_step
      (fun s chains a (h : Heads.Describes s count nodes chains) => h.exists_step)
      (fun _ _ h => h.presents) (Heads.describes_empty hnodes)
  · intro τ headSize bits gate heap env env' buckets hcreate
    obtain rfl := Buckets.eq_of_create hcreate
    exact Rules.follows_of_step
      (fun s chains a (h : Buckets.Describes s bits nodes chains) => h.exists_step)
      (fun _ _ h => h.presents) (Buckets.describes_empty hnodes)

/-- Two buckets over three nodes, one of which is moved from one chain to the other. -/
theorem chains_refine_sequences_moved :
    let nodes : Pool (ChainLink Nat) := #[{}, {}, {}]
    let buckets : Buckets Nat := ⟨Heads.empty 2, 1⟩
    (∃ s, [.push 0 0, .push 0 1, .erase 0, .erase 2, .push 1 0].foldlM Heads.step
        (Heads.empty 2, nodes) = .ok s ∧
      s.1.chain s.2 0 = .ok [1] ∧ s.1.chain s.2 1 = .ok [0]) ∧
    Buckets.create Pool.placeSize 1 Gate.always Heap.ofProcess () = (.ok buckets, ()) ∧
    ∃ s, [.insert 0 4, .insert 1 6, .erase 0, .insert 0 7].foldlM Buckets.step
        (buckets, nodes) = .ok s ∧
      s.1.candidates s.2 8 = .ok [1] ∧ s.1.candidates s.2 9 = .ok [0] := by
  intro nodes buckets
  have hnodes : ∀ id (link : ChainLink Nat), LinkStore.link? nodes id = some link → link = {} := by
    intro id link hlink
    match id with
    | 0 | 1 | 2 => exact (Option.some.inj hlink).symm
  have hcreate : Buckets.create Pool.placeSize 1 Gate.always Heap.ofProcess () =
      (.ok buckets, ()) := rfl
  obtain ⟨hheads, hbuckets⟩ := chains_refine_sequences hnodes
  refine ⟨?_, hcreate, ?_⟩
  · have hsteps : (Heads.rules 2 nodes).AllowsAll (fun _ => [])
        [.push 0 0, .push 0 1, .erase 0, .erase 2, .push 1 0] := by
      refine .cons ⟨by decide, rfl, ?_⟩ (.cons ⟨by decide, rfl, ?_⟩ (.cons rfl (.cons rfl
        (.cons ⟨by decide, rfl, ?_⟩ (.nil _)))))
      all_goals simp [Heads.rules, Function.update_apply]
      intro b
      split <;> decide
    obtain ⟨s, hrun, hpresents⟩ := hheads 2 _ hsteps
    exact ⟨s, hrun, hpresents.chain 0 (by decide), hpresents.chain 1 (by decide)⟩
  · have hsteps : (Buckets.rules 1 nodes).AllowsAll (fun _ => [])
        [.insert 0 4, .insert 1 6, .erase 0, .insert 0 7] := by
      refine .cons ⟨by decide, rfl, ?_⟩ (.cons ⟨by decide, rfl, ?_⟩ (.cons rfl
        (.cons ⟨by decide, rfl, ?_⟩ (.nil _))))
      all_goals simp [Buckets.rules, Rules.comap, Buckets.Step.onHeads, Heads.rules,
        Function.update_apply]
      intro b
      split <;> decide
    obtain ⟨s, hrun, hpresents⟩ := hbuckets _ _ _ _ _ _ _ hcreate _ hsteps
    exact ⟨s, hrun, hpresents.candidates 8, hpresents.candidates 9⟩

end OrderedTable
