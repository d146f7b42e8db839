import Mathlib.Data.List.FinRange
import OrderedTable.Links.Pooled
import OrderedTable.Proofs.Links.Sharing
import OrderedTable.Proofs.Links.Threading

/-!
# Chains and lists through one pool

`PooledChains`, `PooledBuckets` and `PooledLists` take the steps of `Heads`, `Buckets` and
`SharedLists`, over a pool of nodes that are on no chain and on no list at first: see
`PooledChains.step_eq`, `PooledBuckets.step_eq` and `PooledLists.step_ofShared`. So they can take the
steps that the rules of these allow, and what they show then is the family of sequences that the
steps lead to: `PooledChains.follows`, `PooledBuckets.follows` and `PooledLists.follows`.

Buckets can also be emptied all at once, which leads to the family of empty chains
(`PooledBuckets.Describes.exists_clear`).
-/

namespace OrderedTable

/-! ## Pools -/

namespace Pool

theorem link?_unchained {nodes id : Nat} {link : ChainLink Nat} :
    LinkStore.link? (unchained nodes) id = some link ↔ id < nodes ∧ link = {} := by
  simp only [LinkStore.link?, unchained, Array.getElem?_replicate]
  by_cases hid : id < nodes
  · simp [hid, eq_comm]
  · simp [hid]

theorem link?_detached {nodes id : Nat} {link : CircularLink Nat} :
    LinkStore.link? (detached nodes) id = some link ↔ id < nodes ∧ link = .detached id := by
  simp only [LinkStore.link?, detached, Array.getElem?_ofFn]
  by_cases hid : id < nodes
  · simp [hid, eq_comm]
  · simp [hid]

end Pool

/-! ## Chains -/

namespace PooledChains

def step (p : PooledChains) : Heads.Step Nat → Except Fault PooledChains
  | .push bucket id => p.push bucket id
  | .erase id => p.erase id

theorem step_eq (p : PooledChains) (a : Heads.Step Nat) : step p a = (do
    let (heads, pool) ← Heads.step (p.heads, p.pool) a
    pure { heads, pool }) := by
  cases a <;> rfl

/-- There are so many chains over so many nodes, and they are the family. -/
def Describes (p : PooledChains) (count nodes : Nat) (family : Nat → List Nat) : Prop :=
  Heads.Describes (p.heads, p.pool) count (Pool.unchained nodes) family

/-- All that the chains show is the family of sequences. -/
structure Shows (p : PooledChains) (count nodes : Nat) (family : Nat → List Nat) : Prop where
  chains : p.chains = .ok ((List.range count).map family)
  first : ∀ b < count, p.first? b = .ok (family b).head?
  isEmptyAt : ∀ b < count, p.isEmptyAt b = .ok (family b).isEmpty
  chained : ∀ b xs id ys, family b = xs ++ id :: ys →
    p.isChained id = .ok true ∧ p.next? id = .ok ys.head?
  unchained : ∀ id < nodes, (∀ b, id ∉ family b) →
    p.isChained id = .ok false ∧ p.next? id = .ok none

variable {p : PooledChains} {count nodes : Nat} {family : Nat → List Nat}

theorem Describes.exists_step {a : Heads.Step Nat} (h : p.Describes count nodes family)
    (hallows : (Heads.rules count (Pool.unchained nodes)).allows family a) :
    ∃ p', step p a = .ok p' ∧
      p'.Describes count nodes ((Heads.rules count (Pool.unchained nodes)).next family a) := by
  obtain ⟨⟨heads, pool⟩, hstep, h'⟩ := Heads.Describes.exists_step h hallows
  refine ⟨⟨heads, pool⟩, ?_, h'⟩
  rw [step_eq, hstep]
  rfl

theorem Describes.shows (h : p.Describes count nodes family) : p.Shows count nodes family where
  chains := by
    rw [chains, h.total]
    apply mapM_eq_ok
    intro b hb
    exact h.presents.chain b (List.mem_range.1 hb)
  first := h.presents.first
  isEmptyAt := h.presents.isEmptyAt
  chained b xs id ys hxs := by
    have hthreaded := h.holds.threaded b
    rw [hxs] at hthreaded
    obtain ⟨-, hfrom⟩ := Chain.threaded_append.1 hthreaded
    refine ⟨?_, hfrom.next?_eq⟩
    rw [isChained, follow_eq_ok hfrom.1]
    rfl
  unchained id hid hfamily := by
    have hlive := Option.isSome_of_mem (Pool.link?_unchained.2 ⟨hid, rfl⟩)
    obtain ⟨link, hlink⟩ := h.rewired.exists_link hlive
    obtain rfl := h.holds.unchained id link hfamily hlink
    rw [isChained, next?, Chain.next?, follow_eq_ok hlink]
    exact ⟨rfl, rfl⟩

/-- From chains without nodes on, all steps that the rules allow can be taken, and what is shown
afterwards is where the rules lead. -/
theorem follows (count nodes : Nat) : (Heads.rules count (Pool.unchained nodes)).Follows step
    (fun p => p.Shows count nodes) (ofSizes count nodes) fun _ => [] := by
  have hempty : (ofSizes count nodes).Describes count nodes fun _ => [] :=
    Heads.describes_empty fun _ _ hlink => (Pool.link?_unchained.1 hlink).2
  exact Rules.follows_of_step
    (fun (p : PooledChains) family a (h : p.Describes count nodes family) => h.exists_step)
    (fun _ _ h => h.shows) hempty

end PooledChains

/-! ## Buckets -/

namespace PooledBuckets

/-- What is done to the buckets. -/
inductive Step
  /-- A step that concerns one node. -/
  | node (a : Buckets.Step Nat)
  /-- All buckets are emptied. -/
  | clear
  deriving DecidableEq

def step (p : PooledBuckets) : Step → Except Fault PooledBuckets
  | .node (.insert id hash) => p.insert id hash
  | .node (.erase id) => p.erase id
  | .clear => do
    let (_, p) ← p.clear
    pure p

theorem step_eq (p : PooledBuckets) (a : Buckets.Step Nat) : step p (.node a) = (do
    let (buckets, pool) ← Buckets.step (p.buckets, p.pool) a
    pure { buckets, pool }) := by
  cases a <;> rfl

/-- The buckets may be emptied at any time. -/
def rules (bits : UInt32) (nodes : Nat) : Rules (Nat → List Nat) Step where
  allows family
    | .node a => (Buckets.rules bits (Pool.unchained nodes)).allows family a
    | .clear => True
  next family
    | .node a => (Buckets.rules bits (Pool.unchained nodes)).next family a
    | .clear => fun _ => []

/-- There are 2^`bits` buckets over so many nodes, and their chains are the family. -/
def Describes (p : PooledBuckets) (bits : UInt32) (nodes : Nat) (family : Nat → List Nat) : Prop :=
  Buckets.Describes (p.buckets, p.pool) bits (Pool.unchained nodes) family

/-- All that the buckets show is the family of sequences. -/
structure Shows (p : PooledBuckets) (bits : UInt32) (family : Nat → List Nat) : Prop where
  bucketOf : ∀ hash, p.buckets.bucketOf hash = .ok (hash.toNat % 2 ^ bits.toNat)
  candidates : ∀ hash, p.candidates hash = .ok (family (hash.toNat % 2 ^ bits.toNat))
  isEmptyAt : ∀ b < 2 ^ bits.toNat, p.buckets.isEmptyAt b = .ok (family b).isEmpty
  chains : p.chains = .ok (((List.range (2 ^ bits.toNat)).map fun b => (b, family b)).filter
    fun (_, chain) => !chain.isEmpty)
  /-- Emptying them would list the chains one after the other. -/
  clear : ∃ p', p.clear = .ok ((List.range (2 ^ bits.toNat)).flatMap family, p')

variable {p : PooledBuckets} {bits : UInt32} {nodes b : Nat} {family : Nat → List Nat}

/-! ### Emptying all buckets -/

namespace Describes

theorem count (h : p.Describes bits nodes family) : p.buckets.count = 2 ^ bits.toNat :=
  h.heads.total

/-- The walk down a chain takes off its first node. -/
theorem exists_clearStep (noted : List Nat) (h : p.Describes bits nodes family) {id : Nat}
    {rest : List Nat} (hfamily : family b = id :: rest) :
    ∃ p' : PooledBuckets, Buckets.clearStep note (p.buckets, p.pool, noted) id =
        .ok (rest.head?, p'.buckets, p'.pool, noted ++ [id]) ∧
      p'.Describes bits nodes (Function.update family b rest) := by
  have hthreaded := h.heads.holds.threaded b
  rw [hfamily] at hthreaded
  have hlive : (LinkStore.link? (Pool.unchained nodes) id : Option (ChainLink Nat)).isSome := by
    rw [← h.heads.rewired.isSome_link? id, hthreaded.1]
    rfl
  obtain ⟨⟨buckets, pool⟩, hstep, h'⟩ := Buckets.Describes.exists_step (a := .erase id) h hlive
  have hnext : Chain.next? p.pool id = .ok rest.head? := hthreaded.next?_eq
  have herase : p.buckets.erase p.pool id = .ok (buckets, pool) := hstep
  refine ⟨⟨buckets, pool⟩, ?_, ?_⟩
  · simp only [Buckets.clearStep, hnext, herase, ok_bind, note, pure_eq_ok]
  · have hfamily' : (fun c => (family c).erase id) = Function.update family b rest := by
      funext c
      rcases eq_or_ne c b with rfl | hc
      · rw [Function.update_self, hfamily, List.erase_cons_head]
      · rw [Function.update_of_ne hc]
        apply List.erase_of_not_mem
        intro hid
        exact hc (h.heads.holds.apart c b id hid (hfamily ▸ List.mem_cons_self))
    rw [← hfamily']
    exact h'

/-- The walk down a chain goes on to its end. -/
theorem exists_visits_clear (noted : List Nat) (h : p.Describes bits nodes family) {ids : List Nat}
    (hfamily : family b = ids) :
    ∃ p' : PooledBuckets, Visits (Buckets.clearStep note) ids.head? (p.buckets, p.pool, noted) ids
        (p'.buckets, p'.pool, noted ++ ids) ∧
      p'.Describes bits nodes (Function.update family b []) := by
  -- The family shrinks with the chain, so it always says what is left of it.
  induction ids generalizing p family noted with
  | nil =>
    rw [← hfamily, Function.update_eq_self, hfamily, List.append_nil]
    exact ⟨p, .done _, h⟩
  | cons id rest ih =>
    obtain ⟨p₁, hstep, h₁⟩ := h.exists_clearStep noted hfamily
    obtain ⟨p', hvisits, h'⟩ := ih (noted ++ [id]) h₁ (Function.update_self ..)
    rw [Function.update_idem] at h'
    rw [List.append_assoc] at hvisits
    exact ⟨p', .take hstep hvisits, h'⟩

/-- The listed buckets are emptied, one after the other. -/
theorem exists_clearEach (noted : List Nat) (h : p.Describes bits nodes family) {bs : List Nat}
    (hnd : bs.Nodup) (hbs : ∀ b ∈ bs, b < 2 ^ bits.toNat) :
    ∃ p' : PooledBuckets, Buckets.clearEach note bs p.buckets p.pool noted =
        .ok (p'.buckets, p'.pool, noted ++ bs.flatMap family) ∧
      p'.Describes bits nodes fun b => if b ∈ bs then [] else family b := by
  induction bs generalizing p family noted with
  | nil =>
    refine ⟨p, ?_, by simpa using h⟩
    rw [List.flatMap_nil, List.append_nil]
    rfl
  | cons b bs ih =>
    obtain ⟨hb, hnd⟩ := List.nodup_cons.1 hnd
    have hlt : b < p.buckets.heads.count :=
      Nat.lt_of_lt_of_eq (hbs b List.mem_cons_self) h.count.symm
    obtain ⟨p₁, hvisits, h₁⟩ := h.exists_visits_clear noted rfl
    have hfrom := hvisits.run_eq (Buckets.isBoundedBy_clearFrom note)
      (h.heads.holds.length_le_capacity b)
    obtain ⟨p', heach, h'⟩ := ih (noted ++ family b) h₁ hnd fun c hc =>
      hbs c (List.mem_cons_of_mem _ hc)
    -- The buckets that are left to empty are as they were.
    have hothers : bs.flatMap (Function.update family b []) = bs.flatMap family := by
      apply List.flatMap_congr
      intro c hc
      exact Function.update_of_ne (ne_of_mem_of_not_mem hc hb) _ _
    refine ⟨p', ?_, ?_⟩
    · rw [Buckets.clearEach, h.heads.holds.first?_eq hlt, ok_bind]
      refine bind_eq_ok_iff.2 ⟨_, hfrom, heach.trans ?_⟩
      rw [hothers, List.flatMap_cons, List.append_assoc]
    · convert h' using 2 with c
      rcases eq_or_ne c b with rfl | hc
      · simp
      · simp [hc]

/-- All buckets are emptied, by ascending number. -/
theorem exists_clear (h : p.Describes bits nodes family) :
    ∃ p', p.clear = .ok ((List.range (2 ^ bits.toNat)).flatMap family, p') ∧
      p'.Describes bits nodes fun _ => [] := by
  obtain ⟨p', heach, h'⟩ := h.exists_clearEach [] List.nodup_range fun b hb => List.mem_range.1 hb
  refine ⟨p', ?_, ?_⟩
  · rw [PooledBuckets.clear, Buckets.clear, h.count, heach]
    rfl
  · convert h' using 2 with b
    split
    · rfl
    · next hb => exact (h.heads.presents.beyond b (by simpa using hb)).symm

/-! ### Steps -/

theorem exists_step {a : Step} (h : p.Describes bits nodes family)
    (hallows : (rules bits nodes).allows family a) :
    ∃ p', step p a = .ok p' ∧ p'.Describes bits nodes ((rules bits nodes).next family a) := by
  cases a with
  | node a =>
    obtain ⟨⟨buckets, pool⟩, hstep, h'⟩ := Buckets.Describes.exists_step h hallows
    refine ⟨⟨buckets, pool⟩, ?_, h'⟩
    rw [step_eq, hstep]
    rfl
  | clear =>
    obtain ⟨p', hclear, h'⟩ := h.exists_clear
    refine ⟨p', ?_, h'⟩
    rw [step, hclear]
    rfl

theorem shows (h : p.Describes bits nodes family) : p.Shows bits family where
  bucketOf := Buckets.bucketOf_eq h.count
  candidates := h.presents.candidates
  isEmptyAt := h.heads.presents.isEmptyAt
  chains := by
    have hall : (List.range p.buckets.count).mapM (fun b => do
        let chain ← p.buckets.chain p.pool b
        pure (b, chain)) = .ok ((List.range (2 ^ bits.toNat)).map fun b => (b, family b)) := by
      rw [h.count]
      apply mapM_eq_ok
      intro b hb
      have hchain : p.buckets.chain p.pool b = .ok (family b) :=
        h.heads.presents.chain b (List.mem_range.1 hb)
      rw [hchain]
      rfl
    rw [chains, hall]
    rfl
  clear := by
    obtain ⟨p', hclear, -⟩ := h.exists_clear
    exact ⟨p', hclear⟩

end Describes

/-- Buckets that have just been made can take all steps that the rules allow, emptying them
included, and show where the rules lead. -/
theorem follows {σ : Type} {gate : Gate σ} {heap : Heap} {env env' : σ}
    (hcreate : create bits nodes gate heap env = (.ok p, env')) :
    (rules bits nodes).Follows step (fun p => p.Shows bits) p fun _ => [] := by
  have hempty : p.Describes bits nodes fun _ => [] := by
    unfold create at hcreate
    split at hcreate
    · cases hcreate
    next buckets s hbuckets =>
      cases hcreate
      obtain rfl := Buckets.eq_of_create hbuckets
      exact Buckets.describes_empty fun _ _ hlink => (Pool.link?_unchained.1 hlink).2
  exact Rules.follows_of_step
    (fun (p : PooledBuckets) family a (h : p.Describes bits nodes family) => h.exists_step)
    (fun _ _ h => h.shows) hempty

/-- The first bucket is emptied before the second, each from its newest node on. -/
example : (do
    let p : PooledBuckets := ⟨⟨Heads.empty 2, 1⟩, Pool.unchained 3⟩
    let steps : List Step := [.node (.insert 0 4), .node (.insert 1 7), .node (.insert 2 6)]
    let p ← steps.foldlM step p
    let (ids, p) ← p.clear
    let chains ← p.chains
    pure (ids, chains)) = .ok ([2, 0, 1], []) := by
  rfl

end PooledBuckets

/-! ## Circular lists -/

namespace PooledLists

variable {n nodes : Nat} {p : PooledLists} {family : Fin n → List Nat}

def step (p : PooledLists) : SharedLists.Step (Fin n) Nat → Except Fault PooledLists
  | .push .front k id => p.pushFront k id
  | .push .back k id => p.pushBack k id
  | .erase k id => p.erase k id

/-- Lists that are named by the numbers below `n`, in one array. -/
def ofShared (s : SharedLists (Fin n) (Pool (CircularLink Nat)) Nat) : PooledLists :=
  { lists := Array.ofFn s.lists, pool := s.nodes }

theorem ofSizes_eq :
    ofSizes n nodes = ofShared (SharedLists.empty (κ := Fin n) (Pool.detached nodes)) := by
  simp only [ofSizes, ofShared, SharedLists.empty]
  congr 1
  ext <;> simp

section
variable (s : SharedLists (Fin n) (Pool (CircularLink Nat)) Nat)

@[simp] theorem listAt_ofShared (k : Fin n) : (ofShared s).listAt k = .ok (s.lists k) := by
  simp [listAt, ofShared]

/-- To write one list to the array is to update the family. -/
theorem setIfInBounds_ofShared (k : Fin n) (list : CircularList Nat) :
    (ofShared s).lists.setIfInBounds k list = Array.ofFn (Function.update s.lists k list) := by
  refine Array.ext (by simp [ofShared]) fun i hi hi' => ?_
  rw [Array.getElem_setIfInBounds, Array.getElem_ofFn, Function.update_apply]
  · simp [ofShared, Fin.ext_iff, eq_comm]
  · simpa [ofShared] using hi

theorem step_ofShared (a : SharedLists.Step (Fin n) Nat) : step (ofShared s) a = (do
    let s ← s.step a
    pure (ofShared s)) := by
  cases a with
  | push side k id =>
    cases side with
    | front =>
      rw [step, pushFront, listAt_ofShared, ok_bind, SharedLists.step, bind_assoc]
      simp only [setIfInBounds_ofShared]
      rfl
    | back =>
      rw [step, pushBack, listAt_ofShared, ok_bind, SharedLists.step, bind_assoc]
      simp only [setIfInBounds_ofShared]
      rfl
  | erase k id =>
    rw [step, erase, listAt_ofShared, ok_bind, SharedLists.step, bind_assoc]
    simp only [setIfInBounds_ofShared]
    rfl

end

/-- There are `n` lists over so many nodes, and they are the family. -/
def Describes (p : PooledLists) (nodes : Nat) (family : Fin n → List Nat) : Prop :=
  ∃ s : SharedLists (Fin n) (Pool (CircularLink Nat)) Nat, p = ofShared s ∧ s.Holds family ∧
    Rewired (CircularLink Nat) (Pool.detached nodes) s.nodes

/-- All that the lists show is the family of sequences. -/
structure Shows (p : PooledLists) (nodes : Nat) (family : Fin n → List Nat) : Prop where
  sequences : p.sequences = .ok (List.ofFn family)
  isEmpty : ∀ k : Fin n, p.isEmpty k = .ok (family k).isEmpty
  first : ∀ k : Fin n, p.first? k = .ok (family k).head?
  last : ∀ k : Fin n, p.last? k = .ok (family k).getLast?
  next : ∀ (k : Fin n) xs id ys, family k = xs ++ id :: ys → p.next? k id = .ok ys.head?
  iterate : ∀ (k : Fin n) sides, p.iterate k sides = .ok (readEnds (family k) sides)
  /-- A node on no list can be told by its link. -/
  detached : ∀ id < nodes, (∀ k, id ∉ family k) → p.pool[id]? = some (.detached id)

theorem Describes.exists_step {a : SharedLists.Step (Fin n) Nat} (h : p.Describes nodes family)
    (hallows : (SharedLists.rules (Pool.detached nodes)).allows family a) :
    ∃ p', step p a = .ok p' ∧
      p'.Describes nodes ((SharedLists.rules (Pool.detached nodes)).next family a) := by
  obtain ⟨s, rfl, hholds, hrew⟩ := h
  obtain ⟨s', hstep, h', -⟩ := hholds.exists_step hrew hallows
  refine ⟨ofShared s', ?_, s', rfl, h'⟩
  rw [step_ofShared, hstep]
  rfl

theorem Describes.shows (h : p.Describes nodes family) : p.Shows nodes family := by
  obtain ⟨s, rfl, hholds, hrew⟩ := h
  have hpresents := hholds.presents hrew
  constructor
  case sequences =>
    have hlists : (ofShared s).lists.toList = (List.finRange n).map s.lists := by
      rw [ofShared, Array.toList_ofFn, List.ofFn_eq_map]
    rw [sequences, hlists, List.mapM_map, List.ofFn_eq_map]
    exact mapM_eq_ok fun k _ => (hholds.list k).walk_eq
  case isEmpty =>
    intro k
    rw [isEmpty, listAt_ofShared, ok_bind, (hholds.list k).isEmpty_eq]
    rfl
  case first =>
    intro k
    rw [first?, listAt_ofShared, ok_bind, hpresents.first k]
    rfl
  case last =>
    intro k
    rw [last?, listAt_ofShared, ok_bind]
    exact hpresents.last k
  case next =>
    intro k xs id ys hxs
    have hlist := hholds.list k
    rw [hxs] at hlist
    rw [next?, listAt_ofShared, ok_bind]
    exact hlist.next?_eq
  case iterate =>
    intro k sides
    rw [iterate, listAt_ofShared, ok_bind]
    exact hpresents.cursor k sides
  case detached =>
    intro id hid hfamily
    apply hpresents.detached id _ hfamily
    exact Option.isSome_of_mem (Pool.link?_detached.2 ⟨hid, rfl⟩)

/-- From lists without nodes on, all steps that the rules allow can be taken, and what is shown
afterwards is where the rules lead. -/
theorem follows (n nodes : Nat) : (SharedLists.rules (Pool.detached nodes)).Follows step
    (fun p (family : Fin n → List Nat) => p.Shows nodes family) (ofSizes n nodes) fun _ => [] := by
  have hempty : (ofSizes n nodes).Describes nodes fun _ : Fin n => [] :=
    ⟨_, ofSizes_eq, SharedLists.holds_empty fun _ _ hlink => (Pool.link?_detached.1 hlink).2, .refl⟩
  exact Rules.follows_of_step
    (fun (p : PooledLists) family a (h : p.Describes nodes family) => h.exists_step)
    (fun _ _ h => h.shows) hempty

end PooledLists

end OrderedTable
